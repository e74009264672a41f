/-
`rust_imap.rs`, `parse_headers`: the loop over the lines of a header block, with the header being read
pending until the next one, a blank line or the end. Read from a block of fields, the pending header
after each field is that field with its own lines, so each comes out once, under its own name, unless
it is From or Subject.
-/
import Thundercrab.Lib.Text
import Thundercrab.Imap.Response

namespace Thundercrab

open Lib Sieve

namespace Imap

/-- A name in lower case and a value. -/
abbrev Header := String × String

/-- The two variables of the loop. -/
structure HeaderState where
  acc : List Header
  current : Option Header

def pushIfRelevant (acc : List Header) (name value : String) : List Header :=
  if name = "from" ∨ name = "subject" then acc else acc ++ [(name, value)]

/-- `current.take()`, and `push_if_relevant` of what was there. -/
def HeaderState.flush (st : HeaderState) : HeaderState :=
  match st.current with
  | some (name, value) => ⟨pushIfRelevant st.acc name value, none⟩
  | none => st

/-- `str::split_once` -/
def splitOnce (c : Char) : List Char → Option (List Char × List Char)
  | [] => none
  | x :: xs =>
    if x = c then some ([], xs)
    else
      match splitOnce c xs with
      | some (before, after) => some (x :: before, after)
      | none => none

/-- `trim_end_matches('\r')` -/
def trimEndCr (line : List Char) : List Char := line.rdropWhile (· = '\r')

/-- What a line that is not blank does. -/
def headerTurn (line : List Char) (st : HeaderState) : HeaderState :=
  if line.head? = some ' ' ∨ line.head? = some '\t' then
    match st.current with
    | some (name, value) =>
      { st with current := some (name, value ++ " " ++ String.ofList (line.dropWhile isWhitespace)) }
    | none => st
  else
    match splitOnce ':' line with
    | some (name, value) => { st.flush with current := some (asciiLower (trim name), trim value) }
    | none => st.flush

/-- The loop over the lines. A blank line ends the header block. -/
def headerLoop : List (List Char) → HeaderState → HeaderState
  | [], st => st
  | line :: lines, st => if line = [] then st.flush else headerLoop lines (headerTurn line st)

/-- `text.split('\n')`, each line without the carriage returns at its end. -/
def headerLines (text : List Char) : List (List Char) := (text.splitOn '\n').map trimEndCr

/-- Parse a raw header block into pairs of a lower-cased name and a value. -/
def parseHeaders (raw : Bytes) : List Header :=
  (headerLoop (headerLines (fromUtf8Lossy raw)) ⟨[], none⟩).flush.acc

/-! ## Header blocks -/

/-- A header field: its name, what stands after the colon, and its continuation lines. -/
structure HeaderField where
  name : String
  first : Bytes
  more : List Bytes

/-- The octets are of one line. -/
def OneLine (b : Bytes) : Prop := 13 ∉ b ∧ 10 ∉ b

/-- The name has neither colon nor whitespace, and each continuation line begins with a blank. -/
structure HeaderField.Valid (f : HeaderField) : Prop where
  name_ne : f.name ≠ ""
  name : ∀ c ∈ f.name.toList, c ≠ ':' ∧ isWhitespace c = false
  first : OneLine f.first
  more : ∀ line ∈ f.more, OneLine line ∧ ∃ rest, line = 32 :: rest ∨ line = 9 :: rest

def HeaderField.lines (f : HeaderField) : List Bytes := (utf8 f.name ++ 58 :: f.first) :: f.more

/-- The field's own lines joined by single spaces. -/
def HeaderField.value (f : HeaderField) : String :=
  f.more.foldl (fun value line => value ++ " " ++ String.ofList ((fromUtf8Lossy line).dropWhile isWhitespace))
    (trim (fromUtf8Lossy f.first))

def HeaderField.header (f : HeaderField) : Header := (asciiLower f.name, f.value)

/-- Neither From nor Subject. -/
def Relevant (name : String) : Prop := name ≠ "from" ∧ name ≠ "subject"

instance (name : String) : Decidable (Relevant name) := inferInstanceAs (Decidable (_ ∧ _))

/-- What comes after the last line of a block. -/
inductive Ending where
  /-- Nothing, not even a line end. -/
  | cut
  /-- A line end. -/
  | ended
  /-- A line end, a blank line, and whatever follows. -/
  | blank (rest : Bytes)

/-- CRLF or LF. -/
def lineEnd (crlf : Bool) : Bytes := if crlf then [13, 10] else [10]

/-- The block that has these lines. -/
def renderLines (crlf : Bool) (lines : List Bytes) : Ending → Bytes
  | .cut => (lineEnd crlf).intercalate lines
  | .ended => lines.flatMap fun line => line ++ lineEnd crlf
  | .blank rest => (lines.flatMap fun line => line ++ lineEnd crlf) ++ (lineEnd crlf ++ rest)

def render (crlf : Bool) (fields : List HeaderField) (ending : Ending) : Bytes :=
  renderLines crlf (fields.flatMap HeaderField.lines) ending

/-! ## Lines -/

theorem OneLine.chars {b : Bytes} (h : OneLine b) : '\r' ∉ fromUtf8Lossy b ∧ '\n' ∉ fromUtf8Lossy b :=
  ⟨fun hr => h.1 (mem_of_mem_fromUtf8Lossy (by decide) b hr), fun hn => h.2 (mem_of_mem_fromUtf8Lossy (by decide) b hn)⟩

theorem trimEndCr_self {line : List Char} (h : '\r' ∉ line) : trimEndCr line = line := by
  refine List.rdropWhile_eq_self_iff.2 fun hl hlast => h ?_
  rw [← of_decide_eq_true hlast]
  exact List.getLast_mem hl

/-- A line with its end is the first line. -/
theorem headerLines_append {line : List Char} (h : '\r' ∉ line ∧ '\n' ∉ line) (crlf : Bool) (text : List Char) :
    headerLines (line ++ (if crlf then ['\r', '\n'] else ['\n']) ++ text) = line :: headerLines text := by
  have hfirst : trimEndCr (line ++ ['\r']) = line := by
    unfold trimEndCr
    rw [List.rdropWhile_concat_pos _ _ _ (by decide)]
    exact trimEndCr_self h.1
  unfold headerLines
  cases crlf with
  | true =>
    have hsplit : line ++ ['\r', '\n'] ++ text = (line ++ ['\r']) ++ '\n' :: text := by simp
    have hno : '\n' ∉ line ++ ['\r'] := by simp [h.2]
    rw [if_pos rfl, hsplit, List.splitOn_append_cons_self, List.splitOn_eq_singleton hno, List.map_append,
      List.map_singleton, hfirst, List.singleton_append]
  | false =>
    have hsplit : line ++ ['\n'] ++ text = line ++ '\n' :: text := by simp
    rw [if_neg Bool.false_ne_true, hsplit, List.splitOn_append_cons_self, List.splitOn_eq_singleton h.2,
      List.map_append, List.map_singleton, trimEndCr_self h.1, List.singleton_append]

theorem headerLines_self {line : List Char} (h : '\r' ∉ line ∧ '\n' ∉ line) : headerLines line = [line] := by
  unfold headerLines
  rw [List.splitOn_eq_singleton h.2, List.map_singleton, trimEndCr_self h.1]

/-- The lines the loop sees of some octets. -/
def lineTexts (b : Bytes) : List (List Char) := headerLines (fromUtf8Lossy b)

theorem fromUtf8Lossy_lineEnd (crlf : Bool) (b rest : Bytes) : fromUtf8Lossy (b ++ (lineEnd crlf ++ rest)) =
    fromUtf8Lossy b ++ (if crlf then ['\r', '\n'] else ['\n']) ++ fromUtf8Lossy rest := by
  have hlf : ∀ r, fromUtf8Lossy (10 :: r) = '\n' :: fromUtf8Lossy r := fromUtf8Lossy_ascii (c := '\n') (by decide)
  have hcr : ∀ r, fromUtf8Lossy (13 :: r) = '\r' :: fromUtf8Lossy r := fromUtf8Lossy_ascii (c := '\r') (by decide)
  unfold lineEnd
  cases crlf with
  | true =>
    rw [if_pos rfl, if_pos rfl, List.cons_append, fromUtf8Lossy_append_ascii (by decide), hcr, List.cons_append, hlf]
    simp
  | false =>
    rw [if_neg Bool.false_ne_true, if_neg Bool.false_ne_true, List.cons_append,
      fromUtf8Lossy_append_ascii (by decide), hlf]
    simp

theorem lineTexts_append {line : Bytes} (h : OneLine line) (crlf : Bool) (rest : Bytes) :
    lineTexts (line ++ (lineEnd crlf ++ rest)) = fromUtf8Lossy line :: lineTexts rest := by
  unfold lineTexts
  rw [fromUtf8Lossy_lineEnd, headerLines_append h.chars]

theorem lineTexts_flatMap (crlf : Bool) (rest : Bytes) : ∀ {lines : List Bytes}, (∀ line ∈ lines, OneLine line) →
    lineTexts ((lines.flatMap fun line => line ++ lineEnd crlf) ++ rest) = lines.map fromUtf8Lossy ++ lineTexts rest
  | [], _ => rfl
  | line :: lines, h => by
    obtain ⟨hline, hlines⟩ := List.forall_mem_cons.1 h
    rw [List.flatMap_cons, List.append_assoc, List.append_assoc, lineTexts_append hline,
      lineTexts_flatMap crlf rest hlines, List.map_cons, List.cons_append]

theorem lineTexts_intercalate (crlf : Bool) : ∀ {lines : List Bytes}, lines ≠ [] → (∀ line ∈ lines, OneLine line) →
    lineTexts ((lineEnd crlf).intercalate lines) = lines.map fromUtf8Lossy
  | [], h, _ => absurd rfl h
  | [line], _, h => by
    rw [List.intercalate_singleton, List.map_singleton]
    exact headerLines_self (h line (List.mem_singleton_self _)).chars
  | line :: line' :: lines, _, h => by
    obtain ⟨hline, hlines⟩ := List.forall_mem_cons.1 h
    rw [List.intercalate_cons_cons, List.append_assoc, lineTexts_append hline,
      lineTexts_intercalate crlf (List.cons_ne_nil _ _) hlines]
    rfl

/-- After the lines of a block the loop sees nothing more or a blank line. -/
theorem lineTexts_renderLines (crlf : Bool) {lines : List Bytes} (h : ∀ line ∈ lines, OneLine line)
    (ending : Ending) : ∃ rest, lineTexts (renderLines crlf lines ending) = lines.map fromUtf8Lossy ++ rest ∧
      (rest = [] ∨ ∃ after, rest = [] :: after) := by
  have hnil : lineTexts [] = [[]] := by
    unfold lineTexts
    rw [fromUtf8Lossy_nil]
    rfl
  cases ending with
  | cut =>
    by_cases hl : lines = []
    · subst hl
      exact ⟨[[]], hnil, .inr ⟨[], rfl⟩⟩
    · exact ⟨[], by rw [List.append_nil]; exact lineTexts_intercalate crlf hl h, .inl rfl⟩
  | ended =>
    refine ⟨[[]], ?_, .inr ⟨[], rfl⟩⟩
    have := lineTexts_flatMap crlf [] h
    rwa [List.append_nil, hnil] at this
  | blank rest =>
    refine ⟨[] :: lineTexts rest, ?_, .inr ⟨_, rfl⟩⟩
    have hempty : OneLine [] := ⟨by simp, by simp⟩
    have hblank := lineTexts_append hempty crlf rest
    rw [List.nil_append, fromUtf8Lossy_nil] at hblank
    exact (lineTexts_flatMap crlf _ h).trans (by rw [hblank])

/-! ## The pending header -/

/-- Text that neither begins nor ends with whitespace. -/
def Trimmed (cs : List Char) : Prop :=
  (∀ c, cs.head? = some c → isWhitespace c = false) ∧ ∀ c, cs.getLast? = some c → isWhitespace c = false

theorem dropWhile_trimmed {cs : List Char} (h : Trimmed cs) : cs.dropWhile isWhitespace = cs := by
  cases cs with
  | nil => rfl
  | cons c cs => rw [List.dropWhile_cons, h.1 c rfl, if_neg Bool.false_ne_true]

theorem trim_trimmed {cs : List Char} (h : Trimmed cs) : trim cs = String.ofList cs := by
  unfold trim
  rw [dropWhile_trimmed h, List.rdropWhile_eq_self_iff.2]
  intro hne
  rw [h.2 _ (List.getLast?_eq_getLast_of_ne_nil hne)]
  exact Bool.false_ne_true

theorem trimmed_of_forall {cs : List Char} (h : ∀ c ∈ cs, isWhitespace c = false) : Trimmed cs :=
  ⟨fun c hc => h c (List.mem_of_mem_head? hc), fun c hc => h c (List.mem_of_getLast? hc)⟩

theorem splitOnce_append {c : Char} : ∀ {before : List Char}, c ∉ before → ∀ after,
    splitOnce c (before ++ c :: after) = some (before, after)
  | [], _, after => if_pos rfl
  | x :: before, h, after => by
    rw [List.mem_cons, not_or] at h
    rw [List.cons_append, splitOnce, if_neg (Ne.symm h.1), splitOnce_append h.2]

theorem flush_flush : ∀ st : HeaderState, st.flush.flush = st.flush
  | ⟨_, some _⟩ => rfl
  | ⟨_, none⟩ => rfl

namespace HeaderField

/-- The lines the loop sees of a field. -/
def texts (f : HeaderField) : List (List Char) := (f.name.toList ++ ':' :: fromUtf8Lossy f.first) :: f.more.map fromUtf8Lossy

theorem texts_eq (f : HeaderField) : f.lines.map fromUtf8Lossy = f.texts := by
  have hfirst : fromUtf8Lossy (utf8 f.name ++ 58 :: f.first) = f.name.toList ++ ':' :: fromUtf8Lossy f.first := by
    have hname := fromUtf8Lossy_utf8_append f.name.toList (58 :: f.first)
    rw [String.ofList_toList] at hname
    rw [hname]
    exact congrArg (f.name.toList ++ ·) (fromUtf8Lossy_ascii (c := ':') (by decide) f.first)
  unfold lines texts
  rw [List.map_cons, hfirst]

variable {f : HeaderField}

/-- No whitespace stands in the name. -/
theorem Valid.not_mem_name (h : f.Valid) {c : Char} (hw : isWhitespace c = true) (hc : c.toNat < 128) :
    UInt8.ofNat c.toNat ∉ utf8 f.name := by
  intro hmem
  rw [← String.ofList_toList (s := f.name)] at hmem
  have := (h.name c (mem_of_mem_utf8 hc hmem)).2
  rw [hw] at this
  cases this

theorem Valid.oneLine (h : f.Valid) : ∀ line ∈ f.lines, OneLine line := by
  have hr : 13 ∉ utf8 f.name := h.not_mem_name (c := '\r') (by decide) (by decide)
  have hn : 10 ∉ utf8 f.name := h.not_mem_name (c := '\n') (by decide) (by decide)
  refine List.forall_mem_cons.2 ⟨⟨?_, ?_⟩, fun line hl => (h.more line hl).1⟩
  · simp [hr, h.first.1]
  · simp [hn, h.first.2]

/-- The first line of a field ends the header before and begins its own. -/
theorem Valid.turn_first (h : f.Valid) (st : HeaderState) :
    headerTurn (f.name.toList ++ ':' :: fromUtf8Lossy f.first) st =
      ⟨st.flush.acc, some (asciiLower f.name, trim (fromUtf8Lossy f.first))⟩ := by
  have hne : f.name.toList ≠ [] := fun he => h.name_ne (String.toList_eq_nil_iff.1 he)
  have hcolon : ':' ∉ f.name.toList := fun hm => (h.name _ hm).1 rfl
  have htrim : trim f.name.toList = f.name := by
    rw [trim_trimmed (trimmed_of_forall fun c hc => (h.name c hc).2), String.ofList_toList]
  have hhead : ¬ ((f.name.toList ++ ':' :: fromUtf8Lossy f.first).head? = some ' ' ∨
      (f.name.toList ++ ':' :: fromUtf8Lossy f.first).head? = some '\t') := by
    rw [List.head?_append_of_ne_nil _ hne]
    have hspace : ∀ c, isWhitespace c = true → f.name.toList.head? ≠ some c := by
      intro c hw hc
      have := (h.name c (List.mem_of_mem_head? hc)).2
      rw [hw] at this
      cases this
    exact fun hor => hor.elim (hspace ' ' (by decide)) (hspace '\t' (by decide))
  unfold headerTurn
  rw [if_neg hhead, splitOnce_append hcolon]
  simp only [htrim]

/-- A continuation line stays with the pending header. -/
theorem turn_more {line : Bytes} (h : ∃ rest, line = 32 :: rest ∨ line = 9 :: rest) (acc : List Header)
    (name value : String) :
    fromUtf8Lossy line ≠ [] ∧ headerTurn (fromUtf8Lossy line) ⟨acc, some (name, value)⟩ =
      ⟨acc, some (name, value ++ " " ++ String.ofList ((fromUtf8Lossy line).dropWhile isWhitespace))⟩ := by
  have hhead : (fromUtf8Lossy line).head? = some ' ' ∨ (fromUtf8Lossy line).head? = some '\t' := by
    obtain ⟨rest, rfl | rfl⟩ := h
    · exact .inl (congrArg List.head? (fromUtf8Lossy_ascii (c := ' ') (by decide) rest))
    · exact .inr (congrArg List.head? (fromUtf8Lossy_ascii (c := '\t') (by decide) rest))
  refine ⟨fun he => ?_, ?_⟩
  · rw [he] at hhead
    rcases hhead with h | h <;> cases h
  · unfold headerTurn
    rw [if_pos hhead]

theorem loop_more (rest : List (List Char)) (acc : List Header) (name : String) : ∀ (more : List Bytes) (value : String),
    (∀ line ∈ more, ∃ rest, line = 32 :: rest ∨ line = 9 :: rest) →
    headerLoop (more.map fromUtf8Lossy ++ rest) ⟨acc, some (name, value)⟩ =
      headerLoop rest ⟨acc, some (name, more.foldl
        (fun value line => value ++ " " ++ String.ofList ((fromUtf8Lossy line).dropWhile isWhitespace)) value)⟩
  | [], _, _ => rfl
  | line :: more, value, h => by
    obtain ⟨hline, hmore⟩ := List.forall_mem_cons.1 h
    obtain ⟨hne, hturn⟩ := turn_more hline acc name value
    rw [List.map_cons, List.cons_append, headerLoop, if_neg hne, hturn, loop_more rest acc name more _ hmore,
      List.foldl_cons]

/-- After the lines of a field the field is pending, and what was pending before is done with. -/
theorem Valid.loop (h : f.Valid) (rest : List (List Char)) (st : HeaderState) :
    headerLoop (f.texts ++ rest) st = headerLoop rest ⟨st.flush.acc, some f.header⟩ := by
  unfold texts
  rw [List.cons_append, headerLoop, if_neg (by simp), h.turn_first,
    loop_more rest st.flush.acc _ f.more _ fun line hl => (h.more line hl).2]
  rfl

end HeaderField

theorem pushIfRelevant_eq (acc : List Header) (name value : String) :
    pushIfRelevant acc name value = acc ++ if Relevant name then [(name, value)] else [] := by
  unfold pushIfRelevant
  by_cases h : name = "from" ∨ name = "subject"
  · have hno : ¬ Relevant name := fun hr => h.elim hr.1 hr.2
    rw [if_pos h, if_neg hno, List.append_nil]
  · have hrelevant : Relevant name := not_or.1 h
    rw [if_neg h, if_pos hrelevant]

/-- The headers of the relevant fields. -/
def relevantHeaders (fields : List HeaderField) : List Header :=
  (fields.filter fun f => Relevant (asciiLower f.name)).map HeaderField.header

/-- After the lines of a block the headers done with, and the pending one if it counts, are those of
its fields. -/
theorem headerLoop_fields (rest : List (List Char)) : ∀ {fields : List HeaderField}, (∀ f ∈ fields, f.Valid) →
    ∀ st : HeaderState, ∃ st' : HeaderState,
      headerLoop (fields.flatMap HeaderField.texts ++ rest) st = headerLoop rest st' ∧
        st'.flush.acc = st.flush.acc ++ relevantHeaders fields
  | [], _, st => ⟨st, rfl, by simp [relevantHeaders]⟩
  | f :: fields, h, st => by
    obtain ⟨hf, hfields⟩ := List.forall_mem_cons.1 h
    obtain ⟨st', hloop, hacc⟩ := headerLoop_fields rest hfields ⟨st.flush.acc, some f.header⟩
    refine ⟨st', ?_, ?_⟩
    · rw [List.flatMap_cons, List.append_assoc, hf.loop, hloop]
    · have hflush : (HeaderState.flush ⟨st.flush.acc, some f.header⟩).acc =
          st.flush.acc ++ if Relevant (asciiLower f.name) then [f.header] else [] :=
        pushIfRelevant_eq st.flush.acc f.header.1 f.header.2
      rw [hacc, hflush, List.append_assoc, relevantHeaders, relevantHeaders, List.filter_cons]
      by_cases hr : Relevant (asciiLower f.name)
      · simp [hr]
      · simp [hr]

/-- The headers parsed from a block are those of its fields. -/
theorem parseHeaders_render_eq (crlf : Bool) {fields : List HeaderField} (h : ∀ f ∈ fields, f.Valid)
    (ending : Ending) : parseHeaders (render crlf fields ending) = relevantHeaders fields := by
  have hlines : ∀ line ∈ fields.flatMap HeaderField.lines, OneLine line := by
    intro line hl
    obtain ⟨f, hf, hl⟩ := List.mem_flatMap.1 hl
    exact (h f hf).oneLine line hl
  obtain ⟨rest, htexts, hrest⟩ := lineTexts_renderLines crlf hlines ending
  simp only [List.map_flatMap, HeaderField.texts_eq] at htexts
  obtain ⟨st, hloop, hacc⟩ := headerLoop_fields rest h ⟨[], none⟩
  have hdone : (headerLoop rest st).flush = st.flush := by
    rcases hrest with rfl | ⟨after, rfl⟩
    · rfl
    · rw [headerLoop, if_pos rfl, flush_flush]
  unfold parseHeaders render
  rw [show headerLines (fromUtf8Lossy _) = _ from htexts, hloop, hdone, hacc]
  rfl

/-- The names parsed from a block, cut off anywhere or followed by anything after a blank line, are the
lower-cased names of its fields in order, without those of From and Subject; each value is made of its
field's own lines; and what follows the blank line makes no difference. -/
theorem parseHeaders_render (crlf : Bool) (fields : List HeaderField) (h : ∀ f ∈ fields, f.Valid) (ending : Ending) :
    (parseHeaders (render crlf fields ending)).map Prod.fst =
      (fields.map fun f => asciiLower f.name).filter (fun name => Relevant name) ∧
    parseHeaders (render crlf fields ending) =
      ((fields.filter fun f => Relevant (asciiLower f.name)).map fun f => (asciiLower f.name, f.value)) ∧
    ∀ rest rest', parseHeaders (render crlf fields (.blank rest)) = parseHeaders (render crlf fields (.blank rest')) := by
  refine ⟨?_, parseHeaders_render_eq crlf h ending, fun rest rest' => ?_⟩
  · rw [parseHeaders_render_eq crlf h ending, relevantHeaders, List.map_map, List.filter_map]
    rfl
  · rw [parseHeaders_render_eq crlf h, parseHeaders_render_eq crlf h]

/-- A From field with a line under it that looks like a header of its own, and a folded List-Id. -/
def sampleFields : List HeaderField :=
  [⟨"From", [32, 97], [[9, 88, 58, 32, 98]]⟩, ⟨"List-Id", [], [[32, 110, 58, 32, 119]]⟩]

theorem sampleFields_valid : ∀ f ∈ sampleFields, f.Valid := by
  intro f hf
  simp only [sampleFields, List.mem_cons, List.not_mem_nil, or_false] at hf
  rcases hf with rfl | rfl
  · refine ⟨by decide, by simp [isWhitespace], ⟨by decide, by decide⟩, fun line hl => ?_⟩
    cases List.mem_singleton.1 hl
    exact ⟨⟨by decide, by decide⟩, _, .inr rfl⟩
  · refine ⟨by decide, by simp [isWhitespace], ⟨by decide, by decide⟩, fun line hl => ?_⟩
    cases List.mem_singleton.1 hl
    exact ⟨⟨by decide, by decide⟩, _, .inl rfl⟩

theorem sampleFields_names :
    (parseHeaders (render true sampleFields (.blank [0xff, 58, 10]))).map Prod.fst = ["list-id"] :=
  (parseHeaders_render true sampleFields sampleFields_valid (.blank [0xff, 58, 10])).1.trans (by decide)

end Imap

end Thundercrab
