/-
What a server sends, by the grammar of RFC 5804, section 4: capability lines and a final line, built
of strings that are quoted or literals. `read_response` reads exactly the response whenever its
octets can be split as the loop splits them, which is so when no quoted text shows a literal
marker, no capability line carries two literals and the final line none.
-/
import Thundercrab.Imap.Marker

namespace Thundercrab

open Lib Lib.BufReader

namespace Sieve

/-! ## The grammar -/

/-- A string: quoted text, or a literal of as many octets as a 32-bit number announces. -/
inductive SieveString where
  | quoted (text : List Char) (clean : ∀ c ∈ text, c ∉ ['\r', '\n', '\x00'])
  | literal (octets : Bytes) (short : octets.length < 4294967296)

/-- Inside quotes a backslash precedes the quote and the backslash. -/
def quotedChars (text : List Char) : List Char :=
  text.flatMap fun c => if c = '"' ∨ c = '\\' then ['\\', c] else [c]

/-- `{n}` -/
def marker (n : Nat) : List Char := '{' :: Nat.toDigits 10 n ++ ['}']

/-- A piece of a line. -/
inductive Piece where
  | raw (cs : List Char)
  | str (s : SieveString)

/-- What of a piece stands in the line that it begins in. -/
def Piece.shown : Piece → List Char
  | .raw cs => cs
  | .str (.quoted text _) => '"' :: quotedChars text ++ ['"']
  | .str (.literal octets _) => marker octets.length

/-- The octets of a text. -/
def chars (cs : List Char) : Bytes := utf8 (String.ofList cs)

def crlf : List Char := ['\r', '\n']

def Piece.enc (p : Piece) : Bytes :=
  match p with
  | .str (.literal octets _) => chars (p.shown ++ crlf) ++ octets
  | _ => chars p.shown

def encLine (ps : List Piece) : Bytes := ps.flatMap Piece.enc ++ chars crlf

/-- A capability: its name, and a value that may follow it. -/
structure Capability where
  name : SieveString
  value : Option SieveString

def Capability.pieces (c : Capability) : List Piece :=
  .str c.name :: match c.value with
    | none => []
    | some v => [.raw [' '], .str v]

/-- A response code, less its parentheses: strings, and atoms, numbers and parentheses. -/
structure RespCode where
  pieces : List Piece
  clean : ∀ cs, .raw cs ∈ pieces → ∀ c ∈ cs, c ∉ ['\r', '\n', '\x00', '"', '\\', '{']

inductive Kind where
  | ok
  | no
  | bye
  deriving DecidableEq

def Kind.word : Kind → List Char
  | .ok => ['O', 'K']
  | .no => ['N', 'O']
  | .bye => ['B', 'Y', 'E']

def Response.kind : Response → Kind
  | .ok => .ok
  | .no _ => .no
  | .bye _ => .bye

/-- The final line. Its word may be spelled in either case. -/
structure Final where
  kind : Kind
  word : List Char
  spelled : word.map Char.toUpper = kind.word
  code : Option RespCode
  text : Option SieveString

def Final.pieces (f : Final) : List Piece :=
  .raw f.word ::
    ((match f.code with
      | none => []
      | some code => .raw [' ', '('] :: code.pieces ++ [.raw [')']]) ++
    match f.text with
      | none => []
      | some t => [.raw [' '], .str t])

structure ServerResponse where
  capabilities : List Capability
  final : Final

def ServerResponse.enc (R : ServerResponse) : Bytes :=
  R.capabilities.flatMap (encLine ·.pieces) ++ encLine R.final.pieces

/-! ## Responses that are read as they are meant -/

def Piece.isLiteral : Piece → Bool
  | .str (.literal _ _) => true
  | _ => false

/-- Nothing in the line looks like the marker of a literal. -/
structure Unmarked (ps : List Piece) : Prop where
  noLiteral : ps.countP Piece.isLiteral = 0
  noMarker : parseLiteralMarker (ps.flatMap Piece.shown) = none

instance (ps : List Piece) : Decidable (Unmarked ps) :=
  decidable_of_iff (ps.countP Piece.isLiteral = 0 ∧ parseLiteralMarker (ps.flatMap Piece.shown) = none)
    ⟨fun h => ⟨h.1, h.2⟩, fun h => ⟨h.1, h.2⟩⟩

/-- A response whose capability lines carry one literal at most, and whose other lines carry none
nor show what looks like the marker of one. -/
structure Plain (R : ServerResponse) : Prop where
  capabilities : ∀ c ∈ R.capabilities, Unmarked c.pieces ∨ c.pieces.countP Piece.isLiteral = 1
  final : Unmarked R.final.pieces
  word : R.final.word = R.final.kind.word

instance (R : ServerResponse) : Decidable (Plain R) :=
  decidable_of_iff ((∀ c ∈ R.capabilities, Unmarked c.pieces ∨ c.pieces.countP Piece.isLiteral = 1) ∧
      Unmarked R.final.pieces ∧ R.final.word = R.final.kind.word)
    ⟨fun h => ⟨h.1, h.2.1, h.2.2⟩, fun h => ⟨h.1, h.2, h.3⟩⟩

/-- Some response of this kind is read from the octets, and none of them is left over. -/
def FramedAs (b : Bytes) (k : Kind) : Prop := ∃ resp, Framed b resp ∧ resp.kind = k

/-! ### Lines of text -/

theorem chars_append (a b : List Char) : chars (a ++ b) = chars a ++ chars b := by
  rw [chars, String.ofList_append, utf8_append]
  rfl

def NoBreak (cs : List Char) : Prop := '\r' ∉ cs ∧ '\n' ∉ cs

theorem NoBreak.append {a b : List Char} (ha : NoBreak a) (hb : NoBreak b) : NoBreak (a ++ b) :=
  ⟨by simp [ha.1, hb.1], by simp [ha.2, hb.2]⟩

theorem isLine_chars {cs : List Char} (h : NoBreak cs) : IsLine (chars (cs ++ crlf)) := by
  refine ⟨chars (cs ++ ['\r']), ?_, ?_⟩
  · rw [show cs ++ crlf = (cs ++ ['\r']) ++ ['\n'] by simp [crlf], chars_append _ ['\n']]
    rfl
  · intro hm
    have := mem_of_mem_utf8 (c := '\n') (by decide) hm
    simp [h.2] at this

theorem trimEndCrLf_chars {cs : List Char} (h : NoBreak cs) :
    trimEndCrLf (String.ofList (cs ++ crlf)).toList = cs := by
  rw [String.toList_ofList, trimEndCrLf,
    show cs ++ crlf = (cs ++ ['\r']) ++ ['\n'] by simp [crlf], List.rdropWhile_concat_pos _ _ _ (by simp),
    List.rdropWhile_concat_pos _ _ _ (by simp), List.rdropWhile_eq_self_iff]
  intro hne
  have hl := List.getLast_mem hne
  simp only [decide_eq_true_eq, not_or]
  exact ⟨fun he => h.1 (he ▸ hl), fun he => h.2 (he ▸ hl)⟩

theorem passed_chars {cs : List Char} (h : NoBreak cs) (hm : parseLiteralMarker cs = none)
    (ht : terminator cs = none) : Passed (chars (cs ++ crlf)) :=
  .line (isLine_chars h) (by rw [trimEndCrLf_chars h, hm]) (by rw [trimEndCrLf_chars h, ht])

theorem passed_literal {cs trailer : List Char} {octets : Bytes} (h : NoBreak cs)
    (hm : parseLiteralMarker cs = some octets.length) (hn : octets.length ≤ isizeMax) (ht : NoBreak trailer) :
    Passed (chars (cs ++ crlf) ++ (octets ++ chars (trailer ++ crlf))) :=
  .literal (isLine_chars h) (by rw [trimEndCrLf_chars h, hm]) hn (isLine_chars ht)

theorem ends_chars {cs : List Char} {resp : Response} (h : NoBreak cs) (hm : parseLiteralMarker cs = none)
    (ht : terminator cs = some resp) : Ends (chars (cs ++ crlf)) resp :=
  ⟨⟨_, rfl, by rw [trimEndCrLf_chars h, hm], by rw [trimEndCrLf_chars h, ht]⟩, isLine_chars h⟩

/-! ### Markers -/

theorem isDigit_toDigits {n : Nat} {c : Char} (hc : c ∈ Nat.toDigits 10 n) : c.isDigit :=
  Nat.isDigit_of_mem_toDigits (by decide) (by decide) hc

theorem parseLiteralMarker_marker (cs : List Char) {n : Nat} (hn : n ≤ usizeMax) :
    parseLiteralMarker (cs ++ marker n) = some n := by
  have hvalue : Nat.ofDigitChars 10 (Nat.toDigits 10 n) 0 = n := Nat.ofDigitChars_ten_toDigits
  have h : (BraceGroup.mk cs [] (Nat.toDigits 10 n) [] []).Valid :=
    ⟨List.not_mem_nil, .inl rfl, Nat.toDigits_ne_nil, fun c hc => isDigit_toDigits hc, nofun, hvalue.trans_le hn⟩
  have hline : cs ++ marker n = (BraceGroup.mk cs [] (Nat.toDigits 10 n) [] []).line := by
    simp [marker, BraceGroup.line, BraceGroup.inner]
  rw [hline, h.parse]
  exact congrArg some hvalue

/-! ### Lines of pieces -/

/-- No piece of the line breaks it. -/
def Unbroken (ps : List Piece) : Prop := ∀ cs, .raw cs ∈ ps → NoBreak cs

theorem noBreak_of_isDigit {cs : List Char} (h : ∀ c ∈ cs, c.isDigit) : NoBreak cs := by
  constructor
  · intro hm
    have := h _ hm
    simp at this
  · intro hm
    have := h _ hm
    simp at this

theorem noBreak_quotedChars {text : List Char} (h : ∀ c ∈ text, c ∉ ['\r', '\n', '\x00']) :
    NoBreak (quotedChars text) := by
  have key : ∀ {d : Char}, d ∉ text → d ≠ '\\' → d ∉ quotedChars text := by
    intro d hd hne hm
    obtain ⟨c, hc, hm⟩ := List.mem_flatMap.1 hm
    split at hm
    · rcases List.mem_cons.1 hm with rfl | hm
      · exact hne rfl
      · exact hd (List.mem_singleton.1 hm ▸ hc)
    · exact hd (List.mem_singleton.1 hm ▸ hc)
  exact ⟨key (fun hm => h _ hm (by decide)) (by decide), key (fun hm => h _ hm (by decide)) (by decide)⟩

theorem noBreak_str (s : SieveString) : NoBreak (Piece.str s).shown := by
  cases s with
  | quoted text clean =>
    have : NoBreak ['"'] := ⟨by decide, by decide⟩
    exact (this.append (noBreak_quotedChars clean)).append this
  | literal octets short =>
    have hd := noBreak_of_isDigit fun c => isDigit_toDigits (n := octets.length) (c := c)
    exact (NoBreak.append (a := ['{']) ⟨by decide, by decide⟩ hd).append ⟨by decide, by decide⟩

theorem Unbroken.noBreak {ps : List Piece} (h : Unbroken ps) : NoBreak (ps.flatMap Piece.shown) := by
  induction ps with
  | nil => exact ⟨List.not_mem_nil, List.not_mem_nil⟩
  | cons p ps ih =>
    rw [List.flatMap_cons]
    refine NoBreak.append ?_ (ih fun cs hcs => h cs (List.mem_cons_of_mem _ hcs))
    cases p with
    | raw cs => exact h cs List.mem_cons_self
    | str s => exact noBreak_str s

theorem enc_of_noLiteral {ps : List Piece} (h : ps.countP Piece.isLiteral = 0) :
    ps.flatMap Piece.enc = chars (ps.flatMap Piece.shown) := by
  induction ps with
  | nil => rfl
  | cons p ps ih =>
    rw [List.countP_eq_zero] at h
    rw [List.flatMap_cons, List.flatMap_cons, chars_append,
      ih (List.countP_eq_zero.2 fun q hq => h q (List.mem_cons_of_mem _ hq))]
    have hp := h p List.mem_cons_self
    congr 1
    cases p with
    | raw cs => rfl
    | str s =>
      cases s with
      | quoted text clean => rfl
      | literal octets short => exact absurd rfl hp

theorem encLine_of_noLiteral {ps : List Piece} (h : ps.countP Piece.isLiteral = 0) :
    encLine ps = chars (ps.flatMap Piece.shown ++ crlf) := by
  rw [encLine, enc_of_noLiteral h, chars_append]

/-- A line with one literal is passed over with the literal and what follows it. -/
theorem passed_of_oneLiteral {ps : List Piece} (hb : Unbroken ps) (h : ps.countP Piece.isLiteral = 1) :
    Passed (encLine ps) := by
  -- The text before the literal ends in its marker; what follows it is its trailer.
  obtain ⟨p, hp, hlit⟩ := List.countP_pos_iff.1 (by omega : 0 < ps.countP Piece.isLiteral)
  obtain ⟨a, b, rfl⟩ := List.append_of_mem hp
  rw [List.countP_append, List.countP_cons_of_pos hlit] at h
  cases p with
  | raw cs => cases hlit
  | str s =>
    cases s with
    | quoted text clean => cases hlit
    | literal octets short =>
      have ha : Unbroken a := fun cs hcs => hb cs (List.mem_append_left _ hcs)
      have hb : Unbroken b := fun cs hcs => hb cs (List.mem_append_right _ (List.mem_cons_of_mem _ hcs))
      have hn : octets.length ≤ isizeMax := by unfold isizeMax; omega
      have hu : octets.length ≤ usizeMax := by unfold usizeMax; omega
      have := passed_literal (ha.noBreak.append (noBreak_str (.literal octets short)))
        (parseLiteralMarker_marker _ hu) hn hb.noBreak
      rw [encLine, List.flatMap_append, List.flatMap_cons, enc_of_noLiteral (by omega : a.countP _ = 0),
        enc_of_noLiteral (by omega : b.countP _ = 0)]
      simp only [Piece.enc, Piece.shown, chars_append, List.append_assoc] at this ⊢
      exact this

/-! ### Capability lines and final lines -/

theorem Capability.unbroken (c : Capability) : Unbroken c.pieces := by
  intro cs hcs
  unfold Capability.pieces at hcs
  split at hcs
  · simp at hcs
  · simp only [List.mem_cons, reduceCtorEq, Piece.raw.injEq, List.not_mem_nil, or_false, false_or] at hcs
    subst hcs
    exact ⟨by decide, by decide⟩

/-- A capability line without a literal begins with a quote. -/
theorem Capability.terminator_none {c : Capability} (h : c.pieces.countP Piece.isLiteral = 0) :
    terminator (c.pieces.flatMap Piece.shown) = none := by
  obtain ⟨name, value⟩ := c
  cases name with
  | quoted text clean => rfl
  | literal octets short => exact absurd rfl (List.countP_eq_zero.1 h _ List.mem_cons_self)

theorem passed_capability {c : Capability}
    (h : Unmarked c.pieces ∨ c.pieces.countP Piece.isLiteral = 1) : Passed (encLine c.pieces) := by
  rcases h with ⟨hl, hm⟩ | h
  · rw [encLine_of_noLiteral hl]
    exact passed_chars c.unbroken.noBreak hm (Capability.terminator_none hl)
  · exact passed_of_oneLiteral c.unbroken h

theorem Kind.noBreak_word (k : Kind) : NoBreak k.word := by
  cases k <;> exact ⟨by decide, by decide⟩

theorem RespCode.unbroken (code : RespCode) : Unbroken code.pieces := fun cs hcs =>
  ⟨fun hm => code.clean cs hcs _ hm (by decide), fun hm => code.clean cs hcs _ hm (by decide)⟩

theorem Final.unbroken {f : Final} (hw : f.word = f.kind.word) : Unbroken f.pieces := by
  intro cs hcs
  unfold Final.pieces at hcs
  rcases List.mem_cons.1 hcs with h | h
  · cases h
    rw [hw]
    exact f.kind.noBreak_word
  · rcases List.mem_append.1 h with h | h
    · split at h
      · cases h
      · rename_i code _
        simp only [List.cons_append, List.mem_cons, List.mem_append, Piece.raw.injEq, List.not_mem_nil,
          or_false] at h
        rcases h with rfl | h | rfl
        · exact ⟨by decide, by decide⟩
        · exact code.unbroken cs h
        · exact ⟨by decide, by decide⟩
    · split at h
      · cases h
      · simp only [List.mem_cons, reduceCtorEq, Piece.raw.injEq, List.not_mem_nil, or_false] at h
        subst h
        exact ⟨by decide, by decide⟩

theorem Kind.terminator_word (k : Kind) (cs : List Char) :
    ∃ resp, terminator (k.word ++ cs) = some resp ∧ resp.kind = k := by
  cases k with
  | ok => exact ⟨_, rfl, rfl⟩
  | no => exact ⟨_, rfl, rfl⟩
  | bye => exact ⟨_, rfl, rfl⟩

theorem ends_final {f : Final} (h : Unmarked f.pieces) (hw : f.word = f.kind.word) :
    ∃ resp, Ends (encLine f.pieces) resp ∧ resp.kind = f.kind := by
  obtain ⟨resp, ht, hk⟩ := f.kind.terminator_word (f.pieces.tail.flatMap Piece.shown)
  refine ⟨resp, ?_, hk⟩
  rw [encLine_of_noLiteral h.noLiteral]
  exact ends_chars (Final.unbroken hw).noBreak h.noMarker (by rw [← ht, ← hw]; rfl)

/-- A plain response is read as it is meant. -/
theorem Plain.framed {R : ServerResponse} (h : Plain R) : FramedAs R.enc R.final.kind := by
  obtain ⟨resp, he, hk⟩ := ends_final h.final h.word
  refine ⟨resp, ?_, hk⟩
  have hcap := h.capabilities
  unfold ServerResponse.enc
  generalize R.capabilities = caps at hcap
  induction caps with
  | nil => exact .last he
  | cons c caps ih =>
    rw [List.flatMap_cons, List.append_assoc]
    exact .pass (passed_capability (hcap c List.mem_cons_self))
      (ih fun c' hc' => hcap c' (List.mem_cons_of_mem _ hc'))

/-! ## Reading a response -/

/-- `read_response` returns the kind of the response and leaves the octets after it. -/
def ReadsAs (stream : BufReader) (k : Kind) (rest : Bytes) : Prop :=
  ∃ resp stream', readResponse stream = (.ok resp, stream') ∧ resp.kind = k ∧ stream'.pending = rest

theorem getLast_enc (R : ServerResponse) : R.enc.getLast? = some lf := by
  have : ∀ ps, (encLine ps).getLast? = some lf := by
    intro ps
    rw [encLine, List.getLast?_append_of_ne_nil _ (by decide)]
    rfl
  have hne : encLine R.final.pieces ≠ [] := by
    intro h
    have := this R.final.pieces
    rw [h] at this
    cases this
  rw [ServerResponse.enc, List.getLast?_append_of_ne_nil _ hne, this]

/-- A response is read as it is meant, and none of what follows it, exactly when its octets split as
the loop splits them; and the octets of a plain response do. -/
theorem readResponse_exact_iff (R : ServerResponse) (rest : Bytes) (stream : BufReader)
    (hp : stream.pending = R.enc ++ rest) :
    (ReadsAs stream R.final.kind rest ↔ FramedAs R.enc R.final.kind) ∧
      (Plain R → ReadsAs stream R.final.kind rest) := by
  have hiff : ReadsAs stream R.final.kind rest ↔ FramedAs R.enc R.final.kind := by
    constructor
    · rintro ⟨resp, s, h1, h2, h3⟩
      exact ⟨resp, (readResponse_eq_ok_iff hp (getLast_enc R)).1 ⟨s, h1, h3⟩, h2⟩
    · rintro ⟨resp, h1, h2⟩
      obtain ⟨s, h3, h4⟩ := (readResponse_eq_ok_iff hp (getLast_enc R)).2 h1
      exact ⟨resp, s, h3, h2, h4⟩
  exact ⟨hiff, fun h => hiff.2 h.framed⟩

/-- `"SIEVE" {8}`, `fileinto` on the line after it, and `OK`. -/
def sampleGreeting : ServerResponse where
  capabilities := [⟨.quoted "SIEVE".toList (by simp), some (.literal (utf8 "fileinto") (by decide))⟩]
  final := ⟨.ok, ['O', 'K'], rfl, none, none⟩

theorem sampleGreeting_read :
    (utf8 "\"SIEVE\" \x7b8\x7d\r\nfileinto\r\nOK\r\n" = sampleGreeting.enc) ∧
    ReadsAs ⟨sampleGreeting.enc ++ utf8 "NO\r\n", [], notUtf8⟩ .ok (utf8 "NO\r\n") := by
  refine ⟨by decide, (readResponse_exact_iff sampleGreeting (utf8 "NO\r\n") _ ?_).2 ?_⟩
  · rw [pending, delivered, List.append_nil]
  · decide

/-- `NO {5}`, and `hello` on the line after it. -/
def sampleRefusal : ServerResponse where
  capabilities := []
  final := ⟨.no, ['N', 'O'], rfl, none, some (.literal (utf8 "hello") (by decide))⟩

/-- The final line that carries its text in a literal is passed over. -/
theorem refusal_passed_over : ¬ ∀ (R : ServerResponse) (rest : Bytes) (stream : BufReader),
    stream.pending = R.enc ++ rest → ReadsAs stream R.final.kind rest := by
  intro hall
  obtain ⟨resp, s, hr, -, -⟩ := hall sampleRefusal [] ⟨sampleRefusal.enc, [], notUtf8⟩ (by rw [pending, delivered])
  have hpass : Passed sampleRefusal.enc :=
    passed_of_oneLiteral (Final.unbroken rfl) (by decide)
  obtain ⟨s1, h1, hp1⟩ : ∃ s1, readTurn ⟨sampleRefusal.enc, [], notUtf8⟩ = (none, s1) ∧ s1.pending = [] :=
    readTurn_passed hpass (by rw [pending, delivered])
  rw [readResponse.eq_def, h1] at hr
  obtain ⟨c, hc, hne, -⟩ := readResponse_ok hr
  rw [hp1] at hc
  exact hne (List.append_eq_nil_iff.1 hc.symm).1

end Sieve

end Thundercrab
