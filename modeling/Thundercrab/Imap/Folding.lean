/-
`rust_imap.rs`, `parse_headers` on folded fields. A value is trimmed when its first line is read and a
continuation line when it is added, so a folded field reads as the same field on one line, unless the
fold comes right after the colon: then the value begins with the space that joins the lines.
-/
import Thundercrab.Imap.Headers

namespace Thundercrab

open Lib Sieve

namespace Imap

/-- A field whose value is given in segments, each but the first with the blanks that introduce it. -/
structure FoldedField where
  name : String
  first : List Char
  more : List (List Char × List Char)

/-- Text of one line that neither begins nor ends with whitespace. -/
structure Segment (cs : List Char) : Prop where
  trimmed : Trimmed cs
  line : '\r' ∉ cs ∧ '\n' ∉ cs

theorem Segment.of_forall {cs : List Char} (h : ∀ c ∈ cs, isWhitespace c = false) : Segment cs where
  trimmed := trimmed_of_forall h
  line := ⟨fun hr => absurd (h _ hr) (by decide), fun hn => absurd (h _ hn) (by decide)⟩

structure FoldedField.Valid (f : FoldedField) : Prop where
  name_ne : f.name ≠ ""
  name : ∀ c ∈ f.name.toList, c ≠ ':' ∧ isWhitespace c = false
  first : Segment f.first
  more : ∀ p ∈ f.more, (p.1 ≠ [] ∧ ∀ c ∈ p.1, c = ' ' ∨ c = '\t') ∧ p.2 ≠ [] ∧ Segment p.2

/-- `name: s0` and a continuation line for each other segment. -/
def FoldedField.folded (f : FoldedField) : HeaderField where
  name := f.name
  first := utf8 (String.ofList (' ' :: f.first))
  more := f.more.map fun p => utf8 (String.ofList (p.1 ++ p.2))

/-- The segments that are not empty, joined by single spaces. -/
def FoldedField.joined (f : FoldedField) : List Char :=
  [' '].intercalate ((f.first :: f.more.map Prod.snd).filter fun s => s ≠ [])

/-- The field on one line. -/
def FoldedField.unfolded (f : FoldedField) : HeaderField where
  name := f.name
  first := utf8 (String.ofList (' ' :: f.joined))
  more := []

/-! ## Text -/

theorem oneLine_utf8 {cs : List Char} (h : '\r' ∉ cs ∧ '\n' ∉ cs) : OneLine (utf8 (String.ofList cs)) :=
  ⟨fun hr => h.1 (mem_of_mem_utf8 (c := '\r') (by decide) hr), fun hn => h.2 (mem_of_mem_utf8 (c := '\n') (by decide) hn)⟩

theorem intercalate_space (s : List Char) : ∀ ss : List (List Char),
    [' '].intercalate (s :: ss) = s ++ ss.flatMap fun t => ' ' :: t
  | [] => by simp
  | t :: ss => by
    rw [List.intercalate_cons_cons, intercalate_space t ss, List.flatMap_cons, List.append_assoc]
    rfl

theorem Trimmed.append {a b : List Char} (ha : Trimmed a) (hb : Trimmed b) (hne : a ≠ []) (hb₀ : b ≠ [])
    (mid : List Char) : Trimmed (a ++ mid ++ b) := by
  constructor
  · intro c hc
    rw [List.append_assoc, List.head?_append_of_ne_nil _ hne] at hc
    exact ha.1 c hc
  · intro c hc
    rw [List.getLast?_append_of_ne_nil _ hb₀] at hc
    exact hb.2 c hc

/-- Segments joined by spaces neither begin nor end with whitespace. -/
theorem trimmed_join : ∀ {s : List Char} {ss : List (List Char)}, Trimmed s → s ≠ [] →
    (∀ t ∈ ss, Trimmed t ∧ t ≠ []) → Trimmed (s ++ ss.flatMap fun t => ' ' :: t)
  | s, [], hs, _, _ => by simpa using hs
  | s, t :: ss, hs, hne, h => by
    obtain ⟨⟨ht, htne⟩, hss⟩ := List.forall_mem_cons.1 h
    have hjoin : s ++ (t :: ss).flatMap (fun t => ' ' :: t) = s ++ [' '] ++ (t ++ ss.flatMap fun t => ' ' :: t) := by
      simp
    rw [hjoin]
    exact Trimmed.append hs (trimmed_join ht htne hss) hne (by simp [htne]) [' ']

/-- They are of one line if each of them is. -/
theorem Segment.join {s : List Char} {ss : List (List Char)} (hs : Segment s) (hne : s ≠ [])
    (hss : ∀ t ∈ ss, Segment t ∧ t ≠ []) : Segment (s ++ ss.flatMap fun t => ' ' :: t) := by
  refine ⟨trimmed_join hs.trimmed hne fun t ht => ⟨(hss t ht).1.trimmed, (hss t ht).2⟩, ?_, ?_⟩
  · simp only [List.mem_append, List.mem_flatMap, List.mem_cons, not_or, not_exists, not_and]
    exact ⟨hs.line.1, fun t ht => ⟨by decide, (hss t ht).1.line.1⟩⟩
  · simp only [List.mem_append, List.mem_flatMap, List.mem_cons, not_or, not_exists, not_and]
    exact ⟨hs.line.2, fun t ht => ⟨by decide, (hss t ht).1.line.2⟩⟩

/-- A space before a text is trimmed off. -/
theorem trim_space {cs : List Char} (h : Trimmed cs) : trim (' ' :: cs) = String.ofList cs := by
  have hdrop : (' ' :: cs).dropWhile isWhitespace = cs.dropWhile isWhitespace := by
    rw [List.dropWhile_cons, if_pos (by decide)]
  unfold trim
  rw [hdrop]
  exact trim_trimmed h

theorem oneLine_blanks {blanks : List Char} (hb : ∀ c ∈ blanks, c = ' ' ∨ c = '\t') : '\r' ∉ blanks ∧ '\n' ∉ blanks := by
  constructor
  · intro hr
    rcases hb _ hr with h | h <;> cases h
  · intro hn
    rcases hb _ hn with h | h <;> cases h

theorem dropWhile_blanks {blanks s : List Char} (hb : ∀ c ∈ blanks, c = ' ' ∨ c = '\t') (hs : Trimmed s) :
    (blanks ++ s).dropWhile isWhitespace = s := by
  rw [List.dropWhile_append_of_pos, dropWhile_trimmed hs]
  intro c hc
  rcases hb c hc with rfl | rfl <;> decide

namespace FoldedField

variable {f : FoldedField}

theorem Valid.folded (h : f.Valid) : f.folded.Valid where
  name_ne := h.name_ne
  name := h.name
  first := oneLine_utf8 (by simp [h.first.line])
  more := by
    intro line hl
    obtain ⟨⟨blanks, s⟩, hp, rfl⟩ := List.mem_map.1 hl
    obtain ⟨⟨hne, hblanks⟩, -, hs⟩ := h.more _ hp
    obtain ⟨hr, hn⟩ := oneLine_blanks hblanks
    refine ⟨oneLine_utf8 (by simp [hr, hn, hs.line]), ?_⟩
    cases blanks with
    | nil => exact absurd rfl hne
    | cons c blanks =>
      refine ⟨utf8 (String.ofList (blanks ++ s)), ?_⟩
      rw [List.cons_append, utf8_ofList_cons]
      rcases hblanks c List.mem_cons_self with rfl | rfl
      · exact .inl (by rw [utf8EncodeChar_ascii (by decide)]; rfl)
      · exact .inr (by rw [utf8EncodeChar_ascii (by decide)]; rfl)

theorem Valid.filter_more (h : f.Valid) : (f.more.map Prod.snd).filter (fun s => s ≠ []) = f.more.map Prod.snd := by
  refine List.filter_eq_self.2 fun s hs => ?_
  obtain ⟨p, hp, rfl⟩ := List.mem_map.1 hs
  exact decide_eq_true (h.more p hp).2.1

theorem Valid.segments (h : f.Valid) : ∀ s ∈ f.more.map Prod.snd, Segment s ∧ s ≠ [] := by
  intro s hs
  obtain ⟨p, hp, rfl⟩ := List.mem_map.1 hs
  exact ⟨(h.more p hp).2.2, (h.more p hp).2.1⟩

theorem joined_of_first (h : f.Valid) (hne : f.first ≠ []) :
    f.joined = f.first ++ (f.more.map Prod.snd).flatMap fun t => ' ' :: t := by
  unfold joined
  rw [List.filter_cons, if_pos (decide_eq_true hne), h.filter_more, intercalate_space]

theorem joined_of_no_first (h : f.Valid) (he : f.first = []) : f.joined = [' '].intercalate (f.more.map Prod.snd) := by
  unfold joined
  rw [List.filter_cons, if_neg (by simp [he]), h.filter_more]

theorem Valid.joined_segment (h : f.Valid) : Segment f.joined := by
  by_cases hne : f.first = []
  · rw [joined_of_no_first h hne]
    cases hm : f.more.map Prod.snd with
    | nil => exact ⟨⟨nofun, nofun⟩, by simp⟩
    | cons s ss =>
      have hall := h.segments
      rw [hm] at hall
      obtain ⟨hs, hss⟩ := List.forall_mem_cons.1 hall
      rw [intercalate_space]
      exact Segment.join hs.1 hs.2 hss
  · rw [joined_of_first h hne]
    exact Segment.join h.first hne h.segments

theorem Valid.unfolded (h : f.Valid) : f.unfolded.Valid where
  name_ne := h.name_ne
  name := h.name
  first := oneLine_utf8 (by simp [h.joined_segment.line])
  more := nofun

/-- The value of the folded field: each segment but the first comes after a space. -/
theorem Valid.folded_value (h : f.Valid) :
    f.folded.value = String.ofList (f.first ++ (f.more.map Prod.snd).flatMap fun t => ' ' :: t) := by
  have hfold : ∀ (more : List (List Char × List Char)) (value : List Char),
      (∀ p ∈ more, (p.1 ≠ [] ∧ ∀ c ∈ p.1, c = ' ' ∨ c = '\t') ∧ p.2 ≠ [] ∧ Segment p.2) →
      (more.map fun p => utf8 (String.ofList (p.1 ++ p.2))).foldl
          (fun value line => value ++ " " ++ String.ofList ((fromUtf8Lossy line).dropWhile isWhitespace))
          (String.ofList value) =
        String.ofList (value ++ (more.map Prod.snd).flatMap fun t => ' ' :: t) := by
    intro more
    induction more with
    | nil => intro value _; simp
    | cons p more ih =>
      intro value hmore
      obtain ⟨⟨⟨-, hblanks⟩, -, hs⟩, hrest⟩ := List.forall_mem_cons.1 hmore
      have hstep : String.ofList value ++ " " ++
          String.ofList ((fromUtf8Lossy (utf8 (String.ofList (p.1 ++ p.2)))).dropWhile isWhitespace) =
          String.ofList (value ++ ' ' :: p.2) := by
        rw [fromUtf8Lossy_utf8, dropWhile_blanks hblanks hs.trimmed]
        apply String.toList_inj.1
        simp
      rw [List.map_cons, List.foldl_cons, hstep, ih _ hrest, List.map_cons, List.flatMap_cons, List.append_assoc]
  unfold HeaderField.value FoldedField.folded
  simp only
  rw [fromUtf8Lossy_utf8, trim_space h.first.trimmed, hfold f.more f.first h.more]

theorem Valid.unfolded_value (h : f.Valid) : f.unfolded.value = String.ofList f.joined := by
  unfold HeaderField.value FoldedField.unfolded
  rw [List.foldl_nil, fromUtf8Lossy_utf8, trim_space h.joined_segment.trimmed]

/-- The two have one value exactly when the field is not folded right after the colon. -/
theorem Valid.value_eq_iff (h : f.Valid) : f.folded.value = f.unfolded.value ↔ f.first ≠ [] ∨ f.more = [] := by
  rw [h.folded_value, h.unfolded_value]
  constructor
  · intro he
    by_contra hno
    rw [not_or, not_not] at hno
    obtain ⟨hfirst, hmore⟩ := hno
    have hjoined := String.ofList_injective he
    rw [joined_of_no_first h hfirst, hfirst, List.nil_append] at hjoined
    cases hm : f.more.map Prod.snd with
    | nil => exact hmore (List.map_eq_nil_iff.1 hm)
    | cons s ss =>
      have hall := h.segments
      rw [hm] at hall hjoined
      obtain ⟨⟨hs, hne⟩, -⟩ := List.forall_mem_cons.1 hall
      rw [List.flatMap_cons, intercalate_space] at hjoined
      -- The value begins with a space, and the segment does not.
      cases s with
      | nil => exact hne rfl
      | cons c s =>
        have hc : ' ' = c := (List.cons.inj hjoined).1
        have := hs.trimmed.1 c rfl
        rw [← hc] at this
        exact absurd this (by decide)
  · rintro (hfirst | hmore)
    · rw [joined_of_first h hfirst]
    · by_cases hfirst : f.first = []
      · rw [joined_of_no_first h hfirst, hmore, hfirst]
        rfl
      · rw [joined_of_first h hfirst]

end FoldedField

/-- The folded block is parsed as the block of single lines exactly when every field that counts is
not folded right after the colon. -/
theorem parseHeaders_folded_iff (crlf : Bool) (fields : List FoldedField) (h : ∀ f ∈ fields, f.Valid)
    (ending : Ending) :
    parseHeaders (render crlf (fields.map FoldedField.folded) ending) =
        parseHeaders (render crlf (fields.map FoldedField.unfolded) ending) ↔
      ∀ f ∈ fields, Relevant (asciiLower f.name) → f.first ≠ [] ∨ f.more = [] := by
  have hfolded : ∀ g ∈ fields.map FoldedField.folded, g.Valid := by
    intro g hg
    obtain ⟨f, hf, rfl⟩ := List.mem_map.1 hg
    exact (h f hf).folded
  have hunfolded : ∀ g ∈ fields.map FoldedField.unfolded, g.Valid := by
    intro g hg
    obtain ⟨f, hf, rfl⟩ := List.mem_map.1 hg
    exact (h f hf).unfolded
  rw [parseHeaders_render_eq crlf hfolded, parseHeaders_render_eq crlf hunfolded, relevantHeaders, relevantHeaders,
    List.filter_map, List.filter_map, List.map_map, List.map_map]
  refine List.map_inj_left.trans ?_
  simp only [List.mem_filter, Function.comp, and_imp]
  refine forall_congr' fun f => forall_congr' fun hf => ?_
  have hheader : f.folded.header = f.unfolded.header ↔ f.folded.value = f.unfolded.value := by
    unfold HeaderField.header
    exact Prod.mk.injEq .. ▸ ⟨fun he => he.2, fun he => ⟨rfl, he⟩⟩
  rw [decide_eq_true_eq, hheader, (h f hf).value_eq_iff]
  rfl

/-- A List-Id folded inside its value, or right after the colon. -/
def foldedListId (first : List Char) : FoldedField := ⟨"List-Id", first, [(['\t'], ['n', 'e', 'w', 's'])]⟩

theorem foldedListId_valid {first : List Char} (h : Segment first) : (foldedListId first).Valid where
  name_ne := show "List-Id" ≠ "" by decide
  name := show ∀ c ∈ "List-Id".toList, c ≠ ':' ∧ isWhitespace c = false by simp [isWhitespace]
  first := h
  more := by
    intro p hp
    cases List.mem_singleton.1 hp
    exact ⟨⟨by decide, by simp⟩, by decide, Segment.of_forall (by simp [isWhitespace])⟩

theorem foldedListId_unfolds :
    parseHeaders (render true ([foldedListId ['T', 'h', 'e']].map FoldedField.folded) .cut) =
      parseHeaders (render true ([foldedListId ['T', 'h', 'e']].map FoldedField.unfolded) .cut) :=
  (parseHeaders_folded_iff true [foldedListId ['T', 'h', 'e']]
    (List.forall_mem_singleton.2 (foldedListId_valid (Segment.of_forall (by simp [isWhitespace])))) .cut).2
    (List.forall_mem_singleton.2 fun _ => .inl (by decide))

/-- Folded right after the colon, the value begins with a space. -/
theorem foldedListId_keepsSpace : (foldedListId []).Valid ∧
    parseHeaders (render true ([foldedListId []].map FoldedField.folded) .cut) = [("list-id", " news")] ∧
    parseHeaders (render true ([foldedListId []].map FoldedField.unfolded) .cut) = [("list-id", "news")] := by
  have h : (foldedListId []).Valid := foldedListId_valid (Segment.of_forall nofun)
  refine ⟨h, ?_, ?_⟩
  · rw [List.map_singleton, parseHeaders_render_eq true (List.forall_mem_singleton.2 h.folded), relevantHeaders,
      List.filter_cons, if_pos (by decide), List.filter_nil, List.map_singleton, HeaderField.header, h.folded_value]
    decide
  · rw [List.map_singleton, parseHeaders_render_eq true (List.forall_mem_singleton.2 h.unfolded), relevantHeaders,
      List.filter_cons, if_pos (by decide), List.filter_nil, List.map_singleton, HeaderField.header, h.unfolded_value]
    decide

end Imap

end Thundercrab
