/-
The strings of a line protocol: words of letters in either case, text in quotes with a backslash
before each quote and backslash, and octets after their number. Text put in quotes is read back when
it has no line break and no NUL, and otherwise nothing is; octets after their number are always read
back, whatever they are.
-/
import Thundercrab.Lib.Text

namespace Lib

/-! ## ASCII -/

def asciiChar (n : UInt8) : Char := Char.ofNat n.toNat

theorem asciiChar_ofNat {c : Char} (hc : c.toNat < 128) : asciiChar (UInt8.ofNat c.toNat) = c := by
  unfold asciiChar
  rw [UInt8.toNat_ofNat', Nat.mod_eq_of_lt (by omega), Char.ofNat_toNat]

theorem utf8_ascii {cs : List Char} (h : ∀ c ∈ cs, c.toNat < 128) :
    utf8 (String.ofList cs) = cs.map fun c => UInt8.ofNat c.toNat := by
  induction cs with
  | nil => rfl
  | cons c cs ih =>
    obtain ⟨hc, hcs⟩ := List.forall_mem_cons.1 h
    rw [utf8_ofList_cons, utf8EncodeChar_ascii hc, ih hcs]
    rfl

/-- The octets at the front that are ASCII characters of one kind, and what follows them. -/
def readWhile (p : Char → Bool) (b : Bytes) : List Char × Bytes :=
  ((b.takeWhile fun n => p (asciiChar n)).map asciiChar, b.dropWhile fun n => p (asciiChar n))

theorem readWhile_append {p : Char → Bool} {cs : List Char} (h : ∀ c ∈ cs, c.toNat < 128 ∧ p c = true) {n : UInt8}
    (hn : p (asciiChar n) = false) (rest : Bytes) :
    readWhile p (utf8 (String.ofList cs) ++ n :: rest) = (cs, n :: rest) := by
  have hall : ∀ m ∈ utf8 (String.ofList cs), p (asciiChar m) = true := by
    rw [utf8_ascii fun c hc => (h c hc).1]
    intro m hm
    obtain ⟨c, hc, rfl⟩ := List.mem_map.1 hm
    rw [asciiChar_ofNat (h c hc).1]
    exact (h c hc).2
  have hchars : (utf8 (String.ofList cs)).map asciiChar = cs := by
    rw [utf8_ascii fun c hc => (h c hc).1, List.map_map]
    exact (List.map_congr_left fun c hc => asciiChar_ofNat (h c hc).1).trans (List.map_id cs)
  have hstop : ¬ p (asciiChar n) = true := by simp [hn]
  unfold readWhile
  rw [List.takeWhile_append_of_pos hall, List.dropWhile_append_of_pos hall,
    List.takeWhile_cons_of_neg (p := fun n => p (asciiChar n)) hstop,
    List.dropWhile_cons_of_neg (p := fun n => p (asciiChar n)) hstop, List.append_nil, hchars]

/-- Past a mark that has to stand at the front. -/
def skip (mark b : Bytes) : Option Bytes := if mark <+: b then some (b.drop mark.length) else none

@[simp] theorem skip_append (mark rest : Bytes) : skip mark (mark ++ rest) = some rest := by
  unfold skip
  rw [if_pos (List.prefix_append _ _), List.drop_left]

/-! ## Text in quotes -/

/-- A backslash before each quote and backslash. -/
def quoteOctets (text : Bytes) : Bytes := text.flatMap fun n => if n = 34 ∨ n = 92 then [92, n] else [n]

/-- Read up to the closing quote. -/
def readQuoted : Bytes → Option (Bytes × Bytes)
  | [] => none
  | n :: b =>
    if n = 34 then some ([], b)
    else if n = 92 then
      match b with
      | [] => none
      | m :: b => if m = 34 ∨ m = 92 then (readQuoted b).map fun r => (m :: r.1, r.2) else none
    else if n = 13 ∨ n = 10 ∨ n = 0 then none
    else (readQuoted b).map fun r => (n :: r.1, r.2)

/-- No line break and no NUL. -/
def Quotable (text : Bytes) : Prop := ∀ n ∈ text, ¬ (n = 13 ∨ n = 10 ∨ n = 0)

instance (text : Bytes) : Decidable (Quotable text) := List.decidableBAll _ text

theorem readQuoted_quote (b : Bytes) : readQuoted (34 :: b) = some ([], b) := by
  rw [readQuoted.eq_def]
  exact if_pos rfl

theorem readQuoted_escaped {n : UInt8} (hn : n = 34 ∨ n = 92) (b : Bytes) :
    readQuoted (92 :: n :: b) = (readQuoted b).map fun r => (n :: r.1, r.2) := by
  rw [readQuoted.eq_def]
  exact (if_neg (by decide)).trans ((if_pos rfl).trans (if_pos hn))

theorem readQuoted_plain {n : UInt8} (hn : ¬ (n = 34 ∨ n = 92)) (b : Bytes) : readQuoted (n :: b) =
    if n = 13 ∨ n = 10 ∨ n = 0 then none else (readQuoted b).map fun r => (n :: r.1, r.2) := by
  rw [not_or] at hn
  rw [readQuoted.eq_def]
  exact (if_neg hn.1).trans (if_neg hn.2)

theorem quoteOctets_cons (n : UInt8) (text : Bytes) :
    quoteOctets (n :: text) = (if n = 34 ∨ n = 92 then [92, n] else [n]) ++ quoteOctets text := List.flatMap_cons

theorem readQuoted_quoteOctets (rest : Bytes) {text : Bytes} (h : Quotable text) :
    readQuoted (quoteOctets text ++ 34 :: rest) = some (text, rest) := by
  induction text with
  | nil => exact readQuoted_quote rest
  | cons n text ih =>
    obtain ⟨hn, htext⟩ := List.forall_mem_cons.1 h
    rw [quoteOctets_cons]
    by_cases hesc : n = 34 ∨ n = 92
    · rw [if_pos hesc, List.append_assoc, List.cons_append, List.cons_append, List.nil_append,
        readQuoted_escaped hesc, ih htext, Option.map_some]
    · rw [if_neg hesc, List.append_assoc, List.cons_append, List.nil_append, readQuoted_plain hesc, if_neg hn,
        ih htext, Option.map_some]

theorem readQuoted_of_not_quotable (rest : Bytes) {text : Bytes} (h : ¬ Quotable text) :
    readQuoted (quoteOctets text ++ 34 :: rest) = none := by
  induction text with
  | nil => exact absurd nofun h
  | cons n text ih =>
    rw [quoteOctets_cons]
    by_cases hesc : n = 34 ∨ n = 92
    · have hn : ¬ (n = 13 ∨ n = 10 ∨ n = 0) := by rcases hesc with rfl | rfl <;> decide
      have htext : ¬ Quotable text := fun htext => h (List.forall_mem_cons.2 ⟨hn, htext⟩)
      rw [if_pos hesc, List.append_assoc, List.cons_append, List.cons_append, List.nil_append,
        readQuoted_escaped hesc, ih htext, Option.map_none]
    · rw [if_neg hesc, List.append_assoc, List.cons_append, List.nil_append, readQuoted_plain hesc]
      by_cases hn : n = 13 ∨ n = 10 ∨ n = 0
      · rw [if_pos hn]
      · rw [if_neg hn, ih fun htext => h (List.forall_mem_cons.2 ⟨hn, htext⟩), Option.map_none]

/-! ## Octets after their number -/

/-- Read from after the opening brace. -/
def readLiteral (b : Bytes) : Option (Bytes × Bytes) :=
  let (digits, b) := readWhile Char.isDigit b
  match skip (utf8 "+\x7d\r\n") b with
  | none => none
  | some b =>
    let n := Nat.ofDigitChars 10 digits 0
    if digits ≠ [] ∧ n ≤ b.length then some (b.take n, b.drop n) else none

theorem readLiteral_octets (octets rest : Bytes) :
    readLiteral (utf8 (toString octets.length) ++ (utf8 "+\x7d\r\n" ++ (octets ++ rest))) = some (octets, rest) := by
  have hdigits : ∀ c ∈ Nat.toDigits 10 octets.length, c.toNat < 128 ∧ c.isDigit = true := by
    intro c hc
    have hd := Nat.isDigit_of_mem_toDigits (by decide) (by decide) hc
    have hle : c.toNat ≤ 57 := (Char.isDigit_iff_toNat.1 hd).2
    exact ⟨by omega, hd⟩
  have hread := readWhile_append hdigits (n := 43) (by decide)
    (utf8 "\x7d\r\n" ++ (octets ++ rest))
  have htext : toString octets.length = String.ofList (Nat.toDigits 10 octets.length) := rfl
  have hmark : utf8 "+\x7d\r\n" ++ (octets ++ rest) = 43 :: (utf8 "\x7d\r\n" ++ (octets ++ rest)) := by
    rw [← List.cons_append]
    congr 1
  unfold readLiteral
  rw [htext, hmark, hread]
  simp only
  rw [← hmark, skip_append]
  simp only [Nat.ofDigitChars_ten_toDigits]
  rw [if_pos ⟨Nat.toDigits_ne_nil, by simp⟩, List.take_left, List.drop_left]

/-- A string of either form. -/
def readString : Bytes → Option (Bytes × Bytes)
  | [] => none
  | n :: b => if n = 34 then readQuoted b else if n = 123 then readLiteral b else none

theorem readString_quote (b : Bytes) : readString (34 :: b) = readQuoted b := by
  unfold readString
  exact if_pos rfl

theorem readString_brace (b : Bytes) : readString (123 :: b) = readLiteral b := by
  unfold readString
  exact (if_neg (by decide)).trans (if_pos rfl)

/-! ## With more octets to come -/

theorem skip_eq_some {mark b rest : Bytes} : skip mark b = some rest ↔ b = mark ++ rest := by
  constructor
  · intro h
    unfold skip at h
    split at h
    · rename_i hmark
      obtain ⟨b, rfl⟩ := hmark
      rw [List.drop_left] at h
      rw [Option.some.inj h]
    · cases h
  · rintro rfl
    exact skip_append mark rest

theorem skip_more {mark b rest : Bytes} (more : Bytes) (h : skip mark b = some rest) :
    skip mark (b ++ more) = some (rest ++ more) := by
  rw [skip_eq_some.1 h, List.append_assoc, skip_append]

/-- A word that something follows does not go on. -/
theorem readWhile_more {p : Char → Bool} {b : Bytes} (more : Bytes) (h : (readWhile p b).2 ≠ []) :
    readWhile p (b ++ more) = ((readWhile p b).1, (readWhile p b).2 ++ more) := by
  unfold readWhile at h ⊢
  simp only at h ⊢
  have hlong : (b.takeWhile fun n => p (asciiChar n)).length ≠ b.length := by
    intro hlen
    have hsplit := congrArg List.length (List.takeWhile_append_dropWhile (p := fun n => p (asciiChar n)) (l := b))
    rw [List.length_append] at hsplit
    exact h (List.length_eq_zero_iff.1 (by omega))
  rw [List.takeWhile_append, if_neg hlong, List.dropWhile_append, if_neg]
  rw [List.isEmpty_iff]
  exact h

theorem readQuoted_more (more : Bytes) : ∀ {b text rest : Bytes}, readQuoted b = some (text, rest) →
    readQuoted (b ++ more) = some (text, rest ++ more) := by
  intro b
  fun_induction readQuoted b with
  | case1 => exact nofun
  | case2 b =>
    intro text rest h
    cases h
    exact readQuoted_quote _
  | case3 => exact nofun
  | case4 m b hm _ ih =>
    intro text rest h
    obtain ⟨r, hr, h⟩ := Option.map_eq_some_iff.1 h
    cases h
    rw [List.cons_append, List.cons_append, readQuoted_escaped hm, ih hr]
    rfl
  | case5 => exact nofun
  | case6 => exact nofun
  | case7 n b hquote hback hbreak ih =>
    intro text rest h
    obtain ⟨r, hr, h⟩ := Option.map_eq_some_iff.1 h
    cases h
    rw [List.cons_append, readQuoted_plain (not_or.2 ⟨hquote, hback⟩), if_neg hbreak, ih hr]
    rfl

theorem readLiteral_more (more : Bytes) {b octets rest : Bytes} (h : readLiteral b = some (octets, rest)) :
    readLiteral (b ++ more) = some (octets, rest ++ more) := by
  unfold readLiteral at h ⊢
  simp only at h ⊢
  cases hmark : skip (utf8 "+\x7d\r\n") (readWhile Char.isDigit b).2 with
  | none =>
    rw [hmark] at h
    cases h
  | some b' =>
    rw [hmark] at h
    have hne : (readWhile Char.isDigit b).2 ≠ [] := by
      rw [skip_eq_some.1 hmark]
      exact List.append_ne_nil_of_left_ne_nil (by decide) _
    rw [readWhile_more more hne, skip_more more hmark]
    simp only at h ⊢
    split at h
    · rename_i hn
      cases h
      rw [if_pos ⟨hn.1, by rw [List.length_append]; omega⟩, List.take_append_of_le_length hn.2,
        List.drop_append_of_le_length hn.2]
    · cases h

theorem readString_more (more : Bytes) {b octets rest : Bytes} (h : readString b = some (octets, rest)) :
    readString (b ++ more) = some (octets, rest ++ more) := by
  cases b with
  | nil => cases h
  | cons n b =>
    rw [List.cons_append]
    by_cases hquote : n = 34
    · subst hquote
      rw [readString_quote] at h ⊢
      exact readQuoted_more more h
    · by_cases hbrace : n = 123
      · subst hbrace
        rw [readString_brace] at h ⊢
        exact readLiteral_more more h
      · have hnone : readString (n :: b) = none := (if_neg hquote).trans (if_neg hbrace)
        rw [hnone] at h
        cases h

end Lib
