/-
`managesieve.rs`, `parse_literal_marker`: the last pair of braces of a line counts, wherever it is and
with the spellings that `parse::<usize>` has, a sign before the digits, and any number of plus signs
after them. So it recognises the marker of a literal in every line that ends in one, and beyond that
in the lines whose last pair of braces is such a looser one.
-/
import Thundercrab.Imap.Response

namespace Thundercrab

namespace Sieve

/-- The line ends with `{digits}` or `{digits+}`, and the digits are those of a `usize`. -/
def EndsInMarker (line : List Char) (n : Nat) : Prop :=
  ∃ before digits plus, line = before ++ '{' :: (digits ++ plus) ++ ['}'] ∧ (plus = [] ∨ plus = ['+']) ∧
    digits ≠ [] ∧ (∀ c ∈ digits, c.isDigit) ∧ Nat.ofDigitChars 10 digits 0 = n ∧ n ≤ usizeMax

/-- A line cut at its last pair of braces, with what stands between them cut at its digits. -/
structure BraceGroup where
  before : List Char
  sign : List Char
  digits : List Char
  pluses : List Char
  after : List Char

namespace BraceGroup

def inner (g : BraceGroup) : List Char := g.sign ++ (g.digits ++ g.pluses)

def line (g : BraceGroup) : List Char := (g.before ++ '{' :: g.inner) ++ '}' :: g.after

def value (g : BraceGroup) : Nat := Nat.ofDigitChars 10 g.digits 0

/-- The pair is the last one, and `parse` takes what is left of it without its plus signs. -/
structure Valid (g : BraceGroup) : Prop where
  last : '}' ∉ g.after
  sign : g.sign = [] ∨ g.sign = ['+']
  digits_ne : g.digits ≠ []
  digits : ∀ c ∈ g.digits, c.isDigit
  pluses : ∀ c ∈ g.pluses, c = '+'
  fits : g.value ≤ usizeMax

/-- The line goes on after the pair, or there is a sign, or more than one plus. -/
def Loose (g : BraceGroup) : Prop := g.after ≠ [] ∨ g.sign ≠ [] ∨ 2 ≤ g.pluses.length

end BraceGroup

/-! ## The two searches -/

theorem splitLast_eq_none {c : Char} : ∀ {xs : List Char}, splitLast c xs = none ↔ c ∉ xs
  | [] => by simp [splitLast]
  | x :: xs => by
    have ih : splitLast c xs = none ↔ c ∉ xs := splitLast_eq_none
    unfold splitLast
    rw [List.mem_cons, not_or, ← ih]
    cases splitLast c xs with
    | some p => simp
    | none => simp [eq_comm]

theorem splitLast_eq {c : Char} {a b : List Char} (hb : c ∉ b) : splitLast c (a ++ c :: b) = some (a, b) := by
  induction a with
  | nil =>
    rw [List.nil_append, splitLast, splitLast_eq_none.2 hb]
    exact if_pos rfl
  | cons x xs ih => rw [List.cons_append, splitLast, ih]

theorem splitLast_some {c : Char} : ∀ {xs a b : List Char}, splitLast c xs = some (a, b) → xs = a ++ c :: b ∧ c ∉ b
  | [], _, _, h => by cases h
  | x :: xs, a, b, h => by
    unfold splitLast at h
    cases hs : splitLast c xs with
    | some p =>
      obtain ⟨before, after⟩ := p
      rw [hs] at h
      cases h
      obtain ⟨rfl, hafter⟩ := splitLast_some hs
      exact ⟨rfl, hafter⟩
    | none =>
      rw [hs] at h
      simp only at h
      split at h
      · rename_i hx
        cases h
        exact ⟨by rw [hx]; rfl, splitLast_eq_none.1 hs⟩
      · cases h

/-! ## What is recognised -/

theorem rdropWhile_append {α : Type} {p : α → Bool} {xs ys : List α} (hy : ∀ y ∈ ys, p y = true)
    (hx : ∀ x, xs.getLast? = some x → p x = false) : (xs ++ ys).rdropWhile p = xs := by
  have hys : (xs ++ ys).rdropWhile p = xs.rdropWhile p := by
    unfold List.rdropWhile
    rw [List.reverse_append, List.dropWhile_append_of_pos]
    intro y h
    exact hy y (List.mem_reverse.1 h)
  rw [hys, List.rdropWhile_eq_self_iff]
  intro hne
  rw [hx _ (List.getLast?_eq_getLast_of_ne_nil hne)]
  exact Bool.false_ne_true

theorem stripPlus_eq (s : List Char) : s = stripPlus s ∨ s = '+' :: stripPlus s := by
  unfold stripPlus
  split
  · exact .inr rfl
  · exact .inl rfl

/-- Digits are left as they are, with or without a sign. -/
theorem stripPlus_append {sign digits : List Char} (hsign : sign = [] ∨ sign = ['+'])
    (hdigits : ∀ c ∈ digits, c.isDigit) : stripPlus (sign ++ digits) = digits := by
  rcases hsign with rfl | rfl
  · unfold stripPlus
    split
    · rename_i ds h
      have := hdigits '+' (by rw [← List.nil_append digits, h]; exact List.mem_cons_self)
      cases this
    · rfl
  · rfl

/-- `parse::<usize>` reads digits, which a plus sign may precede. -/
theorem parseUsize_eq_some {s : List Char} {n : Nat} : parseUsize s = some n ↔
    ∃ sign digits, s = sign ++ digits ∧ (sign = [] ∨ sign = ['+']) ∧ digits ≠ [] ∧ (∀ c ∈ digits, c.isDigit) ∧
      Nat.ofDigitChars 10 digits 0 = n ∧ n ≤ usizeMax := by
  unfold parseUsize
  simp only
  constructor
  · intro h
    split at h
    · rename_i hd
      obtain ⟨hne, hall, hle⟩ := hd
      rw [List.all_eq_true] at hall
      have hn := Option.some.inj h
      rcases stripPlus_eq s with hs | hs
      · exact ⟨[], stripPlus s, hs, .inl rfl, hne, hall, hn, hn ▸ hle⟩
      · exact ⟨['+'], stripPlus s, hs, .inr rfl, hne, hall, hn, hn ▸ hle⟩
    · cases h
  · rintro ⟨sign, digits, rfl, hsign, hne, hall, rfl, hle⟩
    rw [stripPlus_append hsign hall, if_pos ⟨hne, List.all_eq_true.2 hall, hle⟩]

namespace BraceGroup

variable {g : BraceGroup}

/-- No digit or sign is a brace. -/
theorem Valid.not_mem_inner (h : g.Valid) {c : Char} (hd : c.isDigit = false) (hc : c ≠ '+') : c ∉ g.inner := by
  intro hm
  simp only [inner, List.mem_append] at hm
  rcases hm with hm | hm | hm
  · rcases h.sign with hs | hs
    · rw [hs] at hm
      cases hm
    · rw [hs] at hm
      exact hc (List.mem_singleton.1 hm)
  · rw [h.digits c hm] at hd
    cases hd
  · exact hc (h.pluses c hm)

/-- The plus signs at the end are trimmed off, and the sign stays. -/
theorem Valid.trim (h : g.Valid) : g.inner.rdropWhile (· = '+') = g.sign ++ g.digits := by
  unfold inner
  rw [← List.append_assoc]
  refine rdropWhile_append (fun c hc => decide_eq_true (h.pluses c hc)) fun c hc => ?_
  rw [List.getLast?_append_of_ne_nil _ h.digits_ne] at hc
  refine decide_eq_false ?_
  rintro rfl
  have := h.digits '+' (List.mem_of_getLast? hc)
  cases this

theorem Valid.parse (h : g.Valid) : parseLiteralMarker g.line = some g.value := by
  have hclose : splitLast '}' g.line = some (g.before ++ '{' :: g.inner, g.after) := splitLast_eq h.last
  have hopen : splitLast '{' (g.before ++ '{' :: g.inner) = some (g.before, g.inner) :=
    splitLast_eq (h.not_mem_inner (by decide) (by decide))
  unfold parseLiteralMarker
  simp only [hclose, hopen, h.trim]
  exact parseUsize_eq_some.2 ⟨g.sign, g.digits, rfl, h.sign, h.digits_ne, h.digits, rfl, h.fits⟩

end BraceGroup

/-- A number comes from the last pair of braces. -/
theorem parseLiteralMarker_some {line : List Char} {n : Nat} (h : parseLiteralMarker line = some n) :
    ∃ g : BraceGroup, g.Valid ∧ g.line = line ∧ g.value = n := by
  unfold parseLiteralMarker at h
  cases hclose : splitLast '}' line with
  | none =>
    rw [hclose] at h
    cases h
  | some p =>
    obtain ⟨front, after⟩ := p
    rw [hclose] at h
    simp only at h
    cases hopen : splitLast '{' front with
    | none =>
      rw [hopen] at h
      cases h
    | some q =>
      obtain ⟨before, inner⟩ := q
      rw [hopen] at h
      simp only at h
      obtain ⟨rfl, hafter⟩ := splitLast_some hclose
      obtain ⟨rfl, -⟩ := splitLast_some hopen
      obtain ⟨sign, digits, htrim, hsign, hne, hdigits, rfl, hle⟩ := parseUsize_eq_some.1 h
      have hinner : inner = sign ++ (digits ++ inner.rtakeWhile (· = '+')) := by
        rw [← List.append_assoc, ← htrim]
        exact (List.rdropWhile_append_rtakeWhile ..).symm
      refine ⟨⟨before, sign, digits, inner.rtakeWhile (· = '+'), after⟩, ?_, ?_, rfl⟩
      · refine ⟨hafter, hsign, hne, hdigits, fun c hc => ?_, hle⟩
        exact of_decide_eq_true (List.mem_rtakeWhile_imp (p := fun c => decide (c = '+')) hc)
      · show (before ++ '{' :: (sign ++ (digits ++ _))) ++ '}' :: after = _
        rw [← hinner]

/-- Two valid cuts of a line agree about what is after the pair and in it. -/
theorem BraceGroup.Valid.inner_eq {g g' : BraceGroup} (h : g.Valid) (h' : g'.Valid) (he : g.line = g'.line) :
    g.after = g'.after ∧ g.inner = g'.inner := by
  have hclose : splitLast '}' g.line = some (g.before ++ '{' :: g.inner, g.after) := splitLast_eq h.last
  have hclose' : splitLast '}' g'.line = some (g'.before ++ '{' :: g'.inner, g'.after) := splitLast_eq h'.last
  rw [he, hclose', Option.some.injEq, Prod.mk.injEq] at hclose
  have hopen : splitLast '{' (g.before ++ '{' :: g.inner) = some (g.before, g.inner) :=
    splitLast_eq (h.not_mem_inner (by decide) (by decide))
  rw [← hclose.1, splitLast_eq (h'.not_mem_inner (by decide) (by decide)), Option.some.injEq, Prod.mk.injEq] at hopen
  exact ⟨hclose.2.symm, hopen.2.symm⟩

/-- A line that ends in a marker is cut at a pair that is not loose. -/
theorem endsInMarker_iff {line : List Char} {n : Nat} :
    EndsInMarker line n ↔ ∃ g : BraceGroup, g.Valid ∧ ¬ g.Loose ∧ g.line = line ∧ g.value = n := by
  constructor
  · rintro ⟨before, digits, plus, rfl, hplus, hne, hdigits, rfl, hle⟩
    refine ⟨⟨before, [], digits, plus, []⟩, ⟨List.not_mem_nil, .inl rfl, hne, hdigits, ?_, hle⟩, ?_, rfl, rfl⟩
    · rcases hplus with rfl | rfl
      · nofun
      · exact fun c hc => List.mem_singleton.1 hc
    · rcases hplus with rfl | rfl <;> simp [BraceGroup.Loose]
  · rintro ⟨⟨before, sign, digits, pluses, after⟩, h, hstrict, rfl, rfl⟩
    simp only [BraceGroup.Loose, not_or, not_not, not_le] at hstrict
    obtain ⟨rfl, rfl, hlen⟩ := hstrict
    refine ⟨before, digits, pluses, rfl, ?_, h.digits_ne, h.digits, rfl, h.fits⟩
    match pluses, hlen, h.pluses with
    | [], _, _ => exact .inl rfl
    | [c], _, hp => exact .inr (by rw [hp c (List.mem_singleton_self c)])

theorem BraceGroup.Valid.dropWhile_digits {g : BraceGroup} (h : g.Valid) :
    (g.digits ++ g.pluses).dropWhile Char.isDigit = g.pluses := by
  rw [List.dropWhile_append_of_pos h.digits]
  cases hp : g.pluses with
  | nil => rfl
  | cons c pluses =>
    have hc : c = '+' := h.pluses c (by rw [hp]; exact List.mem_cons_self)
    rw [List.dropWhile_cons, hc, if_neg (by decide)]

/-- A pair is loose in every valid cut of a line or in none. -/
theorem BraceGroup.Valid.loose_of_eq {g g' : BraceGroup} (h : g.Valid) (h' : g'.Valid) (he : g.line = g'.line)
    (hloose : g.Loose) : g'.Loose := by
  obtain ⟨hafter, hinner⟩ := h.inner_eq h' he
  by_contra hstrict
  simp only [Loose, not_or, not_not, not_le] at hstrict
  obtain ⟨hnil, hsign', hlen⟩ := hstrict
  simp only [inner, hsign', List.nil_append] at hinner
  have hsign : g.sign = [] := by
    refine h.sign.resolve_right fun hplus => ?_
    -- The sign would be the first of the digits.
    obtain ⟨d, ds, hd⟩ := List.exists_cons_of_ne_nil h'.digits_ne
    have hdigit := h'.digits d (by rw [hd]; exact List.mem_cons_self)
    rw [hplus, hd] at hinner
    rw [← (List.cons.inj hinner).1] at hdigit
    cases hdigit
  rcases hloose with hne | hsome | hlong
  · exact hne (hafter.trans hnil)
  · exact hsome hsign
  · rw [hsign, List.nil_append] at hinner
    have hpluses := congrArg (List.dropWhile Char.isDigit) hinner
    rw [h.dropWhile_digits, h'.dropWhile_digits] at hpluses
    rw [hpluses] at hlong
    omega

/-- The last pair of braces of the line is one that only the looser spellings allow. -/
def LooseMarker (line : List Char) : Prop := ∃ g : BraceGroup, g.Valid ∧ g.Loose ∧ g.line = line

/-- `parse_literal_marker` recognises exactly the lines that end in a marker, with its number, unless
the line goes on after its last pair of braces or there is a sign or more than one plus in it. -/
theorem parseLiteralMarker_exact_iff (line : List Char) :
    (∀ n, parseLiteralMarker line = some n ↔ EndsInMarker line n) ↔ ¬ LooseMarker line := by
  constructor
  · rintro hexact ⟨g, h, hloose, rfl⟩
    obtain ⟨g', h', hstrict, he, -⟩ := endsInMarker_iff.1 ((hexact g.value).1 h.parse)
    exact hstrict (h.loose_of_eq h' he.symm hloose)
  · intro hno n
    rw [endsInMarker_iff]
    constructor
    · intro h
      obtain ⟨g, hg, hline, hn⟩ := parseLiteralMarker_some h
      exact ⟨g, hg, fun hloose => hno ⟨g, hg, hloose, hline⟩, hline, hn⟩
    · rintro ⟨g, hg, -, rfl, rfl⟩
      exact hg.parse

/-- Braces within the text of a response. -/
theorem braces_in_text : parseLiteralMarker "OK \x7b5\x7d octets".toList = some 5 ∧
    ¬ EndsInMarker "OK \x7b5\x7d octets".toList 5 := by
  refine ⟨by decide, ?_⟩
  rintro ⟨before, digits, plus, hline, -⟩
  have hlast := congrArg List.getLast? hline
  rw [List.getLast?_append_of_ne_nil _ (List.cons_ne_nil _ _)] at hlast
  exact absurd hlast (by decide)

end Sieve

end Thundercrab
