/-
Sequence sets of IMAP: numbers and ranges of numbers by which a command names messages of a mailbox
that come one after the other. A range is of the numbers between its two ends, in whichever order
these stand, and the star is the number of the last message.
-/
namespace Lib

inductive SeqNumber where
  | num (n : Nat)
  | last
  deriving DecidableEq

inductive SeqRange where
  | one (a : SeqNumber)
  | range (a b : SeqNumber)
  deriving DecidableEq

abbrev SequenceSet := List SeqRange

/-! ## Which numbers a range has -/

/-- The number in a mailbox of this size. -/
def SeqNumber.value (size : Nat) : SeqNumber → Nat
  | .num n => n
  | .last => size

/-- The number is one of the range. -/
def SeqRange.Has (size : Nat) (r : SeqRange) (k : Nat) : Prop :=
  match r with
  | .one a => k = a.value size
  | .range a b => min (a.value size) (b.value size) ≤ k ∧ k ≤ max (a.value size) (b.value size)

instance (size : Nat) (r : SeqRange) (k : Nat) : Decidable (r.Has size k) :=
  match r with
  | .one _ => inferInstanceAs (Decidable (_ = _))
  | .range _ _ => inferInstanceAs (Decidable (_ ∧ _))

/-! ## Numbers and ranges as text -/

/-- Numbers are those of 32 bits but zero. -/
def SeqNumber.Valid : SeqNumber → Prop
  | .num n => 0 < n ∧ n < 4294967296
  | .last => True

def SeqNumber.render : SeqNumber → List Char
  | .num n => Nat.toDigits 10 n
  | .last => ['*']

/-- A number has no leading zeros. -/
def SeqNumber.parse (cs : List Char) : Option SeqNumber :=
  let n := Nat.ofDigitChars 10 cs 0
  if cs = ['*'] then some .last
  else if 0 < n ∧ n < 4294967296 ∧ Nat.toDigits 10 n = cs then some (.num n)
  else none

def SeqRange.Valid : SeqRange → Prop
  | .one a => a.Valid
  | .range a b => a.Valid ∧ b.Valid

def SeqRange.render : SeqRange → List Char
  | .one a => a.render
  | .range a b => a.render ++ ':' :: b.render

def SeqRange.parse (cs : List Char) : Option SeqRange :=
  match cs.splitOn ':' with
  | [a] => return .one (← SeqNumber.parse a)
  | [a, b] => return .range (← SeqNumber.parse a) (← SeqNumber.parse b)
  | _ => none

theorem SeqNumber.not_mem_render (a : SeqNumber) {c : Char} (hd : c.isDigit = false) (hc : c ≠ '*') :
    c ∉ a.render := by
  intro hm
  cases a with
  | num n =>
    have := Nat.isDigit_of_mem_toDigits (by decide) (by decide) hm
    rw [hd] at this
    cases this
  | last => exact hc (List.mem_singleton.1 hm)

theorem SeqNumber.parse_render {a : SeqNumber} (h : a.Valid) : SeqNumber.parse a.render = some a := by
  cases a with
  | num n =>
    have hstar : Nat.toDigits 10 n ≠ ['*'] := by
      intro he
      have : Char.isDigit '*' := Nat.isDigit_of_mem_toDigits (by decide) (by decide) (he ▸ List.mem_singleton_self '*')
      cases this
    show SeqNumber.parse (Nat.toDigits 10 n) = _
    simp only [SeqNumber.parse, Nat.ofDigitChars_ten_toDigits, if_neg hstar, h.1, h.2, and_self, if_true]
  | last => rfl

theorem SeqRange.parse_render {r : SeqRange} (h : r.Valid) : SeqRange.parse r.render = some r := by
  have hcolon : ∀ a : SeqNumber, ':' ∉ a.render := fun a => a.not_mem_render (by decide) (by decide)
  cases r with
  | one a =>
    show SeqRange.parse a.render = _
    unfold SeqRange.parse
    rw [List.splitOn_eq_singleton (hcolon a)]
    simp only [SeqNumber.parse_render h]
    rfl
  | range a b =>
    show SeqRange.parse (a.render ++ ':' :: b.render) = _
    unfold SeqRange.parse
    rw [List.splitOn_append_cons_self_of_not_mem (hcolon a), List.splitOn_eq_singleton (hcolon b)]
    simp only [SeqNumber.parse_render h.1, SeqNumber.parse_render h.2]
    rfl

namespace SequenceSet

variable {α : Type} {S : SequenceSet}

/-! ## Which messages a set names -/

def Has (size : Nat) (S : SequenceSet) (k : Nat) : Prop := ∃ r ∈ S, r.Has size k

instance (size : Nat) (S : SequenceSet) (k : Nat) : Decidable (Has size S k) :=
  inferInstanceAs (Decidable (∃ r ∈ S, r.Has size k))

/-- The messages of the mailbox that the set names, in their order. -/
def select (S : SequenceSet) (box : List α) : List α :=
  (box.zipIdx 1).filterMap fun (m, k) => if Has box.length S k then some m else none

theorem filterMap_zipIdx (lo hi : Nat) : ∀ (s : Nat) (box : List α),
    ((box.zipIdx s).filterMap fun (m, k) => if lo ≤ k ∧ k ≤ hi then some m else none) =
      (box.take (hi + 1 - s)).drop (lo - s) := by
  intro s box
  induction box generalizing s with
  | nil => simp
  | cons m box ih =>
    rw [List.zipIdx_cons, List.filterMap_cons, ih]
    by_cases hlo : lo ≤ s
    · by_cases hhi : s ≤ hi
      · -- the message is in the range, and so is everything up to its upper end
        simp only [hlo, hhi, and_self, if_true]
        rw [show hi + 1 - s = hi + 1 - (s + 1) + 1 by omega, show lo - s = 0 by omega,
          show lo - (s + 1) = 0 by omega, List.take_succ_cons, List.drop_zero, List.drop_zero]
      · simp only [hhi, and_false, if_false]
        rw [show hi + 1 - s = 0 by omega, show hi + 1 - (s + 1) = 0 by omega, List.take_zero, List.take_zero,
          List.drop_nil, List.drop_nil]
    · simp only [hlo, false_and, if_false]
      rw [show lo - s = lo - (s + 1) + 1 by omega]
      by_cases hhi : s ≤ hi
      · rw [show hi + 1 - s = hi + 1 - (s + 1) + 1 by omega, List.take_succ_cons, List.drop_succ_cons]
      · rw [show hi + 1 - s = 0 by omega, show hi + 1 - (s + 1) = 0 by omega, List.take_zero, List.take_zero,
          List.drop_nil, List.drop_nil]

/-- A range names the messages from its smaller end to its larger one. -/
theorem select_range (a b : SeqNumber) (box : List α) :
    select [.range a b] box = (box.take (max (a.value box.length) (b.value box.length))).drop
      (min (a.value box.length) (b.value box.length) - 1) := by
  have h := filterMap_zipIdx (min (a.value box.length) (b.value box.length))
    (max (a.value box.length) (b.value box.length)) 1 box
  rw [Nat.add_sub_cancel] at h
  rw [← h]
  simp only [select, Has, List.mem_singleton, exists_eq_left, SeqRange.Has]

/-- From a message of the mailbox to the last one. -/
theorem select_suffix {n : Nat} {b : SeqNumber} {box : List α} (hb : b.value box.length = box.length)
    (hn : n ≤ box.length) : select [.range (.num n) b] box = box.drop (n - 1) := by
  rw [select_range, hb]
  show (box.take (max n box.length)).drop (min n box.length - 1) = _
  rw [Nat.max_eq_right hn, Nat.min_eq_left hn, List.take_length]

/-- All messages. -/
theorem select_all (box : List α) : select [.range (.num 1) .last] box = box := by
  by_cases hbox : box = []
  · rw [hbox]
    rfl
  · rw [select_suffix rfl (List.length_pos_iff.2 hbox), Nat.sub_self, List.drop_zero]

/-! ## The text of a set -/

def render (S : SequenceSet) : List Char := [','].intercalate (S.map SeqRange.render)

def parse (cs : List Char) : Option SequenceSet := (cs.splitOn ',').mapM SeqRange.parse

theorem comma_not_mem_render (r : SeqRange) : ',' ∉ r.render := by
  have hcomma : ∀ a : SeqNumber, ',' ∉ a.render := fun a => a.not_mem_render (by decide) (by decide)
  cases r with
  | one a => exact hcomma a
  | range a b =>
    intro hm
    rcases List.mem_append.1 hm with hm | hm
    · exact hcomma a hm
    · rcases List.mem_cons.1 hm with hm | hm
      · cases hm
      · exact hcomma b hm

theorem mapM_parse_render (h : ∀ r ∈ S, r.Valid) : (S.map SeqRange.render).mapM SeqRange.parse = some S := by
  induction S with
  | nil => rfl
  | cons r S ih =>
    rw [List.map_cons, List.mapM_cons, SeqRange.parse_render (h r List.mem_cons_self),
      ih fun r hr => h r (List.mem_cons_of_mem _ hr)]
    rfl

theorem parse_render (hne : S ≠ []) (h : ∀ r ∈ S, r.Valid) : parse (render S) = some S := by
  unfold parse render
  rw [List.splitOn_intercalate _ _ (by simpa using hne), mapM_parse_render h]
  intro l hl
  obtain ⟨r, -, rfl⟩ := List.mem_map.1 hl
  exact comma_not_mem_render r

end SequenceSet

end Lib
