/-
Counting by group: the distinct keys of a list, each with the number of its occurrences. The counts of
the groups that satisfy a condition add up to the number of keys that do, and of counts that are not
negative only one can be more than half of what they add up to.
-/
import Mathlib.Algebra.BigOperators.Group.List.Lemmas
import Mathlib.Algebra.Order.BigOperators.Group.List
import Mathlib.Algebra.Order.Group.Int
import Mathlib.Algebra.GroupWithZero.Nat
import Mathlib.Algebra.Ring.Int.Defs
import Mathlib.Data.List.Dedup

namespace Lib

variable {κ : Type} [DecidableEq κ]

/-- `SELECT k, COUNT(*) ... GROUP BY k` -/
def groupCounts (ks : List κ) : List (κ × Nat) := ks.dedup.map fun k => (k, ks.countP fun x => x = k)

theorem mem_groupCounts {ks : List κ} {k : κ} {n : Nat} :
    (k, n) ∈ groupCounts ks ↔ k ∈ ks ∧ n = ks.countP fun x => x = k := by
  unfold groupCounts
  rw [List.mem_map]
  constructor
  · rintro ⟨k', hk', h⟩
    cases h
    exact ⟨List.mem_dedup.1 hk', rfl⟩
  · rintro ⟨hk, rfl⟩
    exact ⟨k, List.mem_dedup.2 hk, rfl⟩

/-- Each key has one group. -/
theorem groupCounts_keys (ks : List κ) : (groupCounts ks).map Prod.fst = ks.dedup := by
  unfold groupCounts
  rw [List.map_map]
  exact List.map_id _

theorem sum_groupCounts_filter (p : κ → Bool) (ks : List κ) :
    (((groupCounts ks).filter fun g => p g.1).map Prod.snd).sum = ks.countP p := by
  unfold groupCounts
  rw [List.filter_map, List.map_map, ← List.sum_map_count_dedup_filter_eq_countP p ks]
  exact congrArg List.sum (List.map_congr_left fun k _ => List.countP_congr fun x _ => by simp)

/-! ## Shares of a sum -/

variable {ι : Type} [DecidableEq ι] {l : List ι} {f : ι → Int} {a b : ι}

theorem sum_eq_add_erase (ha : a ∈ l) : (l.map f).sum = f a + ((l.erase a).map f).sum := by
  rw [((List.perm_cons_erase ha).map f).sum_eq, List.map_cons, List.sum_cons]

/-- A part of a sum is at most the sum. -/
theorem le_sum (h : ∀ x ∈ l, 0 ≤ f x) (ha : a ∈ l) : f a ≤ (l.map f).sum := by
  have hrest : 0 ≤ ((l.erase a).map f).sum := by
    refine List.sum_nonneg fun n hn => ?_
    obtain ⟨x, hx, rfl⟩ := List.mem_map.1 hn
    exact h x (List.mem_of_mem_erase hx)
  rw [sum_eq_add_erase ha]
  omega

/-- Two parts of a sum are together at most the sum. -/
theorem add_le_sum (h : ∀ x ∈ l, 0 ≤ f x) (ha : a ∈ l) (hb : b ∈ l) (hne : a ≠ b) : f a + f b ≤ (l.map f).sum := by
  have hle : f b ≤ ((l.erase a).map f).sum :=
    le_sum (fun x hx => h x (List.mem_of_mem_erase hx)) ((List.mem_erase_of_ne hne.symm).2 hb)
  rw [sum_eq_add_erase ha]
  omega

/-- Only one part is more than half of the sum. -/
theorem majority_unique (h : ∀ x ∈ l, 0 ≤ f x) (ha : a ∈ l) (hb : b ∈ l) (hma : (l.map f).sum < 2 * f a)
    (hmb : (l.map f).sum < 2 * f b) : a = b := by
  by_contra hne
  have := add_le_sum h ha hb hne
  omega

end Lib
