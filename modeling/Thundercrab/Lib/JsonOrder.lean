/-
The key-sorted form of a JSON value as a canonical form: two values whose objects have distinct keys
have one key-sorted form exactly when they are equal up to the order of object members at any depth.
-/
import Thundercrab.Lib.Json
import Mathlib.Data.List.Perm.Basic

namespace Lib.Json

variable {N : Type}

/-! ## Sorted members -/

mutual
/-- The keys of every object of the value are strictly increasing. -/
def Value.Sorted : Value N → Prop
  | .arr vs => SortedItems vs
  | .obj m => (Members.keys m).Pairwise (· < ·) ∧ SortedMembers m
  | _ => True
def SortedItems : List (Value N) → Prop
  | [] => True
  | v :: vs => v.Sorted ∧ SortedItems vs
def SortedMembers : List (String × Value N) → Prop
  | [] => True
  | (_, v) :: m => v.Sorted ∧ SortedMembers m
end

instance : Std.Total fun a b : String × Value N => a.1 ≤ b.1 := ⟨fun a b => le_total a.1 b.1⟩

instance : IsTrans (String × Value N) fun a b => a.1 ≤ b.1 := ⟨fun _ _ _ => le_trans⟩

/-- Rebuilt members stand in the strict order of their keys. -/
theorem Members.rebuild_pairwise {m : Members N} (hn : (Members.keys m).Nodup) :
    (Members.rebuild m).Pairwise fun a b => a.1 < b.1 := by
  have hle : (Members.rebuild m).Pairwise fun a b => a.1 ≤ b.1 := by
    rw [Members.rebuild_eq hn]
    exact List.pairwise_insertionSort _ m
  have hne : (Members.rebuild m).Pairwise fun a b => a.1 ≠ b.1 :=
    List.pairwise_map.1 (((Members.rebuild_perm hn).map Prod.fst).nodup_iff.1 hn)
  exact hle.imp₂ (fun _ _ h hne => lt_of_le_of_ne h hne) hne

/-- Rebuilding forgets the order of the members and nothing else. -/
theorem Members.rebuild_eq_iff {m m' : Members N} (hn : (Members.keys m).Nodup) (hn' : (Members.keys m').Nodup) :
    Members.rebuild m = Members.rebuild m' ↔ m.Perm m' := by
  constructor
  · intro h
    exact (Members.rebuild_perm hn).trans (h ▸ (Members.rebuild_perm hn').symm)
  · intro h
    refine List.Perm.eq_of_pairwise (fun a b _ _ hab hba => absurd hba (lt_asymm hab)) (Members.rebuild_pairwise hn)
      (Members.rebuild_pairwise hn') ?_
    exact (Members.rebuild_perm hn).symm.trans (h.trans (Members.rebuild_perm hn'))

theorem sortedMembers_iff : ∀ {m : Members N}, SortedMembers m ↔ ∀ p ∈ m, p.2.Sorted
  | [] => by simp [SortedMembers]
  | (k, v) :: m => by simp [SortedMembers, sortedMembers_iff (m := m)]

mutual
theorem sorted_sortKeys : ∀ v : Value N, v.WF → v.sortKeys.Sorted
  | .null, _ => trivial
  | .bool _, _ => trivial
  | .num _, _ => trivial
  | .str _, _ => trivial
  | .arr vs, h => sortedItems_sortKeys vs h
  | .obj m, h => by
    have hn : (Members.keys (sortKeysMembers m)).Nodup := by rw [sortKeysMembers_keys]; exact h.1
    refine ⟨List.pairwise_map.2 (Members.rebuild_pairwise hn), sortedMembers_iff.2 fun p hp => ?_⟩
    exact sortedMembers_iff.1 (sortedMembers_sortKeys m h.2) p ((Members.rebuild_perm hn).mem_iff.2 hp)
theorem sortedItems_sortKeys : ∀ vs : List (Value N), WFItems vs → SortedItems (sortKeysItems vs)
  | [], _ => trivial
  | v :: vs, h => ⟨sorted_sortKeys v h.1, sortedItems_sortKeys vs h.2⟩
theorem sortedMembers_sortKeys : ∀ m : List (String × Value N), WFMembers m → SortedMembers (sortKeysMembers m)
  | [], _ => trivial
  | (_, v) :: m, h => ⟨sorted_sortKeys v h.1, sortedMembers_sortKeys m h.2⟩
end

/-! ## One form for all orders -/

theorem sortKeysMembers_eq_map : ∀ m : Members N, sortKeysMembers m = m.map fun p => (p.1, p.2.sortKeys)
  | [] => rfl
  | (k, v) :: m => by rw [sortKeysMembers, List.map_cons, sortKeysMembers_eq_map m]

mutual
/-- Values equal up to key order have one key-sorted form. -/
theorem sortKeys_of_same : ∀ {v w : Value N}, v.WF → v.Same w → v.sortKeys = w.sortKeys
  | .null, _, _, h => by rw [show _ = Value.null from h]
  | .bool b, _, _, h => by rw [show _ = Value.bool b from h]
  | .num n, _, _, h => by rw [show _ = Value.num n from h]
  | .str s, _, _, h => by rw [show _ = Value.str s from h]
  | .arr vs, w, hv, h => by
    obtain ⟨ws, rfl, hs⟩ := h
    exact congrArg Value.arr (sortKeysItems_of_same hv hs)
  | .obj m, w, hv, h => by
    obtain ⟨m₁, m₂, rfl, hs, hp⟩ := h
    have hn : (Members.keys (sortKeysMembers m)).Nodup := by rw [sortKeysMembers_keys]; exact hv.1
    have hperm : (sortKeysMembers m).Perm (sortKeysMembers m₂) := by
      rw [sortKeysMembers_of_same hv.2 hs, sortKeysMembers_eq_map, sortKeysMembers_eq_map]
      exact hp.map _
    exact congrArg Value.obj
      ((Members.rebuild_eq_iff hn ((hperm.map Prod.fst).nodup_iff.1 hn)).2 hperm)
theorem sortKeysItems_of_same : ∀ {vs ws : List (Value N)}, WFItems vs → SameItems vs ws →
    sortKeysItems vs = sortKeysItems ws
  | [], ws, _, h => by rw [show ws = [] from h]
  | v :: vs, ws, hv, h => by
    obtain ⟨w, ws', rfl, hw, hs⟩ := h
    rw [sortKeysItems, sortKeysItems, sortKeys_of_same hv.1 hw, sortKeysItems_of_same hv.2 hs]
theorem sortKeysMembers_of_same : ∀ {m m' : List (String × Value N)}, WFMembers m → SameMembers m m' →
    sortKeysMembers m = sortKeysMembers m'
  | [], m', _, h => by rw [show m' = [] from h]
  | (k, v) :: m, m', hv, h => by
    obtain ⟨w, rest, rfl, hw, hs⟩ := h
    rw [sortKeysMembers, sortKeysMembers, sortKeys_of_same hv.1 hw, sortKeysMembers_of_same hv.2 hs]
end

/-- A list in the order of the image of another is the image of that one in some order. -/
theorem exists_map_of_perm {α β : Type} {f : α → β} {l : List β} {l' : List α} (h : l.Perm (l'.map f)) :
    ∃ l₁ : List α, l = l₁.map f ∧ l₁.Perm l' := by
  have hcomp := congrFun (congrFun (List.eq_map_comp_perm f) l) l'
  exact hcomp.mpr h

mutual
/-- Values with one key-sorted form are equal up to key order. -/
theorem same_of_sortKeys : ∀ {v w : Value N}, v.WF → w.WF → v.sortKeys = w.sortKeys → v.Same w
  | .null, w, _, _, h => by cases w <;> first | rfl | cases h
  | .bool _, w, _, _, h => by cases w <;> first | exact h.symm | cases h
  | .num _, w, _, _, h => by cases w <;> first | exact h.symm | cases h
  | .str _, w, _, _, h => by cases w <;> first | exact h.symm | cases h
  | .arr vs, w, hv, hw, h => by
    cases w with
    | arr ws => exact ⟨ws, rfl, sameItems_of_sortKeys hv hw (Value.arr.inj h)⟩
    | _ => cases h
  | .obj m, w, hv, hw, h => by
    cases w with
    | obj m' =>
      have hn : (Members.keys (sortKeysMembers m)).Nodup := by rw [sortKeysMembers_keys]; exact hv.1
      have hn' : (Members.keys (sortKeysMembers m')).Nodup := by rw [sortKeysMembers_keys]; exact hw.1
      have hperm := (Members.rebuild_eq_iff hn hn').1 (Value.obj.inj h)
      rw [sortKeysMembers_eq_map m'] at hperm
      -- The members of the one in the order of the other.
      obtain ⟨m₁, he, hp⟩ := exists_map_of_perm hperm
      rw [← sortKeysMembers_eq_map] at he
      have hw₁ : WFMembers m₁ := wfMembers_iff.2 fun p hpm => wfMembers_iff.1 hw.2 p (hp.mem_iff.1 hpm)
      exact ⟨m₁, m', rfl, sameMembers_of_sortKeys hv.2 hw₁ he, hp⟩
    | _ => cases h
theorem sameItems_of_sortKeys : ∀ {vs ws : List (Value N)}, WFItems vs → WFItems ws →
    sortKeysItems vs = sortKeysItems ws → SameItems vs ws
  | [], [], _, _, _ => rfl
  | [], _ :: _, _, _, h => by cases h
  | _ :: _, [], _, _, h => by cases h
  | v :: vs, w :: ws, hv, hw, h => by
    rw [sortKeysItems, sortKeysItems, List.cons.injEq] at h
    exact ⟨w, ws, rfl, same_of_sortKeys hv.1 hw.1 h.1, sameItems_of_sortKeys hv.2 hw.2 h.2⟩
theorem sameMembers_of_sortKeys : ∀ {m m' : List (String × Value N)}, WFMembers m → WFMembers m' →
    sortKeysMembers m = sortKeysMembers m' → SameMembers m m'
  | [], [], _, _, _ => rfl
  | [], _ :: _, _, _, h => by cases h
  | _ :: _, [], _, _, h => by cases h
  | (k, v) :: m, (k', w) :: m', hv, hw, h => by
    rw [sortKeysMembers, sortKeysMembers, List.cons.injEq, Prod.mk.injEq] at h
    obtain ⟨⟨rfl, hvw⟩, hm⟩ := h
    exact ⟨w, m', rfl, same_of_sortKeys hv.1 hw.1 hvw, sameMembers_of_sortKeys hv.2 hw.2 hm⟩
end

/-- The key-sorted form is a canonical form for equality up to key order. -/
theorem sortKeys_eq_iff {v w : Value N} (hv : v.WF) (hw : w.WF) : v.sortKeys = w.sortKeys ↔ v.Same w :=
  ⟨same_of_sortKeys hv hw, sortKeys_of_same hv⟩

theorem sortKeys_idem {v : Value N} (hv : v.WF) : v.sortKeys.sortKeys = v.sortKeys :=
  (sortKeys_of_same hv (same_sortKeys v hv)).symm

end Lib.Json
