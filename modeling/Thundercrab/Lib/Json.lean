/-
JSON values with insertion-ordered objects: member lookup, values whose objects have distinct
keys, equality up to the order of object keys, and the key-sorted form of a value. The key-sorted
form is equal to the value up to key order, so whatever reads objects by key alone reads the same
from both.
-/
import Mathlib.Data.List.Nodup
import Mathlib.Data.List.Sort
import Mathlib.Data.String.Basic

namespace Lib.Json

/-- A JSON value. Its numbers are the integers unless another type is given; an object keeps its
members in insertion order. -/
inductive Value (N : Type := Int) where
  | null
  | bool (b : Bool)
  | num (n : N)
  | str (s : String)
  | arr (items : List (Value N))
  | obj (members : List (String × Value N))

abbrev Members (N : Type := Int) := List (String × Value N)

variable {N : Type}

/-- The value stored under a key. -/
def Members.get (k : String) : Members N → Option (Value N)
  | [] => none
  | (k', v) :: m => if k' = k then some v else Members.get k m

/-- Insertion of a key: a present key keeps its place and gets the new value, an absent one is
added at the end. -/
def Members.insert (k : String) (v : Value N) : Members N → Members N
  | [] => [(k, v)]
  | (k', v') :: m => if k' = k then (k, v) :: m else (k', v') :: Members.insert k v m

/-- The keys of an object in order. -/
def Members.keys (m : Members N) : List String := m.map Prod.fst

mutual
/-- Every object of the value has distinct keys. -/
def Value.WF : Value N → Prop
  | .arr vs => WFItems vs
  | .obj m => (Members.keys m).Nodup ∧ WFMembers m
  | _ => True
def WFItems : List (Value N) → Prop
  | [] => True
  | v :: vs => v.WF ∧ WFItems vs
def WFMembers : List (String × Value N) → Prop
  | [] => True
  | (_, v) :: m => v.WF ∧ WFMembers m
end

mutual
/-- How deep arrays and objects nest in the value. -/
def Value.depth : Value N → Nat
  | .arr vs => depthItems vs + 1
  | .obj m => depthMembers m + 1
  | _ => 0
def depthItems : List (Value N) → Nat
  | [] => 0
  | v :: vs => max v.depth (depthItems vs)
def depthMembers : List (String × Value N) → Nat
  | [] => 0
  | (_, v) :: m => max v.depth (depthMembers m)
end

/-! ## Lookup -/

theorem Members.get_mem {k : String} {v : Value N} : ∀ {m : Members N}, Members.get k m = some v → (k, v) ∈ m
  | (k', v') :: m, h => by
    unfold Members.get at h
    split at h
    · rename_i hk; cases h; subst hk; exact List.mem_cons_self ..
    · exact List.mem_cons_of_mem _ (get_mem h)

theorem Members.get_of_mem {k : String} {v : Value N} : ∀ {m : Members N}, (Members.keys m).Nodup →
    (k, v) ∈ m → Members.get k m = some v
  | (k', v') :: m, hn, h => by
    simp only [Members.keys, List.map_cons, List.nodup_cons] at hn
    unfold Members.get
    rcases List.mem_cons.1 h with h | h
    · cases h; rw [if_pos rfl]
    · have hne : k' ≠ k := fun e => hn.1 (List.mem_map.2 ⟨(k, v), h, e.symm⟩)
      rw [if_neg hne]; exact get_of_mem hn.2 h

/-- With distinct keys, lookup does not depend on the order of the members. -/
theorem Members.get_perm {m m' : Members N} (hn : (Members.keys m).Nodup) (hp : m.Perm m') (k : String) :
    Members.get k m = Members.get k m' := by
  have hn' : (Members.keys m').Nodup := (hp.map Prod.fst).nodup_iff.1 hn
  cases h : Members.get k m with
  | some v => exact (get_of_mem hn' (hp.mem_iff.1 (get_mem h))).symm
  | none =>
    cases h' : Members.get k m' with
    | none => rfl
    | some v => rw [get_of_mem hn (hp.mem_iff.2 (get_mem h'))] at h; cases h

/-! ## Equality up to key order -/

mutual
/-- The two values are equal up to the order of object members at any depth. -/
def Value.Same : Value N → Value N → Prop
  | .arr vs, w => ∃ ws, w = .arr ws ∧ SameItems vs ws
  | .obj m, w => ∃ m₁ m₂, w = .obj m₂ ∧ SameMembers m m₁ ∧ m₁.Perm m₂
  | v, w => w = v
def SameItems : List (Value N) → List (Value N) → Prop
  | [], ws => ws = []
  | v :: vs, ws => ∃ w ws', ws = w :: ws' ∧ v.Same w ∧ SameItems vs ws'
def SameMembers : List (String × Value N) → List (String × Value N) → Prop
  | [], m' => m' = []
  | (k, v) :: m, m' => ∃ w rest, m' = (k, w) :: rest ∧ v.Same w ∧ SameMembers m rest
end

mutual
theorem Value.Same.refl : ∀ v : Value N, v.Same v
  | .null => rfl
  | .bool _ => rfl
  | .num _ => rfl
  | .str _ => rfl
  | .arr vs => ⟨vs, rfl, sameItems_refl vs⟩
  | .obj m => ⟨m, m, rfl, sameMembers_refl m, List.Perm.refl _⟩
theorem sameItems_refl : ∀ vs : List (Value N), SameItems vs vs
  | [] => rfl
  | v :: vs => ⟨v, vs, rfl, .refl v, sameItems_refl vs⟩
theorem sameMembers_refl : ∀ m : List (String × Value N), SameMembers m m
  | [] => rfl
  | (_, v) :: m => ⟨v, m, rfl, .refl v, sameMembers_refl m⟩
end

theorem sameMembers_keys : ∀ {m m' : Members N}, SameMembers m m' → Members.keys m' = Members.keys m
  | [], m', h => by rw [show m' = [] from h]
  | (k, v) :: m, m', h => by
    obtain ⟨w, rest, rfl, -, hr⟩ := h
    simp only [Members.keys, List.map_cons, List.cons.injEq, true_and]
    exact sameMembers_keys hr

theorem sameMembers_get {k : String} : ∀ {m m' : Members N}, SameMembers m m' →
    ∀ {v : Value N}, Members.get k m = some v → ∃ w, Members.get k m' = some w ∧ v.Same w
  | (k', v') :: m, m', h, v, hg => by
    obtain ⟨w, rest, rfl, hv, hr⟩ := h
    unfold Members.get at hg ⊢
    split at hg
    · rename_i hk; cases hg; exact ⟨w, by rw [if_pos hk], hv⟩
    · rename_i hk; rw [if_neg hk]; exact sameMembers_get hr hg

/-- An object that has every member of `m` up to key order, each found under its own key. -/
def HasMembers (m m' : Members N) : Prop :=
  ∀ k v, Members.get k m = some v → ∃ v', Members.get k m' = some v' ∧ v.Same v'

/-- A member of an object is found under its key in every object that is equal to it up to key
order. -/
theorem same_obj_get {m : Members N} {w : Value N} (hn : (Members.keys m).Nodup) (h : (Value.obj m).Same w) :
    ∃ m', w = .obj m' ∧ HasMembers m m' := by
  obtain ⟨m₁, m₂, rfl, hs, hp⟩ := h
  refine ⟨m₂, rfl, fun k v hg => ?_⟩
  obtain ⟨v', hv', hsv⟩ := sameMembers_get hs hg
  rw [Members.get_perm (by rw [sameMembers_keys hs]; exact hn) hp] at hv'
  exact ⟨v', hv', hsv⟩

/-! ## The key-sorted form -/

/-- The members sorted by key (stably) and inserted one by one into an empty object. -/
def Members.rebuild (m : Members N) : Members N :=
  (m.insertionSort fun a b => a.1 ≤ b.1).foldl (fun out e => Members.insert e.1 e.2 out) []

mutual
/-- The value with the members of every object sorted by key, at every depth. -/
def Value.sortKeys : Value N → Value N
  | .obj m => .obj (Members.rebuild (sortKeysMembers m))
  | .arr vs => .arr (sortKeysItems vs)
  | v => v
def sortKeysItems : List (Value N) → List (Value N)
  | [] => []
  | v :: vs => v.sortKeys :: sortKeysItems vs
def sortKeysMembers : List (String × Value N) → List (String × Value N)
  | [] => []
  | (k, v) :: m => (k, v.sortKeys) :: sortKeysMembers m
end

theorem Members.insert_absent {k : String} {v : Value N} : ∀ {m : Members N}, k ∉ Members.keys m →
    Members.insert k v m = m ++ [(k, v)]
  | [], _ => rfl
  | (k', v') :: m, h => by
    simp only [Members.keys, List.map_cons, List.mem_cons, not_or] at h
    unfold Members.insert
    rw [if_neg (Ne.symm h.1), insert_absent h.2, List.cons_append]

theorem Members.foldl_insert : ∀ {m acc : Members N}, (Members.keys (acc ++ m)).Nodup →
    m.foldl (fun out e => Members.insert e.1 e.2 out) acc = acc ++ m
  | [], acc, _ => by simp
  | (k, v) :: m, acc, h => by
    have hk : k ∉ Members.keys acc := by
      simp only [Members.keys, List.map_append, List.map_cons] at h
      exact fun hmem => (List.nodup_append.1 h).2.2 k hmem k (List.mem_cons_self ..) rfl
    rw [List.foldl_cons, insert_absent hk, foldl_insert (by simpa using h), List.append_assoc,
      List.singleton_append]

/-- With distinct keys, rebuilding is sorting. -/
theorem Members.rebuild_eq {m : Members N} (hn : (Members.keys m).Nodup) :
    Members.rebuild m = m.insertionSort fun a b => a.1 ≤ b.1 := by
  unfold Members.rebuild
  rw [foldl_insert]
  · rfl
  · exact (((List.perm_insertionSort _ m).map Prod.fst).nodup_iff).2 hn

theorem Members.rebuild_perm {m : Members N} (hn : (Members.keys m).Nodup) : m.Perm (Members.rebuild m) := by
  rw [rebuild_eq hn]; exact (List.perm_insertionSort _ m).symm

theorem sortKeysMembers_keys : ∀ m : Members N, Members.keys (sortKeysMembers m) = Members.keys m
  | [] => rfl
  | (k, v) :: m => by
    simp only [sortKeysMembers, Members.keys, List.map_cons, List.cons.injEq, true_and]
    exact sortKeysMembers_keys m

mutual
/-- Sorting keys changes a value only up to key order. -/
theorem same_sortKeys : ∀ v : Value N, v.WF → v.Same v.sortKeys
  | .null, _ => rfl
  | .bool _, _ => rfl
  | .num _, _ => rfl
  | .str _, _ => rfl
  | .arr vs, h => ⟨sortKeysItems vs, rfl, sameItems_sortKeys vs h⟩
  | .obj m, h => ⟨sortKeysMembers m, Members.rebuild (sortKeysMembers m), rfl, sameMembers_sortKeys m h.2,
      Members.rebuild_perm (by rw [sortKeysMembers_keys]; exact h.1)⟩
theorem sameItems_sortKeys : ∀ vs : List (Value N), WFItems vs → SameItems vs (sortKeysItems vs)
  | [], _ => rfl
  | v :: vs, h => ⟨v.sortKeys, sortKeysItems vs, rfl, same_sortKeys v h.1, sameItems_sortKeys vs h.2⟩
theorem sameMembers_sortKeys : ∀ m : List (String × Value N), WFMembers m → SameMembers m (sortKeysMembers m)
  | [], _ => rfl
  | (_, v) :: m, h => ⟨v.sortKeys, sortKeysMembers m, rfl, same_sortKeys v h.1, sameMembers_sortKeys m h.2⟩
end

theorem wfMembers_iff : ∀ {m : Members N}, WFMembers m ↔ ∀ p ∈ m, p.2.WF
  | [] => by simp [WFMembers]
  | (k, v) :: m => by simp [WFMembers, wfMembers_iff (m := m)]

mutual
/-- The key-sorted form has distinct keys again. -/
theorem wf_sortKeys : ∀ v : Value N, v.WF → v.sortKeys.WF
  | .null, _ => trivial
  | .bool _, _ => trivial
  | .num _, _ => trivial
  | .str _, _ => trivial
  | .arr vs, h => wfItems_sortKeys vs h
  | .obj m, h => by
    have hn : (Members.keys (sortKeysMembers m)).Nodup := by rw [sortKeysMembers_keys]; exact h.1
    have hp := Members.rebuild_perm hn
    refine ⟨(hp.map Prod.fst).nodup_iff.1 hn, wfMembers_iff.2 fun p hpm => ?_⟩
    exact wfMembers_iff.1 (wfMembers_sortKeys m h.2) p (hp.mem_iff.2 hpm)
theorem wfItems_sortKeys : ∀ vs : List (Value N), WFItems vs → WFItems (sortKeysItems vs)
  | [], _ => trivial
  | v :: vs, h => ⟨wf_sortKeys v h.1, wfItems_sortKeys vs h.2⟩
theorem wfMembers_sortKeys : ∀ m : List (String × Value N), WFMembers m → WFMembers (sortKeysMembers m)
  | [], _ => trivial
  | (_, v) :: m, h => ⟨wf_sortKeys v h.1, wfMembers_sortKeys m h.2⟩
end

end Lib.Json
