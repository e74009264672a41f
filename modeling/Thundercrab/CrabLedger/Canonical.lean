/-
The two copies of `sort_value`, in `ledger.rs` where the encoding is signed and hashed and in
`api.rs` where it is stored: one canonical form of a JSON value, whatever its numbers are.
-/
import Thundercrab.CrabLedger.Api
import Thundercrab.Lib.JsonOrder

namespace Thundercrab

open Lib Lib.Json

/-- Two values have one sorted form exactly when they are equal up to the order of object keys at any
depth. The sorted form is its own sorted form, equal to the value up to key order, and has strictly
increasing keys in every object. The two copies agree. -/
theorem sortValue_canonical {N : Type} (v w : Value N) (hv : v.WF) (hw : w.WF) :
    (Ledger.sortValue v = Ledger.sortValue w ↔ v.Same w) ∧
    Ledger.sortValue (Ledger.sortValue v) = Ledger.sortValue v ∧
    v.Same (Ledger.sortValue v) ∧
    (Ledger.sortValue v).Sorted ∧
    Api.sortValue v = Ledger.sortValue v :=
  ⟨sortKeys_eq_iff hv hw, sortKeys_idem hv, same_sortKeys v hv, sorted_sortKeys v hv, rfl⟩

/-- An object in an array in an object, with its keys in two orders. -/
def nestedValue : Value := .obj [("b", .arr [.obj [("y", .num 1), ("x", .null)]]), ("a", .bool true)]

def nestedReordered : Value := .obj [("a", .bool true), ("b", .arr [.obj [("x", .null), ("y", .num 1)]])]

theorem nestedValue_wf : nestedValue.WF :=
  ⟨(by decide : ["b", "a"].Nodup), ⟨⟨(by decide : ["y", "x"].Nodup), trivial, trivial, trivial⟩, trivial⟩, trivial,
    trivial⟩

theorem nestedReordered_wf : nestedReordered.WF :=
  ⟨(by decide : ["a", "b"].Nodup), trivial, ⟨⟨(by decide : ["x", "y"].Nodup), trivial, trivial, trivial⟩, trivial⟩,
    trivial⟩

theorem nestedValue_same : nestedValue.Same nestedReordered := by
  have hinner : (Value.obj [("y", .num 1), ("x", .null)]).Same (.obj [("x", .null), ("y", .num (1 : Int))]) :=
    ⟨_, _, rfl, sameMembers_refl _, List.Perm.swap ..⟩
  exact ⟨_, _, rfl, ⟨_, _, rfl, ⟨_, rfl, _, _, rfl, hinner, rfl⟩, sameMembers_refl _⟩, List.Perm.swap ..⟩

theorem nestedValue_sortValue : Ledger.sortValue nestedValue = Ledger.sortValue nestedReordered :=
  (sortValue_canonical nestedValue nestedReordered nestedValue_wf nestedReordered_wf).1.2 nestedValue_same

end Thundercrab
