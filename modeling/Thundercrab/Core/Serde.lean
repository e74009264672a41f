/-
What the crates use of `serde_json`: printing a value as compact text and parsing a text. The two
are parameters of the development, joined by the one law the code relies on, that parsing gives
back the printed value; `SerdeJson.compact` is a printer and parser that obeys it.
-/
import Thundercrab.Lib.JsonText
import Thundercrab.Lib.Bytes

namespace Thundercrab

open Lib Lib.Json

/-- `serde_json` on its `Value`: `to_string` and `from_str`. -/
structure SerdeJson where
  toString : Value → String
  fromStr : String → Option Value
  fromStr_toString : ∀ v : Value, v.WF → fromStr (toString v) = some v

/-- `serde_json::to_vec`: the UTF-8 octets of `to_string`. -/
def SerdeJson.toVec (J : SerdeJson) (v : Value) : Bytes := utf8 (J.toString v)

theorem SerdeJson.toString_inj (J : SerdeJson) {v w : Value} (hv : v.WF) (hw : w.WF)
    (h : J.toString v = J.toString w) : v = w := by
  have h1 := J.fromStr_toString v hv
  rw [h, J.fromStr_toString w hw] at h1
  exact (Option.some.inj h1).symm

/-- Compact text without blanks, as `serde_json` prints it. -/
def SerdeJson.compact : SerdeJson := ⟨Value.text, readText, fun v _ => readText_text v⟩

/-! ## Fixed-width integers -/

/-- `i32` -/
abbrev I32 := { n : Int // -2147483648 ≤ n ∧ n < 2147483648 }

/-- `i64` -/
abbrev I64 := { n : Int // -9223372036854775808 ≤ n ∧ n < 9223372036854775808 }

instance (a b : I32) : Decidable (a < b) := Int.decLt a.1 b.1

instance (a b : I32) : Decidable (a ≤ b) := Int.decLe a.1 b.1

instance (a b : I64) : Decidable (a < b) := Int.decLt a.1 b.1

instance (a b : I64) : Decidable (a ≤ b) := Int.decLe a.1 b.1

/-- `i64::MIN` -/
def I64.min : I64 := ⟨-9223372036854775808, by decide⟩

theorem I64.min_le (d : I64) : I64.min ≤ d := d.2.1

/-! ## Fixed-length octet arrays -/

/-- `[u8; 32]` -/
abbrev Bytes32 := { b : Bytes // b.length = 32 }

/-- `[u8; 64]` -/
abbrev Bytes64 := { b : Bytes // b.length = 64 }

/-- The numbers a `[u8; n]` is serialised as. -/
def u8Values (b : Bytes) : List Value := b.map fun x => .num x.toNat

theorem wfItems_u8Values : ∀ b : Bytes, WFItems (u8Values b)
  | [] => trivial
  | _ :: b => ⟨trivial, wfItems_u8Values b⟩

/-! ## Field access of a derived `Deserialize` -/

/-- A `String` field. -/
def strField (k : String) (m : Members) : Option String :=
  match Members.get k m with
  | some (.str s) => some s
  | _ => none

/-- A `bool` field. -/
def boolField (k : String) (m : Members) : Option Bool :=
  match Members.get k m with
  | some (.bool b) => some b
  | _ => none

/-- An `i32` field: a number out of range is refused. -/
def i32Field (k : String) (m : Members) : Option I32 :=
  match Members.get k m with
  | some (.num n) => if h : -2147483648 ≤ n ∧ n < 2147483648 then some ⟨n, h⟩ else none
  | _ => none

/-- An `i64` field: a number out of range is refused. -/
def i64Field (k : String) (m : Members) : Option I64 :=
  match Members.get k m with
  | some (.num n) => if h : -9223372036854775808 ≤ n ∧ n < 9223372036854775808 then some ⟨n, h⟩ else none
  | _ => none

/-- The items of an array of `u8`: numbers, each in range. -/
def u8Items : List Value → Option Bytes
  | [] => some []
  | .num n :: vs => if 0 ≤ n ∧ n < 256 then (u8Items vs).map (UInt8.ofNat n.toNat :: ·) else none
  | _ :: _ => none

/-- A `[u8; n]` field: an array of exactly `n` items. -/
def arrayField (n : Nat) (k : String) (m : Members) : Option { b : Bytes // b.length = n } :=
  match Members.get k m with
  | some (.arr vs) =>
    match u8Items vs with
    | some b => if h : b.length = n then some ⟨b, h⟩ else none
    | none => none
  | _ => none

/-- The items of an array of strings. -/
def strItems : List Value → Option (List String)
  | [] => some []
  | .str s :: vs => (strItems vs).map (s :: ·)
  | _ :: _ => none

/-- A `Vec<String>` field. -/
def strsField (k : String) (m : Members) : Option (List String) :=
  match Members.get k m with
  | some (.arr vs) => strItems vs
  | _ => none

section Fields

variable {m m' : Members} {k : String}

theorem strField_same (h : HasMembers m m') {s : String} (hs : Members.get k m = some (.str s)) :
    strField k m' = some s := by
  obtain ⟨v', hv', hsame⟩ := h k _ hs
  cases (show v' = .str s from hsame)
  unfold strField; rw [hv']

theorem boolField_same (h : HasMembers m m') {b : Bool} (hb : Members.get k m = some (.bool b)) :
    boolField k m' = some b := by
  obtain ⟨v', hv', hsame⟩ := h k _ hb
  cases (show v' = .bool b from hsame)
  unfold boolField; rw [hv']

theorem i32Field_same (h : HasMembers m m') {n : I32} (hn : Members.get k m = some (.num n.1)) :
    i32Field k m' = some n := by
  obtain ⟨v', hv', hsame⟩ := h k _ hn
  cases (show v' = .num n.1 from hsame)
  unfold i32Field; rw [hv']
  exact dif_pos n.2

theorem i64Field_same (h : HasMembers m m') {n : I64} (hn : Members.get k m = some (.num n.1)) :
    i64Field k m' = some n := by
  obtain ⟨v', hv', hsame⟩ := h k _ hn
  cases (show v' = .num n.1 from hsame)
  unfold i64Field; rw [hv']
  exact dif_pos n.2

theorem u8Items_same : ∀ {b : Bytes} {vs : List Value}, SameItems (u8Values b) vs → u8Items vs = some b
  | [], vs, h => by rw [show vs = [] from h]; rfl
  | x :: b, vs, h => by
    obtain ⟨w, rest, rfl, hw, hr⟩ := h
    cases (show w = .num x.toNat from hw)
    have hx : (0 : Int) ≤ x.toNat ∧ (x.toNat : Int) < 256 := by
      have := x.toNat_lt
      omega
    rw [u8Items, if_pos hx, u8Items_same hr, Int.toNat_natCast, UInt8.ofNat_toNat]; rfl

theorem arrayField_same (h : HasMembers m m') {n : Nat} {b : { b : Bytes // b.length = n }}
    (hb : Members.get k m = some (.arr (u8Values b.1))) : arrayField n k m' = some b := by
  obtain ⟨v', hv', hsame⟩ := h k _ hb
  obtain ⟨vs, rfl, hvs⟩ := hsame
  unfold arrayField; rw [hv']
  simp only [u8Items_same hvs]
  exact dif_pos b.2

theorem strItems_same : ∀ {ss : List String} {vs : List Value}, SameItems (ss.map .str) vs →
    strItems vs = some ss
  | [], vs, h => by rw [show vs = [] from h]; rfl
  | s :: ss, vs, h => by
    obtain ⟨w, rest, rfl, hw, hr⟩ := h
    cases (show w = .str s from hw)
    rw [strItems, strItems_same hr]; rfl

theorem strsField_same (h : HasMembers m m') {ss : List String}
    (hs : Members.get k m = some (.arr (ss.map .str))) : strsField k m' = some ss := by
  obtain ⟨v', hv', hsame⟩ := h k _ hs
  obtain ⟨vs, rfl, hvs⟩ := hsame
  unfold strsField; rw [hv']
  exact strItems_same hvs

end Fields

end Thundercrab
