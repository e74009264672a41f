/-
Octets as the digits of one number, the most significant first. A bound that ends in zero digits is
decided by the first octet.
-/
import Thundercrab.Lib.Bytes
import Mathlib.Data.Nat.Digits.Defs

namespace Lib

/-- The number whose octets these are. -/
def bigEndian (b : Bytes) : Nat := Nat.ofDigits 256 (octets b).reverse

theorem bigEndian_cons (n : UInt8) (b : Bytes) : bigEndian (n :: b) = n.toNat * 256 ^ b.length + bigEndian b := by
  unfold bigEndian octets
  rw [List.map_cons, Nat.ofDigits_reverse_cons, List.length_map, Nat.mul_comm, Nat.add_comm]

theorem bigEndian_lt (b : Bytes) : bigEndian b < 256 ^ b.length := by
  have hdigits : ∀ d ∈ (octets b).reverse, d < 256 := by
    intro d hd
    obtain ⟨n, -, rfl⟩ := List.mem_map.1 (List.mem_reverse.1 hd)
    exact n.toNat_lt
  have hlen : (octets b).reverse.length = b.length := by rw [List.length_reverse, octets, List.length_map]
  rw [← hlen]
  exact Nat.ofDigits_lt_base_pow_length (by omega) hdigits

theorem bigEndian_cons_lt {n : UInt8} {b : Bytes} {k : Nat} :
    bigEndian (n :: b) < k * 256 ^ b.length ↔ n.toNat < k := by
  have hb := bigEndian_lt b
  rw [bigEndian_cons]
  constructor
  · intro h
    by_contra hk
    have := Nat.mul_le_mul_right (256 ^ b.length) (Nat.not_lt.1 hk)
    omega
  · intro h
    have := Nat.mul_le_mul_right (256 ^ b.length) h
    rw [Nat.succ_mul] at this
    omega

end Lib
