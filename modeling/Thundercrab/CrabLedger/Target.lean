/-
`api.rs`, the proof of work as a bound on a number: a digest has as many leading zero bits as asked
for exactly when, read as a big-endian number, it is below the power of two that leaves them free.
-/
import Thundercrab.CrabLedger.Api
import Thundercrab.Lib.BigEndian

namespace Thundercrab

open Lib

namespace Api

/-- The leading zeros of one octet that is not zero. -/
theorem le_leadingZeros {b : UInt8} (hb : b ≠ 0) {d : Nat} (hd : d ≤ 8) :
    d ≤ leadingZeros b ↔ b.toNat < 2 ^ (8 - d) := by
  have hne : b.toNat ≠ 0 := fun h => hb (UInt8.toNat_inj.1 h)
  have hlog : Nat.log2 b.toNat < 8 := (Nat.log2_lt hne).2 b.toNat_lt
  unfold leadingZeros
  rw [← Nat.log2_lt hne]
  omega

/-- At least `d` leading zeros leave a number that the other bits hold. -/
theorem le_leadingZeroBits : ∀ (b : Bytes) {d : Nat}, d ≤ 8 * b.length →
    (d ≤ leadingZeroBits b ↔ bigEndian b < 2 ^ (8 * b.length - d))
  | [], d, hd => by
    have hzero : d = 0 := by simpa using hd
    subst hzero
    exact iff_of_true (Nat.le_refl 0) (by decide)
  | b :: bytes, d, hd => by
    have hpow : 256 ^ bytes.length = 2 ^ (8 * bytes.length) := (Nat.pow_mul 2 8 bytes.length).symm
    have hrest := bigEndian_lt bytes
    rw [List.length_cons] at hd ⊢
    unfold leadingZeroBits
    by_cases hb : b = 0
    · rw [if_pos hb, hb, bigEndian_cons, UInt8.toNat_zero, Nat.zero_mul, Nat.zero_add]
      by_cases h8 : d ≤ 8
      · -- The zero octet alone is enough.
        refine iff_of_true (by omega) (Nat.lt_of_lt_of_le hrest ?_)
        rw [hpow]
        exact Nat.pow_le_pow_right (by omega) (by omega)
      · have ih := le_leadingZeroBits bytes (d := d - 8) (by omega)
        have hexp : 8 * (bytes.length + 1) - d = 8 * bytes.length - (d - 8) := by omega
        rw [hexp, ← ih]
        omega
    · rw [if_neg hb]
      by_cases h8 : d ≤ 8
      · -- The other octets do not matter.
        have hexp : 8 * (bytes.length + 1) - d = 8 - d + 8 * bytes.length := by omega
        rw [hexp, Nat.pow_add, ← hpow, bigEndian_cons_lt, le_leadingZeros hb h8]
      · have hsmall : leadingZeros b ≤ 7 := Nat.sub_le 7 _
        refine iff_of_false (by omega) fun h => ?_
        have hle : 2 ^ (8 * (bytes.length + 1) - d) ≤ 1 * 256 ^ bytes.length := by
          rw [Nat.one_mul, hpow]
          exact Nat.pow_le_pow_right (by omega) (by omega)
        have hzero := bigEndian_cons_lt.1 (Nat.lt_of_lt_of_le h hle)
        exact hb (UInt8.toNat_inj.1 (Nat.lt_one_iff.1 hzero))

/-- The digest that `verify_pow` looks at. -/
def powDigest (C : Crypto) (patternHash publicKey : Bytes32) (powNonce : UInt64) : Bytes32 :=
  C.blake3 (patternHash.1 ++ publicKey.1 ++ toLeBytes powNonce)

theorem verifyPow_iff {C : Crypto} {patternHash publicKey : Bytes32} {powNonce : UInt64} {d : Nat} :
    verifyPow C patternHash publicKey powNonce d = true ↔
      d ≤ leadingZeroBits (powDigest C patternHash publicKey powNonce).1 := decide_eq_true_iff

/-- For difficulties up to 256 the leading zeros bound the digest as a number; `verify_pow` accepts
exactly the nonces whose digest is below the target, and with a difficulty every smaller one. -/
theorem verifyPow_target (d : Nat) (hd : d ≤ 256) :
    (∀ b : Bytes32, d ≤ leadingZeroBits b.1 ↔ bigEndian b.1 < 2 ^ (256 - d)) ∧
    ∀ (C : Crypto) (patternHash publicKey : Bytes32) (powNonce : UInt64),
      (verifyPow C patternHash publicKey powNonce d = true ↔
        bigEndian (powDigest C patternHash publicKey powNonce).1 < 2 ^ (256 - d)) ∧
      ∀ d' ≤ d, verifyPow C patternHash publicKey powNonce d = true →
        verifyPow C patternHash publicKey powNonce d' = true := by
  have htarget : ∀ b : Bytes32, d ≤ leadingZeroBits b.1 ↔ bigEndian b.1 < 2 ^ (256 - d) := by
    intro b
    have h := le_leadingZeroBits b.1 (d := d) (by rw [b.2]; exact hd)
    rwa [b.2] at h
  refine ⟨htarget, fun C patternHash publicKey powNonce => ⟨?_, ?_⟩⟩
  · rw [verifyPow_iff]
    exact htarget _
  · intro d' hle h
    rw [verifyPow_iff] at h ⊢
    exact Nat.le_trans hle h

theorem verifyPow_target_16 : bigEndian (0 :: 0 :: List.replicate 30 255) < 2 ^ (256 - 16) :=
  ((verifyPow_target 16 (by omega)).1 ⟨0 :: 0 :: List.replicate 30 255, by simp⟩).1 (by decide)

end Api

end Thundercrab
