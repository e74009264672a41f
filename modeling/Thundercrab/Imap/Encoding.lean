/-
`managesieve.rs`, `base64_encode`: the masks and shifts of its loop and of its two tails compute the
numbers of six bits, so what it writes is the octets in base64, and they can be read back from it.
-/
import Thundercrab.Imap.ManageSieve
import Thundercrab.Lib.Base64

namespace Thundercrab

open Lib

namespace Sieve

/-- The character for six bits, and the padding. -/
def base64Digit : Option Nat → Char
  | some n => base64Chars.getD n '='
  | none => '='

theorem base64Char_eq {i : UInt8} {n : Nat} (h : i.toNat = n) : base64Char i = base64Digit (some n) := by
  rw [base64Char, h]
  rfl

/-- `base64_encode` writes the numbers of six bits in its alphabet. -/
theorem base64Chunks_eq : ∀ b : Bytes, base64Chunks b = (sextets b).map base64Digit
  | b0 :: b1 :: b2 :: rest => by
    simp only [base64Chunks, sextets, List.map_cons, base64Chunks_eq rest, base64Char_eq (toNat_shiftRight b0 2),
      base64Char_eq (toNat_second b0 b1), base64Char_eq (toNat_third b1 b2), base64Char_eq (toNat_and_sixtythree b2)]
    rfl
  | [b0, b1] => by
    simp only [base64Chunks, sextets, List.map_cons, List.map_nil, base64Char_eq (toNat_shiftRight b0 2),
      base64Char_eq (toNat_second b0 b1), base64Char_eq (toNat_and_shiftLeft_two b1)]
    rfl
  | [b0] => by
    simp only [base64Chunks, sextets, List.map_cons, List.map_nil, base64Char_eq (toNat_shiftRight b0 2),
      base64Char_eq (toNat_and_shiftLeft_four b0)]
    rfl
  | [] => rfl

/-- The alphabet of `base64_encode` is the standard one. -/
theorem base64Digits : Digits base64Digit where
  read := show ∀ n < 64, base64Value (base64Chars.getD n '=') = some n by decide +kernel
  only := by
    have hall : ∀ v < 128, ∀ n ∈ base64Value (Char.ofNat v), base64Chars.getD n '=' = Char.ofNat v := by
      decide +kernel
    intro c n hn
    obtain ⟨-, hc⟩ := base64Value_lt hn
    rw [← Char.ofNat_toNat c] at hn ⊢
    exact hall c.toNat hc n hn
  pad := rfl

theorem base64Encode_eq (b : Bytes) : base64Encode b = String.ofList ((sextets b).map base64Digit) := by
  unfold base64Encode
  rw [base64Chunks_eq]

theorem base64Encode_inj {a b : Bytes} (h : base64Encode a = base64Encode b) : a = b := by
  have ha := base64Digits.decode_eq_some.2 (base64Encode_eq a)
  have hb := base64Digits.decode_eq_some.2 (base64Encode_eq b)
  rw [h] at ha
  exact Option.some.inj (ha.symm.trans hb)

/-- What `base64_encode` writes has four characters for each three octets begun, of the standard
alphabet but for as many pads at the end as the last three octets lack, with zeros in the bits before
the pads that are unused; and it is the text that the octets are read from. -/
theorem base64Encode_rfc4648 (x : Bytes) :
    (base64Encode x).length = 4 * ((x.length + 2) / 3) ∧
    (∃ digits, (base64Encode x).toList = digits ++ List.replicate ((3 - x.length % 3) % 3) '=' ∧
      (∀ c ∈ digits, (base64Value c).isSome) ∧
      ∀ c n, digits.getLast? = some c → base64Value c = some n →
        (x.length % 3 = 1 → n % 16 = 0) ∧ (x.length % 3 = 2 → n % 4 = 0)) ∧
    ∀ s, base64Decode s = some x ↔ s = base64Encode x := by
  refine ⟨?_, ?_, fun s => ?_⟩
  · rw [base64Encode_eq, String.length_ofList, List.length_map, length_sextets]
  · obtain ⟨numbers, hnumbers, hlast⟩ := sextets_padded x
    have hmem : ∀ n ∈ numbers, n < 64 := by
      intro n hn
      apply sextets_lt (b := x)
      rw [hnumbers]
      exact List.mem_append_left _ (List.mem_map_of_mem hn)
    refine ⟨numbers.map fun n => base64Digit (some n), ?_, ?_, ?_⟩
    · rw [base64Encode_eq, String.toList_ofList, hnumbers, List.map_append, List.map_map, List.map_replicate]
      rfl
    · intro c hc
      obtain ⟨n, hn, rfl⟩ := List.mem_map.1 hc
      rw [base64Digits.read n (hmem n hn)]
      rfl
    · intro c n hc hn
      rw [List.getLast?_map] at hc
      obtain ⟨m, hm, rfl⟩ := Option.map_eq_some_iff.1 hc
      rw [base64Digits.read m (hmem m (List.mem_of_getLast? hm))] at hn
      rw [← Option.some.inj hn]
      exact hlast m hm
  · rw [base64Encode_eq]
    exact base64Digits.decode_eq_some

end Sieve

end Thundercrab
