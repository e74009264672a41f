/-
Base64 as arithmetic: three octets are four numbers of six bits, the last group padded, with zeros in
the bits it leaves unused. The octets can be read back, and from no other text than the one they are
written as. Masks and shifts compute these numbers.
-/
import Thundercrab.Lib.Bytes

namespace Lib

/-- The numbers of six bits, with `none` for the padding. -/
def sextets : Bytes → List (Option Nat)
  | b0 :: b1 :: b2 :: rest =>
    some (b0.toNat / 4) :: some (b0.toNat % 4 * 16 + b1.toNat / 16) ::
      some (b1.toNat % 16 * 4 + b2.toNat / 64) :: some (b2.toNat % 64) :: sextets rest
  | [b0, b1] =>
    [some (b0.toNat / 4), some (b0.toNat % 4 * 16 + b1.toNat / 16), some (b1.toNat % 16 * 4), none]
  | [b0] => [some (b0.toNat / 4), some (b0.toNat % 4 * 16), none, none]
  | [] => []

/-- The octets read back. -/
def octetsOf : List (Option Nat) → Bytes
  | some x :: some y :: some z :: some w :: rest =>
    UInt8.ofNat (x * 4 + y / 16) :: UInt8.ofNat (y % 16 * 16 + z / 4) :: UInt8.ofNat (z % 4 * 64 + w) :: octetsOf rest
  | [some x, some y, some z, none] => [UInt8.ofNat (x * 4 + y / 16), UInt8.ofNat (y % 16 * 16 + z / 4)]
  | [some x, some y, none, none] => [UInt8.ofNat (x * 4 + y / 16)]
  | _ => []

theorem ofNat_of_eq {n : Nat} {b : UInt8} (h : n = b.toNat) : UInt8.ofNat n = b := by
  rw [h, UInt8.ofNat_toNat]

theorem octetsOf_sextets : ∀ b : Bytes, octetsOf (sextets b) = b
  | b0 :: b1 :: b2 :: rest => by
    have h1 := b1.toNat_lt
    have h2 := b2.toNat_lt
    rw [sextets, octetsOf, octetsOf_sextets rest, ofNat_of_eq (b := b0) (by omega), ofNat_of_eq (b := b1) (by omega),
      ofNat_of_eq (b := b2) (by omega)]
  | [b0, b1] => by
    have h1 := b1.toNat_lt
    rw [sextets, octetsOf, ofNat_of_eq (b := b0) (by omega), ofNat_of_eq (b := b1) (by omega)]
  | [b0] => by rw [sextets, octetsOf, ofNat_of_eq (b := b0) (by omega)]
  | [] => rfl

theorem sextets_lt : ∀ {b : Bytes} {n : Nat}, some n ∈ sextets b → n < 64
  | b0 :: b1 :: b2 :: rest, n, h => by
    have h0 := b0.toNat_lt
    have h1 := b1.toNat_lt
    have h2 := b2.toNat_lt
    simp only [sextets, List.mem_cons, Option.some.injEq] at h
    rcases h with h | h | h | h | h
    · omega
    · omega
    · omega
    · omega
    · exact sextets_lt h
  | [b0, b1], n, h => by
    have h0 := b0.toNat_lt
    have h1 := b1.toNat_lt
    simp only [sextets, List.mem_cons, Option.some.injEq, reduceCtorEq, List.not_mem_nil, or_false] at h
    omega
  | [b0], n, h => by
    have h0 := b0.toNat_lt
    simp only [sextets, List.mem_cons, Option.some.injEq, reduceCtorEq, List.not_mem_nil, or_false] at h
    omega
  | [], n, h => by cases h

theorem length_sextets : ∀ b : Bytes, (sextets b).length = 4 * ((b.length + 2) / 3)
  | _ :: _ :: _ :: rest => by
    simp only [sextets, List.length_cons, length_sextets rest]
    omega
  | [_, _] => by simp only [sextets, List.length_cons, List.length_nil]
  | [_] => by simp only [sextets, List.length_cons, List.length_nil]
  | [] => rfl

/-- One pad for each octet that the last group lacks, and zeros in the bits it leaves unused. -/
theorem sextets_padded : ∀ b : Bytes, ∃ digits : List Nat,
    sextets b = digits.map some ++ List.replicate ((3 - b.length % 3) % 3) none ∧
      ∀ n, digits.getLast? = some n → (b.length % 3 = 1 → n % 16 = 0) ∧ (b.length % 3 = 2 → n % 4 = 0)
  | b0 :: b1 :: b2 :: rest => by
    obtain ⟨digits, hrest, hlast⟩ := sextets_padded rest
    have hlen : (b0 :: b1 :: b2 :: rest).length % 3 = rest.length % 3 := by
      simp only [List.length_cons]
      omega
    refine ⟨b0.toNat / 4 :: (b0.toNat % 4 * 16 + b1.toNat / 16) :: (b1.toNat % 16 * 4 + b2.toNat / 64) ::
      b2.toNat % 64 :: digits, ?_, ?_⟩
    · rw [hlen, sextets, hrest]
      rfl
    · rw [hlen]
      intro n hn
      by_cases hd : digits = []
      · -- All groups are full: no octet is left.
        have hnone : rest.length % 3 = 0 := by
          have hl := congrArg List.length hrest
          rw [length_sextets, hd, List.map_nil, List.nil_append, List.length_replicate] at hl
          omega
        omega
      · obtain ⟨d, ds, rfl⟩ := List.exists_cons_of_ne_nil hd
        exact hlast n hn
  | [b0, b1] => by
    refine ⟨[b0.toNat / 4, b0.toNat % 4 * 16 + b1.toNat / 16, b1.toNat % 16 * 4], rfl, fun n hn => ?_⟩
    have hlast : b1.toNat % 16 * 4 = n := Option.some.inj hn
    exact ⟨nofun, fun _ => by omega⟩
  | [b0] => by
    refine ⟨[b0.toNat / 4, b0.toNat % 4 * 16], rfl, fun n hn => ?_⟩
    have hlast : b0.toNat % 4 * 16 = n := Option.some.inj hn
    exact ⟨fun _ => by omega, nofun⟩
  | [] => ⟨[], rfl, nofun⟩

/-- Groups of four, the last one padded, with zeros in the bits it leaves unused. -/
def canonical : List (Option Nat) → Bool
  | some _ :: some _ :: some _ :: some _ :: rest => canonical rest
  | [some _, some _, some z, none] => z % 4 = 0
  | [some _, some y, none, none] => y % 16 = 0
  | [] => true
  | _ => false

theorem canonical_sextets : ∀ b : Bytes, canonical (sextets b) = true
  | b0 :: b1 :: b2 :: rest => canonical_sextets rest
  | [b0, b1] => decide_eq_true (by omega)
  | [b0] => decide_eq_true (by omega)
  | [] => rfl

/-- An octet put together from its high bits and its low bits is taken apart into them. -/
theorem split_octet {a b k : Nat} (hb : b < k) (h : a * k + b < 256) :
    (UInt8.ofNat (a * k + b)).toNat / k = a ∧ (UInt8.ofNat (a * k + b)).toNat % k = b := by
  have hk : 0 < k := by omega
  rw [UInt8.toNat_ofNat', Nat.mod_eq_of_lt h, Nat.mul_comm, Nat.mul_add_div hk, Nat.mul_add_mod,
    Nat.div_eq_of_lt hb, Nat.mod_eq_of_lt hb]
  exact ⟨Nat.add_zero a, rfl⟩

/-- Numbers that are read are those of what is read from them. -/
theorem sextets_octetsOf {ds : List (Option Nat)} (h : canonical ds = true) (hlt : ∀ n, some n ∈ ds → n < 64) :
    sextets (octetsOf ds) = ds := by
  fun_induction canonical ds with
  | case1 x y z w rest ih =>
    have hx := hlt x (by simp)
    have hy := hlt y (by simp)
    have hz := hlt z (by simp)
    have hw := hlt w (by simp)
    obtain ⟨h0, h0'⟩ := split_octet (a := x) (b := y / 16) (k := 4) (by omega) (by omega)
    obtain ⟨h1, h1'⟩ := split_octet (a := y % 16) (b := z / 4) (k := 16) (by omega) (by omega)
    obtain ⟨h2, h2'⟩ := split_octet (a := z % 4) (b := w) (k := 64) (by omega) (by omega)
    rw [octetsOf, sextets, ih h fun n hn => hlt n (by simp [hn]), h0, h0', h1, h1', h2, h2', Nat.div_add_mod',
      Nat.div_add_mod']
  | case2 x y z =>
    have hx := hlt x (by simp)
    have hy := hlt y (by simp)
    have hz := hlt z (by simp)
    have hzero : z % 4 = 0 := of_decide_eq_true h
    obtain ⟨h0, h0'⟩ := split_octet (a := x) (b := y / 16) (k := 4) (by omega) (by omega)
    obtain ⟨h1, h1'⟩ := split_octet (a := y % 16) (b := z / 4) (k := 16) (by omega) (by omega)
    have hz' : z / 4 * 4 = z := by omega
    rw [octetsOf, sextets, h0, h0', h1, h1', Nat.div_add_mod', hz']
  | case3 x y =>
    have hx := hlt x (by simp)
    have hy := hlt y (by simp)
    have hzero : y % 16 = 0 := of_decide_eq_true h
    obtain ⟨h0, h0'⟩ := split_octet (a := x) (b := y / 16) (k := 4) (by omega) (by omega)
    have hy' : y / 16 * 16 = y := by omega
    rw [octetsOf, sextets, h0, h0', hy']
  | case4 => rfl
  | case5 => cases h

/-! ## The alphabet -/

/-- The number that a character of the standard alphabet stands for. -/
def base64Value (c : Char) : Option Nat :=
  if 65 ≤ c.toNat ∧ c.toNat ≤ 90 then some (c.toNat - 65)
  else if 97 ≤ c.toNat ∧ c.toNat ≤ 122 then some (c.toNat - 71)
  else if 48 ≤ c.toNat ∧ c.toNat ≤ 57 then some (c.toNat + 4)
  else if c = '+' then some 62
  else if c = '/' then some 63
  else none

theorem base64Value_lt {c : Char} {n : Nat} (h : base64Value c = some n) : n < 64 ∧ c.toNat < 128 := by
  unfold base64Value at h
  split at h
  · have := Option.some.inj h
    omega
  · split at h
    · have := Option.some.inj h
      omega
    · split at h
      · have := Option.some.inj h
        omega
      · split at h
        · rename_i hc
          have := Option.some.inj h
          exact ⟨by omega, by rw [hc]; decide⟩
        · split at h
          · rename_i hc
            have := Option.some.inj h
            exact ⟨by omega, by rw [hc]; decide⟩
          · cases h

/-- A number, or `none` for the padding. -/
def readDigit (c : Char) : Option (Option Nat) := if c = '=' then some none else (base64Value c).map some

/-- The octets of a text in base64, when it is the one that they are written as. -/
def base64Decode (s : String) : Option Bytes :=
  match s.toList.mapM readDigit with
  | some ds => if canonical ds then some (octetsOf ds) else none
  | none => none

/-- Characters for the numbers and the padding, each read as what it stands for and the only one that is. -/
structure Digits (digit : Option Nat → Char) : Prop where
  read : ∀ n < 64, base64Value (digit (some n)) = some n
  only : ∀ c n, base64Value c = some n → digit (some n) = c
  pad : digit none = '='

theorem Digits.readDigit_eq {digit : Option Nat → Char} (h : Digits digit) {c : Char} {d : Option Nat} :
    readDigit c = some d ↔ digit d = c ∧ ∀ n, d = some n → n < 64 := by
  have hpad : base64Value '=' = none := by decide
  unfold readDigit
  by_cases hc : c = '='
  · rw [if_pos hc, hc]
    cases d with
    | none => exact ⟨fun _ => ⟨h.pad, nofun⟩, fun _ => rfl⟩
    | some n =>
      refine ⟨nofun, fun ⟨hd, hlt⟩ => ?_⟩
      have hread := h.read n (hlt n rfl)
      rw [hd, hpad] at hread
      cases hread
  · rw [if_neg hc]
    cases d with
    | none =>
      constructor
      · intro hv
        obtain ⟨_, -, hn⟩ := Option.map_eq_some_iff.1 hv
        cases hn
      · rintro ⟨hd, -⟩
        exact absurd (hd.symm.trans h.pad) hc
    | some n =>
      constructor
      · intro hv
        obtain ⟨m, hm, he⟩ := Option.map_eq_some_iff.1 hv
        cases he
        refine ⟨h.only c n hm, ?_⟩
        intro k hk
        cases hk
        exact (base64Value_lt hm).1
      · rintro ⟨rfl, hlt⟩
        rw [h.read n (hlt n rfl), Option.map_some]

theorem Digits.mapM_readDigit {digit : Option Nat → Char} (h : Digits digit) :
    ∀ {cs : List Char} {ds : List (Option Nat)},
      cs.mapM readDigit = some ds ↔ ds.map digit = cs ∧ ∀ n, some n ∈ ds → n < 64
  | [], ds => by
    rw [List.mapM_nil]
    constructor
    · intro he
      cases he
      exact ⟨rfl, nofun⟩
    · rintro ⟨hmap, -⟩
      rw [List.map_eq_nil_iff.1 hmap]
      rfl
  | c :: cs, ds => by
    simp only [List.mapM_cons, Option.bind_eq_bind, Option.bind_eq_some_iff, Option.pure_def, Option.some.injEq]
    constructor
    · rintro ⟨d, hd, ds, hds, rfl⟩
      obtain ⟨rfl, hlt⟩ := h.readDigit_eq.1 hd
      obtain ⟨rfl, hlts⟩ := h.mapM_readDigit.1 hds
      refine ⟨rfl, fun n hn => ?_⟩
      rcases List.mem_cons.1 hn with hn | hn
      · exact hlt n hn.symm
      · exact hlts n hn
    · rintro ⟨hmap, hlt⟩
      obtain ⟨d, ds, rfl, hd, hds⟩ := List.map_eq_cons_iff.1 hmap
      refine ⟨d, h.readDigit_eq.2 ⟨hd, fun n hn => hlt n (by simp [hn])⟩, ds, ?_, rfl⟩
      exact h.mapM_readDigit.2 ⟨hds, fun n hn => hlt n (List.mem_cons_of_mem _ hn)⟩

/-- Octets are read from the text they are written as, and from no other. -/
theorem Digits.decode_eq_some {digit : Option Nat → Char} (h : Digits digit) {s : String} {b : Bytes} :
    base64Decode s = some b ↔ s = String.ofList ((sextets b).map digit) := by
  constructor
  · intro hd
    unfold base64Decode at hd
    split at hd
    · rename_i ds hm
      split at hd
      · rename_i hc
        obtain ⟨hmap, hlt⟩ := h.mapM_readDigit.1 hm
        rw [← Option.some.inj hd, sextets_octetsOf hc hlt, hmap, String.ofList_toList]
      · cases hd
    · cases hd
  · rintro rfl
    have hm : (String.ofList ((sextets b).map digit)).toList.mapM readDigit = some (sextets b) := by
      rw [String.toList_ofList]
      exact h.mapM_readDigit.2 ⟨rfl, fun n hn => sextets_lt hn⟩
    unfold base64Decode
    rw [hm]
    simp only [canonical_sextets, if_true, octetsOf_sextets]

/-! ## Masks and shifts -/

theorem toNat_shiftRight (b k : UInt8) : (b >>> k).toNat = b.toNat / 2 ^ (k.toNat % 8) := by
  rw [UInt8.toNat_shiftRight, Nat.shiftRight_eq_div_pow]

theorem toNat_and_shiftLeft_four (b : UInt8) : ((b &&& 0x03) <<< 4).toNat = b.toNat % 4 * 16 := by
  rw [UInt8.toNat_shiftLeft, UInt8.toNat_and]
  show (b.toNat &&& 2 ^ 2 - 1) <<< 4 % 256 = _
  rw [Nat.and_two_pow_sub_one_eq_mod, Nat.shiftLeft_eq]
  omega

theorem toNat_and_shiftLeft_two (b : UInt8) : ((b &&& 0x0f) <<< 2).toNat = b.toNat % 16 * 4 := by
  rw [UInt8.toNat_shiftLeft, UInt8.toNat_and]
  show (b.toNat &&& 2 ^ 4 - 1) <<< 2 % 256 = _
  rw [Nat.and_two_pow_sub_one_eq_mod, Nat.shiftLeft_eq]
  omega

theorem toNat_and_sixtythree (b : UInt8) : (b &&& 0x3f).toNat = b.toNat % 64 := by
  rw [UInt8.toNat_and]
  exact Nat.and_two_pow_sub_one_eq_mod b.toNat 6

/-- The low bits of one octet before the high bits of the next. -/
theorem toNat_or_of_lt {a b : UInt8} {m n i : Nat} (ha : a.toNat = m * 2 ^ i) (hb : b.toNat = n) (hn : n < 2 ^ i) :
    (a ||| b).toNat = m * 2 ^ i + n := by
  rw [UInt8.toNat_or, ha, hb, ← Nat.shiftLeft_eq, Nat.shiftLeft_add_eq_or_of_lt hn]

theorem toNat_second (a b : UInt8) :
    (((a &&& 0x03) <<< 4) ||| (b >>> 4)).toNat = a.toNat % 4 * 16 + b.toNat / 16 := by
  have hb := b.toNat_lt
  exact toNat_or_of_lt (i := 4) (toNat_and_shiftLeft_four a) (toNat_shiftRight b 4) (by omega)

theorem toNat_third (a b : UInt8) :
    (((a &&& 0x0f) <<< 2) ||| (b >>> 6)).toNat = a.toNat % 16 * 4 + b.toNat / 64 := by
  have hb := b.toNat_lt
  exact toNat_or_of_lt (i := 2) (toNat_and_shiftLeft_two a) (toNat_shiftRight b 6) (by omega)

end Lib
