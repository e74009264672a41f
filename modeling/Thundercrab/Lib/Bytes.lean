/-
Octet strings: the UTF-8 octets of a text and the text of such octets, the order in which memory
comparison sorts octet strings (on UTF-8 the order of the texts), and hexadecimal digits.
-/
import Mathlib.Data.List.Lex
import Mathlib.Data.String.Basic
import Mathlib.Order.Basic
import Mathlib.Tactic.SplitIfs

namespace Lib

abbrev Bytes := List UInt8

/-- The UTF-8 octets of a text. -/
def utf8 (s : String) : Bytes := s.toByteArray.data.toList

theorem utf8_inj {s t : String} (h : utf8 s = utf8 t) : s = t :=
  String.toByteArray_inj.1 (ByteArray.ext (Array.toList_inj.1 h))

theorem utf8_append (s t : String) : utf8 (s ++ t) = utf8 s ++ utf8 t := by
  simp [utf8, String.toByteArray_append]

theorem utf8_ofList_cons (c : Char) (cs : List Char) :
    utf8 (String.ofList (c :: cs)) = String.utf8EncodeChar c ++ utf8 (String.ofList cs) := by
  unfold utf8
  rw [String.toByteArray_ofList, String.toByteArray_ofList, List.utf8Encode_cons, List.utf8Encode_singleton]
  simp

theorem utf8_ofList (cs : List Char) : utf8 (String.ofList cs) = cs.flatMap String.utf8EncodeChar := by
  induction cs with
  | nil => rfl
  | cons c cs ih => rw [utf8_ofList_cons, ih, List.flatMap_cons]

theorem char_toNat_lt (c : Char) : c.toNat < 1114112 := by
  have h := c.valid
  simp only [UInt32.isValidChar, Nat.isValidChar] at h
  show c.val.toNat < 1114112
  omega

/-! ### The octets as numbers -/

/-- The octets as numbers: lists of numbers are ordered lexicographically. -/
def octets (b : Bytes) : List Nat := b.map UInt8.toNat

theorem octets_inj {a b : Bytes} (h : octets a = octets b) : a = b :=
  List.map_injective_iff.2 (fun _ _ => UInt8.toNat_inj.1) h

theorem octets_append (a b : Bytes) : octets (a ++ b) = octets a ++ octets b := List.map_append

/-- The UTF-8 octets of a code point as numbers. -/
def encodePoint (v : Nat) : List Nat :=
  if v ≤ 127 then [v]
  else if v ≤ 2047 then [v / 64 + 192, v % 64 + 128]
  else if v ≤ 65535 then [v / 4096 + 224, v / 64 % 64 + 128, v % 64 + 128]
  else [v / 262144 + 240, v / 4096 % 64 + 128, v / 64 % 64 + 128, v % 64 + 128]

theorem octets_utf8EncodeChar (c : Char) : octets (String.utf8EncodeChar c) = encodePoint c.toNat := by
  have hc := char_toNat_lt c
  have hv : c.val.toNat = c.toNat := rfl
  have hoct : ∀ v : Nat, v < 256 → (UInt8.ofNat v).toNat = v := by
    intro v h
    rw [UInt8.toNat_ofNat', Nat.mod_eq_of_lt h]
  unfold String.utf8EncodeChar encodePoint
  simp only [hv]
  split
  · simp only [octets, List.map_cons, List.map_nil]
    rw [hoct _ (by omega)]
  · split
    · simp only [octets, List.map_cons, List.map_nil]
      rw [hoct _ (by omega), hoct _ (by omega), show c.toNat / 64 % 32 = c.toNat / 64 by omega]
    · split
      · simp only [octets, List.map_cons, List.map_nil]
        rw [hoct _ (by omega), hoct _ (by omega), hoct _ (by omega),
          show c.toNat / 4096 % 16 = c.toNat / 4096 by omega]
      · simp only [octets, List.map_cons, List.map_nil]
        rw [hoct _ (by omega), hoct _ (by omega), hoct _ (by omega), hoct _ (by omega),
          show c.toNat / 262144 % 8 = c.toNat / 262144 by omega]

theorem eq_of_mem_encodePoint {n v : Nat} (hn : n < 128) (h : n ∈ encodePoint v) : v = n := by
  unfold encodePoint at h
  split_ifs at h
  all_goals simp only [List.mem_cons, List.not_mem_nil, or_false] at h
  all_goals omega

/-- An octet below 128 is in no character but its own. -/
theorem toNat_of_mem_utf8EncodeChar {n : UInt8} (hn : n.toNat < 128) {c : Char}
    (h : n ∈ String.utf8EncodeChar c) : c.toNat = n.toNat := by
  have hmem : n.toNat ∈ octets (String.utf8EncodeChar c) := List.mem_map_of_mem h
  rw [octets_utf8EncodeChar] at hmem
  exact eq_of_mem_encodePoint hn hmem

/-- An ASCII character is in a text when its octet is in the octets of the text. -/
theorem mem_of_mem_utf8 {c : Char} (hc : c.toNat < 128) {cs : List Char}
    (h : UInt8.ofNat c.toNat ∈ utf8 (String.ofList cs)) : c ∈ cs := by
  rw [utf8_ofList, List.mem_flatMap] at h
  obtain ⟨d, hd, hm⟩ := h
  have hn : (UInt8.ofNat c.toNat).toNat = c.toNat := by
    rw [UInt8.toNat_ofNat', Nat.mod_eq_of_lt (by omega)]
  have := toNat_of_mem_utf8EncodeChar (by omega) hm
  rw [hn] at this
  rwa [← Char.toNat_inj.1 this]

/-- The text of which these are the UTF-8 octets. -/
def ofUtf8? (b : Bytes) : Option String := String.fromUTF8? ⟨b.toArray⟩

theorem ofUtf8_eq_some {b : Bytes} {s : String} : ofUtf8? b = some s ↔ b = utf8 s := by
  unfold ofUtf8? String.fromUTF8?
  constructor
  · intro h
    split at h
    · cases h; rfl
    · cases h
  · rintro rfl
    have h : (⟨(utf8 s).toArray⟩ : ByteArray) = s.toByteArray := ByteArray.ext (by simp [utf8])
    rw [h, dif_pos s.isValidUTF8]
    rfl

theorem ofUtf8_utf8 (s : String) : ofUtf8? (utf8 s) = some s := ofUtf8_eq_some.2 rfl

/-! ## Memory comparison -/

/-- `a` sorts before `b` or is equal to it when compared octet by octet. -/
def memLe (a b : Bytes) : Prop := octets a ≤ octets b

instance (a b : Bytes) : Decidable (memLe a b) := inferInstanceAs (Decidable (octets a ≤ octets b))

theorem memLe_total (a b : Bytes) : memLe a b ∨ memLe b a := le_total (octets a) (octets b)

theorem memLe_trans {a b c : Bytes} (h1 : memLe a b) (h2 : memLe b c) : memLe a c := le_trans h1 h2

theorem memLe_antisymm {a b : Bytes} (h1 : memLe a b) (h2 : memLe b a) : a = b :=
  octets_inj (le_antisymm h1 h2)

/-- Two code points are ordered as their octets are: a first octet that is not the same decides, and
octets of one length compare as the digits of the code point. -/
theorem encodePoint_lt {v w : Nat} (h : v < w) (x y : List Nat) : encodePoint v ++ x < encodePoint w ++ y := by
  unfold encodePoint
  split_ifs
  all_goals simp only [List.cons_append, List.nil_append, List.cons_lt_cons_iff]
  all_goals omega

theorem octets_utf8_lt : ∀ {cs ds : List Char}, cs < ds →
    octets (utf8 (String.ofList cs)) < octets (utf8 (String.ofList ds))
  | _, [], h => absurd h (List.not_lt_nil _)
  | [], d :: ds, _ => by
    rw [utf8_ofList_cons, octets_append, octets_utf8EncodeChar]
    unfold encodePoint
    split
    · exact List.nil_lt_cons _ _
    · split
      · exact List.nil_lt_cons _ _
      · split
        · exact List.nil_lt_cons _ _
        · exact List.nil_lt_cons _ _
  | c :: cs, d :: ds, h => by
    rw [utf8_ofList_cons, utf8_ofList_cons, octets_append, octets_append, octets_utf8EncodeChar,
      octets_utf8EncodeChar]
    rcases List.cons_lt_cons_iff.1 h with hlt | ⟨rfl, hlt⟩
    · exact encodePoint_lt hlt _ _
    · exact List.append_left_lt (octets_utf8_lt hlt)

/-- Texts are ordered by their characters as memory comparison orders their UTF-8 octets. -/
theorem memLe_utf8 {s t : String} : memLe (utf8 s) (utf8 t) ↔ s ≤ t := by
  have key : ∀ {s t : String}, s < t → octets (utf8 s) < octets (utf8 t) := by
    intro s t h
    have := octets_utf8_lt (String.lt_iff_toList_lt.1 h)
    rwa [String.ofList_toList, String.ofList_toList] at this
  constructor
  · intro h
    exact not_lt.1 fun hlt => absurd (key hlt) (not_lt.2 h)
  · intro h
    rcases lt_or_eq_of_le h with hlt | rfl
    · exact le_of_lt (key hlt)
    · exact le_refl (octets (utf8 s))

/-! ## Hexadecimal -/

/-- The two lower-case hexadecimal digits of an octet. -/
def hexByte (b : UInt8) : List Char := [Nat.digitChar (b.toNat / 16), Nat.digitChar (b.toNat % 16)]

def hexEncode (b : Bytes) : String := String.ofList (b.flatMap hexByte)

/-- The value of a hexadecimal digit of either case. -/
def hexDigit? (c : Char) : Option Nat :=
  if '0' ≤ c ∧ c ≤ '9' then some (c.toNat - 48)
  else if 'a' ≤ c ∧ c ≤ 'f' then some (c.toNat - 87)
  else if 'A' ≤ c ∧ c ≤ 'F' then some (c.toNat - 55)
  else none

/-- The octets of digits two by two; an odd digit or another character is refused. -/
def hexOctets : List Char → Option Bytes
  | [] => some []
  | [_] => none
  | hi :: lo :: rest =>
    match hexDigit? hi, hexDigit? lo, hexOctets rest with
    | some h, some l, some b => some (UInt8.ofNat (h * 16 + l) :: b)
    | _, _, _ => none

def hexDecode (s : String) : Option Bytes := hexOctets s.toList

theorem hexDigit_digitChar : ∀ n < 16, hexDigit? (Nat.digitChar n) = some n := by decide

theorem hexOctets_hexByte (a : UInt8) (r : List Char) :
    hexOctets (hexByte a ++ r) = (hexOctets r).map (a :: ·) := by
  have ha := a.toNat_lt
  have hval : UInt8.ofNat (a.toNat / 16 * 16 + a.toNat % 16) = a := by
    rw [Nat.div_add_mod' a.toNat 16, UInt8.ofNat_toNat]
  rw [hexByte, List.cons_append, List.cons_append, List.nil_append, hexOctets,
    hexDigit_digitChar _ (by omega), hexDigit_digitChar _ (by omega)]
  cases hexOctets r with
  | none => rfl
  | some b => simp only [hval, Option.map_some]

/-- Decoding gives back the octets. -/
theorem hexDecode_hexEncode (b : Bytes) : hexDecode (hexEncode b) = some b := by
  unfold hexDecode hexEncode
  rw [String.toList_ofList]
  induction b with
  | nil => rfl
  | cons a b ih => rw [List.flatMap_cons, hexOctets_hexByte, ih, Option.map_some]

theorem hexEncode_inj {a b : Bytes} (h : hexEncode a = hexEncode b) : a = b := by
  have ha := hexDecode_hexEncode a
  rw [h, hexDecode_hexEncode b] at ha
  exact (Option.some.inj ha).symm

end Lib
