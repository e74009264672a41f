/-
Texts from octets that need not be UTF-8: what cannot be read as a character becomes U+FFFD, one for
as many octets as could have begun a character. An ASCII octet is always read as itself, so that the
reading of octets around it is that of the octets before it and that of those after it.
-/
import Thundercrab.Lib.Bytes

namespace Lib

/-- `str::to_ascii_lowercase` -/
def asciiLower (s : String) : String := String.ofList (s.toList.map Char.toLower)

/-! ## Characters at the front -/

/-- The character that the octets begin with. -/
def decodeChar? (b : Bytes) : Option Char := ByteArray.utf8DecodeChar? b.toByteArray 0

theorem decodeChar_append (c : Char) (rest : Bytes) : decodeChar? (String.utf8EncodeChar c ++ rest) = some c := by
  unfold decodeChar?
  rw [List.toByteArray_append]
  exact ByteArray.utf8DecodeChar?_utf8EncodeChar_append

theorem decodeChar_eq_some {b : Bytes} {c : Char} :
    decodeChar? b = some c ↔ ∃ rest, b = String.utf8EncodeChar c ++ rest := by
  constructor
  · intro h
    obtain ⟨l, hl⟩ := ByteArray.exists_of_utf8DecodeChar?_eq_some h
    refine ⟨l.data.toList, ?_⟩
    have hdata := congrArg (fun x => x.data.toList) hl
    simpa using hdata
  · rintro ⟨rest, rfl⟩
    exact decodeChar_append c rest

theorem utf8EncodeChar_ascii {c : Char} (hc : c.toNat < 128) :
    String.utf8EncodeChar c = [UInt8.ofNat c.toNat] := by
  have hv : c.val.toNat = c.toNat := rfl
  unfold String.utf8EncodeChar
  simp only [hv]
  rw [if_pos (by omega)]

/-- An ASCII octet is in no character but its own. -/
theorem decodeChar_append_ascii {n : UInt8} (hn : n.toNat < 128) {b : Bytes} (hb : b ≠ []) (rest : Bytes) :
    decodeChar? (b ++ n :: rest) = decodeChar? b := by
  have hback : ∀ {c : Char}, decodeChar? (b ++ n :: rest) = some c → decodeChar? b = some c := by
    intro c h
    obtain ⟨r, hr⟩ := decodeChar_eq_some.1 h
    rcases List.append_eq_append_iff.1 hr with ⟨mid, hc, hmid⟩ | ⟨mid, hbm, -⟩
    · cases mid with
      | nil => exact decodeChar_eq_some.2 ⟨[], by simpa using hc.symm⟩
      | cons m mid =>
        -- The octet would be one of the character's, which then has no other.
        rw [List.cons_append] at hmid
        obtain ⟨rfl, -⟩ := List.cons.inj hmid
        have hnat := toNat_of_mem_utf8EncodeChar hn (hc ▸ List.mem_append_right b List.mem_cons_self)
        rw [utf8EncodeChar_ascii (by omega)] at hc
        cases b with
        | nil => exact absurd rfl hb
        | cons x b => simp at hc
    · exact decodeChar_eq_some.2 ⟨mid, hbm⟩
  cases h : decodeChar? b with
  | some c =>
    obtain ⟨r, rfl⟩ := decodeChar_eq_some.1 h
    rw [List.append_assoc]
    exact decodeChar_append c _
  | none =>
    cases h' : decodeChar? (b ++ n :: rest) with
    | none => rfl
    | some c => rw [hback h'] at h; cases h

/-! ## Replacement -/

/-- The second octet may follow the first in a character of three or four octets. -/
def secondFits (first second : Nat) : Bool :=
  if first = 0xe0 then 0xa0 ≤ second ∧ second ≤ 0xbf
  else if first = 0xed then 0x80 ≤ second ∧ second ≤ 0x9f
  else if 0xe1 ≤ first ∧ first ≤ 0xef then 0x80 ≤ second ∧ second ≤ 0xbf
  else if first = 0xf0 then 0x90 ≤ second ∧ second ≤ 0xbf
  else if 0xf1 ≤ first ∧ first ≤ 0xf3 then 0x80 ≤ second ∧ second ≤ 0xbf
  else if first = 0xf4 then 0x80 ≤ second ∧ second ≤ 0x8f
  else false

/-- How many octets at the front, where no character begins, are replaced at once: those with which a
character could have begun, or else the first. -/
def badLength : Bytes → Nat
  | first :: second :: rest =>
    if secondFits first.toNat second.toNat then
      match rest with
      | third :: _ => if 0xf0 ≤ first.toNat ∧ 0x80 ≤ third.toNat ∧ third.toNat ≤ 0xbf then 3 else 2
      | [] => 2
    else 1
  | _ => 1

theorem badLength_pos (b : Bytes) : 0 < badLength b := by
  unfold badLength
  split
  · split
    · split
      · split <;> omega
      · omega
    · omega
  · omega

/-- `String::from_utf8_lossy` -/
def fromUtf8Lossy (b : Bytes) : List Char :=
  if b = [] then []
  else
    match decodeChar? b with
    | some c => c :: fromUtf8Lossy (b.drop c.utf8Size)
    | none => '\ufffd' :: fromUtf8Lossy (b.drop (badLength b))
termination_by b.length
decreasing_by
  · have := c.utf8Size_pos
    have := List.length_pos_iff.2 ‹b ≠ []›
    rw [List.length_drop]
    omega
  · have := badLength_pos b
    have := List.length_pos_iff.2 ‹b ≠ []›
    rw [List.length_drop]
    omega

theorem fromUtf8Lossy_nil : fromUtf8Lossy [] = [] := by rw [fromUtf8Lossy, if_pos rfl]

theorem fromUtf8Lossy_char (c : Char) (rest : Bytes) :
    fromUtf8Lossy (String.utf8EncodeChar c ++ rest) = c :: fromUtf8Lossy rest := by
  rw [fromUtf8Lossy, if_neg (by simp), decodeChar_append]
  simp only
  rw [← String.length_utf8EncodeChar, List.drop_left]

/-- UTF-8 is read as the text it is of, whatever comes after. -/
theorem fromUtf8Lossy_utf8_append (cs : List Char) (rest : Bytes) :
    fromUtf8Lossy (utf8 (String.ofList cs) ++ rest) = cs ++ fromUtf8Lossy rest := by
  induction cs with
  | nil => rfl
  | cons c cs ih => rw [utf8_ofList_cons, List.append_assoc, fromUtf8Lossy_char, ih, List.cons_append]

theorem fromUtf8Lossy_utf8 (cs : List Char) : fromUtf8Lossy (utf8 (String.ofList cs)) = cs := by
  have h := fromUtf8Lossy_utf8_append cs []
  rwa [List.append_nil, fromUtf8Lossy_nil, List.append_nil] at h

theorem fromUtf8Lossy_ascii {c : Char} (hc : c.toNat < 128) (rest : Bytes) :
    fromUtf8Lossy (UInt8.ofNat c.toNat :: rest) = c :: fromUtf8Lossy rest := by
  rw [← fromUtf8Lossy_char c rest, utf8EncodeChar_ascii hc]
  rfl

theorem badLength_append_ascii {n : UInt8} (hn : n.toNat < 128) {b : Bytes} (hb : b ≠ []) (rest : Bytes) :
    badLength (b ++ n :: rest) = badLength b := by
  have hsecond : ∀ first : Nat, secondFits first n.toNat = false := by
    intro first
    unfold secondFits
    split_ifs <;> simp <;> omega
  match b with
  | [] => exact absurd rfl hb
  | [x] => simp [badLength, hsecond]
  | [x, y] =>
    simp only [badLength, List.cons_append, List.nil_append]
    rw [if_neg (show ¬ (0xf0 ≤ x.toNat ∧ 0x80 ≤ n.toNat ∧ n.toNat ≤ 0xbf) by omega)]
  | x :: y :: z :: r => rfl

theorem badLength_le {b : Bytes} (hb : b ≠ []) : badLength b ≤ b.length := by
  match b with
  | [] => exact absurd rfl hb
  | [x] => exact Nat.le_refl _
  | [x, y] =>
    simp only [badLength, List.length_cons, List.length_nil]
    split <;> omega
  | x :: y :: z :: r =>
    simp only [badLength, List.length_cons]
    split
    · split <;> omega
    · omega

/-- Octets before an ASCII octet are read apart from what follows. -/
theorem fromUtf8Lossy_append_ascii {n : UInt8} (hn : n.toNat < 128) (b rest : Bytes) :
    fromUtf8Lossy (b ++ n :: rest) = fromUtf8Lossy b ++ fromUtf8Lossy (n :: rest) := by
  by_cases hb : b = []
  · subst hb
    rw [fromUtf8Lossy_nil]
    rfl
  · rw [fromUtf8Lossy, fromUtf8Lossy.eq_def b, if_neg (by simp), if_neg hb, decodeChar_append_ascii hn hb]
    have hpos : 0 < b.length := List.length_pos_iff.2 hb
    cases h : decodeChar? b with
    | some c =>
      obtain ⟨r, hr⟩ := decodeChar_eq_some.1 h
      have hle : c.utf8Size ≤ b.length := by
        rw [hr, List.length_append, String.length_utf8EncodeChar]
        omega
      have hsize := c.utf8Size_pos
      simp only
      rw [List.drop_append_of_le_length hle, fromUtf8Lossy_append_ascii hn (b.drop c.utf8Size) rest, List.cons_append]
    | none =>
      have hle := badLength_le hb
      have hsize := badLength_pos b
      simp only
      rw [badLength_append_ascii hn hb, List.drop_append_of_le_length hle,
        fromUtf8Lossy_append_ascii hn (b.drop (badLength b)) rest, List.cons_append]
termination_by b.length
decreasing_by
  · rw [List.length_drop]; omega
  · rw [List.length_drop]; omega

/-- An ASCII character is read only where its octet stands. -/
theorem mem_of_mem_fromUtf8Lossy {c : Char} (hc : c.toNat < 128) (b : Bytes) (h : c ∈ fromUtf8Lossy b) :
    UInt8.ofNat c.toNat ∈ b := by
  by_cases hb : b = []
  · subst hb
    rw [fromUtf8Lossy_nil] at h
    cases h
  · have hpos : 0 < b.length := List.length_pos_iff.2 hb
    rw [fromUtf8Lossy, if_neg hb] at h
    cases hd : decodeChar? b with
    | some d =>
      have hsize := d.utf8Size_pos
      rw [hd] at h
      rcases List.mem_cons.1 h with rfl | h
      · obtain ⟨r, rfl⟩ := decodeChar_eq_some.1 hd
        rw [utf8EncodeChar_ascii hc]
        exact List.mem_cons_self
      · exact List.mem_of_mem_drop (mem_of_mem_fromUtf8Lossy hc _ h)
    | none =>
      have hsize := badLength_pos b
      rw [hd] at h
      rcases List.mem_cons.1 h with rfl | h
      · exact absurd hc (by decide)
      · exact List.mem_of_mem_drop (mem_of_mem_fromUtf8Lossy hc _ h)
termination_by b.length
decreasing_by
  · rw [List.length_drop]; omega
  · rw [List.length_drop]; omega

end Lib
