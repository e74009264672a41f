/-
`ledger.rs`, the JSON of a submission: the suggestion, and key and signature as hexadecimal text. A
submission is decoded from its JSON whatever the order of the keys in it, and so is a rule from its
canonical encoding, so that what is verified and hashed is what was sent.
-/
import Thundercrab.Suggestions.Ledger

namespace Thundercrab

open Lib Lib.Json

/-- A `[u8; n]` field of hexadecimal text: a string of exactly `n` octets. -/
def hexArray (n : Nat) (k : String) (m : Members) : Option { b : Bytes // b.length = n } :=
  match (strField k m).bind hexDecode with
  | some b => if h : b.length = n then some ⟨b, h⟩ else none
  | none => none

/-- `hex_array_32::deserialize` -/
def hexArray32 (k : String) (m : Members) : Option Bytes32 := hexArray 32 k m

/-- `hex_array_64::deserialize` -/
def hexArray64 (k : String) (m : Members) : Option Bytes64 := hexArray 64 k m

def SignedSuggestion.toValue (s : SignedSuggestion) : Value :=
  .obj [("suggestion", s.suggestion.toValue), ("public_key", .str (hexEncode s.publicKey.1)),
    ("signature", .str (hexEncode s.signature.1))]

def SignedSuggestion.fromValue : Value → Option SignedSuggestion
  | .obj m =>
    match field Suggestion.fromValue "suggestion" m, hexArray32 "public_key" m, hexArray64 "signature" m with
    | some suggestion, some publicKey, some signature => some { suggestion, publicKey, signature }
    | _, _, _ => none
  | _ => none

theorem hexArray_same {m m' : Members} {k : String} (h : HasMembers m m') {n : Nat}
    {b : { b : Bytes // b.length = n }} (hb : Members.get k m = some (.str (hexEncode b.1))) :
    hexArray n k m' = some b := by
  unfold hexArray
  rw [strField_same h hb, Option.bind_some, hexDecode_hexEncode]
  exact dif_pos b.2

theorem SignedSuggestion.toValue_wf (s : SignedSuggestion) : s.toValue.WF :=
  ⟨(by decide : ["suggestion", "public_key", "signature"].Nodup), s.suggestion.toValue_wf, trivial, trivial, trivial⟩

/-- A submission is decoded from every value that is its JSON up to key order. -/
theorem SignedSuggestion.fromValue_same (s : SignedSuggestion) {w : Value} (h : s.toValue.Same w) :
    SignedSuggestion.fromValue w = some s := by
  obtain ⟨m', rfl, hm⟩ := same_obj_get (by exact s.toValue_wf.1) h
  obtain ⟨v, hv, hsame⟩ := hm "suggestion" _ rfl
  have hsuggestion : field Suggestion.fromValue "suggestion" m' = some s.suggestion := by
    unfold field
    rw [hv]
    exact s.suggestion.fromValue_same hsame
  have hkey : hexArray32 "public_key" m' = some s.publicKey := hexArray_same hm rfl
  have hsignature : hexArray64 "signature" m' = some s.signature := hexArray_same hm rfl
  rw [SignedSuggestion.fromValue, hsuggestion, hkey, hsignature]

/-- Decoding the JSON of a submission gives back the submission, also after the keys of any objects
in it have been reordered, as the canonical encoding does; `verify` answers on what is decoded as on
what was sent; and the rule decoded from the JSON whose text is hashed is the rule that was hashed. -/
theorem signedSuggestion_roundTrip (C : Crypto) (J : SerdeJson) (s : SignedSuggestion) :
    (∀ w, s.toValue.Same w → SignedSuggestion.fromValue w = some s ∧
      (SignedSuggestion.fromValue w).map (Ledger.verify C J) = some (Ledger.verify C J s)) ∧
    SignedSuggestion.fromValue s.toValue = some s ∧
    SignedSuggestion.fromValue (Ledger.sortValue s.toValue) = some s ∧
    Ledger.canonicalJsonBytes J s.suggestion.rule.toValue = J.toVec (Ledger.sortValue s.suggestion.rule.toValue) ∧
    CrabRule.fromValue (Ledger.sortValue s.suggestion.rule.toValue) = some s.suggestion.rule := by
  refine ⟨fun w hw => ?_, s.fromValue_same (.refl _), s.fromValue_same (same_sortKeys _ s.toValue_wf), rfl,
    s.suggestion.rule.fromValue_same (same_sortKeys _ s.suggestion.rule.toValue_wf)⟩
  have hdecode := s.fromValue_same hw
  exact ⟨hdecode, by rw [hdecode, Option.map_some]⟩

end Thundercrab
