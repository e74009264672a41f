/-
`ledger.rs`: what a submission to the ledger is and how it is checked. The canonical encoding sorts
object keys and prints; it loses nothing of a rule or a suggestion, since decoding reads members by
key. `verify` accepts exactly the submissions whose signature verifies over the canonical suggestion
and whose pattern hash is the hash of the canonical rule.
-/
import Thundercrab.Core.CrabRule

namespace Thundercrab

open Lib Lib.Json

/-- The `blake3` and `ed25519_dalek` calls the crates make. -/
structure Crypto where
  blake3 : Bytes → Bytes32
  /-- `VerifyingKey::from_bytes` succeeds. -/
  validKey : Bytes32 → Bool
  /-- `VerifyingKey::verify` of a body and a signature succeeds. -/
  verifySig : Bytes32 → Bytes → Bytes64 → Bool
  /-- The public key of a secret key. -/
  verifyingKey : Bytes32 → Bytes32
  sign : Bytes32 → Bytes → Bytes64

/-- A suggestion ready for signing, the body the signature covers. -/
structure Suggestion where
  rule : CrabRule
  patternHash : Bytes32
  submittedAtDay : I64

/-- A signed suggestion as it travels over the wire. -/
structure SignedSuggestion where
  suggestion : Suggestion
  publicKey : Bytes32
  signature : Bytes64

/-- Per-install signing key. -/
structure InstallKey where
  signing : Bytes32

/-- Verification errors. -/
inductive LedgerError where
  | badSignature
  | badKey
  | hashMismatch
  deriving DecidableEq

def Suggestion.toValue (s : Suggestion) : Value :=
  .obj [("rule", s.rule.toValue), ("pattern_hash", .arr (u8Values s.patternHash.1)),
    ("submitted_at_day", .num s.submittedAtDay.1)]

def Suggestion.fromValue : Value → Option Suggestion
  | .obj m =>
    match field CrabRule.fromValue "rule" m, arrayField 32 "pattern_hash" m, i64Field "submitted_at_day" m with
    | some rule, some patternHash, some submittedAtDay => some { rule, patternHash, submittedAtDay }
    | _, _, _ => none
  | _ => none

namespace Ledger

def sortValue {N : Type} (v : Value N) : Value N := v.sortKeys

/-- Canonical JSON encoding: sorted keys, compact, UTF-8. -/
def canonicalJsonBytes (J : SerdeJson) (value : Value) : Bytes := J.toVec (sortValue value)

/-- Verify a `SignedSuggestion` end to end; the verified suggestion on success. -/
def verify (C : Crypto) (J : SerdeJson) (signed : SignedSuggestion) : Except LedgerError Suggestion :=
  if !C.validKey signed.publicKey then .error .badKey
  else
    let body := canonicalJsonBytes J signed.suggestion.toValue
    if !C.verifySig signed.publicKey body signed.signature then .error .badSignature
    else
      let recomputed := C.blake3 (canonicalJsonBytes J signed.suggestion.rule.toValue)
      if recomputed ≠ signed.suggestion.patternHash then .error .hashMismatch
      else .ok signed.suggestion

end Ledger

/-- A suggestion for a rule, dated with today's UTC day index. -/
def Suggestion.new (C : Crypto) (J : SerdeJson) (today : I64) (rule : CrabRule) : Suggestion :=
  { rule
    patternHash := C.blake3 (Ledger.canonicalJsonBytes J rule.toValue)
    submittedAtDay := today }

def InstallKey.publicBytes (C : Crypto) (k : InstallKey) : Bytes32 := C.verifyingKey k.signing

/-- Sign a `Suggestion`, producing a `SignedSuggestion` ready to submit to the ledger. -/
def InstallKey.sign (C : Crypto) (J : SerdeJson) (k : InstallKey) (suggestion : Suggestion) : SignedSuggestion :=
  { suggestion
    publicKey := k.publicBytes C
    signature := C.sign k.signing (Ledger.canonicalJsonBytes J suggestion.toValue) }

/-! ## The canonical encoding loses nothing -/

theorem Suggestion.toValue_wf (s : Suggestion) : s.toValue.WF :=
  ⟨(by decide : ["rule", "pattern_hash", "submitted_at_day"].Nodup), s.rule.toValue_wf,
    wfItems_u8Values _, trivial, trivial⟩

/-- A suggestion is decoded from every value that is its encoding up to key order. -/
theorem Suggestion.fromValue_same (s : Suggestion) {w : Value} (h : s.toValue.Same w) :
    Suggestion.fromValue w = some s := by
  obtain ⟨m', rfl, hm⟩ := same_obj_get (by exact s.toValue_wf.1) h
  obtain ⟨vr, hvr, hsr⟩ := hm "rule" _ rfl
  have hrule : field CrabRule.fromValue "rule" m' = some s.rule := by
    unfold field; rw [hvr]; exact s.rule.fromValue_same hsr
  rw [Suggestion.fromValue, hrule, arrayField_same (k := "pattern_hash") hm rfl,
    i64Field_same (k := "submitted_at_day") hm rfl]

namespace Ledger

variable {C : Crypto} {J : SerdeJson}

theorem canonicalJsonBytes_inj {v w : Value} (hv : v.WF) (hw : w.WF)
    (h : canonicalJsonBytes J v = canonicalJsonBytes J w) : v.sortKeys = w.sortKeys :=
  J.toString_inj (wf_sortKeys v hv) (wf_sortKeys w hw) (utf8_inj h)

/-- Rules with one canonical encoding are equal. -/
theorem canonical_rule_inj {r s : CrabRule}
    (h : canonicalJsonBytes J r.toValue = canonicalJsonBytes J s.toValue) : r = s := by
  have he := canonicalJsonBytes_inj r.toValue_wf s.toValue_wf h
  have hr := r.fromValue_same (same_sortKeys _ r.toValue_wf)
  rw [he, s.fromValue_same (same_sortKeys _ s.toValue_wf)] at hr
  exact (Option.some.inj hr).symm

/-- Suggestions with one canonical encoding are equal. -/
theorem canonical_suggestion_inj {a b : Suggestion}
    (h : canonicalJsonBytes J a.toValue = canonicalJsonBytes J b.toValue) : a = b := by
  have he := canonicalJsonBytes_inj a.toValue_wf b.toValue_wf h
  have ha := a.fromValue_same (same_sortKeys _ a.toValue_wf)
  rw [he, b.fromValue_same (same_sortKeys _ b.toValue_wf)] at ha
  exact (Option.some.inj ha).symm

/-! ## What is accepted -/

/-- The signature of a submission verifies over the canonical suggestion and the pattern hash is the
hash of the canonical rule. -/
structure Verified (C : Crypto) (J : SerdeJson) (signed : SignedSuggestion) : Prop where
  key : C.validKey signed.publicKey
  sig : C.verifySig signed.publicKey (canonicalJsonBytes J signed.suggestion.toValue) signed.signature
  hash : C.blake3 (canonicalJsonBytes J signed.suggestion.rule.toValue) = signed.suggestion.patternHash

theorem verify_ok {signed : SignedSuggestion} {s : Suggestion} :
    verify C J signed = .ok s ↔ s = signed.suggestion ∧ Verified C J signed := by
  unfold verify
  constructor
  · intro h
    split at h
    · cases h
    · rename_i hk
      simp only at h
      split at h
      · cases h
      · rename_i hs
        split at h
        · cases h
        · rename_i hh
          cases h
          exact ⟨rfl, by simpa using hk, by simpa using hs, by simpa using hh⟩
  · rintro ⟨rfl, hk, hs, hh⟩
    simp [hk, hs, hh]

end Ledger

end Thundercrab
