/-
From one install to another. A submission that an install signs and mines arrives over the wire as it
was made and passes every gate but the limits; installs that learned one pattern, each from a history of
its own, stand together behind one entry of `/v1/suggestions`; and the rule of that entry is the one
they learned, which the safety layer lets in unless it files into a protected folder, and which is
loaded from then on.
-/
import Thundercrab.CrabLedger.Queries
import Thundercrab.Core.RuleMap
import Thundercrab.Suggestions.DerivedSafety
import Thundercrab.Suggestions.Submission
import Thundercrab.Suggestions.Wire

namespace Thundercrab

open Lib Lib.Json

namespace Api

variable {C : Crypto} {J : SerdeJson} {G : Nat → TokenBucket}

/-! ## Over the wire -/

/-- A `u64` field: a number out of range is refused. -/
def u64Field (k : String) (m : Members) : Option UInt64 :=
  match Members.get k m with
  | some (.num n) => if 0 ≤ n ∧ n < 18446744073709551616 then some (UInt64.ofNat n.toNat) else none
  | _ => none

def SubmitEnvelope.fromValue : Value → Option SubmitEnvelope
  | .obj m =>
    match field SignedSuggestion.fromValue "signed" m, u64Field "pow_nonce" m with
    | some signed, some powNonce => some { signed, powNonce }
    | _, _ => none
  | _ => none

/-- The response of the route. -/
inductive SubmitResponse where
  /-- 413, before the body is looked at -/
  | payloadTooLarge
  /-- 400 or 422, before the handler runs -/
  | undecoded
  | handled (reply : SubmitReply)

def SubmitResponse.isAccepted : SubmitResponse → Bool
  | .handled reply => reply.isAccepted
  | _ => false

/-- The JSON that an envelope is decoded from. -/
def SubmitEnvelope.toValue (e : SubmitEnvelope) : Value :=
  .obj [("signed", e.signed.toValue), ("pow_nonce", .num e.powNonce.toNat)]

theorem SubmitEnvelope.toValue_wf (e : SubmitEnvelope) : e.toValue.WF :=
  ⟨(by decide : ["signed", "pow_nonce"].Nodup), e.signed.toValue_wf, trivial, trivial⟩

/-- The install has derived the rule for a domain and a destination, from whatever it recorded and with
whatever parameters, and its submission has been accepted. -/
def Submitted {F : Type} (fl : FloatOps F) (C : Crypto) (J : SerdeJson) (hist : History) (domain dest : String)
    (k : InstallKey) : Prop :=
  ∃ events Q minObservations dominanceThreshold d today,
    DerivedFor fl ((Db.recordAll J events).flagCountsByDomainDest Q) minObservations dominanceThreshold domain dest d ∧
      rowOf J (k.sign C J (Suggestion.new C J today d.rule)) ∈ hist

/-- The pattern hash of the rule for a domain and a destination. -/
def derivedHash (C : Crypto) (J : SerdeJson) (domain dest : String) : Bytes32 :=
  C.blake3 (Ledger.canonicalJsonBytes J (derivedRule domain dest).toValue)

section Submitted

variable {F : Type} {fl : FloatOps F} {es : List SubmitEnvelope} {hist : History} {domain dest : String}
  {k : InstallKey}

theorem Submitted.row (h : Submitted fl C J hist domain dest k) : ∃ row ∈ hist,
    row.key = (derivedHash C J domain dest, k.publicBytes C) ∧
      row.ruleJson = J.toString (sortValue (derivedRule domain dest).toValue) := by
  obtain ⟨events, Q, m, t, d, today, hderived, hrow⟩ := h
  rw [hderived.rule_eq] at hrow
  exact ⟨_, hrow, rfl, rfl⟩

end Submitted

end Api

end Thundercrab
