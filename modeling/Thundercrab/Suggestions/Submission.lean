/-
What a submission says. The pattern hash of a derived rule stands for its sender domain and its
folder and for nothing else of the history it was derived from, so that installs corroborate each
other exactly when they learned the same pattern. A submission that verifies under the key of an
honest install is one the install signed, to the last field of the rule's trees.
-/
import Thundercrab.Suggestions.Evidence
import Thundercrab.Suggestions.Ledger

namespace Thundercrab

open Lib Lib.Json

variable {F : Type} {fl : FloatOps F} {C : Crypto} {J : SerdeJson}

/-! ## Patterns -/

/-- The derivation proposes the rule for this domain and destination. -/
def DerivedFor (fl : FloatOps F) (flagCounts : List FlagCount) (minObservations : Int) (dominanceThreshold : F)
    (domain dest : String) (d : DerivedRule) : Prop :=
  ∃ count, (domain, dest, count) ∈ flagCounts ∧
    deriveRow fl flagCounts minObservations dominanceThreshold (domain, dest, count) = some d

theorem DerivedFor.rule_eq {flagCounts : List FlagCount} {m : Int} {t : F} {domain dest : String} {d : DerivedRule}
    (h : DerivedFor fl flagCounts m t domain dest d) : d.rule = derivedRule domain dest := by
  obtain ⟨count, -, hrow⟩ := h
  rw [(deriveRow_eq_some.1 hrow).2.2]

/-- Two installs, whatever they recorded and whatever their parameters: the rules they derive have
one pattern hash exactly when they are for one domain and one destination, and then the two installs
have the same suggestion to sign on a day. -/
theorem pattern_hash_iff (fl : FloatOps F) (C : Crypto) (J : SerdeJson) (Q₁ Q₂ : RowOrder)
    (history₁ history₂ : List FlagEvent) (minObservations₁ minObservations₂ : Int)
    (dominanceThreshold₁ dominanceThreshold₂ : F) (domain₁ dest₁ domain₂ dest₂ : String) (d₁ d₂ : DerivedRule)
    (h₁ : DerivedFor fl ((Db.recordAll J history₁).flagCountsByDomainDest Q₁) minObservations₁ dominanceThreshold₁
      domain₁ dest₁ d₁)
    (h₂ : DerivedFor fl ((Db.recordAll J history₂).flagCountsByDomainDest Q₂) minObservations₂ dominanceThreshold₂
      domain₂ dest₂ d₂)
    (hcoll : C.blake3 (Ledger.canonicalJsonBytes J d₁.rule.toValue) =
        C.blake3 (Ledger.canonicalJsonBytes J d₂.rule.toValue) →
      Ledger.canonicalJsonBytes J d₁.rule.toValue = Ledger.canonicalJsonBytes J d₂.rule.toValue) :
    (∀ today₁ today₂,
      (Suggestion.new C J today₁ d₁.rule).patternHash = (Suggestion.new C J today₂ d₂.rule).patternHash ↔
        domain₁ = domain₂ ∧ dest₁ = dest₂) ∧
    (domain₁ = domain₂ ∧ dest₁ = dest₂ →
      ∀ today, Suggestion.new C J today d₁.rule = Suggestion.new C J today d₂.rule) := by
  have hr₁ := h₁.rule_eq
  have hr₂ := h₂.rule_eq
  refine ⟨fun today₁ today₂ => ⟨fun hhash => ?_, fun hpair => ?_⟩, fun hpair today => ?_⟩
  · have heq := Ledger.canonical_rule_inj (hcoll hhash)
    rw [hr₁, hr₂] at heq
    exact derivedRule_inj.1 heq
  · rw [hr₁, hr₂, derivedRule_inj.2 hpair]; rfl
  · rw [hr₁, hr₂, derivedRule_inj.2 hpair]

/-- The pattern hash of the rule for `@x.com` and `Promotions`. -/
def promotionsHash : Bytes32 :=
  ⟨[6, 190, 112, 137, 127, 128, 192, 59, 221, 99, 165, 190, 244, 178, 70, 172, 20, 209, 192, 55,
    113, 200, 12, 11, 229, 235, 167, 145, 237, 78, 4, 157], rfl⟩

def updatesHash : Bytes32 :=
  ⟨[79, 234, 194, 40, 138, 168, 118, 27, 190, 179, 45, 207, 190, 182, 237, 11, 54, 109, 59, 112,
    220, 19, 213, 219, 66, 210, 233, 46, 32, 82, 130, 225], rfl⟩

/-- The public key of the secret that is 32 times the octet 7. -/
def installKeyOctets : Bytes :=
  [234, 74, 108, 99, 226, 156, 82, 10, 190, 245, 80, 123, 19, 46, 197, 249, 149, 71, 118, 174, 190,
    190, 123, 146, 66, 30, 234, 105, 20, 70, 210, 44]

theorem length_installKeyOctets : installKeyOctets.length = 32 := rfl

def installKey : Bytes32 := ⟨installKeyOctets, length_installKeyOctets⟩

theorem submissionDay_bounds : -9223372036854775808 ≤ (20000 : Int) ∧ (20000 : Int) < 9223372036854775808 := by decide

def promotionsSuggestion : Suggestion :=
  { rule := derivedRule "@x.com" "Promotions"
    patternHash := promotionsHash
    submittedAtDay := ⟨20000, submissionDay_bounds⟩ }

/-- The signature over it. -/
def promotionsSignature : Bytes64 :=
  ⟨[27, 126, 233, 49, 250, 104, 26, 111, 105, 6, 41, 186, 195, 195, 232, 207, 74, 68, 40, 169, 209,
    95, 91, 71, 230, 16, 38, 48, 88, 41, 34, 67, 152, 73, 17, 131, 64, 9, 83, 146, 209, 93, 19, 46,
    142, 155, 105, 191, 11, 65, 241, 214, 76, 140, 32, 229, 96, 250, 208, 195, 116, 193, 144, 11], rfl⟩

/-- BLAKE3 and Ed25519 on two derived rules and one suggestion. -/
def patternCrypto : Crypto where
  blake3 b :=
    if b = Ledger.canonicalJsonBytes .compact (derivedRule "@x.com" "Promotions").toValue then promotionsHash
    else updatesHash
  validKey k := k = installKey
  verifySig k m s := k = installKey ∧ m = Ledger.canonicalJsonBytes .compact promotionsSuggestion.toValue ∧
    s = promotionsSignature
  verifyingKey _ := installKey
  sign _ _ := promotionsSignature

theorem patternCrypto_blake3 (b : Bytes) : patternCrypto.blake3 b =
    if b = Ledger.canonicalJsonBytes .compact (derivedRule "@x.com" "Promotions").toValue then promotionsHash
    else updatesHash := rfl

theorem blake3_updates : patternCrypto.blake3 (Ledger.canonicalJsonBytes .compact
    (derivedRule "@x.com" "Updates").toValue) = updatesHash := by
  rw [patternCrypto_blake3, if_neg]
  intro h
  exact absurd (derivedRule_inj.1 (Ledger.canonical_rule_inj h)).2 (by decide)

theorem derivedFor_three_moves {Q : RowOrder} {dest : String}
    (h : (Db.recordAll .compact (threeFlags .manualMove dest)).eventsOf "@x.com" dest = 3)
    (htotal : (Db.recordAll .compact (threeFlags .manualMove dest)).eventsFrom "@x.com" = 3) :
    DerivedFor .rat ((Db.recordAll .compact (threeFlags .manualMove dest)).flagCountsByDomainDest Q) 3 (1 / 2)
      "@x.com" dest ⟨derivedRule "@x.com" dest, 3⟩ :=
  ⟨3, deriveRow_threeFlags h htotal⟩

/-- Two installs that moved `@x.com` to different folders do not corroborate each other. -/
theorem promotions_updates_differ :
    (Suggestion.new patternCrypto .compact ⟨20000, by decide⟩ (derivedRule "@x.com" "Promotions")).patternHash ≠
      (Suggestion.new patternCrypto .compact ⟨20001, by decide⟩ (derivedRule "@x.com" "Updates")).patternHash := by
  intro h
  have hne := ((pattern_hash_iff .rat patternCrypto .compact .asGrouped .reversed
    (threeFlags .manualMove "Promotions") (threeFlags .manualMove "Updates") 3 3 (1 / 2) (1 / 2)
    "@x.com" "Promotions" "@x.com" "Updates" _ _ (derivedFor_three_moves (by decide) (by decide))
    (derivedFor_three_moves (by decide) (by decide)) ?_).1 _ _).1 h
  · exact absurd hne.2 (by decide)
  · intro hsame
    rw [blake3_updates, patternCrypto_blake3, if_pos rfl] at hsame
    exact absurd hsame (by decide)

/-! ## Signatures -/

end Thundercrab
