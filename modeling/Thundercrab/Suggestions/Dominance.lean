/-
`derive.rs`, the dominance test over exact numbers: with a threshold above one half, a domain whose
counts are not negative has at most one destination that passes, so that the rules of a derivation
never send one domain to two folders. The totals of the code are those of exact numbers as long as
they fit in an `i64`.
-/
import Thundercrab.Lib.GroupCount
import Thundercrab.Suggestions.Derive
import Mathlib.Tactic.FieldSimp
import Mathlib.Tactic.Linarith

namespace Thundercrab

open Lib

/-- Per-domain totals of exact numbers. -/
def exactTotals (flagCounts : List FlagCount) : String → Option Int :=
  flagCounts.foldl
    (fun totals row => Function.update totals row.1 (some ((totals row.1).getD 0 + row.2.2)))
    fun _ => none

/-- The body of the loop for a given total. -/
def rowRule {F : Type} (fl : FloatOps F) (total minObservations : Int) (dominanceThreshold : F) (row : FlagCount) :
    Option DerivedRule :=
  let (domain, dest, count) := row
  if count < minObservations then none
  else if total = 0 then none
  else
    let frac := fl.div (fl.ofInt count) (fl.ofInt total)
    if fl.lt frac dominanceThreshold then none
    else some { rule := derivedRule domain dest, localEvidenceCount := count }

/-- The derivation with exact numbers throughout. -/
def deriveExact (flagCounts : List FlagCount) (minObservations : Int) (dominanceThreshold : ℚ) : List DerivedRule :=
  flagCounts.filterMap fun row =>
    rowRule .rat ((exactTotals flagCounts row.1).getD 0) minObservations dominanceThreshold row

/-- The sum of all counts of a domain. -/
def domainSum (flagCounts : List FlagCount) (domain : String) : Int :=
  ((flagCounts.filter fun row => row.1 = domain).map fun row => row.2.2).sum

theorem exactTotals_eq (flagCounts : List FlagCount) (domain : String) :
    (exactTotals flagCounts domain).getD 0 = domainSum flagCounts domain := by
  refine (foldl_totals id (fun _ _ => rfl) domain flagCounts (fun _ => none) rfl).trans ?_
  simp [domainSum]

theorem deriveRow_eq_rowRule {F : Type} (fl : FloatOps F) (flagCounts : List FlagCount) (m : Int) (t : F)
    (row : FlagCount) :
    deriveRow fl flagCounts m t row = rowRule fl ((domainTotals flagCounts row.1).getD 0) m t row := rfl

/-! ## The code's totals and the exact ones -/

theorem wrapI64_of_mem {n : Int} (hlo : -9223372036854775808 ≤ n) (hhi : n < 9223372036854775808) : wrapI64 n = n :=
  Int.bmod_eq_of_le (by omega) (by omega)

/-- The code derives what exact numbers derive when no total leaves the range. -/
theorem deriveRuleCandidates_eq_exact {flagCounts : List FlagCount} (m : Int) (t : ℚ)
    (h : ∀ domain, -9223372036854775808 ≤ domainSum flagCounts domain ∧
      domainSum flagCounts domain < 9223372036854775808) :
    deriveRuleCandidates .rat flagCounts m t = deriveExact flagCounts m t := by
  unfold deriveRuleCandidates deriveExact
  refine List.filterMap_congr fun row _ => ?_
  rw [deriveRow_eq_rowRule, domainTotals_eq, exactTotals_eq]
  exact congrArg (rowRule .rat · m t row) (wrapI64_of_mem (h row.1).1 (h row.1).2)

/-! ## One destination for a domain -/

/-- The row prevails in its domain: its count is high enough, and a large enough share of its domain. -/
def Prevails (flagCounts : List FlagCount) (minObservations : Int) (dominanceThreshold : ℚ) (row : FlagCount) : Prop :=
  minObservations ≤ row.2.2 ∧ dominanceThreshold ≤ (row.2.2 : ℚ) / domainSum flagCounts row.1

section Exact

variable {flagCounts : List FlagCount} {m : Int} {t : ℚ}

/-- A row is part of the sum of its domain. -/
theorem le_domainSum (h : ∀ row ∈ flagCounts, 0 ≤ row.2.2) {row : FlagCount} (hrow : row ∈ flagCounts) :
    row.2.2 ≤ domainSum flagCounts row.1 :=
  le_sum (f := fun row : FlagCount => row.2.2) (fun x hx => h x (List.mem_filter.1 hx).1)
    (List.mem_filter.2 ⟨hrow, decide_eq_true rfl⟩)

/-- A row contributes a rule exactly when it passes both tests, the rule of its domain and
destination with its count. -/
theorem rowRule_eq_some (h : ∀ row ∈ flagCounts, 0 ≤ row.2.2) (hm : 1 ≤ m) {row : FlagCount}
    (hrow : row ∈ flagCounts) {d : DerivedRule} :
    rowRule .rat ((exactTotals flagCounts row.1).getD 0) m t row = some d ↔
      Prevails flagCounts m t row ∧ d = ⟨derivedRule row.1 row.2.1, row.2.2⟩ := by
  have hle := le_domainSum h hrow
  obtain ⟨domain, dest, count⟩ := row
  rw [exactTotals_eq]
  simp only at hle
  unfold rowRule Prevails
  simp only
  by_cases hlow : count < m
  · rw [if_pos hlow]
    exact ⟨nofun, fun hp => absurd hp.1.1 (not_le.2 hlow)⟩
  · rw [if_neg hlow, if_neg (by omega)]
    have hlt : FloatOps.rat.lt (FloatOps.rat.div (FloatOps.rat.ofInt count)
        (FloatOps.rat.ofInt (domainSum flagCounts domain))) t = true ↔
        ¬ t ≤ (count : ℚ) / domainSum flagCounts domain := by
      rw [not_le]
      exact decide_eq_true_iff
    by_cases hshare : t ≤ (count : ℚ) / domainSum flagCounts domain
    · rw [if_neg fun hc => hlt.1 hc hshare]
      constructor
      · intro he
        cases he
        exact ⟨⟨not_lt.1 hlow, hshare⟩, rfl⟩
      · rintro ⟨-, rfl⟩
        rfl
    · rw [if_pos (hlt.2 hshare)]
      exact ⟨nofun, fun hp => absurd hp.1.2 hshare⟩

/-- A row that passes has more than half of its domain's counts. -/
theorem majority_of_prevails (h : ∀ row ∈ flagCounts, 0 ≤ row.2.2) (hm : 1 ≤ m) (ht : 1 / 2 < t) {row : FlagCount}
    (hrow : row ∈ flagCounts) (hp : Prevails flagCounts m t row) : domainSum flagCounts row.1 < 2 * row.2.2 := by
  have hle := le_domainSum h hrow
  have hpos : (0 : ℚ) < domainSum flagCounts row.1 := by
    have : 0 < domainSum flagCounts row.1 := by have := hp.1; omega
    exact_mod_cast this
  have hhalf : (1 / 2 : ℚ) < (row.2.2 : ℚ) / domainSum flagCounts row.1 := lt_of_lt_of_le ht hp.2
  rw [lt_div_iff₀ hpos] at hhalf
  have : (domainSum flagCounts row.1 : ℚ) < 2 * row.2.2 := by linarith
  exact_mod_cast this

/-- Rows of one domain that pass are one row. -/
theorem prevails_unique (h : ∀ row ∈ flagCounts, 0 ≤ row.2.2) (hm : 1 ≤ m) (ht : 1 / 2 < t) {row row' : FlagCount}
    (hrow : row ∈ flagCounts) (hrow' : row' ∈ flagCounts) (hp : Prevails flagCounts m t row)
    (hp' : Prevails flagCounts m t row') (hd : row.1 = row'.1) : row = row' := by
  have hma := majority_of_prevails h hm ht hrow hp
  have hmb := majority_of_prevails h hm ht hrow' hp'
  rw [hd] at hma
  exact majority_unique (f := fun row : FlagCount => row.2.2)
    (fun x hx => h x (List.mem_filter.1 hx).1) (List.mem_filter.2 ⟨hrow, decide_eq_true hd⟩)
    (List.mem_filter.2 ⟨hrow', decide_eq_true rfl⟩) hma hmb

theorem mem_deriveExact (h : ∀ row ∈ flagCounts, 0 ≤ row.2.2) (hm : 1 ≤ m) {d : DerivedRule} :
    d ∈ deriveExact flagCounts m t ↔
      ∃ row ∈ flagCounts, Prevails flagCounts m t row ∧ d = ⟨derivedRule row.1 row.2.1, row.2.2⟩ := by
  unfold deriveExact
  rw [List.mem_filterMap]
  exact exists_congr fun row => and_congr_right fun hrow => rowRule_eq_some h hm hrow

/-- Two rules of one domain come from one row. -/
theorem deriveExact_nodup (hpairs : (flagCounts.map fun row => (row.1, row.2.1)).Nodup)
    (h : ∀ row ∈ flagCounts, 0 ≤ row.2.2) (hm : 1 ≤ m) (ht : 1 / 2 < t) :
    ((deriveExact flagCounts m t).map fun d => d.rule.when).Nodup := by
  unfold deriveExact List.Nodup
  rw [List.pairwise_map, List.pairwise_filterMap]
  refine (hpairs.of_map (f := fun row : FlagCount => (row.1, row.2.1))).imp_of_mem ?_
  intro row row' hrow hrow' hne d hd d' hd' hwhen
  obtain ⟨hp, rfl⟩ := (rowRule_eq_some h hm hrow).1 hd
  obtain ⟨hp', rfl⟩ := (rowRule_eq_some h hm hrow').1 hd'
  have hdomain : MatchExpr.fromDomainIn [row.1] = .fromDomainIn [row'.1] := hwhen
  injection hdomain with hdomain
  exact hne (prevails_unique h hm ht hrow hrow' hp hp' (List.head_eq_of_cons_eq hdomain))

theorem domainSum_nonneg (h : ∀ row ∈ flagCounts, 0 ≤ row.2.2) (domain : String) : 0 ≤ domainSum flagCounts domain := by
  refine List.sum_nonneg fun n hn => ?_
  obtain ⟨row, hrow, rfl⟩ := List.mem_map.1 hn
  exact h row (List.mem_filter.1 hrow).1

end Exact

/-- Over rows of distinct pairs and counts that are not negative, with a threshold above one half:
no two derived rules are for one domain; a domain has a rule exactly when one of its destinations
passes both tests; every rule is for the domain, the destination and the count of such a row. The
code derives the same list when no total leaves the range of an `i64`. -/
theorem deriveExact_spec (flagCounts : List FlagCount) (minObservations : Int) (dominanceThreshold : ℚ)
    (hpairs : (flagCounts.map fun row => (row.1, row.2.1)).Nodup) (hcounts : ∀ row ∈ flagCounts, 0 ≤ row.2.2)
    (hmin : 1 ≤ minObservations) (hthr : 1 / 2 < dominanceThreshold) :
    let derived := deriveExact flagCounts minObservations dominanceThreshold
    (derived.map fun d => d.rule.when).Nodup ∧
    (∀ domain, (∃ d ∈ derived, d.rule.when = .fromDomainIn [domain]) ↔
      ∃ dest count, (domain, dest, count) ∈ flagCounts ∧
        Prevails flagCounts minObservations dominanceThreshold (domain, dest, count)) ∧
    (∀ d ∈ derived, ∃ domain dest count, (domain, dest, count) ∈ flagCounts ∧
      Prevails flagCounts minObservations dominanceThreshold (domain, dest, count) ∧
      d.rule.when = .fromDomainIn [domain] ∧ d.rule.action = .fileInto dest ∧ d.localEvidenceCount = count) ∧
    ((∀ domain, domainSum flagCounts domain < 9223372036854775808) →
      deriveRuleCandidates .rat flagCounts minObservations dominanceThreshold = derived) := by
  intro derived
  have hmem : ∀ d, d ∈ derived ↔ _ := fun d => mem_deriveExact hcounts hmin
  refine ⟨deriveExact_nodup hpairs hcounts hmin hthr, fun domain => ⟨?_, ?_⟩, ?_, fun hfit => ?_⟩
  · rintro ⟨d, hd, hwhen⟩
    obtain ⟨⟨domain', dest, count⟩, hrow, hp, rfl⟩ := (hmem d).1 hd
    have hdomain : MatchExpr.fromDomainIn [domain'] = .fromDomainIn [domain] := hwhen
    cases hdomain
    exact ⟨dest, count, hrow, hp⟩
  · rintro ⟨dest, count, hrow, hp⟩
    exact ⟨_, (hmem _).2 ⟨_, hrow, hp, rfl⟩, rfl⟩
  · intro d hd
    obtain ⟨⟨domain, dest, count⟩, hrow, hp, rfl⟩ := (hmem d).1 hd
    exact ⟨domain, dest, count, hrow, hp, rfl, rfl, rfl⟩
  · refine deriveRuleCandidates_eq_exact minObservations dominanceThreshold fun domain => ⟨?_, hfit domain⟩
    have := domainSum_nonneg hcounts domain
    omega

/-- Two destinations of one domain with another domain between them. -/
def interleaved : List FlagCount := [("@x.com", "Promotions", 3), ("@y.com", "Shop", 2), ("@x.com", "Trash", 1)]

theorem interleaved_rule :
    (∃ d ∈ deriveExact interleaved 3 (7 / 10), d.rule.when = .fromDomainIn ["@x.com"]) ∧
      ((deriveExact interleaved 3 (7 / 10)).map fun d => d.rule.when).Nodup := by
  obtain ⟨hone, hrule, -⟩ := deriveExact_spec interleaved 3 (7 / 10) (by decide) (by decide) (by decide) (by norm_num)
  refine ⟨(hrule "@x.com").2 ⟨"Promotions", 3, List.mem_cons_self, le_refl _, ?_⟩, hone⟩
  have hsum : domainSum interleaved "@x.com" = 4 := by decide
  rw [hsum]
  norm_num

end Thundercrab
