/-
`derive.rs`: candidate rules from the counts of flag events by sender domain and destination. The
floating-point arithmetic of the dominance test is a parameter; every derived rule has origin User
and the score 30, whatever the arithmetic.
-/
import Thundercrab.Core.FlagCounts
import Mathlib.Data.Rat.Defs
import Mathlib.Algebra.Order.Ring.Rat
import Mathlib.Algebra.BigOperators.Group.List.Basic
import Mathlib.Logic.Function.Basic

namespace Thundercrab

/-- The operations of a floating-point type that the dominance test uses. -/
structure FloatOps (F : Type) where
  /-- `as f64` -/
  ofInt : Int → F
  div : F → F → F
  lt : F → F → Bool

/-- Exact fractions. -/
def FloatOps.rat : FloatOps ℚ := ⟨fun n => n, fun a b => a / b, fun a b => decide (a < b)⟩

/-- A rule the local install proposes. -/
structure DerivedRule where
  rule : CrabRule
  localEvidenceCount : Int

/-- The `i64` that a sum wraps around to. -/
def wrapI64 (n : Int) : Int := n.bmod 18446744073709551616

/-- Per-domain totals, summed over the rows in order. -/
def domainTotals (flagCounts : List FlagCount) : String → Option Int :=
  flagCounts.foldl
    (fun totals row => Function.update totals row.1 (some (wrapI64 ((totals row.1).getD 0 + row.2.2))))
    fun _ => none

/-- Lowercase, replace anything outside `[a-z0-9]` with `_`. -/
def sanitizeId (s : String) : String :=
  String.ofList (s.toList.map fun c => if c.isAlphanum then c.toLower else '_')

/-- The rule proposed for a domain and a destination. -/
def derivedRule (domain dest : String) : CrabRule where
  id := "derived_" ++ sanitizeId domain ++ "_to_" ++ sanitizeId dest
  displayName := dest ++ " (derived from " ++ domain ++ ")"
  when := .fromDomainIn [domain]
  action := .fileInto dest
  score := ⟨30, by decide⟩
  stopOnMatch := true
  origin := .user

/-- A derived rule names its domain and its destination. -/
theorem derivedRule_inj {domain dest domain' dest' : String} :
    derivedRule domain dest = derivedRule domain' dest' ↔ domain = domain' ∧ dest = dest' := by
  constructor
  · intro h
    have hw : MatchExpr.fromDomainIn [domain] = .fromDomainIn [domain'] := congrArg CrabRule.when h
    have ha : Action.fileInto dest = .fileInto dest' := congrArg CrabRule.action h
    cases hw
    cases ha
    exact ⟨rfl, rfl⟩
  · rintro ⟨rfl, rfl⟩
    rfl

section Candidates

variable {F : Type} (fl : FloatOps F)

/-- The body of the loop: what one row contributes. -/
def deriveRow (flagCounts : List FlagCount) (minObservations : Int) (dominanceThreshold : F) (row : FlagCount) :
    Option DerivedRule :=
  let (domain, dest, count) := row
  if count < minObservations then none
  else
    let total := (domainTotals flagCounts domain).getD 0
    if total = 0 then none
    else
      let frac := fl.div (fl.ofInt count) (fl.ofInt total)
      if fl.lt frac dominanceThreshold then none
      else some { rule := derivedRule domain dest, localEvidenceCount := count }

/-- Derive rule candidates from a domain × destination grouping. -/
def deriveRuleCandidates (flagCounts : List FlagCount) (minObservations : Int) (dominanceThreshold : F) :
    List DerivedRule :=
  flagCounts.filterMap (deriveRow fl flagCounts minObservations dominanceThreshold)

/-- The rule is one of the outputs of the derivation on some counts and parameters. -/
def Derived (r : CrabRule) : Prop :=
  ∃ flagCounts minObservations dominanceThreshold,
    ∃ d ∈ deriveRuleCandidates fl flagCounts minObservations dominanceThreshold, d.rule = r

variable {fl}

/-- The count reaches the threshold as a fraction of the total. -/
def Dominant (fl : FloatOps F) (count total : Int) (dominanceThreshold : F) : Prop :=
  total ≠ 0 ∧ fl.lt (fl.div (fl.ofInt count) (fl.ofInt total)) dominanceThreshold = false

/-- A count that is the whole total reaches every threshold up to 1. -/
theorem dominant_all {n : Int} {t : ℚ} (hn : n ≠ 0) (ht : t ≤ 1) : Dominant .rat n n t := by
  have hone : (n : ℚ) / n = 1 := div_self (fun h => hn (Rat.intCast_eq_zero_iff.1 h))
  refine ⟨hn, decide_eq_false (not_lt.2 ?_)⟩
  show t ≤ (n : ℚ) / n
  rw [hone]
  exact ht

/-- A row contributes the rule of its domain and destination when its count is high enough and
dominant. -/
theorem deriveRow_eq_some {flagCounts : List FlagCount} {m : Int} {t : F} {domain dest : String} {count : Int}
    {d : DerivedRule} : deriveRow fl flagCounts m t (domain, dest, count) = some d ↔
      m ≤ count ∧ Dominant fl count ((domainTotals flagCounts domain).getD 0) t ∧
        d = ⟨derivedRule domain dest, count⟩ := by
  unfold deriveRow Dominant
  simp only
  split
  · rename_i hlt
    exact ⟨nofun, fun h => absurd h.1 (by omega)⟩
  · rename_i hge
    split
    · rename_i hzero
      exact ⟨nofun, fun h => absurd hzero h.2.1.1⟩
    · rename_i hne
      split
      · rename_i hlow
        exact ⟨nofun, fun h => absurd hlow (by rw [h.2.1.2]; exact Bool.false_ne_true)⟩
      · rename_i hhigh
        constructor
        · intro h
          cases h
          exact ⟨not_lt.1 hge, ⟨hne, by simpa using hhigh⟩, rfl⟩
        · rintro ⟨-, -, rfl⟩
          rfl

/-- The derived rules are those of the rows that are frequent and dominant. -/
theorem mem_derive {flagCounts : List FlagCount} {m : Int} {t : F} {d : DerivedRule} :
    d ∈ deriveRuleCandidates fl flagCounts m t ↔ ∃ domain dest count, (domain, dest, count) ∈ flagCounts ∧
      m ≤ count ∧ Dominant fl count ((domainTotals flagCounts domain).getD 0) t ∧
        d = ⟨derivedRule domain dest, count⟩ := by
  unfold deriveRuleCandidates
  rw [List.mem_filterMap]
  constructor
  · rintro ⟨⟨domain, dest, count⟩, hmem, h⟩
    exact ⟨domain, dest, count, hmem, deriveRow_eq_some.1 h⟩
  · rintro ⟨domain, dest, count, hmem, h⟩
    exact ⟨(domain, dest, count), hmem, deriveRow_eq_some.2 h⟩

/-! ## Totals -/

theorem wrapI64_add (a b : Int) : wrapI64 (wrapI64 a + b) = wrapI64 (a + b) := Int.bmod_add_bmod

/-- Totals of counts that are added and then brought into range. -/
theorem foldl_totals (wrap : Int → Int) (hwrap : ∀ a b, wrap (wrap a + b) = wrap (a + b)) (domain : String) :
    ∀ (rows : List FlagCount) (totals : String → Option Int),
    wrap ((totals domain).getD 0) = (totals domain).getD 0 →
    ((rows.foldl (fun (totals : String → Option Int) (row : FlagCount) =>
      Function.update totals row.1 (some (wrap ((totals row.1).getD 0 + row.2.2)))) totals) domain).getD 0 =
      wrap ((totals domain).getD 0 + ((rows.filter fun row => row.1 = domain).map fun row => row.2.2).sum)
  | [], totals, h => by simpa using h.symm
  | row :: rows, totals, h => by
    rw [List.foldl_cons]
    by_cases hd : row.1 = domain
    · subst hd
      have hidem : ∀ a, wrap (wrap a) = wrap a := fun a => by simpa using hwrap a 0
      rw [foldl_totals wrap hwrap row.1 rows _ (by simp [hidem]), Function.update_self, Option.getD_some, hwrap]
      simp [Int.add_assoc]
    · have hne : domain ≠ row.1 := Ne.symm hd
      rw [foldl_totals wrap hwrap domain rows _ (by rw [Function.update_of_ne hne]; exact h), Function.update_of_ne hne,
        List.filter_cons_of_neg (by simpa using hd)]

/-- The total of a domain is the sum of its counts, wrapped around. -/
theorem domainTotals_eq (flagCounts : List FlagCount) (domain : String) : (domainTotals flagCounts domain).getD 0 =
    wrapI64 ((flagCounts.filter fun row => row.1 = domain).map fun row => row.2.2).sum := by
  refine (foldl_totals wrapI64 wrapI64_add domain flagCounts (fun _ => none) rfl).trans ?_
  simp

/-- The rules do not depend on the order of the rows. -/
theorem deriveRuleCandidates_perm {rows rows' : List FlagCount} (h : rows.Perm rows') (m : Int) (t : F) :
    (deriveRuleCandidates fl rows m t).Perm (deriveRuleCandidates fl rows' m t) := by
  have htotal : ∀ domain, (domainTotals rows domain).getD 0 = (domainTotals rows' domain).getD 0 := by
    intro domain
    rw [domainTotals_eq, domainTotals_eq, ((h.filter _).map _).sum_eq]
  have hrow : deriveRow fl rows m t = deriveRow fl rows' m t := by
    funext ⟨domain, dest, count⟩
    simp only [deriveRow, htotal]
  unfold deriveRuleCandidates
  rw [hrow]
  exact h.filterMap _

/-! ## What every derived rule has -/

theorem derived_eq {r : CrabRule} (h : Derived fl r) : ∃ domain dest, r = derivedRule domain dest := by
  obtain ⟨flagCounts, m, t, d, hd, rfl⟩ := h
  obtain ⟨domain, dest, count, -, -, -, rfl⟩ := mem_derive.1 hd
  exact ⟨domain, dest, rfl⟩

theorem derived_score {r : CrabRule} (h : Derived fl r) : r.score.1 = 30 := by
  obtain ⟨domain, dest, rfl⟩ := derived_eq h; rfl

theorem derived_origin {r : CrabRule} (h : Derived fl r) : r.origin = .user := by
  obtain ⟨domain, dest, rfl⟩ := derived_eq h; rfl

end Candidates

end Thundercrab
