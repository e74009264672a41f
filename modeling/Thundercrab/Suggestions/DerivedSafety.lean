/-
Derived rules before the safety checks. A derived rule files into the destination of the events it
comes from, whatever that is, so that moves back into a protected folder derive a rule that the
federated path refuses. The path does not look at the domains of a rule: they have the documented
form as long as they were learned from senders' addresses.
-/
import Thundercrab.Suggestions.Evidence
import Thundercrab.Suggestions.Gate

namespace Thundercrab

open Lib Lib.Json

/-- A derived rule is accepted exactly when its destination is no protected folder. -/
theorem derivedRule_accepted_iff (domain dest : String) :
    (∃ f, applySuggestion (derivedRule domain dest) = .ok f) ↔ ¬ Offends (.fileInto dest) := by
  rw [accepted_iff]
  constructor
  · intro h
    exact h (0, .fileInto dest) (List.mem_singleton_self _)
  · rintro h p hp
    rw [List.mem_singleton.1 hp]
    exact h

/-- The safety layer accepts every rule derived from a history exactly when no domain has events to
`INBOX` or `Important`, in whatever ASCII case, that are enough and dominant. -/
theorem derived_accepted_iff {F : Type} (fl : FloatOps F) (J : SerdeJson) (Q : RowOrder) (history : List FlagEvent)
    (minObservations : Int) (dominanceThreshold : F) :
    let db := Db.recordAll J history
    (∀ d ∈ deriveRuleCandidates fl (db.flagCountsByDomainDest Q) minObservations dominanceThreshold,
      ∃ f, applySuggestion d.rule = .ok f) ↔
    ¬ ∃ domain dest, (eqIgnoreAsciiCase dest "INBOX" = true ∨ eqIgnoreAsciiCase dest "Important" = true) ∧
      domain ≠ "" ∧ 0 < db.eventsOf domain dest ∧ minObservations ≤ db.eventsOf domain dest ∧
      Dominant fl (db.eventsOf domain dest) (wrapI64 (db.eventsFrom domain)) dominanceThreshold := by
  intro db
  constructor
  · rintro h ⟨domain, dest, hoff, hne, hpos, hmin, hdom⟩
    have haccepted := h _ (mem_derive_stored.2 ⟨domain, dest, hne, hpos, hmin, hdom, rfl⟩)
    exact (derivedRule_accepted_iff domain dest).1 haccepted hoff
  · intro hno d hd
    obtain ⟨domain, dest, hne, hpos, hmin, hdom, rfl⟩ := mem_derive_stored.1 hd
    refine (derivedRule_accepted_iff domain dest).2 fun hoff => ?_
    exact hno ⟨domain, dest, hoff, hne, hpos, hmin, hdom⟩

/-- Three messages of one domain moved back to INBOX derive a rule that is refused. -/
theorem moves_to_inbox_refused :
    ¬ ∀ d ∈ deriveRuleCandidates .rat
        ((Db.recordAll .compact (threeFlags .manualMove "INBOX")).flagCountsByDomainDest .asGrouped) 3 (1 / 2),
      ∃ f, applySuggestion d.rule = .ok f := by
  intro h
  have haccepted := h _ (mem_derive_threeFlags (by decide) (by decide))
  exact (derivedRule_accepted_iff "@x.com" "INBOX").1 haccepted (.inl (by decide))

/-! ## Domains that were learned -/

/-- The rule is refused, or lists only domains of the documented form, which tell senders apart by their
hosts. -/
def Conforms (r : CrabRule) : Prop :=
  ∀ f, applySuggestion r = .ok f → ∀ domains ∈ f.when.domainLists, ∀ d ∈ domains, DomainWithAt d ∧ HostOnly d

end Thundercrab
