/-
From recorded flag events to derived rules. The counts the derivation reads, and with them the rules
it proposes, are those of the set of recorded events, in whatever order and however often they were
recorded. The counts do not tell moves from flag toggles, whose destination is a flag name: every
rule is backed by moves unless somewhere toggles make up for the moves that are missing.
-/
import Thundercrab.Core.FlagHistory
import Thundercrab.Suggestions.Derive
import Mathlib.Tactic.NormNum

namespace Thundercrab

open Lib Lib.Json

variable {F : Type} {fl : FloatOps F} {J : SerdeJson}

/-! ## Order and repetition -/

/-- Two histories with the same events, in whatever order and however often recorded, lead to the
same counts and the same derived rules. Each domain and destination is counted once, with the number
of distinct messages and sources observed; the events to a destination are those counted for it and
those without a domain. -/
theorem counts_of_recordAll (fl : FloatOps F) (J : SerdeJson) (Q Q' : RowOrder) (history history' : List FlagEvent)
    (hone : OneDomain history) (hsame : ∀ e, e ∈ history ↔ e ∈ history') :
    let db := Db.recordAll J history
    let db' := Db.recordAll J history'
    (db.flagCountsByDomainDest Q).Perm (db'.flagCountsByDomainDest Q') ∧
    (∀ destination, db.countFlagsTo destination = db'.countFlagsTo destination) ∧
    ((db.flagCountsByDomainDest Q).map fun row => (row.1, row.2.1)).Nodup ∧
    (∀ domain destination n, (domain, destination, n) ∈ db.flagCountsByDomainDest Q ↔
      domain ≠ "" ∧ (∃ e ∈ history, e.fromDomainWithAt = domain ∧ e.destination = destination) ∧
        n = distinctFlags history domain destination) ∧
    (∀ destination, db.countFlagsTo destination =
      (((db.flagCountsByDomainDest Q).filter fun row => row.2.1 = destination).map fun row => row.2.2).sum +
        distinctFlags history "" destination) ∧
    ∀ (minObservations : Int) (dominanceThreshold : F),
      (deriveRuleCandidates fl (db.flagCountsByDomainDest Q) minObservations dominanceThreshold).Perm
        (deriveRuleCandidates fl (db'.flagCountsByDomainDest Q') minObservations dominanceThreshold) := by
  intro db db'
  have hevents : ∀ domain destination, db.eventsOf domain destination = db'.eventsOf domain destination :=
    Db.eventsOf_congr hone hsame
  have hperm : (db.flagCountsByDomainDest Q).Perm (db'.flagCountsByDomainDest Q') := Db.flagCounts_congr hevents Q Q'
  have hof : ∀ domain destination, db.eventsOf domain destination = distinctFlags history domain destination :=
    Db.eventsOf_recordAll hone
  refine ⟨hperm, fun t => ?_, Db.flagCounts_pairs_nodup Q db, fun d t n => ?_, fun t => ?_, fun m thr => ?_⟩
  · rw [Db.countFlagsTo_eq Q, Db.countFlagsTo_eq Q', hevents, ((hperm.filter _).map _).sum_eq]
  · rw [Db.mem_flagCounts, hof, distinctFlags_pos]
  · rw [Db.countFlagsTo_eq Q, hof]
  · exact deriveRuleCandidates_perm hperm m thr

/-- Result rows as the groups come, and in reverse. -/
def RowOrder.asGrouped : RowOrder := ⟨id, List.Perm.refl⟩

def RowOrder.reversed : RowOrder := ⟨List.reverse, List.reverse_perm⟩

/-- An event with a message of one domain. -/
def fixtureFlag (message : UInt8) (source : FlagSource) (destination : String) : FlagEvent where
  messageHash := ⟨List.replicate 32 message, List.length_replicate⟩
  source := source
  destination := destination
  fromDomainWithAt := "@x.com"
  listId := none
  hasListUnsubscribe := false
  subjectTokens := []
  priorityHigh := false
  observedAt := ⟨1700000000, by decide⟩

theorem fixtureFlags_oneDomain {history : List FlagEvent} (h : ∀ e ∈ history, ∃ message source destination,
    e = fixtureFlag message source destination) : OneDomain history := by
  intro e he e' he' _
  obtain ⟨_, _, _, rfl⟩ := h e he
  obtain ⟨_, _, _, rfl⟩ := h e' he'
  rfl

/-- Two moves recorded in either order, one of them twice. -/
theorem counts_of_two_moves :
    ((Db.recordAll .compact [fixtureFlag 1 .manualMove "Promotions", fixtureFlag 2 .manualMove "Promotions",
        fixtureFlag 1 .manualMove "Promotions"]).flagCountsByDomainDest .asGrouped).Perm
      ((Db.recordAll .compact [fixtureFlag 2 .manualMove "Promotions",
        fixtureFlag 1 .manualMove "Promotions"]).flagCountsByDomainDest .reversed) := by
  refine (counts_of_recordAll .rat .compact .asGrouped .reversed _ _ (fixtureFlags_oneDomain ?_) ?_).1
  · intro e he
    simp only [List.mem_cons, List.not_mem_nil, or_false] at he
    rcases he with rfl | rfl | rfl <;> exact ⟨_, _, _, rfl⟩
  · intro e
    simp only [List.mem_cons, List.not_mem_nil, or_false]
    grind

/-! ## Moves and toggles -/

namespace Db

/-- The stored events of a domain to a destination that are not flag toggles. -/
def movesOf (db : Db) (domain destination : String) : Nat :=
  db.flagEvents.rows.countP fun r =>
    (r.fromDomainWithAt = domain ∧ r.destination = destination) ∧ r.source ≠ FlagSource.toggleFlag.name

/-- The stored flag toggles of a domain with a flag name. -/
def togglesOf (db : Db) (domain flag : String) : Nat :=
  db.flagEvents.rows.countP fun r =>
    (r.fromDomainWithAt = domain ∧ r.destination = flag) ∧ r.source = FlagSource.toggleFlag.name

theorem eventsOf_eq (db : Db) (domain destination : String) :
    db.eventsOf domain destination = db.movesOf domain destination + db.togglesOf domain destination := by
  unfold eventsOf movesOf togglesOf
  rw [List.countP_eq_countP_filter_add _ _ fun r => r.source ≠ FlagSource.toggleFlag.name, List.countP_filter,
    List.countP_filter]
  refine congrArg₂ Nat.add ?_ ?_
  · exact List.countP_congr fun r _ => by simp
  · exact List.countP_congr fun r _ => by simp

theorem movesOf_eq_zero {history : List FlagEvent} (h : ∀ e ∈ history, e.source = .toggleFlag)
    (domain destination : String) : (recordAll J history).movesOf domain destination = 0 := by
  refine List.countP_eq_zero.2 fun r hr => ?_
  obtain ⟨e, he, rfl⟩ := exists_event hr
  simp [flagRow, h e he]

theorem togglesOf_eq_zero {history : List FlagEvent} (h : ∀ e ∈ history, e.source ≠ .toggleFlag)
    (domain flag : String) : (recordAll J history).togglesOf domain flag = 0 := by
  refine List.countP_eq_zero.2 fun r hr => ?_
  obtain ⟨e, he, rfl⟩ := exists_event hr
  have hne : e.source.name ≠ FlagSource.toggleFlag.name := fun hn => h e he (FlagSource.name_inj hn)
  simp [flagRow, hne]

/-- The total of a domain in the counts is the number of its stored events. -/
theorem total_flagCounts (Q : RowOrder) (db : Db) {domain : String} (h : domain ≠ "") :
    (domainTotals (db.flagCountsByDomainDest Q) domain).getD 0 = wrapI64 (db.eventsFrom domain) := by
  have hsum := sum_flagCounts Q db fun x => x.1 = domain
  simp only [decide_eq_true_eq] at hsum
  rw [domainTotals_eq, hsum, eventsFrom]
  refine congrArg wrapI64 (congrArg Nat.cast (List.countP_congr fun r _ => ?_))
  simp only [decide_eq_true_eq]
  exact ⟨fun hr => hr.2, fun hr => ⟨by rw [hr]; exact h, hr⟩⟩

end Db

/-- The store holds enough moves of the rule's domain to the rule's folder. -/
def Backed (db : Db) (minObservations : Int) (r : CrabRule) : Prop :=
  ∃ domain folder, r.when = .fromDomainIn [domain] ∧ r.action = .fileInto folder ∧
    minObservations ≤ db.movesOf domain folder

theorem backed_derivedRule {db : Db} {m : Int} {domain dest : String} :
    Backed db m (derivedRule domain dest) ↔ m ≤ db.movesOf domain dest := by
  constructor
  · rintro ⟨d, t, hw, ha, hm⟩
    cases hw
    cases ha
    exact hm
  · intro hm
    exact ⟨domain, dest, rfl, rfl, hm⟩

/-- The rules derived from a store are those of the domains and destinations with enough stored
events, at least one, that are dominant. -/
theorem mem_derive_stored {Q : RowOrder} {db : Db} {m : Int} {t : F} {d : DerivedRule} :
    d ∈ deriveRuleCandidates fl (db.flagCountsByDomainDest Q) m t ↔ ∃ domain dest, domain ≠ "" ∧
      0 < db.eventsOf domain dest ∧ m ≤ db.eventsOf domain dest ∧
      Dominant fl (db.eventsOf domain dest) (wrapI64 (db.eventsFrom domain)) t ∧
      d = ⟨derivedRule domain dest, db.eventsOf domain dest⟩ := by
  rw [mem_derive]
  constructor
  · rintro ⟨domain, dest, count, hmem, hcount, hdom, rfl⟩
    obtain ⟨hne, hpos, rfl⟩ := Db.mem_flagCounts.1 hmem
    rw [Db.total_flagCounts Q db hne] at hdom
    exact ⟨domain, dest, hne, hpos, hcount, hdom, rfl⟩
  · rintro ⟨domain, dest, hne, hpos, hcount, hdom, rfl⟩
    rw [← Db.total_flagCounts Q db hne] at hdom
    exact ⟨domain, dest, _, Db.mem_flagCounts.2 ⟨hne, hpos, rfl⟩, hcount, hdom, rfl⟩

/-- With a positive minimum a store without such events derives nothing for the pair. -/
theorem mem_derive_flagCounts {Q : RowOrder} {db : Db} {m : Int} {t : F} {d : DerivedRule} (hm : 1 ≤ m) :
    d ∈ deriveRuleCandidates fl (db.flagCountsByDomainDest Q) m t ↔ ∃ domain dest, domain ≠ "" ∧
      m ≤ db.eventsOf domain dest ∧ Dominant fl (db.eventsOf domain dest) (wrapI64 (db.eventsFrom domain)) t ∧
      d = ⟨derivedRule domain dest, db.eventsOf domain dest⟩ := by
  rw [mem_derive_stored]
  constructor
  · rintro ⟨domain, dest, hne, -, hcount, hdom, rfl⟩
    exact ⟨domain, dest, hne, hcount, hdom, rfl⟩
  · rintro ⟨domain, dest, hne, hcount, hdom, rfl⟩
    exact ⟨domain, dest, hne, by omega, hcount, hdom, rfl⟩

/-- Every derived rule is backed by moves, and toggles alone derive nothing, exactly when there is no
domain and destination whose moves are too few while its events, toggles among them, are enough and
dominant. -/
theorem derived_backed_iff (fl : FloatOps F) (J : SerdeJson) (Q : RowOrder) (history : List FlagEvent)
    (minObservations : Int) (dominanceThreshold : F) (hmin : 1 ≤ minObservations) :
    let db := Db.recordAll J history
    let derived := deriveRuleCandidates fl (db.flagCountsByDomainDest Q) minObservations dominanceThreshold
    ((∀ d ∈ derived, Backed db minObservations d.rule) ∧
      ((∀ e ∈ history, e.source = .toggleFlag) → derived = [])) ↔
    ¬ ∃ domain dest, domain ≠ "" ∧ db.movesOf domain dest < minObservations ∧
      minObservations ≤ db.movesOf domain dest + db.togglesOf domain dest ∧
      Dominant fl (db.movesOf domain dest + db.togglesOf domain dest) (wrapI64 (db.eventsFrom domain))
        dominanceThreshold := by
  intro db derived
  have hmem : ∀ d, d ∈ derived ↔ _ := fun d => mem_derive_flagCounts hmin
  have hevents : ∀ domain dest, ((db.eventsOf domain dest : Nat) : Int) =
      db.movesOf domain dest + db.togglesOf domain dest := by
    intro domain dest
    rw [Db.eventsOf_eq, Int.natCast_add]
  constructor
  · rintro ⟨hbacked, -⟩ ⟨domain, dest, hne, hfew, hmany, hdom⟩
    rw [← hevents] at hmany hdom
    have := hbacked _ ((hmem _).2 ⟨domain, dest, hne, hmany, hdom, rfl⟩)
    exact absurd (backed_derivedRule.1 this) (by omega)
  · intro hno
    have hbacked : ∀ d ∈ derived, Backed db minObservations d.rule := by
      intro d hd
      obtain ⟨domain, dest, hne, hmany, hdom, rfl⟩ := (hmem d).1 hd
      refine backed_derivedRule.2 (not_lt.1 fun hfew => hno ⟨domain, dest, hne, hfew, ?_, ?_⟩)
      · rw [← hevents]; exact hmany
      · rw [← hevents]; exact hdom
    refine ⟨hbacked, fun htoggles => List.eq_nil_iff_forall_not_mem.2 fun d hd => ?_⟩
    -- A rule would need a move, and there is none.
    obtain ⟨domain, folder, -, -, hmoves⟩ := hbacked d hd
    have hzero : db.movesOf domain folder = 0 := Db.movesOf_eq_zero htoggles domain folder
    omega

/-- Three messages of one domain, treated alike. -/
def threeFlags (source : FlagSource) (destination : String) : List FlagEvent :=
  [fixtureFlag 1 source destination, fixtureFlag 2 source destination, fixtureFlag 3 source destination]

theorem mem_threeFlags {source : FlagSource} {destination : String} {e : FlagEvent}
    (h : e ∈ threeFlags source destination) : ∃ message, e = fixtureFlag message source destination := by
  simp only [threeFlags, List.mem_cons, List.not_mem_nil, or_false] at h
  rcases h with rfl | rfl | rfl <;> exact ⟨_, rfl⟩

/-- Three events of one kind are enough for a rule. -/
theorem deriveRow_threeFlags {Q : RowOrder} {source : FlagSource} {dest : String}
    (h : (Db.recordAll .compact (threeFlags source dest)).eventsOf "@x.com" dest = 3)
    (htotal : (Db.recordAll .compact (threeFlags source dest)).eventsFrom "@x.com" = 3) :
    ("@x.com", dest, 3) ∈ (Db.recordAll .compact (threeFlags source dest)).flagCountsByDomainDest Q ∧
      deriveRow .rat ((Db.recordAll .compact (threeFlags source dest)).flagCountsByDomainDest Q) 3 (1 / 2)
        ("@x.com", dest, 3) = some ⟨derivedRule "@x.com" dest, 3⟩ := by
  have hwrap : wrapI64 ((3 : Nat) : Int) = 3 := by decide
  refine ⟨Db.mem_flagCounts.2 ⟨by decide, by rw [h]; decide, by rw [h]; rfl⟩, deriveRow_eq_some.2 ⟨le_refl _, ?_, rfl⟩⟩
  rw [Db.total_flagCounts Q _ (by decide), htotal, hwrap]
  exact dominant_all (by decide) (by norm_num)

theorem mem_derive_threeFlags {Q : RowOrder} {source : FlagSource} {dest : String}
    (h : (Db.recordAll .compact (threeFlags source dest)).eventsOf "@x.com" dest = 3)
    (htotal : (Db.recordAll .compact (threeFlags source dest)).eventsFrom "@x.com" = 3) :
    ⟨derivedRule "@x.com" dest, 3⟩ ∈
      deriveRuleCandidates .rat ((Db.recordAll .compact (threeFlags source dest)).flagCountsByDomainDest Q) 3 (1 / 2) :=
  List.mem_filterMap.2 ⟨_, deriveRow_threeFlags h htotal⟩

theorem three_moves_backed :
    ∃ d ∈ deriveRuleCandidates .rat ((Db.recordAll .compact (threeFlags .manualMove "Promotions")).flagCountsByDomainDest
        .asGrouped) 3 (1 / 2),
      Backed (Db.recordAll .compact (threeFlags .manualMove "Promotions")) 3 d.rule := by
  refine ⟨_, mem_derive_threeFlags (by decide) (by decide), ((derived_backed_iff .rat .compact .asGrouped
    (threeFlags .manualMove "Promotions") 3 (1 / 2) (by decide)).2 ?_).1 _
      (mem_derive_threeFlags (by decide) (by decide))⟩
  rintro ⟨domain, dest, -, hfew, hmany, -⟩
  rw [Db.togglesOf_eq_zero fun e he => ?_] at hmany
  · omega
  · obtain ⟨message, rfl⟩ := mem_threeFlags he
    exact nofun

/-- Three toggles of `\Flagged` and no move derive a rule that files into a folder of that name. -/
theorem toggles_derive_folder_rule :
    (∀ e ∈ threeFlags .toggleFlag "\\Flagged", e.source = .toggleFlag) ∧
    ∃ d ∈ deriveRuleCandidates .rat ((Db.recordAll .compact (threeFlags .toggleFlag "\\Flagged")).flagCountsByDomainDest
        .asGrouped) 3 (1 / 2),
      d.rule.action = .fileInto "\\Flagged" ∧
        ¬ Backed (Db.recordAll .compact (threeFlags .toggleFlag "\\Flagged")) 3 d.rule := by
  have htoggles : ∀ e ∈ threeFlags .toggleFlag "\\Flagged", e.source = .toggleFlag := by
    intro e he
    obtain ⟨message, rfl⟩ := mem_threeFlags he
    rfl
  refine ⟨htoggles, _, mem_derive_threeFlags (by decide) (by decide), rfl, ?_⟩
  rw [backed_derivedRule, Db.movesOf_eq_zero htoggles]
  decide

end Thundercrab
