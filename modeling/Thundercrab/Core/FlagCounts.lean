/-
`db.rs`, the table of flag events: `record_flag` inserts an event unless one of the same message,
source and destination is stored, and two queries count what is stored. Which of the events of one
key is stored depends on the order they come in, but not its message, source and destination: where
these determine the sender domain, the counts are those of the set of the events.
-/
import Thundercrab.Core.Db
import Thundercrab.Lib.GroupCount

namespace Thundercrab

open Lib Lib.Json

/-- A row of `Db::flag_counts_by_domain_dest`: domain, destination, count. -/
abbrev FlagCount := String × String × Int

/-- The order of result rows that a query leaves open. -/
structure RowOrder where
  order : List FlagCount → List FlagCount
  perm : ∀ rows, (order rows).Perm rows

/-- `i64::from(bool)` -/
def I64.ofBool (b : Bool) : I64 := if b then ⟨1, by decide⟩ else ⟨0, by decide⟩

namespace Db

/-- The row `record_flag` binds for an event. -/
def flagRow (J : SerdeJson) (ev : FlagEvent) : FlagRow :=
  { messageHash := ev.messageHash
    source := ev.source.name
    destination := ev.destination
    fromDomainWithAt := ev.fromDomainWithAt
    listId := ev.listId
    hasListUnsubscribe := I64.ofBool ev.hasListUnsubscribe
    subjectTokensJson := J.toString (.arr (ev.subjectTokens.map .str))
    priorityHigh := I64.ofBool ev.priorityHigh
    observedAt := ev.observedAt }

/-- `INSERT OR IGNORE INTO flag_events` -/
def recordFlag (J : SerdeJson) (db : Db) (ev : FlagEvent) : Db :=
  { db with flagEvents := db.flagEvents.upsert (.ignore FlagRow.key) (flagRow J ev) }

/-- How many flag events route to a destination. -/
def countFlagsTo (db : Db) (destination : String) : Int :=
  (db.flagEvents.rows.countP fun r => r.destination = destination : Nat)

/-- The domain and the destination of each row, `WHERE from_domain_with_at <> ''`. -/
def flagPairs (db : Db) : List (String × String) :=
  (db.flagEvents.rows.filter fun r => r.fromDomainWithAt ≠ "").map fun r => (r.fromDomainWithAt, r.destination)

/-- `GROUP BY from_domain_with_at, destination` -/
def flagGroups (db : Db) : List FlagCount :=
  (groupCounts db.flagPairs).map fun g => (g.1.1, g.1.2, (g.2 : Int))

/-- Flag events counted by domain and destination, `ORDER BY 3 DESC`. -/
def flagCountsByDomainDest (Q : RowOrder) (db : Db) : List FlagCount :=
  (Q.order db.flagGroups).insertionSort fun a b => b.2.2 ≤ a.2.2

/-- The store after a sequence of `record_flag` calls on a fresh one. -/
def recordAll (J : SerdeJson) (history : List FlagEvent) : Db := history.foldl (recordFlag J) openInMemory

/-! ## The counts -/

/-- The stored events of a domain to a destination. -/
def eventsOf (db : Db) (domain destination : String) : Nat :=
  db.flagEvents.rows.countP fun r => r.fromDomainWithAt = domain ∧ r.destination = destination

/-- The stored events of a domain. -/
def eventsFrom (db : Db) (domain : String) : Nat := db.flagEvents.rows.countP fun r => r.fromDomainWithAt = domain

theorem flagCounts_perm (Q : RowOrder) (db : Db) : (db.flagCountsByDomainDest Q).Perm db.flagGroups :=
  (List.perm_insertionSort _ _).trans (Q.perm _)

variable {db : Db} {domain destination : String}

theorem count_flagPairs (h : domain ≠ "") :
    (db.flagPairs.countP fun x => x = (domain, destination)) = db.eventsOf domain destination := by
  unfold flagPairs eventsOf
  rw [List.countP_map, List.countP_filter]
  refine List.countP_congr fun r _ => ?_
  simp only [Function.comp, Bool.and_eq_true, Prod.mk.injEq, decide_eq_true_eq]
  constructor
  · exact fun hr => hr.1
  · exact fun hr => ⟨hr, by rw [hr.1]; exact h⟩

theorem mem_flagPairs : (domain, destination) ∈ db.flagPairs ↔ domain ≠ "" ∧ 0 < db.eventsOf domain destination := by
  have hpos : (domain, destination) ∈ db.flagPairs ↔ 0 < db.flagPairs.countP fun x => x = (domain, destination) := by
    rw [List.countP_pos_iff]
    simp
  constructor
  · intro h
    have hne : domain ≠ "" := by
      obtain ⟨r, hr, he⟩ := List.mem_map.1 h
      cases he
      simpa using (List.mem_filter.1 hr).2
    rw [← count_flagPairs hne]
    exact ⟨hne, hpos.1 h⟩
  · rintro ⟨hne, h⟩
    rw [← count_flagPairs hne] at h
    exact hpos.2 h

/-- Each pair of a domain and a destination that is stored has one row, with its number of stored
events. -/
theorem mem_flagCounts {Q : RowOrder} {n : Int} : (domain, destination, n) ∈ db.flagCountsByDomainDest Q ↔
    domain ≠ "" ∧ 0 < db.eventsOf domain destination ∧ n = db.eventsOf domain destination := by
  rw [(flagCounts_perm Q db).mem_iff, flagGroups, List.mem_map]
  constructor
  · rintro ⟨⟨⟨d, t⟩, c⟩, hg, he⟩
    cases he
    obtain ⟨hm, rfl⟩ := mem_groupCounts.1 hg
    obtain ⟨hne, hpos⟩ := mem_flagPairs.1 hm
    exact ⟨hne, hpos, congrArg Nat.cast (count_flagPairs hne)⟩
  · rintro ⟨hne, hpos, rfl⟩
    refine ⟨((domain, destination), db.eventsOf domain destination), mem_groupCounts.2 ⟨?_, ?_⟩, rfl⟩
    · exact mem_flagPairs.2 ⟨hne, hpos⟩
    · exact (count_flagPairs hne).symm

theorem flagCounts_pairs_nodup (Q : RowOrder) (db : Db) :
    ((db.flagCountsByDomainDest Q).map fun row => (row.1, row.2.1)).Nodup := by
  rw [((flagCounts_perm Q db).map _).nodup_iff, flagGroups, List.map_map]
  show ((groupCounts db.flagPairs).map Prod.fst).Nodup
  rw [groupCounts_keys]
  exact List.nodup_dedup _

/-- Stores with the same numbers of events give the same counts. -/
theorem flagCounts_congr {db db' : Db} (h : ∀ domain destination, db.eventsOf domain destination =
    db'.eventsOf domain destination) (Q Q' : RowOrder) :
    (db.flagCountsByDomainDest Q).Perm (db'.flagCountsByDomainDest Q') := by
  refine (List.perm_ext_iff_of_nodup (flagCounts_pairs_nodup Q db).of_map (flagCounts_pairs_nodup Q' db').of_map).2 ?_
  rintro ⟨domain, destination, n⟩
  rw [mem_flagCounts, mem_flagCounts, h]

/-- The counts of the rows that satisfy a condition add up to the stored events that do. -/
theorem sum_flagCounts (Q : RowOrder) (db : Db) (p : String × String → Bool) :
    (((db.flagCountsByDomainDest Q).filter fun row => p (row.1, row.2.1)).map fun row => row.2.2).sum =
      (db.flagEvents.rows.countP fun r => r.fromDomainWithAt ≠ "" ∧ p (r.fromDomainWithAt, r.destination) : Nat) := by
  rw [(((flagCounts_perm Q db).filter _).map _).sum_eq, flagGroups, List.filter_map, List.map_map]
  have hsum : ∀ gs : List ((String × String) × Nat),
      (gs.map fun g => (g.2 : Int)).sum = ((gs.map Prod.snd).sum : Nat) := by
    intro gs
    induction gs with
    | nil => rfl
    | cons g gs ih =>
      rw [List.map_cons, List.sum_cons, List.map_cons, List.sum_cons, ih, Int.natCast_add]
  refine (hsum _).trans (congrArg Nat.cast ?_)
  refine (sum_groupCounts_filter p db.flagPairs).trans ?_
  unfold flagPairs
  rw [List.countP_map, List.countP_filter]
  refine List.countP_congr fun r _ => ?_
  simp only [Function.comp, Bool.and_eq_true, decide_eq_true_eq]
  exact and_comm

/-- The events to a destination are those its rows count and those without a domain. -/
theorem countFlagsTo_eq (Q : RowOrder) (db : Db) (destination : String) : db.countFlagsTo destination =
    (((db.flagCountsByDomainDest Q).filter fun row => row.2.1 = destination).map fun row => row.2.2).sum +
      db.eventsOf "" destination := by
  have hsum := sum_flagCounts Q db fun x => x.2 = destination
  simp only [decide_eq_true_eq] at hsum
  rw [hsum, countFlagsTo, eventsOf, ← Int.natCast_add,
    List.countP_eq_countP_filter_add _ _ fun r => r.fromDomainWithAt ≠ "", List.countP_filter, List.countP_filter]
  refine congrArg Nat.cast (congrArg₂ Nat.add ?_ ?_)
  · exact List.countP_congr fun r _ => by simp [and_comm]
  · exact List.countP_congr fun r _ => by simp [and_comm]

end Db

end Thundercrab
