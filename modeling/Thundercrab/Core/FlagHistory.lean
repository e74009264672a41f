/-
What a history of `record_flag` calls leaves in the store. The stored event of a key is the first of
that key, so the stored events of a domain and a destination are one for each message and source
observed there, as long as the events of a key name one domain.
-/
import Thundercrab.Core.FlagCounts

namespace Thundercrab

open Lib Lib.Json

/-- What makes two events the same observation. -/
def FlagEvent.key (ev : FlagEvent) : Bytes32 × FlagSource × String := (ev.messageHash, ev.source, ev.destination)

/-- Events of one key carry one sender domain. -/
def OneDomain (history : List FlagEvent) : Prop :=
  ∀ e ∈ history, ∀ e' ∈ history, e.key = e'.key → e.fromDomainWithAt = e'.fromDomainWithAt

/-- The number of distinct messages and sources observed for a domain and a destination. -/
def distinctFlags (history : List FlagEvent) (domain destination : String) : Nat :=
  ((history.filter fun e => e.fromDomainWithAt = domain ∧ e.destination = destination).map fun e =>
    (e.messageHash, e.source)).dedup.length

theorem distinctFlags_congr {history history' : List FlagEvent} (h : ∀ e, e ∈ history ↔ e ∈ history')
    (domain destination : String) :
    distinctFlags history domain destination = distinctFlags history' domain destination := by
  refine List.Perm.length_eq ((List.perm_ext_iff_of_nodup (List.nodup_dedup _) (List.nodup_dedup _)).2 fun x => ?_)
  simp only [List.mem_dedup, List.mem_map, List.mem_filter, h]

theorem distinctFlags_pos {history : List FlagEvent} {domain destination : String} :
    0 < distinctFlags history domain destination ↔
      ∃ e ∈ history, e.fromDomainWithAt = domain ∧ e.destination = destination := by
  unfold distinctFlags
  rw [List.length_pos_iff_exists_mem]
  simp only [List.mem_dedup, List.mem_map, List.mem_filter, decide_eq_true_eq]
  constructor
  · rintro ⟨_, e, ⟨he, h⟩, -⟩
    exact ⟨e, he, h⟩
  · rintro ⟨e, he, h⟩
    exact ⟨_, e, ⟨he, h⟩, rfl⟩

namespace Db

variable {J : SerdeJson}

theorem flagRow_key_inj {e e' : FlagEvent} (h : (flagRow J e).key = (flagRow J e').key) : e.key = e'.key := by
  simp only [flagRow, FlagRow.key, Prod.mk.injEq] at h
  obtain ⟨hh, hs, hd⟩ := h
  simp only [FlagEvent.key, hh, FlagSource.name_inj hs, hd]

theorem foldl_recordFlag (history : List FlagEvent) : ∀ db : Db,
    (history.foldl (recordFlag J) db).flagEvents =
      db.flagEvents.upsertAll (.ignore FlagRow.key) (history.map (flagRow J)) := by
  induction history with
  | nil => exact fun _ => rfl
  | cons e history ih => exact fun db => ih (db.recordFlag J e)

/-- A stored row is the row of the first event of its key. -/
theorem mem_recordAll {history : List FlagEvent} {r : FlagRow} : r ∈ (recordAll J history).flagEvents.rows ↔
    (history.map (flagRow J)).find? (fun n => n.key = r.key) = some r := by
  unfold recordAll
  rw [foldl_recordFlag]
  exact Table.mem_upsertAll_ignore _ _

theorem exists_event {history : List FlagEvent} {r : FlagRow} (h : r ∈ (recordAll J history).flagEvents.rows) :
    ∃ e ∈ history, flagRow J e = r :=
  List.mem_map.1 (List.mem_of_find?_eq_some (mem_recordAll.1 h))

/-- Each event has a stored row of its key, which is the row of an event of the history. -/
theorem exists_stored {history : List FlagEvent} {e : FlagEvent} (h : e ∈ history) :
    ∃ e₀ ∈ history, e₀.key = e.key ∧ flagRow J e₀ ∈ (recordAll J history).flagEvents.rows := by
  have hfound : ((history.map (flagRow J)).find? fun n => n.key = (flagRow J e).key).isSome := by
    rw [List.find?_isSome]
    exact ⟨flagRow J e, List.mem_map_of_mem h, by simp⟩
  obtain ⟨r, hr⟩ := Option.isSome_iff_exists.1 hfound
  have hkey : r.key = (flagRow J e).key := by simpa using List.find?_some hr
  obtain ⟨e₀, he₀, rfl⟩ := List.mem_map.1 (List.mem_of_find?_eq_some hr)
  exact ⟨e₀, he₀, flagRow_key_inj hkey, mem_recordAll.2 (by rw [hkey]; exact hr)⟩

/-- The stored events of a domain and a destination are one for each message and source observed
there. -/
theorem eventsOf_recordAll {history : List FlagEvent} (hone : OneDomain history) (domain destination : String) :
    (recordAll J history).eventsOf domain destination = distinctFlags history domain destination := by
  have hinj : Function.Injective fun p : Bytes32 × FlagSource => (p.1, p.2.name) := by
    rintro ⟨h, s⟩ ⟨h', s'⟩ he
    simp only [Prod.mk.injEq] at he
    rw [he.1, FlagSource.name_inj he.2]
  unfold eventsOf distinctFlags
  rw [List.countP_eq_length_filter]
  refine (List.length_map fun r : FlagRow => (r.messageHash, r.source)).symm.trans
    (.trans ?_ (List.length_map fun p : Bytes32 × FlagSource => (p.1, p.2.name)))
  refine List.Perm.length_eq ((List.perm_ext_iff_of_nodup ?_ ((List.nodup_dedup _).map hinj)).2 ?_)
  · -- With the destination fixed, message and source make the key.
    have hkeys := (recordAll J history).flagEvents.nodup.sublist
      ((List.filter_sublist (p := fun r => r.fromDomainWithAt = domain ∧ r.destination = destination)).map FlagRow.key)
    refine List.Nodup.of_map (fun p => (p.1, p.2, destination)) ?_
    rw [List.map_map]
    refine (List.map_congr_left fun r hr => ?_) ▸ hkeys
    have hd : r.destination = destination := by simpa using (of_decide_eq_true (List.mem_filter.1 hr).2).2
    simp only [FlagRow.key, Function.comp, hd]
  · rintro ⟨hash, source⟩
    simp only [List.mem_map, List.mem_filter, List.mem_dedup, decide_eq_true_eq]
    constructor
    · rintro ⟨r, ⟨hr, hdom, hdest⟩, he⟩
      obtain ⟨e, hmem, rfl⟩ := exists_event hr
      exact ⟨(e.messageHash, e.source), ⟨e, ⟨hmem, hdom, hdest⟩, rfl⟩, he⟩
    · rintro ⟨_, ⟨e, ⟨hmem, hdom, hdest⟩, rfl⟩, he⟩
      obtain ⟨e₀, hmem₀, hkey, hr⟩ := exists_stored (J := J) hmem
      have hdom₀ := hone e₀ hmem₀ e hmem hkey
      simp only [FlagEvent.key, Prod.mk.injEq] at hkey
      obtain ⟨hh, hs, hd⟩ := hkey
      refine ⟨flagRow J e₀, ⟨hr, hdom₀.trans hdom, hd.trans hdest⟩, ?_⟩
      rw [← he]
      simp only [flagRow, hh, hs]

/-- Two histories with the same events store the same number of each. -/
theorem eventsOf_congr {history history' : List FlagEvent} (hone : OneDomain history)
    (hsame : ∀ e, e ∈ history ↔ e ∈ history') (domain destination : String) :
    (recordAll J history).eventsOf domain destination = (recordAll J history').eventsOf domain destination := by
  have hone' : OneDomain history' := fun e he e' he' => hone e ((hsame e).2 he) e' ((hsame e').2 he')
  rw [eventsOf_recordAll hone, eventsOf_recordAll hone', distinctFlags_congr hsame]

end Db

end Thundercrab
