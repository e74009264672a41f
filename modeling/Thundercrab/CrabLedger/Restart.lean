/-
The service over one process after another. Each opens the file (`store.rs`, `Store::init`), which
creates what is missing and changes nothing otherwise, starts with full limiters, serves, and ends at
any moment: while it opens the file, with requests that wait for the store, and perhaps while one of
them is being written. The rows of the file are then those of the replies that were sent and at most one more for each process
that ended in a write, so that nothing acknowledged is lost, and a client that sends again what was not
acknowledged leaves a ledger that reads as if no process had ended.
-/
import Thundercrab.CrabLedger.Queries
import Thundercrab.Lib.Sqlite

namespace Thundercrab

open Lib Lib.Json Lib.Sqlite

/-! ## The file -/

/-- The columns of a row. -/
def CorroborationRow.cells (r : CorroborationRow) : List (Cell I64) :=
  [.blob r.patternHash.1, .blob r.publicKey.1, .blob r.signature.1, .text r.ruleJson, .integer r.submittedDay]

theorem CorroborationRow.cells_inj {a b : CorroborationRow} (h : a.cells = b.cells) : a = b := by
  obtain ⟨ah, ak, as, at', ad⟩ := a
  obtain ⟨bh, bk, bs, bt, bd⟩ := b
  simp only [cells, List.cons.injEq, Cell.blob.injEq, Cell.text.injEq, Cell.integer.injEq] at h
  obtain ⟨hh, hk, hs, rfl, rfl, -⟩ := h
  rw [Subtype.ext hh, Subtype.ext hk, Subtype.ext hs]

namespace Store

def corroborationsColumns : List (String × String) :=
  [("pattern_hash", "BLOB NOT NULL"), ("public_key", "BLOB NOT NULL"), ("signature", "BLOB NOT NULL"),
    ("rule_json", "TEXT NOT NULL"), ("submitted_day", "INTEGER NOT NULL")]

/-- The batch of `init`. -/
def initBatch : List Statement :=
  [.pragma "journal_mode = WAL",
    -- with PRIMARY KEY (pattern_hash, public_key)
    .createTable "corroborations" corroborationsColumns,
    .createIndex "corroborations_pattern" "corroborations" ["pattern_hash"],
    .createIndex "corroborations_day" "corroborations" ["submitted_day"]]

/-- Whether `init` succeeds, and the file it leaves. -/
def init (file : Catalog I64) : Bool × Catalog I64 := execBatch file initBatch

/-- A file with the rows of the store and nothing else. -/
def file (s : Store) : Catalog I64
  | "corroborations" =>
    some (.relation ⟨.table, corroborationsColumns, s.corroborations.rows.map CorroborationRow.cells⟩)
  | "corroborations_pattern" => some (.index "corroborations" ["pattern_hash"])
  | "corroborations_day" => some (.index "corroborations" ["submitted_day"])
  | _ => none

/-- The file of a database that is not there yet. -/
def noFile : Catalog I64 := fun _ => none

/-- `init` succeeds on the file and leaves that of the store. -/
def Opens (f : Catalog I64) (s : Store) : Prop := init f = (true, s.file)

theorem file_inj {s t : Store} (h : s.file = t.file) : s = t := by
  have htable := congrFun h "corroborations"
  simp only [file, Option.some.injEq, Entry.relation.injEq, Relation.mk.injEq, true_and] at htable
  have hrows : s.corroborations.rows = t.corroborations.rows :=
    List.map_injective_iff.2 (fun _ _ => CorroborationRow.cells_inj) htable
  obtain ⟨⟨rows, hn⟩⟩ := s
  obtain ⟨⟨rows', hn'⟩⟩ := t
  cases hrows
  rfl

theorem Opens.unique {f : Catalog I64} {s t : Store} (hs : Opens f s) (ht : Opens f t) : s = t :=
  file_inj (Prod.mk.inj (hs.symm.trans ht)).2

/-- A process that ends in `init` leaves what the next one opens to the same store. -/
theorem Opens.cut {f f' : Catalog I64} {s : Store} (h : Opens f s) (k : Nat)
    (hcut : execBatch f (initBatch.take k) = (true, f')) : Opens f' s :=
  (execBatch_begun_again initBatch k hcut).trans h

theorem lower_names : asciiLower "corroborations" = "corroborations" ∧
    asciiLower "corroborations_pattern" = "corroborations_pattern" ∧
    asciiLower "corroborations_day" = "corroborations_day" := by decide

/-- A file of the service is opened as it is. -/
theorem opens_file (s : Store) : Opens s.file s := by
  obtain ⟨htable, hpattern, hday⟩ := lower_names
  unfold Opens init
  rw [execBatch_self]
  simp only [initBatch, List.forall_mem_cons, exec, createTable_self, createIndex_self, htable, hpattern, hday]
  exact ⟨trivial, ⟨_, rfl⟩, ⟨⟨_, rfl, rfl⟩, _, _, rfl⟩, ⟨⟨_, rfl, rfl⟩, _, _, rfl⟩, nofun⟩

/-- A new file is that of an empty store. -/
theorem opens_noFile : Opens noFile openInMemory := by
  obtain ⟨htable, hpattern, hday⟩ := lower_names
  have hcolumns : asciiLower "pattern_hash" ∈ corroborationsColumns.map (fun column => asciiLower column.1) ∧
      asciiLower "submitted_day" ∈ corroborationsColumns.map (fun column => asciiLower column.1) := by decide
  unfold Opens init initBatch
  simp only [execBatch, exec, createTable, createIndex, tableColumns, noFile, htable, hpattern, hday,
    Function.update_self, ne_eq, String.reduceEq, not_false_eq_true, Function.update_of_ne, if_true,
    List.mem_singleton, forall_eq, hcolumns.1, hcolumns.2]
  refine congrArg _ (funext fun name => ?_)
  unfold file
  split
  · rfl
  · rfl
  · rfl
  · rename_i h1 h2 h3
    rw [Function.update_of_ne h3, Function.update_of_ne h2, Function.update_of_ne h1]
    rfl

end Store

namespace Api

variable {C : Crypto} {J : SerdeJson} {G : Nat → TokenBucket}

/-! ## One process -/

/-- What arrives at a process and is written in it, and the waiting row that it is writing when it ends,
whose reply is never sent. -/
structure Life where
  events : List Event
  writing : Option Nat

/-- The process on a store: the replies it sends, and the store it leaves. -/
def Life.run (C : Crypto) (J : SerdeJson) (G : Nat → TokenBucket) (life : Life) (store : Store) :
    List Response × Store :=
  let (out, server) := Server.run C J ⟨AppState.new G store, []⟩ life.events
  match life.writing.bind fun i => server.waiting[i]? with
  | none => (out, server.app.store)
  | some row => (out, (server.app.store.upsert row).2)

/-- The rows that replies say are stored. -/
def acknowledged (out : List Response) : History := (acceptedIn out).map Prod.fst

theorem acknowledged_append (a b : List Response) : acknowledged (a ++ b) = acknowledged a ++ acknowledged b := by
  unfold acknowledged
  rw [acceptedIn_append, List.map_append]

theorem waiting_run : ∀ (evs : List Event) (s : Server G), ∀ row ∈ (s.run C J evs).2.waiting,
    row ∈ s.waiting ∨ Backed C J (arrivals evs) row
  | [], s, row, h => .inl h
  | ev :: evs, s, row, h => by
    rw [arrivals_cons]
    rcases waiting_run evs (s.step C J ev).2 row h with hw | hb
    · rcases Server.step_cases (C := C) (J := J) s ev with ⟨-, -, hwait⟩ | ⟨-, -, -, -, hwait⟩
      · rcases hwait row hw with hold | hnew
        · exact .inl hold
        · exact .inr (hnew.mono (List.subset_append_left ..))
      · exact .inl (hwait row hw)
    · exact .inr (hb.mono (List.subset_append_right ..))

/-- A process adds the rows it acknowledges, and at its end at most one more. -/
theorem Life.run_spec (life : Life) (hist : History) :
    ∃ lost : History, lost.length ≤ life.writing.toList.length ∧
      (life.run C J G (.ofHistory hist)).2 =
        .ofHistory (hist ++ (acknowledged (life.run C J G (.ofHistory hist)).1 ++ lost)) ∧
      ∀ row ∈ acknowledged (life.run C J G (.ofHistory hist)).1 ++ lost, Backed C J (arrivals life.events) row := by
  have hrun := Server.run_spec (C := C) (J := J) life.events ⟨AppState.new G (.ofHistory hist), []⟩ hist rfl
  have hwait := waiting_run (C := C) (J := J) life.events ⟨AppState.new G (.ofHistory hist), []⟩
  obtain ⟨hstore, hacc, -⟩ := hrun
  have hbacked : ∀ row ∈ acknowledged (Server.run C J ⟨AppState.new G (.ofHistory hist), []⟩ life.events).1,
      Backed C J (arrivals life.events) row := by
    intro row hrow
    obtain ⟨x, hx, rfl⟩ := List.mem_map.1 hrow
    exact (hacc x hx).resolve_left nofun
  unfold Life.run
  cases hw : life.writing.bind fun i =>
      (Server.run C J ⟨AppState.new G (.ofHistory hist), []⟩ life.events).2.waiting[i]? with
  | none =>
    refine ⟨[], Nat.zero_le _, ?_, ?_⟩
    · simp only [hw, List.append_nil]
      exact hstore
    · simp only [hw, List.append_nil]
      exact hbacked
  | some row =>
    obtain ⟨i, hi, hrow⟩ := Option.bind_eq_some_iff.1 hw
    refine ⟨[row], by rw [hi]; exact le_refl 1, ?_, ?_⟩
    · simp only [hw]
      rw [hstore, ← Store.ofHistory_snoc, List.append_assoc]
      rfl
    · simp only [hw]
      intro row' hrow'
      rcases List.mem_append.1 hrow' with hrow' | hrow'
      · exact hbacked row' hrow'
      · rw [List.mem_singleton.1 hrow']
        exact (hwait row (List.mem_of_getElem? hrow)).resolve_left nofun

/-! ## One process after another -/

/-- Each process opens the file that the one before it left. Some end while they do, after so many
statements of `init`. -/
inductive Lives (C : Crypto) (J : SerdeJson) (G : Nat → TokenBucket) :
    Catalog I64 → List Life → List Response → Catalog I64 → Prop where
  | done (f : Catalog I64) : Lives C J G f [] [] f
  | cut {f f₁ f' : Catalog I64} {lives : List Life} {out : List Response} (k : Nat) :
      execBatch f (Store.initBatch.take k) = (true, f₁) → Lives C J G f₁ lives out f' → Lives C J G f lives out f'
  | start {f f' : Catalog I64} {store : Store} {life : Life} {lives : List Life} {out : List Response} :
      Store.Opens f store → Lives C J G (life.run C J G store).2.file lives out f' →
      Lives C J G f (life :: lives) ((life.run C J G store).1 ++ out) f'

/-- What arrives over all processes. -/
def arrivalsOf (lives : List Life) : List SubmitEnvelope := lives.flatMap fun life => arrivals life.events

/-- How many processes end while they write. -/
def writesCut (lives : List Life) : Nat := (lives.flatMap fun life => life.writing.toList).length

theorem lives_spec {f f' : Catalog I64} {lives : List Life} {out : List Response} (h : Lives C J G f lives out f') :
    ∀ hist : History, Store.Opens f (.ofHistory hist) →
      ∃ more : History, Store.Opens f' (.ofHistory (hist ++ more)) ∧ (acknowledged out).Sublist more ∧
        more.length ≤ (acknowledged out).length + writesCut lives ∧
        ∀ row ∈ more, Backed C J (arrivalsOf lives) row := by
  induction h with
  | done f =>
    intro hist hf
    exact ⟨[], by rwa [List.append_nil], .slnil, Nat.zero_le _, fun row hrow => (by cases hrow)⟩
  | cut k hcut _ ih =>
    intro hist hf
    exact ih hist (hf.cut k hcut)
  | @start f f' store life lives out hopen hrest ih =>
    intro hist hf
    cases hopen.unique hf
    obtain ⟨lost, hlen, hstore, hbacked⟩ := Life.run_spec (C := C) (J := J) (G := G) life hist
    have hnext := Store.opens_file (life.run C J G (.ofHistory hist)).2
    rw [hstore] at hnext
    rw [hstore] at ih
    obtain ⟨more, hopen', hsub, hlen', hbacked'⟩ := ih _ hnext
    refine ⟨(acknowledged (life.run C J G (.ofHistory hist)).1 ++ lost) ++ more, ?_, ?_, ?_, ?_⟩
    · rw [← List.append_assoc]
      exact hopen'
    · rw [acknowledged_append]
      exact (List.sublist_append_left ..).append hsub
    · rw [acknowledged_append, writesCut, List.flatMap_cons]
      simp only [List.length_append]
      unfold writesCut at hlen'
      omega
    · intro row hrow
      unfold arrivalsOf
      rw [List.flatMap_cons]
      rcases List.mem_append.1 hrow with hrow | hrow
      · exact (hbacked row hrow).mono (List.subset_append_left ..)
      · exact (hbacked' row hrow).mono (List.subset_append_right ..)

/-- A file of the service never keeps the next process from starting. -/
theorem exists_lives (lives : List Life) (f : Catalog I64) (s : Store) (h : Store.Opens f s) :
    ∃ out f', Lives C J G f lives out f' := by
  induction lives generalizing f s with
  | nil => exact ⟨[], f, .done f⟩
  | cons life lives ih =>
    obtain ⟨out, f', hrest⟩ := ih (life.run C J G s).2.file (life.run C J G s).2 (Store.opens_file _)
    exact ⟨_, f', .start h hrest⟩

/-- Nothing acknowledged is lost. However many processes serve one file, whatever arrives at each, in
whatever order it is written, and wherever each of them ends, every process starts, and the file holds
a store of valid submissions only: all that were acknowledged, in their order, and at most one more for
each process that ended in a write. -/
theorem acknowledged_survives (lives : List Life) :
    (∃ out f', Lives C J G Store.noFile lives out f') ∧
    ∀ out f', Lives C J G Store.noFile lives out f' → ∃ hist : History,
      Store.Opens f' (.ofHistory hist) ∧ (acknowledged out).Sublist hist ∧
      hist.length ≤ (acknowledged out).length + writesCut lives ∧
      ∀ row ∈ hist, Backed C J (arrivalsOf lives) row := by
  refine ⟨exists_lives lives _ _ Store.opens_noFile, fun out f' h => ?_⟩
  obtain ⟨hist, hspec⟩ := lives_spec h [] Store.opens_noFile
  exact ⟨hist, hspec⟩

/-- Ends of processes do not show once what they cut off has been sent again. When every valid
submission that arrived is acknowledged at some time, the next process answers every query as a service
that never ended and accepted the same rows. -/
theorem retried_as_uninterrupted (lives : List Life) (hcoll : CollisionFree C J (arrivalsOf lives))
    (out : List Response) (f' : Catalog I64) (h : Lives C J G Store.noFile lives out f')
    (hretried : ∀ e ∈ arrivalsOf lives, Proven C J e → rowOf J e.signed ∈ acknowledged out)
    (store : Store) (hopen : Store.Opens f' store) (s : Server G) (hs : s.Fresh) (evs : List Event)
    (hsame : ∀ row, row ∈ committed C J s evs ↔ row ∈ acknowledged out) (storeFault : Bool) :
    (∀ q, handleSuggestions J (AppState.new G store) storeFault q =
      handleSuggestions J (s.run C J evs).2.app storeFault q) ∧
    handleHealth (AppState.new G store) storeFault = handleHealth (s.run C J evs).2.app storeFault := by
  obtain ⟨hist, hopen', hsub, -, hbacked⟩ := lives_spec h [] Store.opens_noFile
  cases hopen.unique hopen'
  have hrows : ∀ row, row ∈ hist ↔ row ∈ committed C J s evs := by
    intro row
    rw [hsame]
    constructor
    · intro hrow
      obtain ⟨e, he, hp, rfl⟩ := hbacked row hrow
      exact hretried e he hp
    · exact fun hrow => hsub.subset hrow
  have hone := oneText_of_backed hcoll hbacked
  exact ⟨fun q => answers_same hrows rfl (store_of_run hs evs) hone storeFault q,
    health_same hrows rfl (store_of_run hs evs) storeFault⟩

/-! ## A submission whose reply is lost -/

section Once

variable {store : Store} {e : SubmitEnvelope} {now : Nat} (hg : Granted (AppState.new G store) e.signed.publicKey now)
  (hp : Proven C J e)

include hg hp

theorem run_cut : Life.run C J G ⟨[.arrive e now], some 0⟩ store = ([], (store.upsert (rowOf J e.signed)).2) := by
  unfold Life.run
  simp only [Server.run]
  rw [Server.step_arrive hg hp]
  rfl

theorem run_whole : Life.run C J G ⟨[.arrive e now, .lock 0 false], none⟩ store =
    ([⟨some (rowOf J e.signed), .accepted (store.upsert (rowOf J e.signed)).1⟩],
      (store.upsert (rowOf J e.signed)).2) := by
  unfold Life.run
  rw [Server.run_submit _ hg hp]
  rfl

end Once

/-- A process that ends while it writes the row, and one that gets the submission again. -/
def retriedLives (e : SubmitEnvelope) : List Life :=
  [⟨[.arrive e 0], some 0⟩, ⟨[.arrive e 0, .lock 0 false], none⟩]

theorem lives_retried {e : SubmitEnvelope} (hg : ∀ store, Granted (AppState.new G store) e.signed.publicKey 0)
    (hp : Proven C J e) :
    ∃ out, Lives C J G Store.noFile (retriedLives e) out (Store.ofHistory [rowOf J e.signed, rowOf J e.signed]).file ∧
      acknowledged out = [rowOf J e.signed] := by
  have hcut := run_cut (C := C) (J := J) (hg .openInMemory) hp
  have hwhole := run_whole (C := C) (J := J) (hg (.ofHistory [rowOf J e.signed])) hp
  have hlast : Lives C J G (Store.ofHistory [rowOf J e.signed]).file [⟨[.arrive e 0, .lock 0 false], none⟩] _
      (Store.ofHistory [rowOf J e.signed, rowOf J e.signed]).file :=
    .start (Store.opens_file _) (by rw [hwhole]; exact .done _)
  have hboth : Lives C J G Store.noFile (retriedLives e) _
      (Store.ofHistory [rowOf J e.signed, rowOf J e.signed]).file :=
    .start Store.opens_noFile (by rw [hcut]; exact hlast)
  refine ⟨_, hboth, ?_⟩
  rw [hcut, hwhole]
  rfl

theorem arrivalsOf_retried {e e' : SubmitEnvelope} (h : e' ∈ arrivalsOf (retriedLives e)) : e' = e := by
  have harrive : arrivalsOf (retriedLives e) = [e, e] := rfl
  rw [harrive] at h
  rcases List.mem_cons.1 h with rfl | h
  · rfl
  · exact List.mem_singleton.1 h

theorem retried_as_uninterrupted_sample :
    handleHealth (AppState.new hourly (.ofHistory
        [sampleRow day20000 signature20000, sampleRow day20000 signature20000])) false =
      handleHealth (sampleStart.run sampleCrypto .compact sampleEvents).2.app false := by
  have hproven := sample_proven day20000 signature20000 0 (.inl ⟨rfl, rfl⟩)
  obtain ⟨out, hlives, hack⟩ := lives_retried (C := sampleCrypto) (J := .compact) (G := hourly)
    (fun _ => sample_granted 0) hproven
  refine (retried_as_uninterrupted _ ?_ out _ hlives (fun e he _ => ?_) _
    (Store.opens_file _) sampleStart sampleStart_fresh sampleEvents (fun row => ?_) false).2
  · intro e he e' he' _
    rw [arrivalsOf_retried he, arrivalsOf_retried he']
  · rw [arrivalsOf_retried he, hack]
    exact List.mem_singleton_self _
  · rw [sample_committed, hack]
    exact Iff.rfl

end Api

end Thundercrab
