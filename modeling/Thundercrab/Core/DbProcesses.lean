/-
`db.rs`, several processes at one file: they open it, statement by statement, and call the store
through their handles, interleaved in any way; a process may stop anywhere, and a statement may be
refused because the file is busy. Whatever they do, the file holds what the calls that were carried
out make of an empty store, and opening it succeeds.
-/
import Thundercrab.Core.DbFile

namespace Thundercrab

open Lib Lib.Sqlite

namespace DbFile

/-! ## Processes -/

/-- A process on its way through `Db::open`. -/
inductive Proc where
  /-- So many statements of the batch are done; after all of them it looks for the version. -/
  | opening (k : Nat)
  /-- It has found no version, and is about to insert its own. -/
  | recording
  | opened
  | failed (e : DbError)
  deriving DecidableEq

/-- What a process makes of the version it reads. -/
def judge : Except DbError (Option I64) → Proc
  | .error e => .failed e
  | .ok version =>
    let found := version.getD Db.noVersion
    if Db.schemaVersion < found then .failed (.schemaTooNew found Db.schemaVersion)
    else if found < Db.schemaVersion then .recording
    else .opened

/-- The next statement of a process. -/
def advance (O : CellOrder I64) (file : Catalog I64) : Proc → Proc × Catalog I64
  | .opening k =>
    match Db.initBatch[k]? with
    | some s =>
      match exec file s with
      | some file => (.opening (k + 1), file)
      | none => (.failed .sqlite, file)
    | none => (judge (Db.maxVersion O file), file)
  | .recording =>
    match recordVersion file with
    | .ok file => (.opened, file)
    | .error e => (.failed e, file)
  | p => (p, file)

/-- What happens at the file. -/
inductive Event where
  /-- Another process begins to open the file. -/
  | start
  /-- A process sends its next statement. -/
  | advance (i : Nat)
  /-- The next statement of a process is refused, as the file is busy. -/
  | busy (i : Nat)
  /-- A process that has a handle makes a call. -/
  | call (i : Nat) (c : Db.Call)

/-- The file, the processes that have begun to open it, and the calls that were carried out. -/
structure Site where
  file : Catalog I64
  procs : List Proc
  calls : List Db.Call

variable (O : CellOrder I64) (J : SerdeJson)

def step (s : Site) : Event → Site
  | .start => { s with procs := s.procs ++ [.opening 0] }
  | .advance i =>
    match s.procs[i]? with
    | some p => { s with file := (advance O s.file p).2, procs := s.procs.set i (advance O s.file p).1 }
    | none => s
  | .busy i =>
    match s.procs[i]? with
    | some (.opening _) => { s with procs := s.procs.set i (.failed .sqlite) }
    | some .recording => { s with procs := s.procs.set i (.failed .sqlite) }
    | _ => s
  | .call i c =>
    if s.procs[i]? = some .opened then
      match call J s.file c with
      | .ok file => { s with file := file, calls := s.calls ++ [c] }
      | .error _ => s
    else s

/-- What becomes of an empty file. -/
def run (events : List Event) : Site := events.foldl (step O J) ⟨fun _ => none, [], []⟩

variable {O J} {file : Catalog I64}

/-- A file with no version, and one with this version, as a process reads them. -/
theorem judge_none (h : Records file []) : judge (Db.maxVersion O file) = .recording := by
  unfold Db.maxVersion
  rw [schemaVersion_name, h]
  rfl

theorem judge_recorded (h : Records file [[.integer Db.schemaVersion]]) :
    judge (Db.maxVersion O file) = .opened := by
  unfold Db.maxVersion
  rw [schemaVersion_name, h]
  rfl

/-! ## Why a process fails -/

/-- The process is on its way and has not opened the file. -/
def Proc.OnItsWay : Proc → Prop
  | .opening _ => True
  | .recording => True
  | .opened => False
  | .failed _ => False

/-- After the events so far, the next one takes process `i` from `p` to `q`. -/
def Passes (O : CellOrder I64) (J : SerdeJson) (sofar : List Event) (e : Event) (i : Nat) (p q : Proc) : Prop :=
  (run O J sofar).procs[i]? = some p ∧ (run O J (sofar ++ [e])).procs[i]? = some q

/-- A statement of process `i` itself was refused as busy. -/
def RefusedBusy (O : CellOrder I64) (J : SerdeJson) (events : List Event) (i : Nat) : Prop :=
  ∃ sofar later p, events = sofar ++ .busy i :: later ∧ p.OnItsWay ∧
    Passes O J sofar (.busy i) i p (.failed .sqlite)

/-- Another process than `i` records the version in the second part of a run. -/
def OtherRecords (O : CellOrder I64) (J : SerdeJson) (sofar next : List Event) (i : Nat) : Prop :=
  ∃ j before after, next = before ++ .advance j :: after ∧ j ≠ i ∧
    Passes O J (sofar ++ before) (.advance j) j .recording .opened

/-- Process `i` looks for the version and finds none, another process records it, and then the
statement of process `i` that would record it is refused. -/
def Overtaken (O : CellOrder I64) (J : SerdeJson) (events : List Event) (i : Nat) : Prop :=
  ∃ sofar next later, events = sofar ++ .advance i :: next ++ .advance i :: later ∧
    Passes O J sofar (.advance i) i (.opening 7) .recording ∧
    OtherRecords O J (sofar ++ [.advance i]) next i ∧
    Passes O J (sofar ++ .advance i :: next) (.advance i) i .recording (.failed .sqlite)

variable {events : List Event} {i j : Nat} {e : Event}

theorem RefusedBusy.append (h : RefusedBusy O J events i) (e : Event) : RefusedBusy O J (events ++ [e]) i := by
  obtain ⟨sofar, later, p, rfl, hp, hpass⟩ := h
  exact ⟨sofar, later ++ [e], p, by rw [List.append_assoc]; rfl, hp, hpass⟩

theorem OtherRecords.append {sofar next : List Event} (h : OtherRecords O J sofar next i) (e : Event) :
    OtherRecords O J sofar (next ++ [e]) i := by
  obtain ⟨j, before, after, rfl, hne, hpass⟩ := h
  exact ⟨j, before, after ++ [e], by rw [List.append_assoc]; rfl, hne, hpass⟩

theorem Overtaken.append (h : Overtaken O J events i) (e : Event) : Overtaken O J (events ++ [e]) i := by
  obtain ⟨sofar, next, later, rfl, hlook, hother, hpass⟩ := h
  exact ⟨sofar, next, later ++ [e], by rw [List.append_assoc]; rfl, hlook, hother, hpass⟩

/-! ## What every run keeps -/

/-- The row of this version. -/
def versionRow : Row I64 := [.integer Db.schemaVersion]

/-- What process `i` at some point of its way relies on. Where it has found no version, it has looked
for it in this run, and if there is one now then another process has recorded it since. -/
def Fits (O : CellOrder I64) (J : SerdeJson) (events : List Event) (file : Catalog I64) (i : Nat) : Proc → Prop
  | .opening k => k ≤ 7 ∧ Made k file
  | .recording =>
    Made 7 file ∧ ∃ sofar next, events = sofar ++ .advance i :: next ∧
      Passes O J sofar (.advance i) i (.opening 7) .recording ∧
      (Records file [versionRow] → OtherRecords O J (sofar ++ [.advance i]) next i)
  | .opened => Made 7 file ∧ Records file [versionRow]
  | .failed e => e = .sqlite ∧ (RefusedBusy O J events i ∨ Overtaken O J events i)

/-- The store that the calls make of an empty one. -/
def Site.db (J : SerdeJson) (s : Site) : Db := s.calls.foldl (Db.call J) Db.openInMemory

structure Sound (O : CellOrder I64) (J : SerdeJson) (events : List Event) (s : Site) : Prop where
  schema : Schema s.file (s.db J)
  fits : ∀ i p, s.procs[i]? = some p → Fits O J events s.file i p

variable {file' : Catalog I64} {s s' : Site} {p q : Proc}

theorem run_append (O : CellOrder I64) (J : SerdeJson) (events : List Event) (e : Event) :
    run O J (events ++ [e]) = step O J (run O J events) e := by
  unfold run
  rw [List.foldl_append]
  rfl

/-- What a process relies on stays so when the next event goes to others, if a version that is recorded
then is recorded by one of them. -/
theorem Fits.mono (h : Fits O J events file i p) (hkeeps : Keeps file file')
    (hrecords : Records file [versionRow] → Records file' [versionRow])
    (hother : Records file' [versionRow] → Records file [versionRow] ∨
      ∃ j, e = .advance j ∧ j ≠ i ∧ Passes O J events e j .recording .opened) :
    Fits O J (events ++ [e]) file' i p := by
  cases p with
  | opening k => exact ⟨h.1, h.2.mono hkeeps⟩
  | recording =>
    obtain ⟨hmade, sofar, next, rfl, hlook, hsince⟩ := h
    refine ⟨hmade.mono hkeeps, sofar, next ++ [e], by rw [List.append_assoc]; rfl, hlook, fun hr => ?_⟩
    rcases hother hr with hr | ⟨j, rfl, hne, hpass⟩
    · exact (hsince hr).append e
    · refine ⟨j, next, [], rfl, hne, ?_⟩
      rwa [List.append_assoc]
  | opened => exact ⟨h.1.mono hkeeps, hrecords h.2⟩
  | failed err => exact ⟨h.1, h.2.imp (·.append e) (·.append e)⟩

/-- A process goes on at its own event: the others stay where they are. -/
theorem Sound.goOn (h : Sound O J events (run O J events)) (hi : (run O J events).procs[i]? = some p)
    (hrun : run O J (events ++ [e]) =
      { run O J events with file := file', procs := (run O J events).procs.set i q })
    (hschema : Schema file' ((run O J events).db J)) (hkeeps : Keeps (run O J events).file file')
    (hrecords : Records (run O J events).file [versionRow] → Records file' [versionRow])
    (hback : Records file' [versionRow] → Records (run O J events).file [versionRow] ∨
      e = .advance i ∧ p = .recording ∧ q = .opened)
    (hq : Passes O J events e i p q → Fits O J (events ++ [e]) file' i q) :
    Sound O J (events ++ [e]) (run O J (events ++ [e])) := by
  have hlt : i < (run O J events).procs.length := (List.getElem?_eq_some_iff.1 hi).1
  have hpass : Passes O J events e i p q := by
    refine ⟨hi, ?_⟩
    rw [hrun]
    exact List.getElem?_set_self hlt
  rw [hrun]
  refine ⟨hschema, fun j r hj => ?_⟩
  by_cases hij : i = j
  · subst hij
    rw [List.getElem?_set_self hlt] at hj
    cases hj
    exact hq hpass
  · rw [List.getElem?_set_ne hij] at hj
    refine (h.fits j r hj).mono hkeeps hrecords fun hr => (hback hr).imp_right ?_
    rintro ⟨rfl, rfl, rfl⟩
    exact ⟨i, rfl, hij, hpass⟩

/-- A process that only changes its own state. -/
theorem Sound.stay (h : Sound O J events (run O J events)) (hi : (run O J events).procs[i]? = some p)
    (hrun : run O J (events ++ [e]) = { run O J events with procs := (run O J events).procs.set i q })
    (hq : Passes O J events e i p q → Fits O J (events ++ [e]) (run O J events).file i q) :
    Sound O J (events ++ [e]) (run O J (events ++ [e])) :=
  h.goOn hi hrun h.schema (fun _ hn => hn) id .inl hq

/-- An event at which nothing happens. -/
theorem Sound.same (h : Sound O J events (run O J events)) (hrun : run O J (events ++ [e]) = run O J events) :
    Sound O J (events ++ [e]) (run O J (events ++ [e])) := by
  rw [hrun]
  exact ⟨h.schema, fun i p hi => (h.fits i p hi).mono (fun _ hn => hn) id .inl⟩

theorem set_same (hi : (run O J events).procs[i]? = some p) :
    { run O J events with procs := (run O J events).procs.set i p } = run O J events := by
  obtain ⟨hlt, rfl⟩ := List.getElem?_eq_some_iff.1 hi
  rw [List.set_getElem_self hlt]

/-- A process sends its next statement. -/
theorem Sound.advance (h : Sound O J events (run O J events)) (hi : (run O J events).procs[i]? = some p) :
    Sound O J (events ++ [.advance i]) (run O J (events ++ [.advance i])) := by
  have hrun : ∀ {q : Proc} {file' : Catalog I64}, DbFile.advance O (run O J events).file p = (q, file') →
      run O J (events ++ [.advance i]) =
        { run O J events with file := file', procs := (run O J events).procs.set i q } := by
    intro q file' ha
    rw [run_append, step, hi]
    simp only [ha]
  have hfits := h.fits i p hi
  cases p with
  | opening k =>
    obtain ⟨hk, hmade⟩ := hfits
    cases hs : Db.initBatch[k]? with
    | some st =>
      obtain ⟨file', he, hschema, hmade', hkeeps, -, hversions⟩ := h.schema.exec hmade hs
      have hadvance : DbFile.advance O (run O J events).file (.opening k) = (.opening (k + 1), file') := by
        rw [DbFile.advance, hs]
        simp only [he]
      have hlt : k < 7 := (List.getElem?_eq_some_iff.1 hs).1
      have hrecords := hversions [versionRow] (List.cons_ne_nil _ _)
      exact h.goOn hi (hrun hadvance) hschema hkeeps hrecords.2 (fun hr => .inl (hrecords.1 hr))
        fun _ => ⟨by omega, hmade'⟩
    | none =>
      have hge : 7 ≤ k := List.getElem?_eq_none_iff.1 hs
      obtain rfl : k = 7 := by omega
      have hadvance : DbFile.advance O (run O J events).file (.opening 7) =
          (judge (Db.maxVersion O (run O J events).file), (run O J events).file) := by
        rw [DbFile.advance, hs]
      -- All tables are there, and at most this version is recorded.
      obtain ⟨rows, hrows, rfl | rfl⟩ := h.schema.version.rows (hmade _ (by decide))
      · rw [judge_none hrows] at hadvance
        refine h.stay hi (hrun hadvance) fun hpass => ⟨hmade, events, [], rfl, hpass, fun hr => ?_⟩
        rw [Records, hrows] at hr
        cases hr
      · rw [judge_recorded hrows] at hadvance
        exact h.stay hi (hrun hadvance) fun _ => ⟨hmade, hrows⟩
  | recording =>
    obtain ⟨hmade, sofar, next, hevents, hlook, hsince⟩ := hfits
    obtain ⟨rows, hrows, rfl | rfl⟩ := h.schema.version.rows (hmade.le 7 _ (by decide))
    · obtain ⟨file', he, hrecords, hframe⟩ := recordVersion_none hrows
      have hadvance : DbFile.advance O (run O J events).file .recording = (.opened, file') := by
        rw [DbFile.advance, he]
      have hname : file' "schema_version" ≠ none := by rw [hrecords]; nofun
      have hkeeps := keeps_of_frame hname hframe
      exact h.goOn hi (hrun hadvance) (h.schema.withVersion hframe (.inr ⟨_, hrecords, .inr rfl⟩)) hkeeps
        (fun _ => hrecords) (fun _ => .inr ⟨rfl, rfl, rfl⟩) fun _ => ⟨hmade.mono hkeeps, hrecords⟩
    · have hadvance : DbFile.advance O (run O J events).file .recording =
          (.failed .sqlite, (run O J events).file) := by
        rw [DbFile.advance, recordVersion_recorded hrows]
      refine h.stay hi (hrun hadvance) fun hpass => ⟨rfl, .inr ?_⟩
      refine ⟨sofar, next, [], by rw [hevents], hlook, hsince hrows, ?_⟩
      rwa [← hevents]
  | opened => exact h.same ((hrun rfl).trans (set_same hi))
  | failed err => exact h.same ((hrun rfl).trans (set_same hi))

/-- One event. -/
theorem Sound.step (h : Sound O J events (run O J events)) (e : Event) :
    Sound O J (events ++ [e]) (run O J (events ++ [e])) := by
  cases e with
  | start =>
    rw [run_append]
    refine ⟨h.schema, fun i p hi => ?_⟩
    -- The new process comes after the others.
    have hi' : ((run O J events).procs ++ [Proc.opening 0])[i]? = some p := hi
    rcases Nat.lt_or_ge i (run O J events).procs.length with hlt | hge
    · rw [List.getElem?_append_left hlt] at hi'
      exact (h.fits i p hi').mono (fun _ hn => hn) id .inl
    · rw [List.getElem?_append_right hge] at hi'
      rw [List.mem_singleton.1 (List.mem_of_getElem? hi')]
      exact ⟨by decide, nofun⟩
  | advance i =>
    cases hi : (run O J events).procs[i]? with
    | none =>
      refine h.same ?_
      rw [run_append, DbFile.step, hi]
    | some p => exact h.advance hi
  | busy i =>
    cases hi : (run O J events).procs[i]? with
    | none =>
      refine h.same ?_
      rw [run_append, DbFile.step, hi]
    | some p =>
      have hfails : p.OnItsWay → run O J (events ++ [.busy i]) =
          { run O J events with procs := (run O J events).procs.set i (.failed .sqlite) } →
          Sound O J (events ++ [.busy i]) (run O J (events ++ [.busy i])) := fun hway hrun =>
        h.stay hi hrun fun hpass => ⟨rfl, .inl ⟨events, [], p, rfl, hway, hpass⟩⟩
      have hrun := run_append O J events (.busy i)
      rw [DbFile.step, hi] at hrun
      cases p with
      | opening k => exact hfails trivial hrun
      | recording => exact hfails trivial hrun
      | opened => exact h.same hrun
      | failed err => exact h.same hrun
  | call i c =>
    by_cases hopened : (run O J events).procs[i]? = some .opened
    · obtain ⟨hmade, -⟩ := h.fits i _ hopened
      obtain ⟨file', he, hschema, hkeeps, hversion⟩ := h.schema.call hmade J c
      rw [run_append, DbFile.step, if_pos hopened, he]
      refine ⟨?_, fun j p hj => ?_⟩
      · unfold Site.db
        rw [List.foldl_append]
        exact hschema
      · have hsame : Records file' [versionRow] ↔ Records _ [versionRow] := records_of_eq hversion
        exact (h.fits j p hj).mono hkeeps hsame.2 fun hr => .inl (hsame.1 hr)
    · refine h.same ?_
      rw [run_append, DbFile.step, if_neg hopened]

theorem run_sound (O : CellOrder I64) (J : SerdeJson) (events : List Event) :
    Sound O J events (run O J events) := by
  induction events using List.reverseRecOn with
  | nil =>
    refine ⟨⟨.inl ⟨rfl, .inl rfl⟩, .inl ⟨rfl, .nil⟩, .inl ⟨rfl, .nil⟩, .inl rfl, .inl rfl⟩, fun i p hi => ?_⟩
    cases hi
  | append_singleton events e ih => exact ih.step e

/-! ## A process alone -/

/-- A process that sends so many statements, with none of another between them. -/
def alone (O : CellOrder I64) : Nat → Proc → Catalog I64 → Proc × Catalog I64
  | 0, p, file => (p, file)
  | n + 1, p, file => alone O n (advance O file p).1 (advance O file p).2

/-- The process for which `init` has returned. -/
def Proc.ofInit : Except DbError Unit → Proc
  | .ok () => .opened
  | .error e => .failed e

/-- The table of versions, if there is one, has this version's column, an integer in each row. -/
def Versioned (file : Catalog I64) : Prop :=
  TableOf file "schema_version" versionColumns fun rows => ∀ r ∈ rows, ∃ n, r = [.integer n]

theorem alone_add (m n : Nat) (p : Proc) (file : Catalog I64) :
    alone O (m + n) p file = alone O n (alone O m p file).1 (alone O m p file).2 := by
  induction m generalizing p file with
  | zero => rw [Nat.zero_add]; rfl
  | succ m ih =>
    rw [Nat.succ_add]
    exact ih ..

theorem alone_ofInit (r : Except DbError Unit) (n : Nat) (file : Catalog I64) :
    alone O n (.ofInit r) file = (.ofInit r, file) := by
  induction n with
  | zero => rfl
  | succ n ih =>
    cases r with
    | ok u => exact ih
    | error e => exact ih

/-- The statements of the batch that are left. -/
theorem alone_batch (n : Nat) : ∀ {k : Nat} {file : Catalog I64}, k + n = 7 →
    alone O n (.opening k) file =
      (if (Sqlite.execBatch file (Db.initBatch.drop k)).1 then .opening 7 else .failed .sqlite,
        (Sqlite.execBatch file (Db.initBatch.drop k)).2) := by
  induction n with
  | zero =>
    rintro k file hk
    obtain rfl : k = 7 := by omega
    rfl
  | succ n ih =>
    intro k file hk
    have hlt : k < Db.initBatch.length := show k < 7 by omega
    rw [List.drop_eq_getElem_cons hlt, Sqlite.execBatch, alone, advance, List.getElem?_eq_getElem hlt]
    simp only
    cases exec file Db.initBatch[k] with
    | none => exact alone_ofInit (.error .sqlite) n file
    | some file' => exact ih (by omega)

/-- After the batch there is a table of versions. -/
theorem Versioned.execBatch {db : Catalog I64} (h : Versioned file)
    (hb : Sqlite.execBatch file Db.initBatch = (true, db)) :
    ∃ rows, Records db rows ∧ ∀ r ∈ rows, ∃ n, r = [.integer n] := by
  obtain ⟨file', he, htable, hmade, -⟩ := TableOf.create h schemaVersion_name
  obtain ⟨rows, hrows, hints⟩ := htable.rows hmade
  -- The two pragmas come first, and the statements after this one only add to what it leaves.
  have hrest : Sqlite.execBatch file' (Db.initBatch.drop 3) = (true, db) := by
    rw [← hb]
    show _ = Sqlite.execBatch file (.createTable "schema_version" versionColumns :: Db.initBatch.drop 3)
    rw [Sqlite.execBatch, exec, he]
  refine ⟨rows, ?_, hints⟩
  have hext := execBatch_extends (Db.initBatch.drop 3) file'
  rw [hrest] at hext
  exact hext _ _ hrows

/-- Where the greatest version is lower than this one, recording it is adding a row. -/
theorem recordVersion_eq_insert {db : Catalog I64} {rows : List (Row I64)} {version : Option I64}
    (hrows : Records db rows) (hints : ∀ r ∈ rows, ∃ n, r = [.integer n]) (hmax : Db.maxVersion O db = .ok version)
    (hlow : version.getD Db.noVersion < Db.schemaVersion) : recordVersion db = Db.insertVersion db := by
  have hno : ¬ ∃ r ∈ rows, sameKey [0] r [.integer Db.schemaVersion] := by
    rintro ⟨r, hr, hsame⟩
    obtain ⟨n, rfl⟩ := hints r hr
    have hn : Cell.integer n = Cell.integer Db.schemaVersion := (hsame 0 (List.mem_singleton_self 0)).1
    cases hn
    have hmem : Cell.integer Db.schemaVersion ∈ rows.map fun row => row.getD 0 .null := List.mem_map.2 ⟨_, hr, rfl⟩
    have hcells : ∀ c ∈ rows.map fun row => row.getD 0 .null, c = .null ∨ ∃ n : I64, c = .integer n := by
      intro c hc
      obtain ⟨row, hrow, rfl⟩ := List.mem_map.1 hc
      obtain ⟨m, rfl⟩ := hints row hrow
      exact .inr ⟨m, rfl⟩
    rcases maxCell_integers O hcells with ⟨-, hall⟩ | ⟨m, -, hm, hle⟩
    · cases hall _ hmem
    · have hrecords : Db.RecordsVersion db m := ⟨_, _, hrows, rfl, rfl, hcells, hm, hle⟩
      rw [Db.maxVersion_of_recordsVersion hrecords O] at hmax
      cases hmax
      exact absurd (hle _ hmem) (not_le_of_gt hlow)
  unfold recordVersion Db.insertVersion updateTable insertRow
  rw [schemaVersion_name, hrows]
  simp only [if_neg hno]
  rfl

/-- `init` is what a process does that sends its statements with none of another between them. -/
theorem alone_eq_init (O : CellOrder I64) (h : Versioned file) :
    alone O 9 (.opening 0) file = (.ofInit (Db.init O file).1, (Db.init O file).2) := by
  rw [alone_add 7 2, alone_batch 7 rfl, List.drop_zero]
  unfold Db.init
  cases hb : Sqlite.execBatch file Db.initBatch with
  | mk ran db =>
    cases ran with
    | false => exact alone_ofInit (.error .sqlite) 2 db
    | true =>
      obtain ⟨rows, hrows, hints⟩ := h.execBatch hb
      rw [if_pos rfl, alone, show advance O db (.opening 7) = (judge (Db.maxVersion O db), db) from rfl]
      simp only
      cases hmax : Db.maxVersion O db with
      | error e => exact alone_ofInit (.error e) 1 db
      | ok version =>
        simp only [judge]
        split
        · exact alone_ofInit (.error _) 1 db
        · split
          · rename_i hlow
            rw [alone, advance, recordVersion_eq_insert hrows hints hmax hlow]
            cases Db.insertVersion db with
            | ok db' => rfl
            | error e => rfl
          · exact alone_ofInit (.ok ()) 1 db

/-- Events of the last process only. -/
theorem run_alone (O : CellOrder I64) (J : SerdeJson) (n : Nat) (s : Site) (p : Proc) :
    (List.replicate n (.advance s.procs.length)).foldl (step O J) { s with procs := s.procs ++ [p] } =
      { s with file := (alone O n p s.file).2, procs := s.procs ++ [(alone O n p s.file).1] } := by
  induction n generalizing s p with
  | zero => rfl
  | succ n ih =>
    have hlast : (s.procs ++ [p])[s.procs.length]? = some p := by simp
    have hset : (s.procs ++ [p]).set s.procs.length (advance O s.file p).1 =
        s.procs ++ [(advance O s.file p).1] := by simp
    rw [List.replicate_succ, List.foldl_cons]
    have hstep : step O J { s with procs := s.procs ++ [p] } (.advance s.procs.length) =
        { s with file := (advance O s.file p).2, procs := s.procs ++ [(advance O s.file p).1] } := by
      rw [step, hlast]
      simp only [hset]
    rw [hstep]
    exact ih { s with file := (advance O s.file p).2 } (advance O s.file p).1

/-! ## Opening once more -/


theorem Schema.execBatch {db : Db} (n : Nat) : ∀ {k : Nat} {file : Catalog I64}, k + n = 7 → Schema file db →
    Made k file → ∃ file', Sqlite.execBatch file (Db.initBatch.drop k) = (true, file') ∧ Schema file' db ∧
      Made 7 file' ∧ (Made 7 file → file' = file) := by
  induction n with
  | zero =>
    rintro k file hk h hmade
    obtain rfl : k = 7 := by omega
    exact ⟨file, rfl, h, hmade, fun _ => rfl⟩
  | succ n ih =>
    intro k file hk h hmade
    have hlt : k < Db.initBatch.length := show k < 7 by omega
    obtain ⟨file₁, he, h₁, hmade₁, -, hself₁, -⟩ := h.exec hmade (List.getElem?_eq_getElem hlt)
    obtain ⟨file₂, he₂, h₂, hmade₂, hself₂⟩ := ih (by omega) h₁ hmade₁
    refine ⟨file₂, ?_, h₂, hmade₂, fun hall => ?_⟩
    · rw [List.drop_eq_getElem_cons hlt, Sqlite.execBatch]
      simp only [he]
      exact he₂
    · have hsame := hself₁ hall
      subst hsame
      exact hself₂ hall

/-- `init` on a file of this version succeeds; it changes nothing when the file has been opened. -/
theorem Schema.init {db : Db} (h : Schema file db) (O : CellOrder I64) : ∃ file', Db.init O file = (.ok (), file') ∧
    Schema file' db ∧ Made 7 file' ∧ (Made 7 file → Records file [versionRow] → file' = file) := by
  obtain ⟨file₁, he, h₁, hmade, hself⟩ := Schema.execBatch 7 (k := 0) rfl h nofun
  have hbatch : Sqlite.execBatch file Db.initBatch = (true, file₁) := he
  obtain ⟨rows, hrows, rfl | rfl⟩ := h₁.version.rows (hmade _ (by decide))
  · have hversion : Db.maxVersion O file₁ = .ok none := by
      unfold Db.maxVersion
      rw [schemaVersion_name, hrows]
      rfl
    have hinsert : Db.insertVersion file₁ = .ok (Function.update file₁ "schema_version"
        (some (.relation ⟨.table, versionColumns, [versionRow]⟩))) := by
      unfold Db.insertVersion
      rw [schemaVersion_name, hrows]
      rfl
    have hframe : ∀ n, n ≠ "schema_version" → Function.update file₁ "schema_version"
        (some (.relation ⟨.table, versionColumns, [versionRow]⟩)) n = file₁ n := fun n hn => Function.update_of_ne hn ..
    refine ⟨_, ?_, h₁.withVersion hframe (.inr ⟨_, Function.update_self .., .inr rfl⟩),
      hmade.mono (keeps_of_frame ?_ hframe), fun hall hr => ?_⟩
    · unfold Db.init
      rw [hbatch]
      simp only [hversion, hinsert]
      rfl
    · rw [Function.update_self]
      nofun
    · -- The version is not recorded, as there is no row.
      rw [hself hall, hr] at hrows
      cases hrows
  · have hversion : Db.maxVersion O file₁ = .ok (some Db.schemaVersion) := by
      unfold Db.maxVersion
      rw [schemaVersion_name, hrows]
      rfl
    refine ⟨file₁, ?_, h₁, hmade, fun hall _ => hself hall⟩
    unfold Db.init
    rw [hbatch]
    simp only [hversion]
    rfl

theorem Schema.versioned {db : Db} (h : Schema file db) : Versioned file := by
  rcases h.version with ⟨hno, -⟩ | ⟨rows, hrows, hone⟩
  · exact .inl ⟨hno, nofun⟩
  · refine .inr ⟨rows, hrows, fun r hr => ?_⟩
    rcases hone with rfl | rfl
    · cases hr
    · exact ⟨_, List.mem_singleton.1 hr⟩

/-- After any run from an empty file: a process has failed only because a statement of its own was
refused as busy, or because another process recorded the version after it had looked for one, and never
for its version; through every handle each call succeeds, and the queries answer as on the store the
calls make; and a process that opens the file alone succeeds as `init` does, finds that store, and
changes nothing if the file was open. -/
theorem file_of_processes (O : CellOrder I64) (J : SerdeJson) (events : List Event) :
    let s := run O J events
    (∀ i e, s.procs[i]? = some (.failed e) →
      e = .sqlite ∧ (RefusedBusy O J events i ∨ Overtaken O J events i)) ∧
    (.opened ∈ s.procs → (∀ c, ∃ file, call J s.file c = .ok file) ∧ Serves J s.file (s.db J)) ∧
    ∃ file, Db.init O s.file = (.ok (), file) ∧
      run O J (events ++ .start :: List.replicate 9 (.advance s.procs.length)) =
        ⟨file, s.procs ++ [.opened], s.calls⟩ ∧
      Serves J file (s.db J) ∧ (.opened ∈ s.procs → file = s.file) := by
  intro s
  have h := run_sound O J events
  obtain ⟨file, he, hschema, hmade, hself⟩ := h.schema.init O
  refine ⟨fun i e hi => h.fits i _ hi, fun hopened => ?_, file, he, ?_, hschema.queries hmade J, fun hopened => ?_⟩
  · obtain ⟨i, hi⟩ := List.getElem?_of_mem hopened
    obtain ⟨hall, -⟩ := h.fits i _ hi
    refine ⟨fun c => ?_, h.schema.queries hall J⟩
    obtain ⟨file, hcall, -⟩ := h.schema.call hall J c
    exact ⟨file, hcall⟩
  · unfold run
    rw [List.foldl_append, List.foldl_cons]
    show (List.replicate 9 (.advance s.procs.length)).foldl (step O J) { s with procs := s.procs ++ [.opening 0] } = _
    rw [run_alone, alone_eq_init O h.schema.versioned, he]
    rfl
  · obtain ⟨i, hi⟩ := List.getElem?_of_mem hopened
    obtain ⟨hall, hrecords⟩ := h.fits i _ hi
    exact hself hall hrecords

end DbFile

end Thundercrab
