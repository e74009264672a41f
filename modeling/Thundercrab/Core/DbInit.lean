/-
`db.rs`, `Db::init`: a batch that creates what the schema of this version has and the database lacks,
then a look at the version the database records. A database of a newer version is refused only after
the batch: unless the newer schema has kept every name of this one, init has added to it by then, or
has failed with another error.
-/
import Thundercrab.Core.Db
import Thundercrab.Lib.Sqlite
import Mathlib.Data.Int.Order.Basic

namespace Thundercrab

open Lib Lib.Sqlite

namespace Db

theorem schemaVersion_bounds : (-9223372036854775808 : Int) ≤ 1 ∧ (1 : Int) < 9223372036854775808 := by decide

/-- Current schema version. -/
def schemaVersion : I64 := ⟨1, schemaVersion_bounds⟩

theorem noVersion_bounds : (-9223372036854775808 : Int) ≤ 0 ∧ (0 : Int) < 9223372036854775808 := by decide

/-- The version of a database that records none. -/
def noVersion : I64 := ⟨0, noVersion_bounds⟩

def flagEventsColumns : List (String × String) :=
  [("local_id", "INTEGER PRIMARY KEY AUTOINCREMENT"), ("message_hash", "BLOB NOT NULL"), ("source", "TEXT NOT NULL"),
    ("destination", "TEXT NOT NULL"), ("from_domain_with_at", "TEXT NOT NULL"), ("list_id", "TEXT"),
    ("has_list_unsubscribe", "INTEGER NOT NULL"), ("subject_tokens_json", "TEXT NOT NULL"),
    ("priority_high", "INTEGER NOT NULL"), ("observed_at", "INTEGER NOT NULL")]

/-- The batch of `init`. -/
def initBatch : List Statement :=
  [.pragma "journal_mode = WAL", .pragma "foreign_keys = ON",
    .createTable "schema_version" [("version", "INTEGER PRIMARY KEY")],
    .createTable "rules" [("id", "TEXT PRIMARY KEY"), ("json", "TEXT NOT NULL"), ("origin", "TEXT NOT NULL"),
      ("score", "INTEGER NOT NULL"), ("updated_at", "INTEGER NOT NULL")],
    -- with UNIQUE(message_hash, source, destination)
    .createTable "flag_events" flagEventsColumns,
    .createIndex "flag_events_dest" "flag_events" ["destination"],
    .createIndex "flag_events_from_dom" "flag_events" ["from_domain_with_at"]]

/-- `SELECT MAX(version) FROM schema_version`, read as an `Option<i64>` -/
def maxVersion (O : CellOrder I64) (db : Catalog I64) : Except DbError (Option I64) :=
  match db (asciiLower "schema_version") with
  | some (.relation r) =>
    match r.column "version" with
    | some cells =>
      match maxCell O cells with
      | .null => .ok none
      | .integer n => .ok (some n)
      | _ => .error .sqlite
    | none => .error .sqlite
  | _ => .error .sqlite

/-- `INSERT INTO schema_version (version) VALUES (1)`, into a table whose other columns may be NULL -/
def insertVersion (db : Catalog I64) : Except DbError (Catalog I64) :=
  match db (asciiLower "schema_version") with
  | some (.relation r) =>
    if r.kind = .table then
      let row := r.columns.map fun column => if asciiLower column.1 = "version" then .integer schemaVersion else .null
      .ok (Function.update db (asciiLower "schema_version") (some (.relation { r with rows := r.rows ++ [row] })))
    else .error .sqlite
  | _ => .error .sqlite

/-- What `init` returns, and the database it leaves. -/
def init (O : CellOrder I64) (db : Catalog I64) : Except DbError Unit × Catalog I64 :=
  match execBatch db initBatch with
  | (false, db) => (.error .sqlite, db)
  | (true, db) =>
    match maxVersion O db with
    | .error e => (.error e, db)
    | .ok version =>
      let found := version.getD noVersion
      if schemaVersion < found then (.error (.schemaTooNew found schemaVersion), db)
      else if found < schemaVersion then
        match insertVersion db with
        | .error e => (.error e, db)
        | .ok db => (.ok (), db)
      else (.ok (), db)

/-! ## Databases of a newer version -/

/-- The table `schema_version` records versions, the highest of which is `found`. -/
def RecordsVersion (db : Catalog I64) (found : I64) : Prop :=
  ∃ r cells, db "schema_version" = some (.relation r) ∧ r.kind = .table ∧ r.column "version" = some cells ∧
    (∀ c ∈ cells, c = .null ∨ ∃ n, c = .integer n) ∧ .integer found ∈ cells ∧ ∀ n, .integer n ∈ cells → n ≤ found

theorem maxVersion_of_recordsVersion {db : Catalog I64} {found : I64} (h : RecordsVersion db found)
    (O : CellOrder I64) : maxVersion O db = .ok (some found) := by
  obtain ⟨r, cells, hr, -, hcells, hint, hmem, hle⟩ := h
  have hname : asciiLower "schema_version" = "schema_version" := by decide
  unfold maxVersion
  rw [hname, hr]
  simp only [hcells]
  rcases maxCell_integers O hint with ⟨-, hall⟩ | ⟨n, hmax, hn, hge⟩
  · cases hall _ hmem
  · have hsame : n = found := le_antisymm (hle n hn) (hge found hmem)
    rw [hmax, hsame]

/-- What `init` would create is there under its name. -/
structure KeepsNames (db : Catalog I64) : Prop where
  rules : ∃ r, db "rules" = some (.relation r)
  flagEvents : ∃ r, db "flag_events" = some (.relation r) ∧ r.kind = .table
  flagEventsDest : ∃ t cs, db "flag_events_dest" = some (.index t cs)
  flagEventsFromDom : ∃ t cs, db "flag_events_from_dom" = some (.index t cs)

/-- The batch changes nothing exactly when the database has kept the names. -/
theorem execBatch_initBatch_self {db : Catalog I64} (h : ∃ r, db "schema_version" = some (.relation r)) :
    execBatch db initBatch = (true, db) ↔ KeepsNames db := by
  have hnames : asciiLower "schema_version" = "schema_version" ∧ asciiLower "rules" = "rules" ∧
      asciiLower "flag_events" = "flag_events" ∧ asciiLower "flag_events_dest" = "flag_events_dest" ∧
      asciiLower "flag_events_from_dom" = "flag_events_from_dom" := by decide
  obtain ⟨hversion, hrules, hevents, hdest, hdom⟩ := hnames
  rw [execBatch_self]
  simp only [initBatch, List.forall_mem_cons, exec, createTable_self, createIndex_self, hversion, hrules, hevents,
    hdest, hdom]
  constructor
  · rintro ⟨-, -, -, hr, he, ⟨ht, hd⟩, ⟨-, hf⟩, -⟩
    exact ⟨hr, ht, hd, hf⟩
  · rintro ⟨hr, ht, hd, hf⟩
    exact ⟨trivial, trivial, h, hr, ht.imp fun _ ht => ht.1, ⟨ht, hd⟩, ⟨ht, hf⟩, nofun⟩

/-- A database that is refused and left as it is has gone through the batch unchanged. -/
theorem execBatch_of_init {O : CellOrder I64} {db : Catalog I64} {found : I64}
    (h : init O db = (.error (.schemaTooNew found schemaVersion), db)) : execBatch db initBatch = (true, db) := by
  unfold init at h
  cases hb : execBatch db initBatch with
  | mk ran db' =>
    rw [hb] at h
    cases ran with
    | false => cases h
    | true =>
      simp only at h
      -- Wherever an error is returned, it comes with the database the batch has left.
      split at h
      · obtain ⟨-, rfl⟩ := Prod.mk.inj h; rfl
      · split at h
        · obtain ⟨-, rfl⟩ := Prod.mk.inj h; rfl
        · split at h
          · split at h
            · obtain ⟨-, rfl⟩ := Prod.mk.inj h; rfl
            · cases h
          · cases h

/-- A database that records a newer version is refused as such and left as it is exactly when it has
`rules` as a table or view, `flag_events` as a table, and both indexes. -/
theorem init_schemaTooNew_iff (O : CellOrder I64) (db : Catalog I64) (found : I64) (h : RecordsVersion db found)
    (hnew : schemaVersion < found) :
    init O db = (.error (.schemaTooNew found schemaVersion), db) ↔ KeepsNames db := by
  have hversion : ∃ r, db "schema_version" = some (.relation r) := by
    obtain ⟨r, -, hr, -⟩ := h
    exact ⟨r, hr⟩
  rw [← execBatch_initBatch_self hversion]
  constructor
  · exact execBatch_of_init
  · intro hb
    unfold init
    rw [hb]
    simp only [maxVersion_of_recordsVersion h O, Option.getD_some]
    exact if_pos hnew

/-! ## Two databases of version 2 -/

theorem version2_bounds : (-9223372036854775808 : Int) ≤ 2 ∧ (2 : Int) < 9223372036854775808 := by decide

/-- Integers by their size and before everything else. -/
def integersFirst : CellOrder I64 where
  le a b :=
    match a, b with
    | .integer m, .integer n => m ≤ n
    | .integer _, _ => true
    | _, _ => false
  le_integer _ _ := decide_eq_true_iff

/-- The table `schema_version` of version 2. -/
def version2 : Relation I64 :=
  ⟨.table, [("version", "INTEGER PRIMARY KEY")], [[.integer schemaVersion], [.integer ⟨2, version2_bounds⟩]]⟩

/-- A database that has kept the names and added a table. -/
def extendedDb : Catalog I64
  | "schema_version" => some (.relation version2)
  | "rules" => some (.relation ⟨.table, [("id", "TEXT PRIMARY KEY"), ("body", "BLOB")], []⟩)
  | "flag_events" => some (.relation ⟨.table, [("to_folder", "TEXT")], []⟩)
  | "flag_events_dest" => some (.index "flag_events" ["to_folder"])
  | "flag_events_from_dom" => some (.index "flag_events" ["to_folder"])
  | "senders" => some (.relation ⟨.table, [("domain", "TEXT")], []⟩)
  | _ => none

/-- A database that has renamed the tables. -/
def renamedDb : Catalog I64
  | "schema_version" => some (.relation version2)
  | "sorting_rules" => some (.relation ⟨.table, [("id", "TEXT PRIMARY KEY")], []⟩)
  | _ => none

theorem recordsVersion_2 {db : Catalog I64} (h : db "schema_version" = some (.relation version2)) :
    RecordsVersion db ⟨2, version2_bounds⟩ := by
  refine ⟨version2, [.integer schemaVersion, .integer ⟨2, version2_bounds⟩], h, rfl, rfl, ?_, by simp, ?_⟩
  · intro c hc
    simp only [List.mem_cons, List.not_mem_nil, or_false] at hc
    rcases hc with rfl | rfl <;> exact .inr ⟨_, rfl⟩
  · intro n hn
    simp only [List.mem_cons, Cell.integer.injEq, List.not_mem_nil, or_false] at hn
    rcases hn with rfl | rfl <;> decide

theorem extendedDb_refused :
    init integersFirst extendedDb = (.error (.schemaTooNew ⟨2, version2_bounds⟩ schemaVersion), extendedDb) :=
  (init_schemaTooNew_iff integersFirst extendedDb ⟨2, version2_bounds⟩ (recordsVersion_2 rfl) (by decide)).2
    ⟨⟨_, rfl⟩, ⟨_, rfl, rfl⟩, ⟨_, _, rfl⟩, ⟨_, _, rfl⟩⟩

/-- A database with other tables gets those of this version before it is refused. -/
theorem renamedDb_changed :
    RecordsVersion renamedDb ⟨2, version2_bounds⟩ ∧
      init integersFirst renamedDb ≠ (.error (.schemaTooNew ⟨2, version2_bounds⟩ schemaVersion), renamedDb) := by
  refine ⟨recordsVersion_2 rfl, fun h => ?_⟩
  obtain ⟨r, hr⟩ := ((execBatch_initBatch_self ⟨version2, rfl⟩).1 (execBatch_of_init h)).rules
  cases hr

end Db

end Thundercrab
