/-
`db.rs` at the level of the file: the statements of the calls and of the queries on rows as SQLite
stores them. A file on the way to this version's schema stands for a store: each statement of the
batch leads it on, every call makes of it what it makes of the store, and the queries answer alike.
-/
import Thundercrab.Core.DbInit
import Thundercrab.Core.FlagCounts
import Thundercrab.Lib.SqliteRows

namespace Thundercrab

open Lib Lib.Json Lib.Sqlite

namespace Db

/-! ## Calls -/

/-- The calls on a handle that change the store. -/
inductive Call where
  /-- `save_rule`, at a time. -/
  | save (rule : CrabRule) (updatedAt : I64)
  | delete (id : String)
  /-- `record_flag`, under the number SQLite takes for a new row. -/
  | record (ev : FlagEvent) (localId : I64)

/-- What a call makes of the store. -/
def call (J : SerdeJson) (db : Db) : Call → Db
  | .save rule _ => db.saveRule J rule
  | .delete id => (db.deleteRule id).2
  | .record ev _ => db.recordFlag J ev

end Db

namespace DbFile

/-! ## Rows -/

/-- A score bound to a statement. -/
def I64.ofI32 (n : I32) : I64 := ⟨n.1, by have := n.2; omega⟩

theorem I64.ofI32_val (n : I32) : (I64.ofI32 n).1 = n.1 := Subtype.coe_mk ..

/-- The columns `id`, `json`, `origin`, `score` and `updated_at`. -/
def ruleCells (row : RuleRow) (updatedAt : I64) : Row I64 :=
  [.text row.id, .text row.json, .text row.origin, .integer (I64.ofI32 row.score), .integer updatedAt]

/-- The columns of `flag_events`. -/
def flagCells (row : FlagRow) (localId : I64) : Row I64 :=
  [.integer localId, .blob row.messageHash.1, .text row.source, .text row.destination, .text row.fromDomainWithAt,
    match row.listId with
    | some id => .text id
    | none => .null,
    .integer row.hasListUnsubscribe, .text row.subjectTokensJson, .integer row.priorityHigh, .integer row.observedAt]

def rulesColumns : List (String × String) :=
  [("id", "TEXT PRIMARY KEY"), ("json", "TEXT NOT NULL"), ("origin", "TEXT NOT NULL"), ("score", "INTEGER NOT NULL"),
    ("updated_at", "INTEGER NOT NULL")]

def versionColumns : List (String × String) := [("version", "INTEGER PRIMARY KEY")]

/-- The file after a statement, or the error of a refused one. -/
def orSqlite (file : Option (Catalog I64)) : Except DbError (Catalog I64) :=
  match file with
  | some file => .ok file
  | none => .error .sqlite

/-- `INSERT INTO rules … ON CONFLICT(id) DO UPDATE SET`, `DELETE FROM rules WHERE id = ?1` and
`INSERT OR IGNORE INTO flag_events` -/
def call (J : SerdeJson) (file : Catalog I64) : Db.Call → Except DbError (Catalog I64)
  | .save rule updatedAt =>
    orSqlite (updateTable file "rules" (insertRow [0] (.update [1, 2, 3, 4]) (ruleCells (Db.ruleRow J rule) updatedAt)))
  | .delete id => orSqlite (updateTable file "rules" fun rows => some (deleteRows 0 (.text id) rows))
  | .record ev localId =>
    orSqlite (updateTable file "flag_events" (insertRow [1, 2, 3] .ignore (flagCells (Db.flagRow J ev) localId)))

/-- `INSERT INTO schema_version (version) VALUES (1)`, refused when the version is there. -/
def recordVersion (file : Catalog I64) : Except DbError (Catalog I64) :=
  orSqlite (updateTable file "schema_version" (insertRow [0] .abort [.integer Db.schemaVersion]))

/-! ## Queries -/

def cellText : Cell I64 → String
  | .text s => s
  | _ => ""

def cellInt : Cell I64 → Int
  | .integer n => n.1
  | _ => 0

/-- `ORDER BY score DESC, id ASC` -/
def rowOrder (a b : Row I64) : Prop :=
  cellInt (b.getD 3 .null) < cellInt (a.getD 3 .null) ∨ (cellInt (a.getD 3 .null) = cellInt (b.getD 3 .null) ∧
    cellText (a.getD 0 .null) ≤ cellText (b.getD 0 .null))

instance : DecidableRel rowOrder := fun a b =>
  inferInstanceAs (Decidable (cellInt (b.getD 3 .null) < cellInt (a.getD 3 .null) ∨
    (cellInt (a.getD 3 .null) = cellInt (b.getD 3 .null) ∧ cellText (a.getD 0 .null) ≤ cellText (b.getD 0 .null))))

/-- `serde_json::from_str` on each text. -/
def decodeTexts (J : SerdeJson) : List String → Except DbError (List CrabRule)
  | [] => .ok []
  | json :: texts =>
    match CrabRule.fromStr J json with
    | none => .error .json
    | some rule =>
      match decodeTexts J texts with
      | .error e => .error e
      | .ok rules => .ok (rule :: rules)

/-- `SELECT json FROM rules ORDER BY score DESC, id ASC` -/
def loadRules (J : SerdeJson) (file : Catalog I64) : Except DbError (List CrabRule) :=
  match tableRows file "rules" with
  | some rows => decodeTexts J ((rows.insertionSort rowOrder).map fun r => cellText (r.getD 1 .null))
  | none => .error .sqlite

/-- `SELECT COUNT(*) FROM flag_events WHERE destination = ?1` -/
def countFlagsTo (file : Catalog I64) (destination : String) : Except DbError Int :=
  match tableRows file "flag_events" with
  | some rows => .ok (rows.countP fun r => r.getD 3 .null = .text destination : Nat)
  | none => .error .sqlite

/-- The domain and the destination of each row, `WHERE from_domain_with_at <> ''`. -/
def flagPairs (rows : List (Row I64)) : List (String × String) :=
  (rows.filter fun r => r.getD 4 .null ≠ .text "").map fun r => (cellText (r.getD 4 .null), cellText (r.getD 3 .null))

/-- `GROUP BY from_domain_with_at, destination ORDER BY 3 DESC` -/
def flagCountsByDomainDest (Q : RowOrder) (file : Catalog I64) : Except DbError (List FlagCount) :=
  match tableRows file "flag_events" with
  | some rows =>
    .ok ((Q.order ((groupCounts (flagPairs rows)).map fun g => (g.1.1, g.1.2, (g.2 : Int)))).insertionSort
      fun a b => b.2.2 ≤ a.2.2)
  | none => .error .sqlite

/-! ## Files of this version -/

/-- The row stands for a rule's row, written at some time. -/
def StandsRule (row : RuleRow) (cells : Row I64) : Prop := ∃ updatedAt, cells = ruleCells row updatedAt

/-- The row stands for an event's row, under some number. -/
def StandsFlag (row : FlagRow) (cells : Row I64) : Prop := ∃ localId, cells = flagCells row localId

/-- What the file has is of this version's schema, and stands for the store. -/
structure Schema (file : Catalog I64) (db : Db) : Prop where
  version : TableOf file "schema_version" versionColumns fun rows => rows = [] ∨ rows = [[.integer Db.schemaVersion]]
  rules : TableOf file "rules" rulesColumns (List.Forall₂ StandsRule db.rules.rows)
  flagEvents : TableOf file "flag_events" Db.flagEventsColumns (List.Forall₂ StandsFlag db.flagEvents.rows)
  byDestination : IndexOf file "flag_events_dest" "flag_events" ["destination"]
  byDomain : IndexOf file "flag_events_from_dom" "flag_events" ["from_domain_with_at"]

/-- The names the batch creates, after its two pragmas. -/
def names : List String := ["schema_version", "rules", "flag_events", "flag_events_dest", "flag_events_from_dom"]

/-- What the first `k` statements create is there. -/
def Made (k : Nat) (file : Catalog I64) : Prop := ∀ name ∈ names.take (k - 2), file name ≠ none

variable {file file' : Catalog I64} {db : Db} {k : Nat}

/-- Nothing that is there goes away. -/
def Keeps (file file' : Catalog I64) : Prop := ∀ name, file name ≠ none → file' name ≠ none

theorem Made.mono (h : Made k file) (hk : Keeps file file') : Made k file' := fun name hname => hk name (h name hname)

theorem Made.le (h : Made 7 file) (k : Nat) : Made k file :=
  fun name hname => h name (List.mem_of_mem_take hname)

theorem keeps_of_frame {name : String} (hname : file' name ≠ none) (hframe : ∀ n, n ≠ name → file' n = file n) :
    Keeps file file' := by
  intro n hn
  by_cases he : n = name
  · rw [he]; exact hname
  · rw [hframe n he]; exact hn

theorem Made.succ (h : Made k file) (hk : Keeps file file') {name : String} (hname : file' name ≠ none)
    (htake : names.take (k + 1 - 2) = names.take (k - 2) ++ [name]) : Made (k + 1) file' := by
  intro n hn
  rw [htake, List.mem_append, List.mem_singleton] at hn
  rcases hn with hn | rfl
  · exact h.mono hk n hn
  · exact hname

/-- The versions the file records. -/
def Records (file : Catalog I64) (rows : List (Row I64)) : Prop :=
  file "schema_version" = some (.relation ⟨.table, versionColumns, rows⟩)

theorem records_of_eq (h : file' "schema_version" = file "schema_version") {rows : List (Row I64)} :
    Records file' rows ↔ Records file rows := by
  unfold Records
  rw [h]

section Changes

variable (h : Schema file db)

include h

/-! A change under one name leaves the rest of the schema. -/

theorem Schema.withVersion (hframe : ∀ n, n ≠ "schema_version" → file' n = file n)
    (hversion : TableOf file' "schema_version" versionColumns fun rows =>
      rows = [] ∨ rows = [[.integer Db.schemaVersion]]) : Schema file' db :=
  ⟨hversion, h.rules.congr (hframe _ (by decide)), h.flagEvents.congr (hframe _ (by decide)),
    h.byDestination.congr (hframe _ (by decide)), h.byDomain.congr (hframe _ (by decide))⟩

theorem Schema.withRules {rules : RuleTable} (hframe : ∀ n, n ≠ "rules" → file' n = file n)
    (hrules : TableOf file' "rules" rulesColumns (List.Forall₂ StandsRule rules.rows)) :
    Schema file' { db with rules := rules } :=
  ⟨h.version.congr (hframe _ (by decide)), hrules, h.flagEvents.congr (hframe _ (by decide)),
    h.byDestination.congr (hframe _ (by decide)), h.byDomain.congr (hframe _ (by decide))⟩

theorem Schema.withFlagEvents {flagEvents : FlagTable} (hframe : ∀ n, n ≠ "flag_events" → file' n = file n)
    (hflags : TableOf file' "flag_events" Db.flagEventsColumns (List.Forall₂ StandsFlag flagEvents.rows)) :
    Schema file' { db with flagEvents := flagEvents } :=
  ⟨h.version.congr (hframe _ (by decide)), h.rules.congr (hframe _ (by decide)), hflags,
    h.byDestination.congr (hframe _ (by decide)), h.byDomain.congr (hframe _ (by decide))⟩

theorem Schema.withDestinationIndex (hframe : ∀ n, n ≠ "flag_events_dest" → file' n = file n)
    (hindex : IndexOf file' "flag_events_dest" "flag_events" ["destination"]) : Schema file' db :=
  ⟨h.version.congr (hframe _ (by decide)), h.rules.congr (hframe _ (by decide)),
    h.flagEvents.congr (hframe _ (by decide)), hindex, h.byDomain.congr (hframe _ (by decide))⟩

theorem Schema.withDomainIndex (hframe : ∀ n, n ≠ "flag_events_from_dom" → file' n = file n)
    (hindex : IndexOf file' "flag_events_from_dom" "flag_events" ["from_domain_with_at"]) : Schema file' db :=
  ⟨h.version.congr (hframe _ (by decide)), h.rules.congr (hframe _ (by decide)),
    h.flagEvents.congr (hframe _ (by decide)), h.byDestination.congr (hframe _ (by decide)), hindex⟩

end Changes

/-- What a statement leads to that creates what the next name stands for. -/
theorem Made.create (h : Made k file) {name : String} (hname : file' name ≠ none)
    (hframe : ∀ n, n ≠ name → file' n = file n) (hself : file name ≠ none → file' = file)
    (htake : names.take (k + 1 - 2) = names.take (k - 2) ++ [name]) (hmem : name ∈ names) :
    Made (k + 1) file' ∧ Keeps file file' ∧ (Made 7 file → file' = file) := by
  have hkeeps := keeps_of_frame hname hframe
  exact ⟨h.succ hkeeps hname htake, hkeeps, fun hall => hself (hall name hmem)⟩

/-- A statement of the batch that is next succeeds, and leaves the store and the versions. -/
theorem Schema.exec (h : Schema file db) (hmade : Made k file) {s : Statement} (hs : Db.initBatch[k]? = some s) :
    ∃ file', exec file s = some file' ∧ Schema file' db ∧ Made (k + 1) file' ∧ Keeps file file' ∧
      (Made 7 file → file' = file) ∧ ∀ rows, rows ≠ [] → (Records file' rows ↔ Records file rows) := by
  match k, hs with
  | 0, hs => cases hs; exact ⟨file, rfl, h, nofun, fun _ hn => hn, fun _ => rfl, fun _ _ => Iff.rfl⟩
  | 1, hs => cases hs; exact ⟨file, rfl, h, nofun, fun _ hn => hn, fun _ => rfl, fun _ _ => Iff.rfl⟩
  | 2, hs =>
    cases hs
    obtain ⟨file', he, htable, hname, hframe, hself, hempty⟩ := h.version.create (by decide)
    obtain ⟨hmade', hkeeps, hall⟩ := hmade.create hname hframe hself rfl (by decide)
    refine ⟨file', he, h.withVersion hframe htable, hmade', hkeeps, hall, fun rows hne => ⟨fun hr => ?_, fun hr => ?_⟩⟩
    · rw [← hempty rows hne hr]
      exact hr
    · have hthere : file "schema_version" ≠ none := by rw [hr]; nofun
      rw [hself hthere]
      exact hr
  | 3, hs =>
    cases hs
    obtain ⟨file', he, htable, hname, hframe, hself, -⟩ := h.rules.create (by decide)
    obtain ⟨hmade', hkeeps, hall⟩ := hmade.create hname hframe hself rfl (by decide)
    exact ⟨file', he, h.withRules hframe htable, hmade', hkeeps, hall,
      fun _ _ => records_of_eq (hframe _ (by decide))⟩
  | 4, hs =>
    cases hs
    obtain ⟨file', he, htable, hname, hframe, hself, -⟩ := h.flagEvents.create (by decide)
    obtain ⟨hmade', hkeeps, hall⟩ := hmade.create hname hframe hself rfl (by decide)
    exact ⟨file', he, h.withFlagEvents hframe htable, hmade', hkeeps, hall,
      fun _ _ => records_of_eq (hframe _ (by decide))⟩
  | 5, hs =>
    cases hs
    obtain ⟨rows, hrows, -⟩ := h.flagEvents.rows (hmade _ (by decide))
    obtain ⟨file', he, hindex, hname, hframe, hself⟩ := h.byDestination.create (by decide) (by decide) hrows (by decide)
    obtain ⟨hmade', hkeeps, hall⟩ := hmade.create hname hframe hself rfl (by decide)
    exact ⟨file', he, h.withDestinationIndex hframe hindex, hmade', hkeeps, hall,
      fun _ _ => records_of_eq (hframe _ (by decide))⟩
  | 6, hs =>
    cases hs
    obtain ⟨rows, hrows, -⟩ := h.flagEvents.rows (hmade _ (by decide))
    obtain ⟨file', he, hindex, hname, hframe, hself⟩ := h.byDomain.create (by decide) (by decide) hrows (by decide)
    obtain ⟨hmade', hkeeps, hall⟩ := hmade.create hname hframe hself rfl (by decide)
    exact ⟨file', he, h.withDomainIndex hframe hindex, hmade', hkeeps, hall,
      fun _ _ => records_of_eq (hframe _ (by decide))⟩
  | k + 7, hs => cases hs

theorem schemaVersion_name : asciiLower "schema_version" = "schema_version" := by decide

theorem recordVersion_none (h : Records file []) : ∃ file', recordVersion file = .ok file' ∧
    Records file' [[.integer Db.schemaVersion]] ∧ ∀ n, n ≠ "schema_version" → file' n = file n := by
  have hrows : insertRow [0] .abort [Cell.integer Db.schemaVersion] [] = some [[.integer Db.schemaVersion]] := rfl
  unfold recordVersion
  rw [updateTable_eq schemaVersion_name h hrows]
  exact ⟨_, rfl, Function.update_self .., fun n hn => Function.update_of_ne hn ..⟩

theorem recordVersion_recorded (h : Records file [[.integer Db.schemaVersion]]) :
    recordVersion file = .error .sqlite := by
  unfold recordVersion updateTable
  rw [schemaVersion_name, h]
  rfl

/-! ## Calls on the file -/

theorem sameKey_ruleCells {r r' : RuleRow} {o o' : Row I64} (h : StandsRule r o) (h' : StandsRule r' o') :
    sameKey [0] o o' ↔ r.id = r'.id := by
  obtain ⟨_, rfl⟩ := h
  obtain ⟨_, rfl⟩ := h'
  simp [sameKey, ruleCells]

theorem sameKey_flagCells {r r' : FlagRow} {o o' : Row I64} (h : StandsFlag r o) (h' : StandsFlag r' o') :
    sameKey [1, 2, 3] o o' ↔ r.key = r'.key := by
  obtain ⟨_, rfl⟩ := h
  obtain ⟨_, rfl⟩ := h'
  simp [sameKey, flagCells, FlagRow.key, Subtype.ext_iff]

theorem writes_rule : Writes StandsRule (.update [1, 2, 3, 4]) ruleConflict := by
  rintro old new o n - ⟨_, rfl⟩ ⟨updatedAt, rfl⟩
  exact ⟨updatedAt, rfl⟩

theorem writes_flag : Writes StandsFlag .ignore (Conflict.ignore FlagRow.key) := fun _ _ => rfl

theorem rule_of_id (id : String) {r : RuleRow} {o : Row I64} (h : StandsRule r o) :
    o.getD 0 .null = .text id ↔ r.id = id := by
  obtain ⟨_, rfl⟩ := h
  simp [ruleCells]

/-- On a file with the tables every call is carried out, and the file stands for what it makes of the
store. -/
theorem Schema.call (h : Schema file db) (hmade : Made 7 file) (J : SerdeJson) (c : Db.Call) :
    ∃ file', DbFile.call J file c = .ok file' ∧ Schema file' (db.call J c) ∧ Keeps file file' ∧
      file' "schema_version" = file "schema_version" := by
  obtain ⟨rules, hrules, hstands⟩ := h.rules.rows (hmade _ (by decide))
  obtain ⟨flags, hflags, hstands'⟩ := h.flagEvents.rows (hmade _ (by decide))
  cases c with
  | save rule updatedAt =>
    obtain ⟨rows, hrows, hnew⟩ := insertRow_stands hstands (fun _ _ _ _ => sameKey_ruleCells) writes_rule
      (⟨updatedAt, rfl⟩ : StandsRule (Db.ruleRow J rule) _)
    obtain ⟨file', he, htable, hname, hframe⟩ := updateTable_tableOf (by decide) hrules hrows hnew
    exact ⟨file', by rw [DbFile.call, he]; rfl, h.withRules hframe htable, keeps_of_frame hname hframe,
      hframe _ (by decide)⟩
  | delete id =>
    have hnew := deleteRows_stands hstands fun _ _ => rule_of_id id
    obtain ⟨file', he, htable, hname, hframe⟩ := updateTable_tableOf (by decide) hrules
      (f := fun rows => some (deleteRows 0 (.text id) rows)) rfl hnew
    exact ⟨file', by rw [DbFile.call, he]; rfl, h.withRules hframe htable, keeps_of_frame hname hframe,
      hframe _ (by decide)⟩
  | record ev localId =>
    obtain ⟨rows, hrows, hnew⟩ := insertRow_stands hstands' (fun _ _ _ _ => sameKey_flagCells)
      writes_flag (⟨localId, rfl⟩ : StandsFlag (Db.flagRow J ev) _)
    obtain ⟨file', he, htable, hname, hframe⟩ := updateTable_tableOf (by decide) hflags hrows hnew
    exact ⟨file', by rw [DbFile.call, he]; rfl, h.withFlagEvents hframe htable, keeps_of_frame hname hframe,
      hframe _ (by decide)⟩

/-! ## Queries on the file -/

theorem rowOrder_iff {r r' : RuleRow} {o o' : Row I64} (h : StandsRule r o) (h' : StandsRule r' o') :
    Db.ruleOrder r r' ↔ rowOrder o o' := by
  obtain ⟨_, rfl⟩ := h
  obtain ⟨_, rfl⟩ := h'
  show r'.score < r.score ∨ (r.score = r'.score ∧ r.id ≤ r'.id) ↔ (I64.ofI32 r'.score).1 < (I64.ofI32 r.score).1 ∨
    ((I64.ofI32 r.score).1 = (I64.ofI32 r'.score).1 ∧ r.id ≤ r'.id)
  rw [I64.ofI32_val, I64.ofI32_val, Subtype.ext_iff]
  exact Iff.rfl

theorem decodeTexts_eq (J : SerdeJson) {rows : List RuleRow} {cells : List (Row I64)}
    (h : List.Forall₂ StandsRule rows cells) :
    decodeTexts J (cells.map fun r => cellText (r.getD 1 .null)) = Db.decodeRows J rows := by
  induction h with
  | nil => rfl
  | cons h _ ih =>
    obtain ⟨_, rfl⟩ := h
    rw [List.map_cons, decodeTexts, Db.decodeRows, ih]
    rfl

theorem countP_flagCells {rows : List FlagRow} {cells : List (Row I64)} (h : List.Forall₂ StandsFlag rows cells)
    (destination : String) : (cells.countP fun r => r.getD 3 .null = .text destination) =
      rows.countP fun r => r.destination = destination := by
  induction h with
  | nil => rfl
  | cons h _ ih =>
    obtain ⟨_, rfl⟩ := h
    rw [List.countP_cons, List.countP_cons, ih]
    simp [flagCells]

theorem flagPairs_eq {rows : List FlagRow} {cells : List (Row I64)} (h : List.Forall₂ StandsFlag rows cells) :
    flagPairs cells =
      (rows.filter fun r => r.fromDomainWithAt ≠ "").map fun r => (r.fromDomainWithAt, r.destination) := by
  induction h with
  | nil => rfl
  | @cons r o rows cells h _ ih =>
    obtain ⟨_, rfl⟩ := h
    unfold flagPairs at ih ⊢
    by_cases hd : r.fromDomainWithAt = ""
    · rw [List.filter_cons_of_neg (by simp [flagCells, hd]), List.filter_cons_of_neg (by simp [hd])]
      exact ih
    · rw [List.filter_cons_of_pos (by simp [flagCells, hd]), List.filter_cons_of_pos (by simp [hd]), List.map_cons,
        List.map_cons, ih]
      rfl

/-- The queries on the file answer as those on the store. -/
def Serves (J : SerdeJson) (file : Catalog I64) (db : Db) : Prop :=
  loadRules J file = db.loadRules J ∧ (∀ t, countFlagsTo file t = .ok (db.countFlagsTo t)) ∧
    ∀ Q, flagCountsByDomainDest Q file = .ok (db.flagCountsByDomainDest Q)

theorem Schema.queries (h : Schema file db) (hmade : Made 7 file) (J : SerdeJson) : Serves J file db := by
  obtain ⟨rules, hrules, hstands⟩ := h.rules.rows (hmade _ (by decide))
  obtain ⟨flags, hflags, hstands'⟩ := h.flagEvents.rows (hmade _ (by decide))
  have htable := tableRows_eq (by decide : asciiLower "rules" = "rules") hrules
  have htable' := tableRows_eq (by decide : asciiLower "flag_events" = "flag_events") hflags
  refine ⟨?_, fun destination => ?_, fun Q => ?_⟩
  · unfold loadRules
    rw [htable]
    exact decodeTexts_eq J (insertionSort_pairs hstands fun _ _ _ _ => rowOrder_iff)
  · unfold countFlagsTo
    rw [htable']
    exact congrArg Except.ok (congrArg Nat.cast (countP_flagCells hstands' destination))
  · unfold flagCountsByDomainDest
    rw [htable']
    simp only [flagPairs_eq hstands']
    rfl

end DbFile

end Thundercrab
