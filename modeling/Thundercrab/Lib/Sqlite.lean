/-
The schema of an SQLite database as statements that create tables and indexes see it: names, up to
ASCII case, that stand for tables, views, virtual tables or indexes. With IF NOT EXISTS a statement
changes nothing when what it names is there, is refused when the name stands for something else, and
adds an entry otherwise; a batch stops at the first refusal and keeps what was added before. So a
batch leaves a schema as it is exactly when each of its statements does.
-/
import Thundercrab.Lib.Text
import Mathlib.Logic.Function.Basic
import Mathlib.Order.Lattice

namespace Lib.Sqlite

/-- A stored value; integers are of the type `Z`, a real number is its 64 bits. -/
inductive Cell (Z : Type) where
  | null
  | integer (n : Z)
  | real (bits : UInt64)
  | text (s : String)
  | blob (b : List UInt8)

/-- What the rows are read from. -/
inductive Kind where
  | table
  | view
  | virtual
  deriving DecidableEq

/-- Columns, each with its name and its definition, and rows. -/
structure Relation (Z : Type) where
  kind : Kind
  columns : List (String × String)
  rows : List (List (Cell Z))

/-- What a name stands for. -/
inductive Entry (Z : Type) where
  | relation (r : Relation Z)
  | index (table : String) (columns : List String)

/-- The schema and the rows, by name in lower case. -/
abbrev Catalog (Z : Type) := String → Option (Entry Z)

/-- A statement of a batch. -/
inductive Statement where
  /-- A setting of the connection or of the file, which is no part of the schema. -/
  | pragma (text : String)
  /-- `CREATE TABLE IF NOT EXISTS name (columns)` -/
  | createTable (name : String) (columns : List (String × String))
  /-- `CREATE INDEX IF NOT EXISTS name ON table (columns)` -/
  | createIndex (name table : String) (columns : List String)

variable {Z : Type}

/-- `CREATE TABLE IF NOT EXISTS`, or `none` when it is refused. -/
def createTable (db : Catalog Z) (name : String) (columns : List (String × String)) : Option (Catalog Z) :=
  match db (asciiLower name) with
  | some (.relation _) => some db
  | some (.index _ _) => none
  | none => some (Function.update db (asciiLower name) (some (.relation ⟨.table, columns, []⟩)))

/-- The columns of an ordinary table. -/
def tableColumns (db : Catalog Z) (table : String) : Option (List String) :=
  match db (asciiLower table) with
  | some (.relation r) => if r.kind = .table then some (r.columns.map fun column => asciiLower column.1) else none
  | _ => none

/-- `CREATE INDEX IF NOT EXISTS`, or `none` when it is refused. The table is looked up before the
index. -/
def createIndex (db : Catalog Z) (name table : String) (columns : List String) : Option (Catalog Z) :=
  match tableColumns db table with
  | none => none
  | some known =>
    match db (asciiLower name) with
    | some (.relation _) => none
    | some (.index _ _) => some db
    | none =>
      if ∀ c ∈ columns, asciiLower c ∈ known then
        some (Function.update db (asciiLower name) (some (.index table columns)))
      else none

/-- One statement, or `none` when it is refused. -/
def exec (db : Catalog Z) : Statement → Option (Catalog Z)
  | .pragma _ => some db
  | .createTable name columns => createTable db name columns
  | .createIndex name table columns => createIndex db name table columns

/-- The statements one after another up to the first that is refused; whether none was, and what
they leave. -/
def execBatch (db : Catalog Z) : List Statement → Bool × Catalog Z
  | [] => (true, db)
  | s :: rest =>
    match exec db s with
    | none => (false, db)
    | some db => execBatch db rest

/-! ## Batches that change nothing -/

/-- Every entry of the one is in the other. -/
def Extends (db db' : Catalog Z) : Prop := ∀ name e, db name = some e → db' name = some e

theorem Extends.refl (db : Catalog Z) : Extends db db := fun _ _ h => h

theorem Extends.trans {a b c : Catalog Z} (h : Extends a b) (h' : Extends b c) : Extends a c :=
  fun name e he => h' name e (h name e he)

theorem Extends.antisymm {a b : Catalog Z} (h : Extends a b) (h' : Extends b a) : a = b := by
  funext name
  cases ha : a name with
  | some e => exact (h name e ha).symm
  | none =>
    cases hb : b name with
    | none => rfl
    | some e => rw [h' name e hb] at ha; cases ha

theorem extends_update {db : Catalog Z} {name : String} (h : db name = none) (e : Entry Z) :
    Extends db (Function.update db name (some e)) := by
  intro n e' he
  by_cases hn : n = name
  · subst hn; rw [h] at he; cases he
  · rw [Function.update_of_ne hn]; exact he

theorem update_ne {db : Catalog Z} {name : String} (h : db name = none) (e : Entry Z) :
    Function.update db name (some e) ≠ db := by
  intro he
  have := congrFun he name
  rw [Function.update_self, h] at this
  cases this

theorem createTable_self {db : Catalog Z} {name : String} {columns : List (String × String)} :
    createTable db name columns = some db ↔ ∃ r, db (asciiLower name) = some (.relation r) := by
  unfold createTable
  cases h : db (asciiLower name) with
  | none => exact ⟨fun he => absurd (Option.some.inj he) (update_ne h _), fun ⟨r, hr⟩ => by cases hr⟩
  | some e =>
    cases e with
    | relation r => exact ⟨fun _ => ⟨r, rfl⟩, fun _ => rfl⟩
    | index table columns => exact ⟨nofun, fun ⟨r, hr⟩ => by cases hr⟩

theorem tableColumns_isSome {db : Catalog Z} {table : String} : (tableColumns db table).isSome ↔
    ∃ r, db (asciiLower table) = some (.relation r) ∧ r.kind = .table := by
  unfold tableColumns
  cases h : db (asciiLower table) with
  | none => simp
  | some e =>
    cases e with
    | index t cs => simp
    | relation r =>
      by_cases hr : r.kind = .table
      · simp [hr]
      · simp [hr]

theorem createIndex_self {db : Catalog Z} {name table : String} {columns : List String} :
    createIndex db name table columns = some db ↔
      (∃ r, db (asciiLower table) = some (.relation r) ∧ r.kind = .table) ∧
        ∃ t cs, db (asciiLower name) = some (.index t cs) := by
  rw [← tableColumns_isSome]
  unfold createIndex
  cases ht : tableColumns db table with
  | none => simp
  | some known =>
    cases h : db (asciiLower name) with
    | none =>
      refine ⟨fun he => ?_, fun ⟨_, t, cs, hc⟩ => by cases hc⟩
      simp only at he
      split at he
      · exact absurd (Option.some.inj he) (update_ne h _)
      · cases he
    | some e =>
      cases e with
      | relation r => exact ⟨nofun, fun ⟨_, t, cs, hc⟩ => by cases hc⟩
      | index t cs => exact ⟨fun _ => ⟨rfl, t, cs, rfl⟩, fun _ => rfl⟩

theorem createTable_extends {db db' : Catalog Z} {name : String} {columns : List (String × String)}
    (h : createTable db name columns = some db') : Extends db db' := by
  unfold createTable at h
  cases hn : db (asciiLower name) with
  | none => rw [hn] at h; cases h; exact extends_update hn _
  | some e =>
    rw [hn] at h
    cases e with
    | relation r => cases h; exact .refl db
    | index table columns => cases h

theorem createIndex_extends {db db' : Catalog Z} {name table : String} {columns : List String}
    (h : createIndex db name table columns = some db') : Extends db db' := by
  unfold createIndex at h
  cases ht : tableColumns db table with
  | none => rw [ht] at h; cases h
  | some known =>
    rw [ht] at h
    cases hn : db (asciiLower name) with
    | none =>
      rw [hn] at h
      simp only at h
      split at h
      · cases h; exact extends_update hn _
      · cases h
    | some e =>
      rw [hn] at h
      cases e with
      | relation r => cases h
      | index t cs => cases h; exact .refl db

/-- A statement only adds entries. -/
theorem exec_extends {db db' : Catalog Z} {s : Statement} (h : exec db s = some db') : Extends db db' := by
  cases s with
  | pragma text => cases h; exact .refl db
  | createTable name columns => exact createTable_extends h
  | createIndex name table columns => exact createIndex_extends h

theorem execBatch_extends : ∀ (ss : List Statement) (db : Catalog Z), Extends db (execBatch db ss).2
  | [], db => .refl db
  | s :: rest, db => by
    unfold execBatch
    cases h : exec db s with
    | none => exact .refl db
    | some db' => exact (exec_extends h).trans (execBatch_extends rest db')

/-- A batch runs through and leaves the schema as it is exactly when each statement does. -/
theorem execBatch_self {db : Catalog Z} : ∀ {ss : List Statement},
    execBatch db ss = (true, db) ↔ ∀ s ∈ ss, exec db s = some db
  | [] => by simp [execBatch]
  | s :: rest => by
    unfold execBatch
    rw [List.forall_mem_cons]
    cases h : exec db s with
    | none => exact ⟨fun he => by simp at he, fun he => by cases he.1⟩
    | some db' =>
      simp only
      constructor
      · intro he
        -- Nothing is taken back, so the first statement has added nothing.
        have hback := execBatch_extends rest db'
        rw [he] at hback
        have hsame : db' = db := hback.antisymm (exec_extends h)
        subst hsame
        exact ⟨rfl, execBatch_self.1 he⟩
      · rintro ⟨hs, hrest⟩
        cases Option.some.inj hs
        exact execBatch_self.2 hrest

/-! ## Batches that are begun again -/

/-- What a statement has created, or found, is there. -/
theorem createTable_made {db db' : Catalog Z} {name : String} {columns : List (String × String)}
    (h : createTable db name columns = some db') : ∃ r, db' (asciiLower name) = some (.relation r) := by
  unfold createTable at h
  cases hn : db (asciiLower name) with
  | none => rw [hn] at h; cases h; exact ⟨_, Function.update_self ..⟩
  | some e =>
    rw [hn] at h
    cases e with
    | relation r => cases h; exact ⟨r, hn⟩
    | index table columns => cases h

theorem createIndex_made {db db' : Catalog Z} {name table : String} {columns : List String}
    (h : createIndex db name table columns = some db') :
    (∃ r, db' (asciiLower table) = some (.relation r) ∧ r.kind = .table) ∧
      ∃ t cs, db' (asciiLower name) = some (.index t cs) := by
  have hgrows := createIndex_extends h
  unfold createIndex at h
  cases ht : tableColumns db table with
  | none => rw [ht] at h; cases h
  | some known =>
    obtain ⟨r, hr, hkind⟩ := tableColumns_isSome.1 (Option.isSome_of_eq_some ht)
    refine ⟨⟨r, hgrows _ _ hr, hkind⟩, ?_⟩
    rw [ht] at h
    cases hn : db (asciiLower name) with
    | none =>
      rw [hn] at h
      simp only at h
      split at h
      · cases h; exact ⟨_, _, Function.update_self ..⟩
      · cases h
    | some e =>
      rw [hn] at h
      cases e with
      | relation r => cases h
      | index t cs => cases h; exact ⟨t, cs, hn⟩

/-- A statement that has succeeded changes nothing more, whatever has been added since. -/
theorem exec_again {db db' db₂ : Catalog Z} {s : Statement} (h : exec db s = some db') (hext : Extends db' db₂) :
    exec db₂ s = some db₂ := by
  cases s with
  | pragma text => rfl
  | createTable name columns =>
    obtain ⟨r, hr⟩ := createTable_made h
    exact createTable_self.2 ⟨r, hext _ _ hr⟩
  | createIndex name table columns =>
    obtain ⟨⟨r, hr, hkind⟩, t, cs, hi⟩ := createIndex_made h
    exact createIndex_self.2 ⟨⟨r, hext _ _ hr, hkind⟩, t, cs, hext _ _ hi⟩

/-- A batch that was cut off and is begun again comes to what it would have come to. -/
theorem execBatch_begun_again : ∀ (ss : List Statement) {db db' : Catalog Z} (k : Nat),
    execBatch db (ss.take k) = (true, db') → execBatch db' ss = execBatch db ss
  | [], db, db', k, h => by
    rw [List.take_nil] at h
    cases h
    rfl
  | s :: rest, db, db', 0, h => by cases h; rfl
  | s :: rest, db, db', k + 1, h => by
    rw [List.take_succ_cons, execBatch] at h
    cases hs : exec db s with
    | none => rw [hs] at h; cases h
    | some db₁ =>
      have hbatch : execBatch db₁ (rest.take k) = (true, db') := by rwa [hs] at h
      have hext := execBatch_extends (rest.take k) db₁
      rw [hbatch] at hext
      have hrest := execBatch_begun_again rest k hbatch
      rw [execBatch, exec_again hs hext, execBatch, hs]
      exact hrest

/-! ## MAX of a column -/

/-- The order of stored values, in which integers stand by their size. -/
structure CellOrder (Z : Type) [LE Z] where
  le : Cell Z → Cell Z → Bool
  le_integer : ∀ a b : Z, le (.integer a) (.integer b) = true ↔ a ≤ b

/-- The greatest value that is not NULL, or NULL. -/
def maxCell [LE Z] (O : CellOrder Z) : List (Cell Z) → Cell Z
  | [] => .null
  | .null :: cells => maxCell O cells
  | c :: cells =>
    match maxCell O cells with
    | .null => c
    | m => if O.le m c then c else m

/-- The values of a column, row by row. -/
def Relation.column (r : Relation Z) (name : String) : Option (List (Cell Z)) :=
  match r.columns.findIdx? fun column => asciiLower column.1 = asciiLower name with
  | some i => some (r.rows.map fun row => row.getD i .null)
  | none => none

/-- Over integers and NULLs the greatest value is the greatest integer. -/
theorem maxCell_integers [LinearOrder Z] (O : CellOrder Z) : ∀ {cells : List (Cell Z)},
    (∀ c ∈ cells, c = .null ∨ ∃ n, c = .integer n) →
    (maxCell O cells = .null ∧ ∀ c ∈ cells, c = .null) ∨
      ∃ n, maxCell O cells = .integer n ∧ .integer n ∈ cells ∧ ∀ m, .integer m ∈ cells → m ≤ n
  | [], _ => .inl ⟨rfl, by simp⟩
  | c :: cells, h => by
    obtain ⟨hc, hcells⟩ := List.forall_mem_cons.1 h
    have ih := maxCell_integers O hcells
    rcases hc with rfl | ⟨a, rfl⟩
    · rcases ih with ⟨hm, hall⟩ | ⟨n, hm, hmem, hle⟩
      · exact .inl ⟨hm, List.forall_mem_cons.2 ⟨rfl, hall⟩⟩
      · refine .inr ⟨n, hm, List.mem_cons_of_mem _ hmem, fun m hmem => ?_⟩
        rcases List.mem_cons.1 hmem with he | hmem
        · cases he
        · exact hle m hmem
    · rcases ih with ⟨hm, hall⟩ | ⟨n, hm, hmem, hle⟩
      · refine .inr ⟨a, by simp only [maxCell, hm], List.mem_cons_self, fun m hmem => ?_⟩
        rcases List.mem_cons.1 hmem with he | hmem
        · cases he; exact le_refl _
        · cases hall _ hmem
      · by_cases hna : n ≤ a
        · refine .inr ⟨a, ?_, List.mem_cons_self, fun m hmem => ?_⟩
          · rw [maxCell, hm]
            · exact if_pos ((O.le_integer n a).2 hna)
            · nofun
          · rcases List.mem_cons.1 hmem with he | hmem
            · cases he; exact le_refl _
            · exact le_trans (hle m hmem) hna
        · refine .inr ⟨n, ?_, List.mem_cons_of_mem _ hmem, fun m hmem => ?_⟩
          · rw [maxCell, hm]
            · exact if_neg fun he => hna ((O.le_integer n a).1 he)
            · nofun
          · rcases List.mem_cons.1 hmem with he | hmem
            · cases he; exact le_of_not_ge hna
            · exact hle m hmem

end Lib.Sqlite
