/-
Statements on the rows of an SQLite database. An insertion that meets a row with the same key is
refused, dropped, or made to that row instead; rows as stored values simulate a table of records with
a primary key when equal keys are equal columns. A database has a table of given columns, or has
nothing under its name yet; creating the table, and writing its rows, keeps it so.
-/
import Thundercrab.Lib.Sqlite
import Thundercrab.Lib.Table
import Mathlib.Data.List.Sort
import Mathlib.Tactic.Push

namespace Lib.Sqlite

deriving instance DecidableEq for Cell

variable {Z : Type}

/-! ## Rows -/

section Rows

variable [DecidableEq Z]

/-- A row as it is stored, column by column. -/
abbrev Row (Z : Type) := List (Cell Z)

/-- The rows have the same value in each column of a key; NULL is like no value. -/
def sameKey (key : List Nat) (a b : Row Z) : Prop := ∀ i ∈ key, a.getD i .null = b.getD i .null ∧ a.getD i .null ≠ .null

instance (key : List Nat) (a b : Row Z) : Decidable (sameKey key a b) :=
  inferInstanceAs (Decidable (∀ i ∈ key, a.getD i .null = b.getD i .null ∧ a.getD i .null ≠ .null))

/-- What an insertion does where a row of the same key is stored. -/
inductive OnConflict where
  | abort
  | ignore
  /-- `DO UPDATE SET` of the columns, each to the `excluded` value. -/
  | update (columns : List Nat)

/-- The row with the values of a new one in some columns. -/
def setCells (columns : List Nat) (old new : Row Z) : Row Z :=
  old.mapIdx fun i c => if i ∈ columns then new.getD i .null else c

/-- `INSERT` under a uniqueness constraint, or `none` when it is refused. -/
def insertRow (key : List Nat) (how : OnConflict) (new : Row Z) (rows : List (Row Z)) : Option (List (Row Z)) :=
  if ∃ r ∈ rows, sameKey key r new then
    match how with
    | .abort => none
    | .ignore => some rows
    | .update columns => some (rows.map fun r => if sameKey key r new then setCells columns r new else r)
  else some (rows ++ [new])

/-- `DELETE FROM … WHERE column = value` -/
def deleteRows (column : Nat) (value : Cell Z) (rows : List (Row Z)) : List (Row Z) :=
  rows.filter fun r => ¬ (r.getD column .null = value)

end Rows

/-! ## Records as rows -/

section Pairs

variable {α β : Type} {R : α → β → Prop}

theorem exists_of_left : ∀ {xs : List α} {ys : List β}, List.Forall₂ R xs ys → ∀ x ∈ xs, ∃ y ∈ ys, R x y
  | _, _, .cons (b := y) h hrest, x, hx => by
    rcases List.mem_cons.1 hx with rfl | hx
    · exact ⟨y, List.mem_cons_self, h⟩
    · obtain ⟨y', hy', h'⟩ := exists_of_left hrest x hx
      exact ⟨y', List.mem_cons_of_mem _ hy', h'⟩

theorem exists_of_right {xs : List α} {ys : List β} (h : List.Forall₂ R xs ys) : ∀ y ∈ ys, ∃ x ∈ xs, R x y :=
  exists_of_left (R := flip R) (List.Forall₂.flip h)

variable {r : α → α → Prop} {s : β → β → Prop} [DecidableRel r] [DecidableRel s]

theorem orderedInsert_pairs (hrs : ∀ x x' y y', R x y → R x' y' → (r x x' ↔ s y y')) {x : α} {y : β} (hxy : R x y) :
    ∀ {xs : List α} {ys : List β}, List.Forall₂ R xs ys →
      List.Forall₂ R (xs.orderedInsert r x) (ys.orderedInsert s y)
  | _, _, .nil => .cons hxy .nil
  | x' :: xs, y' :: ys, .cons h hrest => by
    simp only [List.orderedInsert_cons]
    by_cases hr : r x x'
    · rw [if_pos hr, if_pos ((hrs _ _ _ _ hxy h).1 hr)]
      exact .cons hxy (.cons h hrest)
    · rw [if_neg hr, if_neg fun hs => hr ((hrs _ _ _ _ hxy h).2 hs)]
      exact .cons h (orderedInsert_pairs hrs hxy hrest)

/-- Lists whose items stand for each other are sorted alike by orders that agree. -/
theorem insertionSort_pairs {xs : List α} {ys : List β} (h : List.Forall₂ R xs ys)
    (hrs : ∀ x x' y y', R x y → R x' y' → (r x x' ↔ s y y')) :
    List.Forall₂ R (xs.insertionSort r) (ys.insertionSort s) := by
  induction h with
  | nil => exact .nil
  | cons h _ ih =>
    rw [List.insertionSort_cons, List.insertionSort_cons]
    exact orderedInsert_pairs hrs h ih

end Pairs

section Records

variable {ρ κ : Type} [DecidableEq Z] [DecidableEq κ] {key : ρ → κ} {columns : List Nat} {stands : ρ → Row Z → Prop}

/-- What one row written for a record does to the rows under `how` is what `c` does to the record. -/
def Writes (stands : ρ → Row Z → Prop) (how : OnConflict) (c : Conflict key) : Prop :=
  match how with
  | .abort => False
  | .ignore => ∀ old new, c.merge old new = old
  | .update columns => ∀ old new o n, key old = key new → stands old o → stands new n →
      stands (c.merge old new) (setCells columns o n)

/-- Rows that stand for the records of a table stand for them after an insertion. -/
theorem insertRow_stands {t : Table ρ κ key} {rows : List (Row Z)} (h : List.Forall₂ stands t.rows rows)
    (hkey : ∀ r r' o o', stands r o → stands r' o' → (sameKey columns o o' ↔ key r = key r')) {how : OnConflict}
    {c : Conflict key} (hwrites : Writes stands how c) {r : ρ} {new : Row Z} (hnew : stands r new) :
    ∃ rows', insertRow columns how new rows = some rows' ∧ List.Forall₂ stands (t.upsert c r).rows rows' := by
  show ∃ rows', insertRow columns how new rows = some rows' ∧ List.Forall₂ stands (t.upsertRows c r) rows'
  have hconflict : (∃ o ∈ rows, sameKey columns o new) ↔ t.find? (key r) ≠ none := by
    rw [Ne, Table.find?_eq_none]
    push Not
    constructor
    · rintro ⟨o, ho, hsame⟩
      obtain ⟨x, hx, hstands⟩ := exists_of_right h o ho
      exact ⟨x, hx, (hkey _ _ _ _ hstands hnew).1 hsame⟩
    · rintro ⟨x, hx, hsame⟩
      obtain ⟨o, ho, hstands⟩ := exists_of_left h x hx
      exact ⟨o, ho, (hkey _ _ _ _ hstands hnew).2 hsame⟩
  unfold insertRow Table.upsertRows
  cases hf : t.find? (key r) with
  | none =>
    rw [if_neg (fun hc => hconflict.1 hc hf)]
    exact ⟨_, rfl, List.rel_append h (.cons hnew .nil)⟩
  | some old =>
    rw [if_pos (hconflict.2 (by rw [hf]; nofun))]
    cases how with
    | abort => exact hwrites.elim
    | ignore =>
      refine ⟨_, rfl, ?_⟩
      rw [List.map_congr_left fun x _ => show (if key x = key r then c.merge x r else x) = x from ?_, List.map_id']
      · exact h
      · rw [hwrites]; exact ite_self x
    | update columns' =>
      refine ⟨_, rfl, ?_⟩
      rw [List.forall₂_map_left_iff, List.forall₂_map_right_iff]
      refine h.imp fun x o hstands => ?_
      by_cases hsame : key x = key r
      · rw [if_pos hsame, if_pos ((hkey _ _ _ _ hstands hnew).2 hsame)]
        exact hwrites _ _ _ _ hsame hstands hnew
      · rw [if_neg hsame, if_neg fun hc => hsame ((hkey _ _ _ _ hstands hnew).1 hc)]
        exact hstands

/-- Likewise after a deletion. -/
theorem deleteRows_stands {t : Table ρ κ key} {rows : List (Row Z)} (h : List.Forall₂ stands t.rows rows) {column : Nat}
    {k : κ} {value : Cell Z} (hkey : ∀ r o, stands r o → (o.getD column .null = value ↔ key r = k)) :
    List.Forall₂ stands (t.delete k).rows (deleteRows column value rows) := by
  show List.Forall₂ stands (t.rows.filter fun r => key r ≠ k) (deleteRows column value rows)
  unfold deleteRows
  generalize t.rows = records at h
  induction h with
  | nil => exact .nil
  | @cons r o rs os hstands hrest ih =>
    by_cases hk : key r = k
    · rw [List.filter_cons_of_neg (by simpa using hk), List.filter_cons_of_neg (by simpa using (hkey _ _ hstands).2 hk)]
      exact ih
    · rw [List.filter_cons_of_pos (by simpa using hk),
        List.filter_cons_of_pos (by simpa using fun hc => hk ((hkey _ _ hstands).1 hc))]
      exact .cons hstands ih

end Records

/-! ## Tables -/

/-- The rows of a table. -/
def tableRows (db : Catalog Z) (name : String) : Option (List (Row Z)) :=
  match db (asciiLower name) with
  | some (.relation r) => if r.kind = .table then some r.rows else none
  | _ => none

/-- A change of the rows of a table, or `none` where there is no such table or the change is refused. -/
def updateTable (db : Catalog Z) (name : String) (f : List (Row Z) → Option (List (Row Z))) : Option (Catalog Z) :=
  match db (asciiLower name) with
  | some (.relation r) =>
    if r.kind = .table then
      (f r.rows).map fun rows => Function.update db (asciiLower name) (some (.relation { r with rows := rows }))
    else none
  | _ => none

theorem tableRows_eq {db : Catalog Z} {name : String} {columns : List (String × String)} {rows : List (Row Z)}
    (hname : asciiLower name = name) (h : db name = some (.relation ⟨.table, columns, rows⟩)) :
    tableRows db name = some rows := by
  unfold tableRows
  rw [hname, h]
  exact if_pos rfl

theorem updateTable_eq {db : Catalog Z} {name : String} {columns : List (String × String)} {rows rows' : List (Row Z)}
    (hname : asciiLower name = name) (h : db name = some (.relation ⟨.table, columns, rows⟩))
    {f : List (Row Z) → Option (List (Row Z))} (hf : f rows = some rows') :
    updateTable db name f = some (Function.update db name (some (.relation ⟨.table, columns, rows'⟩))) := by
  unfold updateTable
  rw [hname, h]
  simp only [hf, if_true, Option.map_some]

/-- The database has the table, with rows of which `P` holds, or has nothing under its name and `P`
holds of no rows. -/
def TableOf (db : Catalog Z) (name : String) (columns : List (String × String)) (P : List (Row Z) → Prop) : Prop :=
  (db name = none ∧ P []) ∨ ∃ rows, db name = some (.relation ⟨.table, columns, rows⟩) ∧ P rows

/-- The database has the index or has nothing under its name. -/
def IndexOf (db : Catalog Z) (name table : String) (columns : List String) : Prop :=
  db name = none ∨ db name = some (.index table columns)

section Creating

variable {db db' : Catalog Z} {name : String} {columns : List (String × String)} {P : List (Row Z) → Prop}

theorem TableOf.congr (h : TableOf db name columns P) (he : db' name = db name) : TableOf db' name columns P := by
  unfold TableOf
  rw [he]
  exact h

theorem TableOf.rows (h : TableOf db name columns P) (hmade : db name ≠ none) :
    ∃ rows, db name = some (.relation ⟨.table, columns, rows⟩) ∧ P rows := by
  rcases h with ⟨hno, -⟩ | h
  · exact absurd hno hmade
  · exact h

/-- Creating the table succeeds; it leaves all other names, and everything where there is the table,
or a row. -/
theorem TableOf.create (h : TableOf db name columns P) (hname : asciiLower name = name) :
    ∃ db', createTable db name columns = some db' ∧ TableOf db' name columns P ∧ db' name ≠ none ∧
      (∀ n, n ≠ name → db' n = db n) ∧ (db name ≠ none → db' = db) ∧
      ∀ rows, rows ≠ [] → db' name = some (.relation ⟨.table, columns, rows⟩) → db' = db := by
  unfold createTable
  rw [hname]
  rcases h with ⟨hno, hP⟩ | ⟨rows, hrows, hP⟩
  · rw [hno]
    refine ⟨_, rfl, .inr ⟨[], Function.update_self .., hP⟩, ?_, fun n hn => Function.update_of_ne hn ..,
      fun hc => (hc rfl).elim, fun rows hne he => ?_⟩
    · rw [Function.update_self]
      nofun
    · rw [Function.update_self] at he
      cases he
      exact (hne rfl).elim
  · rw [hrows]
    exact ⟨db, rfl, .inr ⟨rows, hrows, hP⟩, by rw [hrows]; nofun, fun _ _ => rfl, fun _ => rfl, fun _ _ _ => rfl⟩

/-- Writing the rows of the table leaves all other names. -/
theorem updateTable_tableOf {rows rows' : List (Row Z)} (hname : asciiLower name = name)
    (h : db name = some (.relation ⟨.table, columns, rows⟩)) {f : List (Row Z) → Option (List (Row Z))}
    (hf : f rows = some rows') (hP : P rows') :
    ∃ db', updateTable db name f = some db' ∧ TableOf db' name columns P ∧ db' name ≠ none ∧
      ∀ n, n ≠ name → db' n = db n := by
  refine ⟨_, updateTable_eq hname h hf, .inr ⟨rows', Function.update_self .., hP⟩, ?_,
    fun n hn => Function.update_of_ne hn ..⟩
  rw [Function.update_self]
  nofun

variable {table : String} {indexed : List String}

theorem IndexOf.congr (h : IndexOf db name table indexed) (he : db' name = db name) :
    IndexOf db' name table indexed := by
  unfold IndexOf
  rw [he]
  exact h

/-- Creating the index of a table that is there succeeds, and leaves all other names. -/
theorem IndexOf.create (h : IndexOf db name table indexed) (hname : asciiLower name = name)
    (htable : asciiLower table = table) {rows : List (Row Z)}
    (hrows : db table = some (.relation ⟨.table, columns, rows⟩))
    (hknown : ∀ c ∈ indexed, asciiLower c ∈ columns.map fun column => asciiLower column.1) :
    ∃ db', createIndex db name table indexed = some db' ∧ IndexOf db' name table indexed ∧ db' name ≠ none ∧
      (∀ n, n ≠ name → db' n = db n) ∧ (db name ≠ none → db' = db) := by
  have hcolumns : tableColumns db table = some (columns.map fun column => asciiLower column.1) := by
    unfold tableColumns
    rw [htable, hrows]
    exact if_pos rfl
  unfold createIndex
  rw [hcolumns, hname]
  rcases h with hno | hindex
  · simp only [hno, if_pos hknown]
    refine ⟨_, rfl, .inr (Function.update_self ..), ?_, fun n hn => Function.update_of_ne hn ..,
      fun hc => (hc rfl).elim⟩
    rw [Function.update_self]
    nofun
  · simp only [hindex]
    exact ⟨db, rfl, .inr hindex, by rw [hindex]; nofun, fun _ _ => rfl, fun _ => rfl⟩

end Creating

end Lib.Sqlite
