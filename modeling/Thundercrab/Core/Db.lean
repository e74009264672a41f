/-
`db.rs`: the tables of the local store, and the calls on the rule table. `save_rule` upserts a row
that holds the rule twice, as JSON text and in the columns used for lookup and ordering;
`load_rules` orders by the columns and decodes the text; `delete_rule` removes by id. In every store
reached by these operations each row is the row of one rule, so loading succeeds and returns the
saved rules in column order.
-/
import Thundercrab.Core.CrabRule
import Thundercrab.Core.FlagEvent
import Thundercrab.Lib.Table
import Mathlib.Data.List.Sort
import Mathlib.Data.List.Induction

namespace Thundercrab

open Lib Lib.Json

/-- A row of `rules`. -/
structure RuleRow where
  id : String
  json : String
  origin : String
  score : I32

/-- The table `rules`, keyed by `id`. -/
abbrev RuleTable := Table RuleRow String RuleRow.id

/-- DB-layer errors. -/
inductive DbError where
  | sqlite
  | json
  | schemaTooNew (found supported : I64)
  deriving DecidableEq

/-- `ON CONFLICT(id) DO UPDATE SET json = excluded.json, origin = excluded.origin, ...` -/
def ruleConflict : Conflict RuleRow.id where
  merge old new := { id := old.id, json := new.json, origin := new.origin, score := new.score }
  key_merge _ _ := rfl

/-- A row of `flag_events`. -/
structure FlagRow where
  messageHash : Bytes32
  source : String
  destination : String
  fromDomainWithAt : String
  listId : Option String
  hasListUnsubscribe : I64
  subjectTokensJson : String
  priorityHigh : I64
  observedAt : I64

/-- `UNIQUE(message_hash, source, destination)` -/
def FlagRow.key (r : FlagRow) : Bytes32 × String × String := (r.messageHash, r.source, r.destination)

/-- The table `flag_events`. -/
abbrev FlagTable := Table FlagRow (Bytes32 × String × String) FlagRow.key

/-- The local store's handle. -/
structure Db where
  rules : RuleTable
  flagEvents : FlagTable

namespace Db

def openInMemory : Db := ⟨Table.empty, Table.empty⟩

/-- The row `save_rule` binds for a rule. -/
def ruleRow (J : SerdeJson) (rule : CrabRule) : RuleRow :=
  { id := rule.id
    json := rule.toStr J
    origin := match rule.origin with
      | .user => "user"
      | .platform => "platform"
      | .federated => "federated"
    score := rule.score }

def saveRule (J : SerdeJson) (db : Db) (rule : CrabRule) : Db :=
  { db with rules := db.rules.upsert ruleConflict (ruleRow J rule) }

/-- `ORDER BY score DESC, id ASC` -/
def ruleOrder (a b : RuleRow) : Prop := b.score < a.score ∨ (a.score = b.score ∧ a.id ≤ b.id)

instance : DecidableRel ruleOrder := fun a b =>
  inferInstanceAs (Decidable (b.score < a.score ∨ (a.score = b.score ∧ a.id ≤ b.id)))

/-- `serde_json::from_str` on each selected text, stopping at the first failure. -/
def decodeRows (J : SerdeJson) : List RuleRow → Except DbError (List CrabRule)
  | [] => .ok []
  | row :: rows =>
    match CrabRule.fromStr J row.json with
    | none => .error .json
    | some rule =>
      match decodeRows J rows with
      | .error e => .error e
      | .ok rules => .ok (rule :: rules)

def loadRules (J : SerdeJson) (db : Db) : Except DbError (List CrabRule) :=
  decodeRows J (db.rules.rows.insertionSort ruleOrder)

/-- Returns `true` if a row was removed. -/
def deleteRule (db : Db) (id : String) : Bool × Db :=
  ((db.rules.find? id).isSome, { db with rules := db.rules.delete id })

/-! ## Reachable stores -/

/-- The calls that change the rule table. -/
inductive RuleOp where
  | save (rule : CrabRule)
  | delete (id : String)

def apply (J : SerdeJson) (db : Db) : RuleOp → Db
  | .save rule => db.saveRule J rule
  | .delete id => (db.deleteRule id).2

/-- The store after a sequence of calls on a fresh one. -/
def run (J : SerdeJson) (ops : List RuleOp) : Db := ops.foldl (apply J) openInMemory

variable {J : SerdeJson}

/-- Every row is the row of a rule. -/
def Coherent (J : SerdeJson) (db : Db) : Prop := ∀ row ∈ db.rules.rows, ∃ rule, row = ruleRow J rule

/-- The conflict clause replaces every column but the id, which is the same. -/
theorem merge_of_id_eq {old new : RuleRow} (h : old.id = new.id) : ruleConflict.merge old new = new := by
  show ({ id := old.id, json := new.json, origin := new.origin, score := new.score } : RuleRow) = new
  rw [h]

theorem stored_eq_new {o : Option RuleRow} {new : RuleRow} (h : ∀ old ∈ o, old.id = new.id) :
    ruleConflict.stored o new = new := by
  cases o with
  | none => rfl
  | some old => exact merge_of_id_eq (h old rfl)

/-- After `save_rule` the saved id holds the row of the saved rule; other ids are untouched. -/
theorem find?_saveRule (db : Db) (rule : CrabRule) (id : String) :
    (db.saveRule J rule).rules.find? id = if id = rule.id then some (ruleRow J rule) else db.rules.find? id := by
  have hstored : ruleConflict.stored (db.rules.find? (ruleRow J rule).id) (ruleRow J rule) = ruleRow J rule :=
    stored_eq_new fun old hold => (Table.find?_eq_some.1 hold).2
  unfold saveRule
  rw [Table.find?_upsert, hstored]
  rfl

theorem saveRule_coherent {db : Db} (h : Coherent J db) (rule : CrabRule) : Coherent J (db.saveRule J rule) := by
  intro row hrow
  rw [Table.mem_iff_find?, find?_saveRule] at hrow
  split at hrow
  · exact ⟨rule, (Option.some.inj hrow).symm⟩
  · exact h row (Table.mem_iff_find?.2 hrow)

theorem deleteRule_coherent {db : Db} (h : Coherent J db) (id : String) : Coherent J (db.deleteRule id).2 := by
  intro row hrow
  exact h row (List.mem_filter.1 hrow).1

theorem apply_coherent {db : Db} (h : Coherent J db) (op : RuleOp) : Coherent J (db.apply J op) := by
  cases op with
  | save rule => exact saveRule_coherent h rule
  | delete id => exact deleteRule_coherent h id

/-- Every reachable store holds rows of rules only. -/
theorem run_coherent (ops : List RuleOp) : Coherent J (run J ops) := by
  unfold run
  induction ops using List.reverseRecOn with
  | nil => intro row hrow; cases hrow
  | append_singleton ops op ih =>
    rw [List.foldl_append]; exact apply_coherent ih op

/-! ## Loading -/

theorem ruleRow_inj {r s : CrabRule} (h : ruleRow J r = ruleRow J s) : r = s := by
  have hj : r.toStr J = s.toStr J := congrArg RuleRow.json h
  have := CrabRule.fromStr_toStr J r
  rw [hj, CrabRule.fromStr_toStr] at this
  exact (Option.some.inj this).symm

theorem decodeRows_ok : ∀ rules : List CrabRule, decodeRows J (rules.map (ruleRow J)) = .ok rules
  | [] => rfl
  | rule :: rules => by
    rw [List.map_cons, decodeRows]
    rw [show CrabRule.fromStr J (ruleRow J rule).json = some rule from CrabRule.fromStr_toStr J rule]
    simp only [decodeRows_ok rules]

theorem exists_rules : ∀ {rows : List RuleRow}, (∀ row ∈ rows, ∃ rule, row = ruleRow J rule) →
    ∃ rules : List CrabRule, rows = rules.map (ruleRow J)
  | [], _ => ⟨[], rfl⟩
  | row :: rows, h => by
    obtain ⟨rule, rfl⟩ := h row (List.mem_cons_self ..)
    obtain ⟨rules, rfl⟩ := exists_rules fun r hr => h r (List.mem_cons_of_mem _ hr)
    exact ⟨rule :: rules, rfl⟩

theorem ruleOrder_iff {a b : RuleRow} :
    ruleOrder a b ↔ DescThen RuleRow.score (fun a b => a.id ≤ b.id) a b := Iff.rfl

instance : IsTrans RuleRow ruleOrder where
  trans _ _ _ hab hbc := ruleOrder_iff.2 (DescThen.trans le_trans hab hbc)

instance : Std.Total ruleOrder where
  total a b := DescThen.total RuleRow.score (fun a b => a.id ≤ b.id) (le_total a.id b.id)

/-- On a store of rule rows, `load_rules` succeeds and returns the rules of the sorted rows. -/
theorem loadRules_rows {db : Db} (h : Coherent J db) :
    ∃ rules, db.loadRules J = .ok rules ∧ rules.map (ruleRow J) = db.rules.rows.insertionSort ruleOrder := by
  obtain ⟨rules, hrules⟩ := exists_rules fun row hrow =>
    h row ((List.perm_insertionSort ruleOrder db.rules.rows).mem_iff.1 hrow)
  refine ⟨rules, ?_, hrules.symm⟩
  unfold loadRules; rw [hrules, decodeRows_ok]

/-- It returns exactly the stored rules, sorted by score descending and then by id. -/
theorem loadRules_spec {db : Db} (h : Coherent J db) :
    ∃ rules, db.loadRules J = .ok rules ∧ (∀ r, r ∈ rules ↔ ruleRow J r ∈ db.rules.rows) ∧
      rules.Pairwise fun a b => ruleOrder (ruleRow J a) (ruleRow J b) := by
  obtain ⟨rules, hok, hrules⟩ := loadRules_rows h
  refine ⟨rules, hok, fun r => ?_, ?_⟩
  · rw [← (List.perm_insertionSort ruleOrder _).mem_iff, ← hrules, List.mem_map]
    constructor
    · intro hr; exact ⟨r, hr, rfl⟩
    · rintro ⟨s, hs, he⟩; rwa [← ruleRow_inj he]
  · have := List.pairwise_insertionSort ruleOrder db.rules.rows
    rw [← hrules, List.pairwise_map] at this
    exact this

/-- What a lookup by id finds is the loaded rule of that id. -/
theorem mem_loaded_iff {db : Db} {r : CrabRule} :
    ruleRow J r ∈ db.rules.rows ↔ db.rules.find? r.id = some (ruleRow J r) :=
  Table.mem_iff_find?

end Db

end Thundercrab
