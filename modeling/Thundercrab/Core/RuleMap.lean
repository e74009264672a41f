/-
The rule table against a finite map from ids to rules. A save and a delete do to the table what they
do to the map, so that after any sequence of calls the table holds, for each id whose last call was
a save, the row of the rule saved last; loading lists these rules by the row's columns, which are
those of the rule.
-/
import Thundercrab.Core.Db
import Mathlib.Logic.Function.Basic

namespace Thundercrab

open Lib Lib.Json

/-- The rules by id. -/
abbrev RuleMap := String → Option CrabRule

namespace Db

/-- The id a call is about. -/
def RuleOp.id : RuleOp → String
  | .save rule => rule.id
  | .delete id => id

/-- The last call on an id. -/
def lastOp (ops : List RuleOp) (id : String) : Option RuleOp := ops.reverse.find? fun op => op.id = id

end Db

namespace RuleMap

def apply (m : RuleMap) : Db.RuleOp → RuleMap
  | .save rule => Function.update m rule.id (some rule)
  | .delete id => Function.update m id none

def run (ops : List Db.RuleOp) : RuleMap := ops.foldl apply fun _ => none

theorem run_append (ops : List Db.RuleOp) (op : Db.RuleOp) : run (ops ++ [op]) = (run ops).apply op := by
  unfold run; rw [List.foldl_append]; rfl

/-- A rule is in the map when the last call on its id saved it. -/
theorem run_eq_some (ops : List Db.RuleOp) (r : CrabRule) :
    run ops r.id = some r ↔ Db.lastOp ops r.id = some (.save r) := by
  induction ops using List.reverseRecOn with
  | nil => exact ⟨nofun, nofun⟩
  | append_singleton ops op ih =>
    rw [run_append]
    unfold Db.lastOp at ih ⊢
    rw [List.reverse_append, List.reverse_singleton, List.singleton_append]
    by_cases hid : op.id = r.id
    · rw [List.find?_cons_of_pos (by simpa using hid)]
      cases op with
      | save s =>
        have hs : s.id = r.id := hid
        rw [apply, hs, Function.update_self]
        simp
      | delete id =>
        have hd : id = r.id := hid
        rw [apply, hd, Function.update_self]
        simp
    · rw [List.find?_cons_of_neg (by simpa using hid), ← ih]
      cases op with
      | save s =>
        have hs : r.id ≠ s.id := Ne.symm hid
        rw [apply, Function.update_of_ne hs]
      | delete id =>
        have hd : r.id ≠ id := Ne.symm hid
        rw [apply, Function.update_of_ne hd]

end RuleMap

namespace Db

variable {J : SerdeJson}

/-- The table holds the rows of the map's rules. -/
def Refines (J : SerdeJson) (db : Db) (m : RuleMap) : Prop := ∀ id, db.rules.find? id = (m id).map (ruleRow J)

theorem apply_refines {db : Db} {m : RuleMap} (h : Refines J db m) (op : RuleOp) :
    Refines J (db.apply J op) (m.apply op) := by
  intro id
  cases op with
  | save rule =>
    show (db.saveRule J rule).rules.find? id = _
    rw [find?_saveRule, RuleMap.apply]
    by_cases hid : id = rule.id
    · rw [if_pos hid, hid, Function.update_self]; rfl
    · rw [if_neg hid, Function.update_of_ne hid]; exact h id
  | delete id' =>
    show (db.rules.delete id').find? id = _
    rw [Table.find?_delete, RuleMap.apply]
    by_cases hid : id = id'
    · rw [if_pos hid, hid, Function.update_self]; rfl
    · rw [if_neg hid, Function.update_of_ne hid]; exact h id

theorem run_refines (ops : List RuleOp) : Refines J (run J ops) (RuleMap.run ops) := by
  induction ops using List.reverseRecOn with
  | nil => exact fun _ => rfl
  | append_singleton ops op ih =>
    rw [RuleMap.run_append, show run J (ops ++ [op]) = (run J ops).apply J op from List.foldl_append]
    exact apply_refines ih op

/-- A rule's row is stored when the last call on its id saved the rule. -/
theorem ruleRow_mem_run (ops : List RuleOp) (r : CrabRule) :
    ruleRow J r ∈ (run J ops).rules.rows ↔ lastOp ops r.id = some (.save r) := by
  rw [mem_loaded_iff, run_refines ops r.id, ← RuleMap.run_eq_some]
  constructor
  · intro h
    obtain ⟨s, hs, he⟩ := Option.map_eq_some_iff.1 h
    rw [hs, ruleRow_inj he]
  · intro h
    rw [h]; rfl

/-! ## What is loaded -/

/-- Score descending, then id ascending by its octets. -/
def LoadsBefore (a b : CrabRule) : Prop := b.score < a.score ∨ (a.score = b.score ∧ memLe (utf8 a.id) (utf8 b.id))

theorem loadsBefore_iff {a b : CrabRule} : LoadsBefore a b ↔ ruleOrder (ruleRow J a) (ruleRow J b) := by
  unfold LoadsBefore ruleOrder
  rw [memLe_utf8]; rfl

theorem LoadsBefore.antisymm_id {a b : CrabRule} (h : LoadsBefore a b) (h' : LoadsBefore b a) : a.id = b.id := by
  have hdesc : ∀ {a b : CrabRule}, LoadsBefore a b →
      DescThen CrabRule.score (fun a b => memLe (utf8 a.id) (utf8 b.id)) a b := id
  obtain ⟨hab, hba⟩ := (hdesc h).tie_of_both (hdesc h')
  exact utf8_inj (memLe_antisymm hab hba)

/-- What `load_rules` returns: the rules whose rows are stored, each under its own id, in order. -/
structure Loads (J : SerdeJson) (db : Db) (rules : List CrabRule) : Prop where
  ok : db.loadRules J = .ok rules
  mem : ∀ r, r ∈ rules ↔ ruleRow J r ∈ db.rules.rows
  ids : (rules.map CrabRule.id).Nodup
  sorted : rules.Pairwise LoadsBefore

theorem exists_loads {db : Db} (h : Coherent J db) : ∃ rules, Loads J db rules := by
  obtain ⟨rules, hok, hmem, hsorted⟩ := loadRules_spec h
  obtain ⟨rules', hok', hrows⟩ := loadRules_rows h
  rw [hok] at hok'
  cases hok'
  refine ⟨rules, hok, hmem, ?_, hsorted.imp loadsBefore_iff.2⟩
  have hids : rules.map CrabRule.id = (db.rules.rows.insertionSort ruleOrder).map RuleRow.id := by
    rw [← hrows, List.map_map]; rfl
  rw [hids]
  exact ((List.perm_insertionSort ruleOrder _).map _).nodup_iff.2 db.rules.nodup

/-- Lists of rules with distinct ids in load order are equal when they have the same rules. -/
theorem eq_of_loadsBefore {rules rules' : List CrabRule} (hn : (rules.map CrabRule.id).Nodup)
    (hn' : (rules'.map CrabRule.id).Nodup) (hs : rules.Pairwise LoadsBefore) (hs' : rules'.Pairwise LoadsBefore)
    (hmem : ∀ r, r ∈ rules ↔ r ∈ rules') : rules = rules' := by
  refine List.Perm.eq_of_pairwise ?_ hs hs' ((List.perm_ext_iff_of_nodup hn.of_map hn'.of_map).2 hmem)
  intro a b ha hb hab hba
  exact List.inj_on_of_nodup_map hn ha ((hmem b).2 hb) (hab.antisymm_id hba)

theorem loads_delete {db : Db} (hc : Coherent J db) {rules : List CrabRule} (h : Loads J db rules) (id : String) :
    Loads J (db.deleteRule id).2 (rules.filter fun r => r.id ≠ id) := by
  obtain ⟨rules', h'⟩ := exists_loads (deleteRule_coherent hc id)
  have heq : rules' = rules.filter fun r => r.id ≠ id := by
    refine eq_of_loadsBefore h'.ids (h.ids.sublist (List.filter_sublist.map _)) h'.sorted
      (h.sorted.sublist List.filter_sublist) fun r => ?_
    rw [h'.mem, List.mem_filter, h.mem, decide_eq_true_eq]
    exact Table.mem_delete
  rwa [heq] at h'

/-- Whether a row is deleted. -/
theorem deleteRule_fst {db : Db} {rules : List CrabRule} (hc : Coherent J db) (h : Loads J db rules) (id : String) :
    (db.deleteRule id).1 = true ↔ id ∈ rules.map CrabRule.id := by
  rw [List.mem_map]
  constructor
  · intro hdel
    obtain ⟨row, hrow⟩ := Option.isSome_iff_exists.1 hdel
    obtain ⟨hmem, rfl⟩ := Table.find?_eq_some.1 hrow
    obtain ⟨r, rfl⟩ := hc row hmem
    exact ⟨r, (h.mem r).2 hmem, rfl⟩
  · rintro ⟨r, hr, rfl⟩
    show (db.rules.find? r.id).isSome = true
    rw [mem_loaded_iff.1 ((h.mem r).1 hr)]; rfl

/-- The columns of a rule's row are those of the rule its text decodes to. -/
theorem ruleRow_columns (rule : CrabRule) : CrabRule.fromStr J (ruleRow J rule).json = some rule ∧
    (ruleRow J rule).id = rule.id ∧ (ruleRow J rule).origin = rule.origin.name ∧
    (ruleRow J rule).score = rule.score := by
  refine ⟨CrabRule.fromStr_toStr J rule, rfl, ?_, rfl⟩
  cases h : rule.origin <;> simp [ruleRow, RuleOrigin.name, h]

/-- After any sequence of saves and deletes, loading returns each rule whose id was last saved, once
and as it was saved last, by score and then by the octets of the id; a delete reports whether the id
was there and leaves the other rules; and the columns of every row are those of the rule its text
decodes to. -/
theorem rules_refine_map (J : SerdeJson) (ops : List RuleOp) : ∃ rules, (run J ops).loadRules J = .ok rules ∧
    (∀ r, r ∈ rules ↔ lastOp ops r.id = some (.save r)) ∧
    (rules.map CrabRule.id).Nodup ∧
    rules.Pairwise LoadsBefore ∧
    (∀ id, ((run J ops).deleteRule id).1 = true ↔ id ∈ rules.map CrabRule.id) ∧
    (∀ id, ((run J ops).deleteRule id).2.loadRules J = .ok (rules.filter fun r => r.id ≠ id)) ∧
    ∀ row ∈ (run J ops).rules.rows, ∃ rule, CrabRule.fromStr J row.json = some rule ∧ row.id = rule.id ∧
      row.origin = rule.origin.name ∧ row.score = rule.score := by
  have hc := run_coherent (J := J) ops
  obtain ⟨rules, h⟩ := exists_loads hc
  refine ⟨rules, h.ok, fun r => (h.mem r).trans (ruleRow_mem_run ops r), h.ids, h.sorted, deleteRule_fst hc h,
    fun id => (loads_delete hc h id).ok, fun row hrow => ?_⟩
  obtain ⟨rule, rfl⟩ := hc row hrow
  exact ⟨rule, ruleRow_columns rule⟩

end Db

end Thundercrab
