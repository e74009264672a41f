/-
`store.rs`: the corroboration table and its three queries. A submission is inserted under its
pattern hash and public key; a second one by the same key overwrites the signature and the rule text
and keeps the smaller day. The stored row of a key is therefore described by that key's own
submissions alone: the last of them and the least of their days.
-/
import Thundercrab.Suggestions.Ledger
import Thundercrab.Lib.Table
import Mathlib.Data.List.Dedup
import Mathlib.Data.List.Sort
import Mathlib.Data.List.Induction
import Mathlib.Order.Bounds.Basic

namespace Thundercrab

open Lib Lib.Json

/-- One ledger entry as the store sees it. -/
structure CorroborationRow where
  patternHash : Bytes32
  publicKey : Bytes32
  signature : Bytes64
  ruleJson : String
  submittedDay : I64

/-- `PRIMARY KEY (pattern_hash, public_key)` -/
def CorroborationRow.key (r : CorroborationRow) : Bytes32 × Bytes32 := (r.patternHash, r.publicKey)

/-- One row of `/v1/suggestions` output. -/
structure AggregatedSuggestion where
  patternHashHex : String
  ruleJson : String
  corroborators : Nat
  firstSeenDay : I64

/-- `ON CONFLICT(pattern_hash, public_key) DO UPDATE SET signature = excluded.signature, ...` -/
def corroborationConflict : Conflict CorroborationRow.key where
  merge old new :=
    { patternHash := old.patternHash
      publicKey := old.publicKey
      signature := new.signature
      ruleJson := new.ruleJson
      submittedDay := min old.submittedDay new.submittedDay }
  key_merge _ _ := rfl

/-- Connection-owning store handle. -/
structure Store where
  corroborations : Table CorroborationRow (Bytes32 × Bytes32) CorroborationRow.key

/-- One group of `GROUP BY pattern_hash` with its selected columns. -/
structure PatternGroup where
  patternHash : Bytes32
  ruleJson : String
  corroborators : Nat
  firstSeenDay : I64

/-- The selected columns as a result row: the hash as lower-case hexadecimal. -/
def PatternGroup.aggregated (g : PatternGroup) : AggregatedSuggestion :=
  { patternHashHex := hexEncode g.patternHash.1
    ruleJson := g.ruleJson
    corroborators := g.corroborators
    firstSeenDay := g.firstSeenDay }

@[simp] theorem PatternGroup.aggregated_hex (g : PatternGroup) :
    g.aggregated.patternHashHex = hexEncode g.patternHash.1 := rfl

@[simp] theorem PatternGroup.aggregated_corroborators (g : PatternGroup) :
    g.aggregated.corroborators = g.corroborators := rfl

namespace Store

def openInMemory : Store := ⟨Table.empty⟩

/-- Upsert a corroboration row; `true` if this is a new corroborator for the pattern. -/
def upsert (s : Store) (row : CorroborationRow) : Bool × Store :=
  -- `SELECT 1` before the insertion, under the same lock
  let existed := (s.corroborations.find? row.key).isSome
  (!existed, { s with corroborations := s.corroborations.upsert corroborationConflict row })

/-- The rows of a pattern. -/
def rowsOf (s : Store) (h : Bytes32) : List CorroborationRow :=
  s.corroborations.rows.filter fun r => r.patternHash = h

/-- `SELECT pattern_hash, MIN(rule_json), COUNT(DISTINCT public_key), MIN(submitted_day)` on a group -/
def group (s : Store) (h : Bytes32) : Option PatternGroup :=
  match ((s.rowsOf h).map CorroborationRow.ruleJson).min?,
    ((s.rowsOf h).map CorroborationRow.submittedDay).min? with
  | some ruleJson, some firstSeenDay =>
    some { patternHash := h
           ruleJson
           corroborators := ((s.rowsOf h).map CorroborationRow.publicKey).dedup.length
           firstSeenDay }
  | _, _ => none

/-- `HAVING corroborators >= ?1 AND first_seen_day >= ?2` -/
def having (minCorroborators since : I64) (g : PatternGroup) : Prop :=
  minCorroborators.1 ≤ g.corroborators ∧ since ≤ g.firstSeenDay

instance (m since : I64) : DecidablePred (having m since) := fun g =>
  inferInstanceAs (Decidable (m.1 ≤ g.corroborators ∧ since ≤ g.firstSeenDay))

/-- `ORDER BY corroborators DESC, pattern_hash ASC` -/
def groupOrder (a b : PatternGroup) : Prop :=
  b.corroborators < a.corroborators ∨
    (a.corroborators = b.corroborators ∧ memLe a.patternHash.1 b.patternHash.1)

instance : DecidableRel groupOrder := fun a b =>
  inferInstanceAs (Decidable (b.corroborators < a.corroborators ∨
    (a.corroborators = b.corroborators ∧ memLe a.patternHash.1 b.patternHash.1)))

/-- The groups in the order of the result. -/
def selected (s : Store) (minCorroborators : I64) (sinceDay : Option I64) : List PatternGroup :=
  ((((s.corroborations.rows.map CorroborationRow.patternHash).dedup.filterMap s.group).filter
    (having minCorroborators (sinceDay.getD I64.min))).insertionSort groupOrder)

/-- Corroboration counts across all pattern hashes with enough corroborators, first seen on or after
`sinceDay`. -/
def listAggregated (s : Store) (minCorroborators : I64) (sinceDay : Option I64) : List AggregatedSuggestion :=
  (s.selected minCorroborators sinceDay).map PatternGroup.aggregated

/-- Total distinct pattern hash count, for `/v1/health`. -/
def totalUniquePatterns (s : Store) : Nat := (s.corroborations.rows.map CorroborationRow.patternHash).dedup.length

/-- The store after a sequence of upserts into an empty one. -/
def ofHistory (hist : List CorroborationRow) : Store := hist.foldl (fun s row => (s.upsert row).2) openInMemory

end Store

end Thundercrab
