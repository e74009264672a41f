/-
The ids of derived rules, which are the keys they are stored under. An id keeps of a domain and a
folder only letters without their case, digits, and where the other characters stand; two patterns
that look alike in this have one id, and of two rules with one id the store keeps the one saved last.
-/
import Thundercrab.Core.RuleMap
import Thundercrab.Suggestions.Derive
import Mathlib.Data.List.Forall2
import Mathlib.Tactic.NormNum

namespace Thundercrab

open Lib Lib.Json

variable {F : Type} {fl : FloatOps F} {J : SerdeJson}

/-! ## What an id keeps -/

/-- What `sanitize_id` puts for a character. -/
def idChar (c : Char) : Char := if c.isAlphanum then c.toLower else '_'

/-- One letter up to its case, one digit, or two characters that are neither letters nor digits. -/
def LookAlikeChar (a b : Char) : Prop :=
  (a.isAlphanum = true ∧ b.isAlphanum = true ∧ a.toLower = b.toLower) ∨ (a.isAlphanum = false ∧ b.isAlphanum = false)

/-- Texts of one length that look alike character by character. -/
def LookAlike (s t : String) : Prop := List.Forall₂ LookAlikeChar s.toList t.toList

theorem toNat_lt_of_alphanum {c : Char} (h : c.isAlphanum = true) : c.toNat < 128 := by
  have hdef : c.isAlphanum = ((decide ('A'.val ≤ c.val ∧ c.val ≤ 'Z'.val) ||
      (decide ('a'.val ≤ c.val) && decide (c.val ≤ 'z'.val))) ||
      (decide ('0'.val ≤ c.val) && decide (c.val ≤ '9'.val))) := rfl
  rw [hdef] at h
  simp only [Bool.or_eq_true, Bool.and_eq_true, decide_eq_true_eq, UInt32.le_iff_toNat_le] at h
  have hz : 'Z'.val.toNat < 128 ∧ 'z'.val.toNat < 128 ∧ '9'.val.toNat < 128 := by decide
  show c.val.toNat < 128
  omega

theorem toLower_ne_underscore {c : Char} (h : c.isAlphanum = true) : c.toLower ≠ '_' := by
  have hall : ∀ n < 128, (Char.ofNat n).isAlphanum = true → (Char.ofNat n).toLower ≠ '_' := by decide
  have := hall c.toNat (toNat_lt_of_alphanum h)
  rw [Char.ofNat_toNat] at this
  exact this h

theorem idChar_eq_iff {a b : Char} : idChar a = idChar b ↔ LookAlikeChar a b := by
  unfold idChar LookAlikeChar
  cases ha : a.isAlphanum <;> cases hb : b.isAlphanum
  · simp
  · simpa using (toLower_ne_underscore hb).symm
  · simpa using toLower_ne_underscore ha
  · simp

theorem sanitizeId_eq_iff {s t : String} : sanitizeId s = sanitizeId t ↔ LookAlike s t := by
  have hmap : s.toList.map idChar = t.toList.map idChar ↔ LookAlike s t := by
    rw [← List.forall₂_eq_eq_eq, List.forall₂_map_left_iff, List.forall₂_map_right_iff]
    unfold LookAlike
    exact ⟨List.Forall₂.imp fun _ _ => idChar_eq_iff.1, List.Forall₂.imp fun _ _ => idChar_eq_iff.2⟩
  constructor
  · intro h
    exact hmap.1 (String.ofList_injective h)
  · intro h
    exact congrArg String.ofList (hmap.2 h)

/-- The text a derived rule's id is made of. -/
def patternText (domain dest : String) : String := domain ++ "_to_" ++ dest

theorem derivedRule_id (domain dest : String) :
    (derivedRule domain dest).id = "derived_" ++ sanitizeId (patternText domain dest) := by
  have hto : "_to_".toList.map idChar = "_to_".toList := by decide
  have hsplit : sanitizeId (patternText domain dest) = sanitizeId domain ++ "_to_" ++ sanitizeId dest := by
    show String.ofList ((domain ++ "_to_" ++ dest).toList.map idChar) =
      String.ofList (domain.toList.map idChar) ++ "_to_" ++ String.ofList (dest.toList.map idChar)
    rw [String.toList_append, String.toList_append, List.map_append, List.map_append, hto, String.ofList_append,
      String.ofList_append, String.ofList_toList]
  rw [hsplit, ← String.append_assoc, ← String.append_assoc]
  rfl

/-- Two derived rules have one id when their patterns look alike. -/
theorem derivedRule_id_eq_iff {domain dest domain' dest' : String} :
    (derivedRule domain dest).id = (derivedRule domain' dest').id ↔
      LookAlike (patternText domain dest) (patternText domain' dest') := by
  rw [derivedRule_id, derivedRule_id, ← sanitizeId_eq_iff]
  constructor
  · intro h
    simpa using h
  · intro h
    rw [h]

/-! ## What the store keeps -/

/-- Of rules saved one after another into an empty store a rule is loaded when it is the last one
saved under its id. -/
theorem load_saves (J : SerdeJson) (rules : List CrabRule) : ∃ loaded,
    (Db.run J (rules.map .save)).loadRules J = .ok loaded ∧
      ∀ r, r ∈ loaded ↔ (rules.reverse.find? fun s => s.id = r.id) = some r := by
  obtain ⟨loaded, h⟩ := Db.exists_loads (Db.run_coherent (J := J) (rules.map .save))
  refine ⟨loaded, h.ok, fun r => ?_⟩
  rw [h.mem, Db.ruleRow_mem_run, Db.lastOp, ← List.map_reverse, List.find?_map]
  constructor
  · intro hr
    obtain ⟨s, hs, he⟩ := Option.map_eq_some_iff.1 hr
    cases he
    exact hs
  · intro hr
    exact Option.map_eq_some_iff.2 ⟨r, hr, rfl⟩

/-- All are loaded when no two of them share an id. -/
theorem all_loaded_iff {rules loaded : List CrabRule}
    (h : ∀ r, r ∈ loaded ↔ (rules.reverse.find? fun s => s.id = r.id) = some r) :
    (∀ r ∈ rules, r ∈ loaded) ↔ ∀ r ∈ rules, ∀ s ∈ rules, r.id = s.id → r = s := by
  constructor
  · intro hall r hr s hs hid
    have h1 := (h r).1 (hall r hr)
    have h2 := (h s).1 (hall s hs)
    rw [hid, h2] at h1
    exact (Option.some.inj h1).symm
  · intro hinj r hr
    rw [h]
    have hfound : (rules.reverse.find? fun s => s.id = r.id).isSome := by
      rw [List.find?_isSome]
      exact ⟨r, List.mem_reverse.2 hr, by simp⟩
    obtain ⟨s, hs⟩ := Option.isSome_iff_exists.1 hfound
    have hid : s.id = r.id := by simpa using List.find?_some hs
    rw [hs, hinj s (List.mem_reverse.1 (List.mem_of_find?_eq_some hs)) r hr hid]

/-- The row is frequent and dominant enough for a rule. -/
def Passes (fl : FloatOps F) (flagCounts : List FlagCount) (minObservations : Int) (dominanceThreshold : F)
    (row : FlagCount) : Prop :=
  minObservations ≤ row.2.2 ∧
    Dominant fl row.2.2 ((domainTotals flagCounts row.1).getD 0) dominanceThreshold

theorem mem_derive_passes {flagCounts : List FlagCount} {m : Int} {t : F} {d : DerivedRule} :
    d ∈ deriveRuleCandidates fl flagCounts m t ↔
      ∃ row ∈ flagCounts, Passes fl flagCounts m t row ∧ d = ⟨derivedRule row.1 row.2.1, row.2.2⟩ := by
  rw [mem_derive]
  constructor
  · rintro ⟨domain, dest, count, hmem, hcount, hdom, rfl⟩
    exact ⟨_, hmem, ⟨hcount, hdom⟩, rfl⟩
  · rintro ⟨⟨domain, dest, count⟩, hmem, ⟨hcount, hdom⟩, rfl⟩
    exact ⟨domain, dest, count, hmem, hcount, hdom, rfl⟩

/-- Saved into an empty store the derived rules are all loaded again, and those of different patterns
have different ids, exactly when no two rows with different patterns that look alike both pass. -/
theorem derived_kept_iff (fl : FloatOps F) (J : SerdeJson) (flagCounts : List FlagCount) (minObservations : Int)
    (dominanceThreshold : F) :
    let derived := deriveRuleCandidates fl flagCounts minObservations dominanceThreshold
    ∃ loaded, (Db.run J (derived.map fun d => .save d.rule)).loadRules J = .ok loaded ∧
      (((∀ d ∈ derived, d.rule ∈ loaded) ∧
        ∀ d ∈ derived, ∀ d' ∈ derived, d.rule ≠ d'.rule → d.rule.id ≠ d'.rule.id) ↔
      ¬ ∃ row ∈ flagCounts, ∃ row' ∈ flagCounts, Passes fl flagCounts minObservations dominanceThreshold row ∧
        Passes fl flagCounts minObservations dominanceThreshold row' ∧ (row.1, row.2.1) ≠ (row'.1, row'.2.1) ∧
        LookAlike (patternText row.1 row.2.1) (patternText row'.1 row'.2.1)) := by
  intro derived
  obtain ⟨loaded, hok, hmem⟩ := load_saves J (derived.map DerivedRule.rule)
  rw [List.map_map] at hok
  refine ⟨loaded, hok, ?_⟩
  have hall := all_loaded_iff hmem
  simp only [List.forall_mem_map] at hall
  have hpair : ∀ {row row' : FlagCount}, derivedRule row.1 row.2.1 = derivedRule row'.1 row'.2.1 ↔
      (row.1, row.2.1) = (row'.1, row'.2.1) := by
    intro row row'
    rw [derivedRule_inj, Prod.mk.injEq]
  constructor
  · rintro ⟨hkept, -⟩ ⟨row, hrow, row', hrow', hp, hp', hne, hlook⟩
    have hd := mem_derive_passes.2 ⟨row, hrow, hp, rfl⟩
    have hd' := mem_derive_passes.2 ⟨row', hrow', hp', rfl⟩
    exact hne (hpair.1 (hall.1 hkept _ hd _ hd' (derivedRule_id_eq_iff.2 hlook)))
  · intro hno
    have hinj : ∀ d ∈ derived, ∀ d' ∈ derived, d.rule.id = d'.rule.id → d.rule = d'.rule := by
      intro d hd d' hd' hid
      obtain ⟨row, hrow, hp, rfl⟩ := mem_derive_passes.1 hd
      obtain ⟨row', hrow', hp', rfl⟩ := mem_derive_passes.1 hd'
      by_contra hne
      exact hno ⟨row, hrow, row', hrow', hp, hp', fun he => hne (hpair.2 he), derivedRule_id_eq_iff.1 hid⟩
    exact ⟨hall.2 hinj, fun d hd d' hd' hne hid => hne (hinj d hd d' hd' hid)⟩

/-- Five moves from each of two domains whose names differ in one punctuation mark. -/
def alikeCounts : List FlagCount := [("@shop.eu.com", "Promotions", 5), ("@shop-eu.com", "Promotions", 5)]

/-- One of the two rules derived from them is lost. -/
theorem alike_domains_lose_rule :
    (alikeCounts.map fun row => (row.1, row.2.1)).Nodup ∧
    ∃ loaded, (Db.run .compact ((deriveRuleCandidates .rat alikeCounts 3 (1 / 2)).map fun d =>
        .save d.rule)).loadRules .compact = .ok loaded ∧
      ¬ ∀ d ∈ deriveRuleCandidates .rat alikeCounts 3 (1 / 2), d.rule ∈ loaded := by
  have htotal : ∀ row ∈ alikeCounts, (domainTotals alikeCounts row.1).getD 0 = 5 := by decide
  have hpass : ∀ row ∈ alikeCounts, Passes .rat alikeCounts 3 (1 / 2) row := by
    intro row hrow
    have hcount : row.2.2 = 5 := by
      revert row
      decide
    refine ⟨by rw [hcount]; decide, ?_⟩
    rw [htotal row hrow, hcount]
    exact dominant_all (by decide) (by norm_num)
  have hderived : ∀ row ∈ alikeCounts, ⟨derivedRule row.1 row.2.1, row.2.2⟩ ∈
      deriveRuleCandidates .rat alikeCounts 3 (1 / 2) := fun row hrow =>
    mem_derive_passes.2 ⟨row, hrow, hpass row hrow, rfl⟩
  obtain ⟨loaded, hok, hmem⟩ := load_saves .compact
    ((deriveRuleCandidates .rat alikeCounts 3 (1 / 2)).map DerivedRule.rule)
  rw [List.map_map] at hok
  refine ⟨by decide, loaded, hok, fun hall => ?_⟩
  have hinj := (all_loaded_iff hmem).1 (by simpa using hall)
  simp only [List.forall_mem_map] at hinj
  have hsecond := hderived _ (List.mem_cons_of_mem _ (List.mem_cons_self ..))
  have heq := hinj _ (hderived _ (List.mem_cons_self ..)) _ hsecond (by decide)
  exact absurd (derivedRule_inj.1 heq).1 (by decide)

end Thundercrab
