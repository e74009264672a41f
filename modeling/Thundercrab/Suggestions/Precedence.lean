/-
Federated rules against local ones, across the safety layer, the derivation engine and the store.
Saving an accepted suggestion keeps a stored User or Platform rule exactly when the suggestion does
not carry that rule's id, since the id is the sender's and the store's key. Load order keeps
Federated rules behind the others except where a locally derived rule, which scores 30, is stored
beside a suggestion scored above it.
-/
import Thundercrab.Core.Db
import Thundercrab.Suggestions.Safety
import Thundercrab.Suggestions.Derive
import Mathlib.Tactic.NormNum

namespace Thundercrab

/-- A rule of the user or of the platform. -/
def CrabRule.Local (r : CrabRule) : Prop := r.origin = .user ∨ r.origin = .platform

/-- The list still has the rule: same id, match, action, score, stop flag and origin. -/
def Keeps (rules : List CrabRule) (s : CrabRule) : Prop :=
  ∃ s' ∈ rules, s'.id = s.id ∧ s'.when = s.when ∧ s'.action = s.action ∧ s'.score = s.score ∧
    s'.stopOnMatch = s.stopOnMatch ∧ s'.origin = s.origin

/-- A rule on a `List-Unsubscribe` header that files into a folder. -/
def fixtureRule (id folder : String) (score : I32) (origin : RuleOrigin) : CrabRule where
  id := id
  displayName := "Test " ++ folder
  when := .hasHeader "List-Unsubscribe"
  action := .fileInto folder
  score := score
  stopOnMatch := true
  origin := origin

variable {J : SerdeJson}

/-! ## Saving an accepted suggestion -/

/-- Loading after a save: the saved rule, and every rule loaded before with another id. -/
theorem mem_load_saveRule {db : Db} (hdb : Db.Coherent J db) (f : CrabRule) :
    ∃ before after, db.loadRules J = .ok before ∧ (db.saveRule J f).loadRules J = .ok after ∧
      ∀ s, s ∈ after ↔ s = f ∨ (s ∈ before ∧ s.id ≠ f.id) := by
  obtain ⟨before, hb, hmb, -⟩ := Db.loadRules_spec hdb
  obtain ⟨after, ha, hma, -⟩ := Db.loadRules_spec (Db.saveRule_coherent hdb f)
  refine ⟨before, after, hb, ha, fun s => ?_⟩
  rw [hma, hmb, Db.mem_loaded_iff, Db.mem_loaded_iff, Db.find?_saveRule]
  by_cases hid : s.id = f.id
  · rw [if_pos hid]
    constructor
    · intro h; exact .inl (Db.ruleRow_inj (Option.some.inj h)).symm
    · rintro (rfl | ⟨-, h⟩)
      · rfl
      · exact absurd hid h
  · rw [if_neg hid]
    constructor
    · intro h; exact .inr ⟨h, hid⟩
    · rintro (rfl | ⟨h, -⟩)
      · exact absurd rfl hid
      · exact h

/-- A saved suggestion leaves every stored User and Platform rule as it was exactly when none of
them has the suggestion's id. -/
theorem save_suggestion_keeps_local_iff (J : SerdeJson) (ops : List Db.RuleOp) (r f : CrabRule)
    (hf : applySuggestion r = .ok f) :
    ∃ before after, (Db.run J ops).loadRules J = .ok before ∧
      ((Db.run J ops).saveRule J f).loadRules J = .ok after ∧
      ((∀ s ∈ before, s.Local → Keeps after s) ↔ ∀ s ∈ before, s.Local → s.id ≠ r.id) := by
  obtain ⟨before, after, hb, ha, hmem⟩ := mem_load_saveRule (Db.run_coherent (J := J) ops) f
  have hid := applySuggestion_id hf
  have horigin := applySuggestion_origin hf
  refine ⟨before, after, hb, ha, ?_, ?_⟩
  · intro hkeep s hs hloc he
    obtain ⟨s', hs', hsid, -, -, -, -, hso⟩ := hkeep s hs hloc
    -- only the saved suggestion has that id, and it is Federated
    rcases (hmem s').1 hs' with rfl | ⟨-, hne⟩
    · rw [horigin] at hso
      rcases hloc with h | h <;> rw [h] at hso <;> cases hso
    · exact hne (by rw [hsid, he, hid])
  · intro hne s hs hloc
    refine ⟨s, (hmem s).2 (.inr ⟨hs, ?_⟩), rfl, rfl, rfl, rfl, rfl, rfl⟩
    rw [hid]; exact hne s hs hloc

/-- Loading a store with one saved rule. -/
theorem load_saved (r : CrabRule) : (Db.run J [.save r]).loadRules J = .ok [r] := Db.decodeRows_ok [r]

/-- A suggestion under a fresh id leaves the user's rule alone. -/
theorem save_suggestion_keeps_local_fresh_id :
    ∃ before after, (Db.run .compact [.save (fixtureRule "mine" "Work" ⟨100, by decide⟩ .user)]).loadRules
        .compact = .ok before ∧
      ((Db.run .compact [.save (fixtureRule "mine" "Work" ⟨100, by decide⟩ .user)]).saveRule .compact
        (fixtureRule "theirs" "Promotions" ⟨49, by decide⟩ .federated)).loadRules .compact = .ok after ∧
      ∀ s ∈ before, s.Local → Keeps after s := by
  obtain ⟨before, after, hb, ha, hiff⟩ := save_suggestion_keeps_local_iff .compact
    [.save (fixtureRule "mine" "Work" ⟨100, by decide⟩ .user)]
    (fixtureRule "theirs" "Promotions" ⟨1000, by decide⟩ .user)
    (fixtureRule "theirs" "Promotions" ⟨49, by decide⟩ .federated) rfl
  refine ⟨before, after, hb, ha, hiff.2 fun s hs _ => ?_⟩
  rw [load_saved] at hb
  cases hb
  rw [List.mem_singleton.1 hs]
  show "mine" ≠ "theirs"
  decide

/-- A suggestion under the id of a rule the user saved replaces that rule. -/
theorem suggestion_replaces_user_rule :
    ∃ f before after, applySuggestion (fixtureRule "mine" "Trash" ⟨1000, by decide⟩ .user) = .ok f ∧
      (Db.run .compact [.save (fixtureRule "mine" "Work" ⟨100, by decide⟩ .user)]).loadRules .compact =
        .ok before ∧
      ((Db.run .compact [.save (fixtureRule "mine" "Work" ⟨100, by decide⟩ .user)]).saveRule .compact f).loadRules
        .compact = .ok after ∧
      ¬ ∀ s ∈ before, s.Local → Keeps after s := by
  obtain ⟨before, after, hb, ha, hmem⟩ := mem_load_saveRule (Db.run_coherent (J := .compact)
    [.save (fixtureRule "mine" "Work" ⟨100, by decide⟩ .user)])
    (fixtureRule "mine" "Trash" ⟨49, by decide⟩ .federated)
  refine ⟨_, before, after, rfl, hb, ha, fun hkeep => ?_⟩
  rw [load_saved] at hb
  cases hb
  obtain ⟨s', hs', hsid, -, -, -, -, hso⟩ := hkeep _ (List.mem_singleton_self _) (.inl rfl)
  rcases (hmem s').1 hs' with rfl | ⟨-, hne⟩
  · cases hso
  · exact hne hsid

/-! ## Load order -/

/-- No Federated rule stands before a rule of another origin. -/
def FederatedLast (rules : List CrabRule) : Prop :=
  rules.Pairwise fun a b => ¬ (a.origin = .federated ∧ b.Local)

/-- The origin of each rule and the score band that goes with it. -/
structure Banded {F : Type} (fl : FloatOps F) (rules : List CrabRule) : Prop where
  user : ∀ r ∈ rules, r.origin = .user → Derived fl r ∨ 100 ≤ r.score.1
  platform : ∀ r ∈ rules, r.origin = .platform → 50 ≤ r.score.1 ∧ r.score.1 ≤ 99
  federated : ∀ r ∈ rules, r.origin = .federated → ∃ r₀, applySuggestion r₀ = .ok r

/-- Two loaded rules with one id are the same rule. -/
theorem loaded_id_inj {db : Db} {rules : List CrabRule} (hm : ∀ r, r ∈ rules ↔ Db.ruleRow J r ∈ db.rules.rows)
    {a b : CrabRule} (ha : a ∈ rules) (hb : b ∈ rules) (h : a.id = b.id) : a = b := by
  have h1 := Db.mem_loaded_iff.1 ((hm a).1 ha)
  have h2 := Db.mem_loaded_iff.1 ((hm b).1 hb)
  rw [h, h2] at h1
  exact (Db.ruleRow_inj (Option.some.inj h1)).symm

/-- Members of a list sorted by `R` are related one way or the other. -/
theorem pairwise_rel_or {α : Type} {R : α → α → Prop} {a b : α} : ∀ {l : List α}, l.Pairwise R →
    a ∈ l → b ∈ l → a ≠ b → R a b ∨ R b a
  -- Whichever of the two comes first is related to the other.
  | x :: l, h, ha, hb, hne => by
    rw [List.pairwise_cons] at h
    rcases List.mem_cons.1 ha with rfl | ha' <;> rcases List.mem_cons.1 hb with rfl | hb'
    · exact absurd rfl hne
    · exact .inl (h.1 b hb')
    · exact .inr (h.1 a ha')
    · exact pairwise_rel_or h.2 ha' hb' hne

/-- On a reachable store with the documented bands, loading keeps Federated rules behind all others
exactly when no derived rule is outscored: each Federated rule scores below 30, or scores 30 with
a later id than the derived rule. -/
theorem federatedLast_iff {F : Type} (fl : FloatOps F) (J : SerdeJson) (ops : List Db.RuleOp)
    (rules : List CrabRule) (hload : (Db.run J ops).loadRules J = .ok rules) (hband : Banded fl rules) :
    FederatedLast rules ↔
      ∀ u ∈ rules, Derived fl u → ∀ f ∈ rules, f.origin = .federated →
        f.score.1 < 30 ∨ (f.score.1 = 30 ∧ u.id < f.id) := by
  obtain ⟨rules', hr', hm, hsorted⟩ := Db.loadRules_spec (Db.run_coherent (J := J) ops)
  rw [hload] at hr'
  cases hr'
  constructor
  · intro hlast u hu hd f hf hfed
    have hne : u ≠ f := by
      rintro rfl; rw [derived_origin hd] at hfed; cases hfed
    rcases pairwise_rel_or (hsorted.and hlast) hu hf hne with ⟨ho, -⟩ | ⟨-, hno⟩
    · have hs := derived_score hd
      rcases ho with h | ⟨h, hid⟩
      · exact .inl (by rw [← hs]; exact h)
      · refine .inr ⟨by rw [← hs]; exact (congrArg Subtype.val h).symm, lt_of_le_of_ne hid ?_⟩
        exact fun e => hne (loaded_id_inj hm hu hf e)
    · exact absurd ⟨hfed, .inl (derived_origin hd)⟩ hno
  · intro hcond
    refine List.Pairwise.imp_of_mem ?_ hsorted
    rintro f s hf hs ho ⟨hfed, hloc⟩
    obtain ⟨r₀, hr₀⟩ := hband.federated f hf hfed
    have hfs := (applySuggestion_score hr₀).2
    -- the order puts `f` first, so `s` scores no more than 49
    have hle : s.score.1 ≤ f.score.1 := by
      rcases ho with h | ⟨h, -⟩
      · exact le_of_lt h
      · exact le_of_eq (congrArg Subtype.val h).symm
    rcases hloc with hu | hp
    · rcases hband.user s hs hu with hd | h100
      · have hss := derived_score hd
        rcases hcond s hs hd f hf hfed with h | ⟨h, hid⟩
        · omega
        · rcases ho with h' | ⟨-, hid'⟩
          · have h' : s.score.1 < f.score.1 := h'
            omega
          · exact absurd hid (not_lt.2 hid')
      · omega
    · have := (hband.platform s hs hp).1
      omega

/-- The rule derived from five moves of one domain to one folder. -/
theorem derived_five_moves (domain dest : String) : Derived .rat (derivedRule domain dest) := by
  have htotal : (domainTotals [(domain, dest, 5)] domain).getD 0 = 5 := by
    have hwrap : wrapI64 5 = 5 := by decide
    simp [domainTotals, hwrap]
  refine ⟨[(domain, dest, 5)], 3, 7 / 10, ⟨derivedRule domain dest, 5⟩, mem_derive.2 ?_, rfl⟩
  refine ⟨domain, dest, 5, List.mem_singleton_self _, by decide, ?_, rfl⟩
  rw [htotal]
  exact dominant_all (by decide) (by norm_num)

/-- Saved out of order, a user rule at 100, a derived rule and a suggestion at 10 load in that order. -/
theorem federatedLast_low_suggestion : ∃ rules,
    (Db.run .compact [.save (fixtureRule "f" "Promotions" ⟨10, by decide⟩ .federated),
      .save (derivedRule "@x.com" "Promotions"),
      .save (fixtureRule "u" "Work" ⟨100, by decide⟩ .user)]).loadRules .compact = .ok rules ∧
    FederatedLast rules := by
  have hload : (Db.run .compact [.save (fixtureRule "f" "Promotions" ⟨10, by decide⟩ .federated),
      .save (derivedRule "@x.com" "Promotions"),
      .save (fixtureRule "u" "Work" ⟨100, by decide⟩ .user)]).loadRules .compact =
        .ok [fixtureRule "u" "Work" ⟨100, by decide⟩ .user, derivedRule "@x.com" "Promotions",
          fixtureRule "f" "Promotions" ⟨10, by decide⟩ .federated] :=
    Db.decodeRows_ok [_, _, _]
  refine ⟨_, hload, (federatedLast_iff .rat .compact _ _ hload ⟨?_, ?_, ?_⟩).2 ?_⟩
  · intro r hr ho
    simp only [List.mem_cons, List.not_mem_nil, or_false] at hr
    rcases hr with rfl | rfl | rfl
    · exact .inr (by decide)
    · exact .inl (derived_five_moves _ _)
    · cases ho
  · intro r hr ho
    simp only [List.mem_cons, List.not_mem_nil, or_false] at hr
    rcases hr with rfl | rfl | rfl <;> cases ho
  · intro r hr ho
    simp only [List.mem_cons, List.not_mem_nil, or_false] at hr
    rcases hr with rfl | rfl | rfl
    · cases ho
    · cases ho
    · exact ⟨fixtureRule "f" "Promotions" ⟨10, by decide⟩ .user, rfl⟩
  · intro u _ _ f hf hfed
    simp only [List.mem_cons, List.not_mem_nil, or_false] at hf
    rcases hf with rfl | rfl | rfl
    · cases hfed
    · cases hfed
    · exact .inl (by decide)

/-- A suggestion scored 49 loads before the rule the install derived itself. -/
theorem suggestion_outranks_derived_rule : ∃ rules,
    (Db.run .compact [.save (derivedRule "@x.com" "Promotions"),
      .save (fixtureRule "f" "Trash" ⟨49, by decide⟩ .federated)]).loadRules .compact = .ok rules ∧
    Banded .rat rules ∧ ¬ FederatedLast rules := by
  have hload : (Db.run .compact [.save (derivedRule "@x.com" "Promotions"),
      .save (fixtureRule "f" "Trash" ⟨49, by decide⟩ .federated)]).loadRules .compact =
        .ok [fixtureRule "f" "Trash" ⟨49, by decide⟩ .federated, derivedRule "@x.com" "Promotions"] :=
    Db.decodeRows_ok [_, _]
  refine ⟨_, hload, ⟨?_, ?_, ?_⟩, ?_⟩
  · intro r hr ho
    simp only [List.mem_cons, List.not_mem_nil, or_false] at hr
    rcases hr with rfl | rfl
    · cases ho
    · exact .inl (derived_five_moves _ _)
  · intro r hr ho
    simp only [List.mem_cons, List.not_mem_nil, or_false] at hr
    rcases hr with rfl | rfl <;> cases ho
  · intro r hr ho
    simp only [List.mem_cons, List.not_mem_nil, or_false] at hr
    rcases hr with rfl | rfl
    · exact ⟨fixtureRule "f" "Trash" ⟨1000, by decide⟩ .user, rfl⟩
    · cases ho
  · intro hlast
    unfold FederatedLast at hlast
    rw [List.pairwise_cons] at hlast
    exact hlast.1 _ (List.mem_singleton_self _) ⟨rfl, .inl rfl⟩

end Thundercrab
