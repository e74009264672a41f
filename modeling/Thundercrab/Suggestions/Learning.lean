/-
`db.rs` and `derive.rs` over time: what becomes of a proposed rule while the user goes on. Recording
only adds events, so a rule is withdrawn only by events of its domain with another destination; and
enough new messages, all moved to one folder, make its rule the only one of their domain, whatever
was recorded before. The fractions of the dominance test may be rounded.
-/
import Thundercrab.Suggestions.Evidence
import Thundercrab.Suggestions.Dominance

namespace Thundercrab

open Lib Lib.Json

variable {F : Type} {fl : FloatOps F} {J : SerdeJson}

/-! ## Rounded fractions -/

/-- Fractions of numbers below `2^53` are rounded without changing their order: one that reaches a
threshold is not followed by a greater one that does not. -/
def FloatOps.Monotone (fl : FloatOps F) : Prop :=
  ∀ (a b a' b' : Int) (t : F), 0 ≤ a → a ≤ b → 0 < b → b < 9007199254740992 → 0 ≤ a' → a' ≤ b' → 0 < b' →
    b' < 9007199254740992 → a * b' ≤ a' * b → fl.lt (fl.div (fl.ofInt a) (fl.ofInt b)) t = false →
    fl.lt (fl.div (fl.ofInt a') (fl.ofInt b')) t = false

/-- The threshold is above one half: no fraction of at most one half reaches it. -/
def FloatOps.AboveHalf (fl : FloatOps F) (t : F) : Prop :=
  ∀ a b : Int, 0 ≤ a → 0 < b → b < 9007199254740992 → 2 * a ≤ b → fl.lt (fl.div (fl.ofInt a) (fl.ofInt b)) t = true

theorem FloatOps.rat_monotone : FloatOps.rat.Monotone := by
  intro a b a' b' t ha hab hb hbs ha' hab' hb' hbs' hle hlt
  have hb₀ : (0 : ℚ) < b := by exact_mod_cast hb
  have hb₀' : (0 : ℚ) < b' := by exact_mod_cast hb'
  have hle' : (a : ℚ) / b ≤ a' / b' := by
    rw [div_le_div_iff₀ hb₀ hb₀']
    exact_mod_cast hle
  have ht : t ≤ (a : ℚ) / b := not_lt.1 (of_decide_eq_false hlt)
  exact decide_eq_false (not_lt.2 (ht.trans hle'))

theorem FloatOps.rat_aboveHalf {t : ℚ} (h : 1 / 2 < t) : FloatOps.rat.AboveHalf t := by
  intro a b ha hb hbs hle
  have hb₀ : (0 : ℚ) < b := by exact_mod_cast hb
  have hle' : (2 : ℚ) * a ≤ b := by exact_mod_cast hle
  have hhalf : (a : ℚ) / b ≤ 1 / 2 := by
    rw [div_le_div_iff₀ hb₀ two_pos]
    linarith
  exact decide_eq_true (lt_of_le_of_lt hhalf h)

/-- More of the same makes a share no smaller. -/
theorem Dominant.grow (hfl : fl.Monotone) {a b n : Int} {t : F} (ha : 0 ≤ a) (hab : a ≤ b) (hn : 0 ≤ n)
    (hb : b + n < 9007199254740992) (h : Dominant fl a b t) : Dominant fl (a + n) (b + n) t := by
  obtain ⟨hne, hlt⟩ := h
  have hpos : 0 < b := lt_of_le_of_ne (ha.trans hab) (Ne.symm hne)
  refine ⟨by omega, hfl a b (a + n) (b + n) t ha hab hpos (by omega) (by omega) (by omega) (by omega) hb ?_ hlt⟩
  have hmul : a * n ≤ b * n := Int.mul_le_mul_of_nonneg_right hab hn
  rw [Int.mul_add, Int.add_mul, Int.mul_comm n b]
  omega

/-- A greater part of the same whole is no less dominant. -/
theorem Dominant.of_le (hfl : fl.Monotone) {a a' b : Int} {t : F} (ha : 0 ≤ a) (haa : a ≤ a') (hab : a' ≤ b)
    (hb : b < 9007199254740992) (h : Dominant fl a b t) : Dominant fl a' b t := by
  obtain ⟨hne, hlt⟩ := h
  have hpos : 0 < b := lt_of_le_of_ne (by omega) (Ne.symm hne)
  exact ⟨hne, hfl a b a' b t ha (by omega) hpos hb (by omega) hab hpos hb
    (Int.mul_le_mul_of_nonneg_right haa hpos.le) hlt⟩

/-- A dominant part with a threshold above one half is more than half of the whole. -/
theorem Dominant.majority {a b : Int} {t : F} (h : Dominant fl a b t) (hhalf : fl.AboveHalf t) (ha : 0 ≤ a ∧ a ≤ b)
    (hb : b < 9007199254740992) : b < 2 * a := by
  by_contra hfew
  have hpos : 0 < b := lt_of_le_of_ne (ha.1.trans ha.2) (Ne.symm h.1)
  have hlt := hhalf a b ha.1 hpos hb (by omega)
  rw [h.2] at hlt
  cases hlt

/-! ## Further events -/

namespace Db

variable {db : Db} {domain dest dest' : String}

/-- After further events the stored rows are the former ones and rows of some of the events. -/
theorem recordAll_append (history more : List FlagEvent) : ∃ added : List FlagRow,
    added.Sublist (more.map (flagRow J)) ∧
      (recordAll J (history ++ more)).flagEvents.rows = (recordAll J history).flagEvents.rows ++ added := by
  unfold recordAll
  rw [List.foldl_append, foldl_recordFlag]
  exact Table.upsertAll_ignore_rows _ _

theorem length_recordAll (history : List FlagEvent) :
    (recordAll J history).flagEvents.rows.length ≤ history.length := by
  obtain ⟨added, hadded, hrows⟩ := recordAll_append (J := J) [] history
  have hlen := hadded.length_le
  rw [List.length_map] at hlen
  rw [List.nil_append] at hrows
  rw [hrows]
  exact hlen

theorem eventsOf_le_eventsFrom : db.eventsOf domain dest ≤ db.eventsFrom domain :=
  List.countP_mono_left fun _ _ h => decide_eq_true (of_decide_eq_true h).1

theorem eventsFrom_le (history : List FlagEvent) : (recordAll J history).eventsFrom domain ≤ history.length :=
  List.countP_le_length.trans (length_recordAll history)

theorem eventsOf_add_le (db : Db) (domain : String) (h : dest ≠ dest') :
    db.eventsOf domain dest + db.eventsOf domain dest' ≤ db.eventsFrom domain := by
  unfold eventsOf eventsFrom
  induction db.flagEvents.rows with
  | nil => exact le_refl _
  | cons r rows ih =>
    simp only [List.countP_cons, decide_eq_true_eq]
    grind

/-- Events that send a domain to one destination add the same number there and to the domain. -/
theorem eventsOf_append (history : List FlagEvent) {more : List FlagEvent}
    (hmore : ∀ e ∈ more, e.fromDomainWithAt = domain → e.destination = dest) :
    ∃ n, (recordAll J (history ++ more)).eventsOf domain dest = (recordAll J history).eventsOf domain dest + n ∧
      (recordAll J (history ++ more)).eventsFrom domain = (recordAll J history).eventsFrom domain + n := by
  obtain ⟨added, hadded, hrows⟩ := recordAll_append (J := J) history more
  refine ⟨added.countP fun r => r.fromDomainWithAt = domain, ?_, ?_⟩
  · unfold eventsOf
    rw [hrows, List.countP_append]
    refine congrArg _ (List.countP_congr fun r hr => ?_)
    obtain ⟨e, he, rfl⟩ := List.mem_map.1 (hadded.subset hr)
    simp only [decide_eq_true_eq]
    exact ⟨fun h => h.1, fun h => ⟨h, hmore e he h⟩⟩
  · unfold eventsFrom
    rw [hrows, List.countP_append]

/-- The new messages of a domain are so many more events to the destination they went to. -/
theorem eventsOf_append_new {history more : List FlagEvent} (dest : String) (hone : OneDomain (history ++ more))
    (hnew : ∀ e ∈ history, ∀ e' ∈ more, e'.fromDomainWithAt = domain → e.messageHash ≠ e'.messageHash) :
    (recordAll J (history ++ more)).eventsOf domain dest =
      (recordAll J history).eventsOf domain dest + distinctFlags more domain dest := by
  have hone' : OneDomain history := fun e he e' he' =>
    hone e (List.mem_append_left _ he) e' (List.mem_append_left _ he')
  rw [eventsOf_recordAll hone, eventsOf_recordAll hone']
  unfold distinctFlags
  rw [List.filter_append, List.map_append, List.Disjoint.dedup_append, List.length_append]
  intro x hx hx'
  obtain ⟨e, he, rfl⟩ := List.mem_map.1 hx
  obtain ⟨e', he', hsame⟩ := List.mem_map.1 hx'
  have hd := (of_decide_eq_true (List.mem_filter.1 he').2).1
  exact hnew e (List.mem_filter.1 he).1 e' (List.mem_filter.1 he').1 hd (congrArg Prod.fst hsame).symm

end Db

/-! ## Proposals -/

/-- The derivation from a store proposes the rule of a domain and a destination, backed by so many
events. -/
def Proposes (fl : FloatOps F) (Q : RowOrder) (db : Db) (minObservations : Int) (dominanceThreshold : F)
    (domain dest : String) (evidence : Int) : Prop :=
  ⟨derivedRule domain dest, evidence⟩ ∈
    deriveRuleCandidates fl (db.flagCountsByDomainDest Q) minObservations dominanceThreshold

/-- What a store of fewer than `2^53` events proposes. -/
theorem proposes_iff {Q : RowOrder} {history : List FlagEvent} (hlen : history.length < 9007199254740992) {m : Int}
    {t : F} {domain dest : String} {n : Int} : Proposes fl Q (Db.recordAll J history) m t domain dest n ↔
      domain ≠ "" ∧ 0 < n ∧ m ≤ n ∧ n = (Db.recordAll J history).eventsOf domain dest ∧
        Dominant fl n ((Db.recordAll J history).eventsFrom domain) t := by
  have hle : (Db.recordAll J history).eventsFrom domain ≤ history.length := Db.eventsFrom_le history
  have hwrap : wrapI64 ((Db.recordAll J history).eventsFrom domain) = (Db.recordAll J history).eventsFrom domain :=
    wrapI64_of_mem (by omega) (by omega)
  unfold Proposes
  rw [mem_derive_stored]
  constructor
  · rintro ⟨d, t', hne, hpos, hm, hdom, he⟩
    obtain ⟨hrule, rfl⟩ := (DerivedRule.mk.injEq ..).mp he
    obtain ⟨rfl, rfl⟩ := derivedRule_inj.1 hrule
    rw [hwrap] at hdom
    exact ⟨hne, by omega, hm, rfl, hdom⟩
  · rintro ⟨hne, hpos, hm, rfl, hdom⟩
    rw [← hwrap] at hdom
    exact ⟨domain, dest, hne, by omega, hm, hdom, rfl⟩

/-- A proposed rule is still proposed after any further events among which those of its domain have
its destination, with no fewer events behind it. -/
theorem proposal_stands (hfl : fl.Monotone) (J : SerdeJson) (Q Q' : RowOrder) (history more : List FlagEvent)
    (hlen : (history ++ more).length < 9007199254740992) (minObservations : Int) (dominanceThreshold : F)
    (domain dest : String) (evidence : Int)
    (hproposed : Proposes fl Q (Db.recordAll J history) minObservations dominanceThreshold domain dest evidence)
    (hmore : ∀ e ∈ more, e.fromDomainWithAt = domain → e.destination = dest) :
    ∃ evidence', evidence ≤ evidence' ∧
      Proposes fl Q' (Db.recordAll J (history ++ more)) minObservations dominanceThreshold domain dest evidence' := by
  have hshort : history.length < 9007199254740992 := by rw [List.length_append] at hlen; omega
  obtain ⟨hne, hpos, hm, rfl, hdom⟩ := (proposes_iff hshort).1 hproposed
  obtain ⟨n, hof, hfrom⟩ := Db.eventsOf_append (J := J) history hmore
  have hle : (Db.recordAll J (history ++ more)).eventsFrom domain ≤ (history ++ more).length := Db.eventsFrom_le _
  have hpart : (Db.recordAll J history).eventsOf domain dest ≤ (Db.recordAll J history).eventsFrom domain :=
    Db.eventsOf_le_eventsFrom
  refine ⟨(Db.recordAll J (history ++ more)).eventsOf domain dest, by omega, (proposes_iff hlen).2
    ⟨hne, by omega, by omega, rfl, ?_⟩⟩
  rw [hof, hfrom, Int.natCast_add, Int.natCast_add]
  exact hdom.grow hfl (by omega) (by omega) (by omega) (by omega)

/-- Three moves, then a fourth to the same folder. -/
theorem fourth_move_stands : ∃ evidence', 3 ≤ evidence' ∧ Proposes .rat .reversed (Db.recordAll .compact
    (threeFlags .manualMove "Promotions" ++ [fixtureFlag 4 .manualMove "Promotions"])) 3 (1 / 2) "@x.com" "Promotions"
    evidence' :=
  proposal_stands FloatOps.rat_monotone .compact .asGrouped .reversed _ _ (by decide) 3 (1 / 2) "@x.com" "Promotions" 3
    (mem_derive_threeFlags (by decide) (by decide)) fun _ he _ => by rw [List.mem_singleton.1 he]; rfl

/-- Enough new messages of a domain, all with one destination, make its rule one that the domain has,
whatever was recorded before, and the only one when the threshold is above one half: enough are as many
as would be dominant if every former event of the domain had another destination. -/
theorem new_habit_prevails (hfl : fl.Monotone) (J : SerdeJson) (Q : RowOrder) (history more : List FlagEvent)
    (hlen : (history ++ more).length < 9007199254740992) (hone : OneDomain (history ++ more)) (minObservations : Int)
    (dominanceThreshold : F) (domain dest : String) (hdomain : domain ≠ "")
    (hmore : ∀ e ∈ more, e.fromDomainWithAt = domain → e.destination = dest)
    (hnew : ∀ e ∈ history, ∀ e' ∈ more, e'.fromDomainWithAt = domain → e.messageHash ≠ e'.messageHash)
    (hsome : 0 < distinctFlags more domain dest) (henough : minObservations ≤ distinctFlags more domain dest)
    (hdominant : Dominant fl (distinctFlags more domain dest)
      ((Db.recordAll J history).eventsFrom domain + distinctFlags more domain dest) dominanceThreshold) :
    Proposes fl Q (Db.recordAll J (history ++ more)) minObservations dominanceThreshold domain dest
      (distinctFlags history domain dest + distinctFlags more domain dest) ∧
    (fl.AboveHalf dominanceThreshold →
      ∀ dest' evidence, Proposes fl Q (Db.recordAll J (history ++ more)) minObservations dominanceThreshold domain dest'
        evidence → dest' = dest) := by
  have hone' : OneDomain history := fun e he e' he' =>
    hone e (List.mem_append_left _ he) e' (List.mem_append_left _ he')
  have hle : (Db.recordAll J (history ++ more)).eventsFrom domain ≤ (history ++ more).length := Db.eventsFrom_le _
  have hof := Db.eventsOf_append_new (J := J) dest hone hnew
  -- The new messages are what the domain has more, too.
  obtain ⟨n, hof', hfrom⟩ := Db.eventsOf_append (J := J) history hmore
  have hn : n = distinctFlags more domain dest := by omega
  subst hn
  have hdist := Db.eventsOf_recordAll (J := J) hone' domain dest
  have hboth : (Db.recordAll J (history ++ more)).eventsOf domain dest ≤
      (Db.recordAll J (history ++ more)).eventsFrom domain := Db.eventsOf_le_eventsFrom
  have hnow : Dominant fl ((Db.recordAll J (history ++ more)).eventsOf domain dest)
      ((Db.recordAll J (history ++ more)).eventsFrom domain) dominanceThreshold := by
    rw [hfrom, Int.natCast_add]
    exact hdominant.of_le hfl (by omega) (by omega) (by omega) (by omega)
  have hevidence : ((Db.recordAll J (history ++ more)).eventsOf domain dest : Int) =
      distinctFlags history domain dest + distinctFlags more domain dest := by omega
  have hproposed : Proposes fl Q (Db.recordAll J (history ++ more)) minObservations dominanceThreshold domain dest
      ((Db.recordAll J (history ++ more)).eventsOf domain dest) :=
    (proposes_iff hlen).2 ⟨hdomain, by omega, by omega, rfl, hnow⟩
  refine ⟨hevidence ▸ hproposed, fun hhalf dest' evidence hother => by_contra fun hdest => ?_⟩
  -- Two destinations would share the domain's events, and each have more than half of them.
  obtain ⟨-, -, -, rfl, hdom'⟩ := (proposes_iff hlen).1 hother
  have hfirst := hnow.majority hhalf (by omega) (by omega)
  have hother' : (Db.recordAll J (history ++ more)).eventsOf domain dest' ≤
      (Db.recordAll J (history ++ more)).eventsFrom domain := Db.eventsOf_le_eventsFrom
  have hsecond := hdom'.majority hhalf (by omega) (by omega)
  have hshare := Db.eventsOf_add_le (Db.recordAll J (history ++ more)) domain hdest
  omega

/-- Three messages that came later than the first. -/
def laterFlags : List FlagEvent :=
  [fixtureFlag 2 .manualMove "Promotions", fixtureFlag 3 .manualMove "Promotions",
    fixtureFlag 4 .manualMove "Promotions"]

theorem mem_laterFlags {e : FlagEvent} (h : e ∈ laterFlags) :
    ∃ message, message ≠ 1 ∧ e = fixtureFlag message .manualMove "Promotions" := by
  simp only [laterFlags, List.mem_cons, List.not_mem_nil, or_false] at h
  rcases h with rfl | rfl | rfl <;> exact ⟨_, by decide, rfl⟩

/-- A message in the bin, and then three that are kept. -/
theorem later_moves_prevail :
    Proposes .rat .asGrouped (Db.recordAll .compact ([fixtureFlag 1 .manualMove "Trash"] ++ laterFlags)) 3 (7 / 10)
      "@x.com" "Promotions" 3 ∧
    ∀ dest' evidence, Proposes .rat .asGrouped
      (Db.recordAll .compact ([fixtureFlag 1 .manualMove "Trash"] ++ laterFlags)) 3 (7 / 10) "@x.com" dest' evidence →
        dest' = "Promotions" := by
  have hthree : distinctFlags laterFlags "@x.com" "Promotions" = 3 := by decide
  have hone : (Db.recordAll .compact [fixtureFlag 1 .manualMove "Trash"]).eventsFrom "@x.com" = 1 := by decide
  refine (new_habit_prevails FloatOps.rat_monotone .compact .asGrouped [fixtureFlag 1 .manualMove "Trash"] laterFlags
    (by decide) (fixtureFlags_oneDomain fun e he => ?_) 3 (7 / 10) "@x.com" "Promotions" (by decide)
    (fun e he _ => ?_) (fun e he e' he' _ => ?_) (by rw [hthree]; decide) (by rw [hthree]; decide) ?_).imp_right
    fun honly => honly (FloatOps.rat_aboveHalf (by norm_num))
  · rcases List.mem_append.1 he with he | he
    · exact ⟨_, _, _, List.mem_singleton.1 he⟩
    · obtain ⟨message, -, rfl⟩ := mem_laterFlags he
      exact ⟨_, _, _, rfl⟩
  · obtain ⟨message, -, rfl⟩ := mem_laterFlags he
    rfl
  · obtain ⟨message, hne, rfl⟩ := mem_laterFlags he'
    rw [List.mem_singleton.1 he]
    intro hsame
    have hbytes : List.replicate 32 (1 : UInt8) = List.replicate 32 message := congrArg Subtype.val hsame
    have hmem : (1 : UInt8) ∈ List.replicate 32 message := hbytes ▸ List.mem_replicate.2 ⟨by decide, rfl⟩
    exact hne (List.eq_of_mem_replicate hmem).symm
  · rw [hthree, hone]
    refine ⟨by decide, decide_eq_false (not_lt.2 ?_)⟩
    show (7 / 10 : ℚ) ≤ ((3 : Nat) : Int) / (((1 : Nat) : Int) + ((3 : Nat) : Int) : Int)
    norm_num

end Thundercrab
