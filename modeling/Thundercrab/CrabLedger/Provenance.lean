/-
What a stored row can be traced back to. Every row is backed by a submission of the run: its key
signed the suggestion, its hash is the hash of the rule, its nonce did the work, and its text is the
text that was hashed, so what `/v1/suggestions` serves decodes to a rule with the advertised hash.
The row's own columns verify as one signed suggestion as long as no submission that is let through
names a later day than the one stored for its key: such a submission replaces the signature and
leaves the day.
-/
import Thundercrab.CrabLedger.Api

namespace Thundercrab

open Lib Lib.Json

namespace Api

variable {C : Crypto} {J : SerdeJson} {G : Nat → TokenBucket}

/-! ## Backed rows -/

/-- The canonical text of a rule decodes to the rule. -/
theorem fromStr_canonical (J : SerdeJson) (rule : CrabRule) :
    J.fromStr (J.toString (sortValue rule.toValue)) = some (sortValue rule.toValue) ∧
      CrabRule.fromValue (sortValue rule.toValue) = some rule :=
  ⟨J.fromStr_toString _ (wf_sortKeys _ rule.toValue_wf), rule.fromValue_same (same_sortKeys _ rule.toValue_wf)⟩

theorem sortValue_toValue_ne_null (rule : CrabRule) : sortValue rule.toValue ≠ .null := by
  intro h
  cases h

/-- What backs a row: a submission with the row's key whose signature verified, whose rule has the
row's hash and canonical text, and whose nonce did the work. -/
structure BackedBy (C : Crypto) (J : SerdeJson) (row : CorroborationRow) (e : SubmitEnvelope) : Prop where
  key : e.signed.publicKey = row.publicKey
  sig : C.verifySig row.publicKey (Ledger.canonicalJsonBytes J e.signed.suggestion.toValue) e.signed.signature = true
  hash : C.blake3 (Ledger.canonicalJsonBytes J e.signed.suggestion.rule.toValue) = row.patternHash
  work : powDifficultyBits ≤
    leadingZeroBits (C.blake3 (row.patternHash.1 ++ row.publicKey.1 ++ toLeBytes e.powNonce)).1
  text : utf8 row.ruleJson = Ledger.canonicalJsonBytes J e.signed.suggestion.rule.toValue

/-- A row of a run is the row of one accepted submission, up to the signature and the day. -/
theorem backedBy_of_row {state : AppState G} (hempty : state.store = .openInMemory) {reqs : List Request}
    {row : CorroborationRow} (h : row ∈ (serve C J state reqs).store.corroborations.rows) :
    ∃ req ∈ reqs, BackedBy C J row req.envelope := by
  rw [serve_store hempty] at h
  obtain ⟨s, hs, hkey, htext⟩ := Store.text_of_mem h
  obtain ⟨req, hreq, rfl⟩ := List.mem_map.1 hs
  obtain ⟨hmem, hp⟩ := proven_of_accepted hreq
  have hh : req.envelope.signed.suggestion.patternHash = row.patternHash := congrArg Prod.fst hkey
  have hk : req.envelope.signed.publicKey = row.publicKey := congrArg Prod.snd hkey
  refine ⟨req, hmem, hk, ?_, hp.verified.hash.trans hh, ?_, ?_⟩
  · rw [← hk]; exact hp.verified.sig
  · rw [← hh, ← hk]; exact of_decide_eq_true hp.work
  · rw [← htext]; rfl

/-- An entry of the aggregated list carries the hash and the canonical text of one submitted rule. -/
theorem entry_text {state : AppState G} (hempty : state.store = .openInMemory) {reqs : List Request}
    {m : I64} {since : Option I64} {a : AggregatedSuggestion}
    (h : a ∈ (serve C J state reqs).store.listAggregated m since) :
    ∃ rule : CrabRule, a.ruleJson = J.toString (sortValue rule.toValue) ∧
      a.patternHashHex = hexEncode (C.blake3 (Ledger.canonicalJsonBytes J rule.toValue)).1 := by
  rw [serve_store hempty] at h
  obtain ⟨g, hg, rfl⟩ := List.mem_map.1 h
  obtain ⟨s, hs, hh, ht⟩ := (Store.group_isGroup (Store.mem_selected.1 hg).1).2.text
  obtain ⟨req, hreq, rfl⟩ := List.mem_map.1 hs
  refine ⟨req.envelope.signed.suggestion.rule, ht.symm, ?_⟩
  rw [PatternGroup.aggregated_hex, ← hh, (proven_of_accepted hreq).2.verified.hash]
  rfl

/-- The trust root. In every run from an empty store each row is backed by a submission of the run;
a submission answered with an error leaves the store as it was; and every served entry has a rule,
not null, that decodes to a rule whose canonical hash is the advertised one. -/
theorem rows_backed (state : AppState G) (hempty : state.store = .openInMemory) (reqs : List Request) :
    (∀ row ∈ (serve C J state reqs).store.corroborations.rows, ∃ req ∈ reqs, BackedBy C J row req.envelope) ∧
    (∀ pre req, pre ++ [req] <+: reqs → ∀ status error,
      (handleSubmit C J (serve C J state pre) req).1 = .error status error →
        (serve C J state (pre ++ [req])).store = (serve C J state pre).store) ∧
    ∀ storeFault q entries, handleSuggestions J (serve C J state reqs) storeFault q = .ok entries →
      ∀ e ∈ entries, e.rule ≠ .null ∧ ∃ rule, CrabRule.fromValue e.rule = some rule ∧
        e.patternHash = hexEncode (C.blake3 (Ledger.canonicalJsonBytes J rule.toValue)).1 := by
  refine ⟨fun row hrow => backedBy_of_row hempty hrow, fun pre req _ status error herr => ?_,
    fun storeFault q entries hok e he => ?_⟩
  · rw [serve_append]
    show (handleSubmit C J (serve C J state pre) req).2.store = _
    rcases handleSubmit_store C J (serve C J state pre) req with ⟨-, ha, -⟩ | ⟨-, -, hs⟩
    · rw [ha] at herr; cases herr
    · exact hs
  · unfold handleSuggestions at hok
    cases storeFault with
    | true => cases hok
    | false =>
      cases hok
      obtain ⟨a, ha, rfl⟩ := List.mem_map.1 he
      obtain ⟨rule, htext, hhash⟩ := entry_text hempty (List.mem_of_mem_take ha)
      obtain ⟨hparse, hdecode⟩ := fromStr_canonical J rule
      have hrule : (J.fromStr a.ruleJson).getD .null = sortValue rule.toValue := by rw [htext, hparse]; rfl
      simp only [hrule]
      exact ⟨sortValue_toValue_ne_null rule, rule, hdecode, hhash⟩

/-! ## Self-verifying rows -/

/-- The row's signature verifies under its key over the suggestion made of its rule, its hash and
its day. -/
def SelfVerifying (C : Crypto) (J : SerdeJson) (row : CorroborationRow) : Prop :=
  ∃ rule, CrabRule.fromStr J row.ruleJson = some rule ∧
    C.verifySig row.publicKey (Ledger.canonicalJsonBytes J (Suggestion.toValue
      { rule, patternHash := row.patternHash, submittedAtDay := row.submittedDay })) row.signature = true

/-- A submission names a later day than the row stored for its pattern and key. -/
def Postdates (state : AppState G) (req : Request) : Prop :=
  ∃ old ∈ state.store.corroborations.rows, old.key = (rowOf J req.envelope.signed).key ∧
    old.submittedDay < req.envelope.signed.suggestion.submittedAtDay

theorem rowOf_selfVerifying {e : SubmitEnvelope} (hp : Proven C J e) : SelfVerifying C J (rowOf J e.signed) := by
  obtain ⟨hparse, hdecode⟩ := fromStr_canonical J e.signed.suggestion.rule
  refine ⟨e.signed.suggestion.rule, ?_, hp.verified.sig⟩
  show (J.fromStr (J.toString (sortValue e.signed.suggestion.rule.toValue))).bind CrabRule.fromValue = _
  rw [hparse, Option.bind_some]; exact hdecode

/-- An ideal signature: it verifies under a key for one text only. -/
def IdealSignature (C : Crypto) : Prop :=
  ∀ k m m' sig, C.verifySig k m sig = true → C.verifySig k m' sig = true → m = m'

/-- The signature of a submission, stored with a day, makes a self-verifying row only for its own
day. -/
theorem selfVerifying_day (hideal : IdealSignature C) {e : SubmitEnvelope} (hp : Proven C J e)
    (row : CorroborationRow)
    (hkey : row.key = (rowOf J e.signed).key) (hsig : row.signature = e.signed.signature)
    (h : SelfVerifying C J row) : row.submittedDay = e.signed.suggestion.submittedAtDay := by
  obtain ⟨rule, -, hv⟩ := h
  rw [show row.publicKey = e.signed.publicKey from congrArg Prod.snd hkey, hsig] at hv
  have := Ledger.canonical_suggestion_inj (hideal _ _ _ _ hv hp.verified.sig)
  exact congrArg Suggestion.submittedAtDay this

theorem stored_selfVerifying {e : SubmitEnvelope} (hp : Proven C J e) {old : CorroborationRow}
    (hkey : old.key = (rowOf J e.signed).key) (hle : e.signed.suggestion.submittedAtDay ≤ old.submittedDay) :
    SelfVerifying C J (corroborationConflict.merge old (rowOf J e.signed)) := by
  have hmerge : corroborationConflict.merge old (rowOf J e.signed) = rowOf J e.signed := by
    have hmin : min old.submittedDay e.signed.suggestion.submittedAtDay = e.signed.suggestion.submittedAtDay :=
      min_eq_right hle
    unfold corroborationConflict rowOf
    simp only [CorroborationRow.mk.injEq, true_and]
    exact ⟨congrArg Prod.fst hkey, congrArg Prod.snd hkey, hmin⟩
  rw [hmerge]
  exact rowOf_selfVerifying hp

/-- One submission keeps all rows self-verifying exactly when it is not let through with a later day
than the stored one. -/
theorem handleSubmit_selfVerifying (hideal : IdealSignature C) {state : AppState G} {req : Request}
    (h : ∀ row ∈ state.store.corroborations.rows, SelfVerifying C J row) :
    (∀ row ∈ (handleSubmit C J state req).2.store.corroborations.rows, SelfVerifying C J row) ↔
      ¬ (Passes C J state req ∧ Postdates (J := J) state req) := by
  rcases handleSubmit_store C J state req with ⟨hp, -, hs⟩ | ⟨hn, -, hs⟩
  · rw [hs]
    have hmem := Table.mem_upsert corroborationConflict state.store.corroborations (rowOf J req.envelope.signed)
    constructor
    · rintro hall ⟨-, old, hold, hkey, hlt⟩
      have hfind := Table.find?_eq_some.2 ⟨hold, hkey⟩
      -- The row that is stored now has the earlier day beside the new signature.
      have hnew := hall _ ((hmem _).2 (.inr rfl))
      rw [hfind] at hnew
      have hday := selfVerifying_day hideal hp.proven (corroborationConflict.merge old _) hkey rfl hnew
      have hmin : min old.submittedDay req.envelope.signed.suggestion.submittedAtDay = old.submittedDay :=
        min_eq_left hlt.le
      exact absurd (hmin.symm.trans hday) hlt.ne
    · intro hnot row hrow
      rcases (hmem row).1 hrow with ⟨hold, -⟩ | rfl
      · exact h row hold
      · cases hfind : state.store.corroborations.find? (rowOf J req.envelope.signed).key with
        | none => exact rowOf_selfVerifying hp.proven
        | some old =>
          obtain ⟨hold, hkey⟩ := Table.find?_eq_some.1 hfind
          refine stored_selfVerifying hp.proven hkey (not_lt.1 fun hlt => ?_)
          exact hnot ⟨hp, old, hold, hkey, hlt⟩
  · rw [hs]
    exact ⟨fun _ hp => hn hp.1, fun _ => h⟩

/-- In a run from an empty store every row of every reached store is self-verifying exactly when no
submission is let through with a later day than the one stored for its pattern and key. -/
theorem rows_selfVerifying_iff (hideal : IdealSignature C) (state : AppState G)
    (hempty : state.store = .openInMemory) (reqs : List Request) :
    (∀ pre, pre <+: reqs → ∀ row ∈ (serve C J state pre).store.corroborations.rows, SelfVerifying C J row) ↔
      ∀ pre req, pre ++ [req] <+: reqs →
        ¬ (Passes C J (serve C J state pre) req ∧ Postdates (J := J) (serve C J state pre) req) := by
  constructor
  · intro h pre req hpre
    refine (handleSubmit_selfVerifying hideal (h pre ((List.prefix_append ..).trans hpre))).1 ?_
    have := h (pre ++ [req]) hpre
    rwa [serve_append] at this
  · intro h pre
    induction pre using List.reverseRecOn with
    | nil =>
      intro _ row hrow
      rw [show (serve C J state []).store = .openInMemory from hempty] at hrow
      cases hrow
    | append_singleton pre req ih =>
      intro hpre
      rw [serve_append]
      exact (handleSubmit_selfVerifying hideal (ih ((List.prefix_append ..).trans hpre))).2 (h pre req hpre)

theorem sample_ideal : IdealSignature sampleCrypto := by
  have hne : signature20000 ≠ signature20001 := by decide
  intro k m m' sig h h'
  rcases ((sampleCrypto_verifySig k m sig).1 h).2 with ⟨hm, hs⟩ | ⟨hm, hs⟩
  · rcases ((sampleCrypto_verifySig k m' sig).1 h').2 with ⟨hm', -⟩ | ⟨-, hs'⟩
    · exact hm.trans hm'.symm
    · exact absurd (hs.symm.trans hs') hne
  · rcases ((sampleCrypto_verifySig k m' sig).1 h').2 with ⟨-, hs'⟩ | ⟨hm', -⟩
    · exact absurd (hs'.symm.trans hs) hne
    · exact hm.trans hm'.symm

theorem empty_not_postdates {state : AppState G} (hempty : state.store = .openInMemory) (req : Request) :
    ¬ Postdates (J := J) state req := by
  rintro ⟨old, hold, -⟩
  rw [hempty] at hold; cases hold

theorem sample_passes :
    Passes sampleCrypto .compact (AppState.new hourly .openInMemory) (sampleRequest day20000 signature20000 0) :=
  ⟨sample_granted 0, sample_proven _ _ _ (.inl ⟨rfl, rfl⟩), rfl⟩

theorem serve_singleton (state : AppState G) (req : Request) :
    serve C J state [req] = (handleSubmit C J state req).2 := rfl

theorem sampleRow_stored : sampleRow day20000 signature20000 ∈
    (serve sampleCrypto .compact (AppState.new hourly .openInMemory)
      [sampleRequest day20000 signature20000 0]).store.corroborations.rows := by
  rw [serve_singleton, handleSubmit_passes sample_passes]
  exact (Table.mem_upsert corroborationConflict Table.empty _ _).2 (.inr rfl)

theorem rows_selfVerifying_sample : SelfVerifying sampleCrypto .compact (sampleRow day20000 signature20000) := by
  refine (rows_selfVerifying_iff sample_ideal (AppState.new hourly .openInMemory) rfl _).2 ?_ _ (List.prefix_refl _) _
    sampleRow_stored
  rintro pre req hpre ⟨-, hpost⟩
  have hlen := hpre.length_le
  rw [List.length_append, List.length_singleton, List.length_singleton] at hlen
  rw [List.eq_nil_of_length_eq_zero (by omega : pre.length = 0)] at hpost
  exact empty_not_postdates rfl req hpost

theorem rows_backed_sample : ∃ req ∈ [sampleRequest day20000 signature20000 0],
    BackedBy sampleCrypto .compact (sampleRow day20000 signature20000) req.envelope :=
  (rows_backed (AppState.new hourly .openInMemory) rfl _).1 _ sampleRow_stored

theorem serve_pair (state : AppState G) (a b : Request) :
    serve C J state [a, b] = (handleSubmit C J (handleSubmit C J state a).2 b).2 := rfl

/-- An install that submits its pattern again a day later leaves a row with the second signature and
the first day. -/
theorem later_day_not_selfVerifying :
    IdealSignature sampleCrypto ∧
    ¬ ∀ row ∈ (serve sampleCrypto .compact (AppState.new hourly .openInMemory)
        [sampleRequest day20000 signature20000 0, sampleRequest day20001 signature20001 0]).store.corroborations.rows,
      SelfVerifying sampleCrypto .compact row := by
  refine ⟨sample_ideal, fun hall => ?_⟩
  rw [serve_pair] at hall
  have hfirst := handleSubmit_passes sample_passes
  have hself : ∀ row ∈ (handleSubmit sampleCrypto .compact (AppState.new hourly .openInMemory)
      (sampleRequest day20000 signature20000 0)).2.store.corroborations.rows,
      SelfVerifying sampleCrypto .compact row :=
    (handleSubmit_selfVerifying sample_ideal (fun row hrow => (by cases hrow))).2
      fun h => empty_not_postdates rfl _ h.2
  refine (handleSubmit_selfVerifying sample_ideal hself).1 hall ⟨⟨?_, sample_proven _ _ _ (.inr ⟨rfl, rfl⟩), rfl⟩,
    sampleRow day20000 signature20000, ?_, rfl, ?_⟩
  · rw [hfirst]; exact sample_granted_again _
  · rw [hfirst]
    exact (Table.mem_upsert corroborationConflict Table.empty _ _).2 (.inr rfl)
  · show day20000 < day20001
    decide

end Api

end Thundercrab
