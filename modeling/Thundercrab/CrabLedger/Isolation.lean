/-
What one install sees of the others. The limit of a key is drawn from by requests that name the key
alone, and a response reports on the row of the key alone; the global limit is all that the requests
share. As long as it refuses none, the answers to the requests of a key and the rows stored for it
are those of a run in which nobody else sends anything.
-/
import Thundercrab.CrabLedger.Quotas

namespace Thundercrab

open Lib Lib.Json

namespace Api

variable {C : Crypto} {J : SerdeJson} {G : Nat → TokenBucket}

/-- The requests of a run that name a key. -/
def naming (k : Bytes32) (reqs : List Request) : List Request := reqs.filter fun r => r.key = k

/-- No request of a run is refused at the global limit. -/
def WithinGlobal (C : Crypto) (J : SerdeJson) (state : AppState G) (reqs : List Request) : Prop :=
  ∀ x ∈ transcript C J state reqs, x.2 ≠ .error 429 "global_rate_limit"

/-- For the requests of a key the states are alike: its bucket and its rows are the same, and the upper
one has a global token whenever the lower one has. -/
structure AppState.AlikeFor (k : Bytes32) (t : Nat) (a b : AppState G) : Prop where
  perKey : a.perKey k = b.perKey k
  global : (G globalPerHour).Below t a.global b.global
  rows : ∀ h, a.store.corroborations.find? (h, k) = b.store.corroborations.find? (h, k)

variable {k : Bytes32} {t : Nat} {a b : AppState G} {req : Request}

theorem AppState.AlikeFor.mono {t' : Nat} (h : a.AlikeFor k t b) (ht : t ≤ t') : a.AlikeFor k t' b :=
  ⟨h.perKey, h.global.mono ht, h.rows⟩

theorem AppState.AlikeFor.refl (k : Bytes32) (t : Nat) (a : AppState G) : a.AlikeFor k t a :=
  ⟨rfl, .refl _ _, fun _ => rfl⟩

/-- A request of another key leaves the bucket and the rows of the key alone. -/
theorem AppState.AlikeFor.other (h : a.AlikeFor k req.now b) (hne : req.key ≠ k)
    (hg : (handleSubmit C J a req).1 ≠ .error 429 "global_rate_limit") :
    (handleSubmit C J a req).2.AlikeFor k req.now b := by
  obtain ⟨hpos, hcases⟩ := handleSubmit_past_global hg
  have hbelow : (G globalPerHour).Below req.now ((G globalPerHour).take a.global req.now) b.global :=
    fun t' ht => Nat.le_trans (TokenBucket.below_take a.global req.now t' ht) (h.global t' ht)
  rcases hcases with ⟨-, hs⟩ | hgr
  · rw [hs]
    exact ⟨h.perKey, hbelow, h.rows⟩
  · have hkey : (a.draw req.key req.now).perKey k = a.perKey k := Function.update_of_ne (Ne.symm hne) _ _
    have hgr : Granted a req.envelope.signed.publicKey req.now := hgr
    rw [handleSubmit_granted hgr]
    rcases hv : vet C J req.envelope with ⟨status, error⟩ | row
    · exact ⟨hkey.trans h.perKey, hbelow, h.rows⟩
    · obtain ⟨-, rfl⟩ := vet_ok.1 hv
      refine ⟨hkey.trans h.perKey, hbelow, fun hash => ?_⟩
      rw [← h.rows hash]
      unfold commit
      cases req.storeFault with
      | true => rfl
      | false =>
        show (a.store.corroborations.upsert corroborationConflict _).find? (hash, k) = _
        rw [Table.find?_upsert, if_neg fun he => hne (congrArg Prod.snd he).symm]

/-- A request of the key is answered alike, and leaves the states alike. -/
theorem AppState.AlikeFor.own (h : a.AlikeFor req.key req.now b)
    (hg : (handleSubmit C J a req).1 ≠ .error 429 "global_rate_limit") :
    (handleSubmit C J a req).1 = (handleSubmit C J b req).1 ∧
      (handleSubmit C J a req).2.AlikeFor req.key req.now (handleSubmit C J b req).2 := by
  obtain ⟨hpos, hcases⟩ := handleSubmit_past_global hg
  obtain ⟨hpos', hbelow⟩ := h.global.take hpos
  rcases hcases with ⟨hzero, hs⟩ | hgr
  · have hzero' : (G perPubkeyPerHour).tokens (b.perKey req.key) req.now = 0 := h.perKey ▸ hzero
    rw [hs, handleSubmit_keyLimit hpos' hzero']
    exact ⟨rfl, h.perKey, hbelow, h.rows⟩
  · have hgr : Granted a req.envelope.signed.publicKey req.now := hgr
    have hgr' : Granted b req.envelope.signed.publicKey req.now := ⟨hpos', h.perKey ▸ hgr.2⟩
    have hkey : (a.draw req.key req.now).perKey req.key = (b.draw req.key req.now).perKey req.key := by
      simp only [AppState.draw, Function.update_self, h.perKey]
    rw [handleSubmit_granted hgr, handleSubmit_granted hgr']
    rcases hv : vet C J req.envelope with ⟨status, error⟩ | row
    · exact ⟨rfl, hkey, hbelow, h.rows⟩
    · obtain ⟨-, rfl⟩ := vet_ok.1 hv
      have hrow : a.store.corroborations.find? (rowOf J req.envelope.signed).key =
          b.store.corroborations.find? (rowOf J req.envelope.signed).key := h.rows _
      unfold commit
      cases req.storeFault with
      | true => exact ⟨rfl, hkey, hbelow, h.rows⟩
      | false =>
        refine ⟨?_, hkey, hbelow, fun hash => ?_⟩
        · show SubmitReply.accepted (!(a.store.corroborations.find? _).isSome) =
            .accepted (!(b.store.corroborations.find? _).isSome)
          rw [hrow]
        · show (a.store.corroborations.upsert corroborationConflict _).find? (hash, req.key) =
            (b.store.corroborations.upsert corroborationConflict _).find? (hash, req.key)
          rw [Table.find?_upsert, Table.find?_upsert, hrow, h.rows hash]

/-! ## Runs -/

theorem AppState.AlikeFor.run (C : Crypto) (J : SerdeJson) (k : Bytes32) : ∀ {reqs : List Request} {t : Nat}
    {a b : AppState G}, a.AlikeFor k t b → (∀ req ∈ reqs, t ≤ req.now) →
    reqs.Pairwise (fun r r' => r.now ≤ r'.now) → WithinGlobal C J a reqs →
    ((transcript C J a reqs).filter fun x => x.1.key = k) = transcript C J b (naming k reqs) ∧
      ∀ h, (serve C J a reqs).store.corroborations.find? (h, k) =
        (serve C J b (naming k reqs)).store.corroborations.find? (h, k)
  | [], _, _, _, h, _, _, _ => ⟨rfl, h.rows⟩
  | req :: reqs, t, a, b, h, ht, hsorted, hw => by
    obtain ⟨hfirst, hrest⟩ := List.pairwise_cons.1 hsorted
    have h := h.mono (ht req (List.mem_cons_self ..))
    have hg := hw _ (List.mem_cons_self ..)
    have hw := fun x hx => hw x (List.mem_cons_of_mem _ hx)
    unfold naming
    rw [transcript, List.filter_cons, List.filter_cons]
    by_cases hk : req.key = k
    · subst hk
      obtain ⟨hreply, hafter⟩ := h.own hg
      obtain ⟨htr, hst⟩ := hafter.run C J req.key hfirst hrest hw
      simp only [decide_true, if_true]
      exact ⟨by rw [transcript, hreply, htr]; rfl, hst⟩
    · obtain ⟨htr, hst⟩ := (h.other hk hg).run C J k hfirst hrest hw
      simp only [hk, decide_false, Bool.false_eq_true, if_false]
      exact ⟨htr, hst⟩

/-- In every run in which the global limit refuses no request, at times that do not go back, the
requests of a key are answered, and its rows are stored, as if nobody else had sent any. -/
theorem keys_isolated (state : AppState G) (k : Bytes32) (reqs : List Request)
    (hsorted : reqs.Pairwise (fun r r' => r.now ≤ r'.now)) (hglobal : WithinGlobal C J state reqs) :
    ((transcript C J state reqs).filter fun x => x.1.key = k) = transcript C J state (naming k reqs) ∧
      ∀ h, (serve C J state reqs).store.corroborations.find? (h, k) =
        (serve C J state (naming k reqs)).store.corroborations.find? (h, k) :=
  (AppState.AlikeFor.refl k 0 state).run C J k (fun _ _ => Nat.zero_le _) hsorted hglobal

/-- A request that both limits grant is not answered with a refusal at either. -/
theorem granted_reply_ne (hgr : Granted a req.envelope.signed.publicKey req.now) (error : String) :
    (handleSubmit C J a req).1 ≠ .error 429 error := by
  rw [handleSubmit_granted hgr]
  intro he
  rcases hv : vet C J req.envelope with ⟨status, error'⟩ | row
  · rw [hv] at he
    injection he with hstatus
    exact (vet_error hv).2 hstatus
  · rw [hv] at he
    unfold commit at he
    cases hf : req.storeFault <;> simp [hf] at he

theorem handleSubmit_global (hgr : Granted a req.envelope.signed.publicKey req.now) :
    (handleSubmit C J a req).2.global = (G globalPerHour).take a.global req.now := by
  rw [handleSubmit_granted hgr]
  rcases vet C J req.envelope with ⟨status, error⟩ | row <;> rfl

theorem withinGlobal_pair (a : AppState G) (req req' : Request) (h : Granted a req.envelope.signed.publicKey req.now)
    (h' : Granted (handleSubmit C J a req).2 req'.envelope.signed.publicKey req'.now) :
    WithinGlobal C J a [req, req'] := by
  intro x hx
  rw [transcript, transcript, transcript, List.mem_cons, List.mem_singleton] at hx
  rcases hx with rfl | rfl
  · exact granted_reply_ne h _
  · exact granted_reply_ne h' _

theorem keys_isolated_sample :
    (((transcript sampleCrypto .compact (AppState.new hourly .openInMemory)
        [strangerRequest, sampleRequest day20000 signature20000 0]).filter fun x => x.1.key = sampleKey) =
      transcript sampleCrypto .compact (AppState.new hourly .openInMemory)
        [sampleRequest day20000 signature20000 0]) := by
  have hstranger : Granted (AppState.new hourly .openInMemory) strangerRequest.envelope.signed.publicKey
      strangerRequest.now := sample_granted 0
  have hreply := granted_reply_ne (C := sampleCrypto) (J := .compact) hstranger "global_rate_limit"
  have halike := (AppState.AlikeFor.refl sampleKey 0 (AppState.new hourly .openInMemory)).other
    (C := sampleCrypto) (J := .compact) (by decide) hreply
  have hgranted : Granted (handleSubmit sampleCrypto .compact (AppState.new hourly .openInMemory) strangerRequest).2
      sampleKey 0 := by
    constructor
    · rw [handleSubmit_global hstranger]
      show 0 < gcraTokens (3600000000000 / 600) 600 (max 0 0 + 3600000000000 / 600) 0
      decide
    · rw [halike.perKey]
      exact (sample_granted 0).2
  exact (keys_isolated (AppState.new hourly .openInMemory) sampleKey
    [strangerRequest, sampleRequest day20000 signature20000 0] (List.pairwise_pair.2 (Nat.le_refl 0))
    (withinGlobal_pair _ _ _ hstranger hgranted)).1

end Api

end Thundercrab
