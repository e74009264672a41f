/-
What a refused submission costs. The limits are drawn from before the proof of work and the
signature are looked at, so a refused submission leaves the store alone and has drawn its tokens: one
of the global limit and, when it got past the limit of the key it names, one of that key. Two states
that differ by tokens drawn of the global limit and of one key answer every later run in the same way
for as long as these two limits refuse no request in the lower one.
-/
import Thundercrab.CrabLedger.Api

namespace Thundercrab

open Lib Lib.Json

namespace Api

variable {C : Crypto} {J : SerdeJson} {G : Nat → TokenBucket}

/-- The key a request names. -/
def Request.key (r : Request) : Bytes32 := r.envelope.signed.publicKey

/-- The same store, from time `t` on no more tokens in any bucket, and the same buckets of the keys
that none were drawn of. -/
structure AppState.Below (drawn : Option Bytes32) (t : Nat) (a b : AppState G) : Prop where
  store : a.store = b.store
  perKey : ∀ k, (G perPubkeyPerHour).Below t (a.perKey k) (b.perKey k)
  others : ∀ k, some k ≠ drawn → a.perKey k = b.perKey k
  global : (G globalPerHour).Below t a.global b.global

variable {drawn : Option Bytes32}

theorem AppState.Below.mono {t t' : Nat} {a b : AppState G} (h : a.Below drawn t b) (ht : t ≤ t') :
    a.Below drawn t' b :=
  ⟨h.store, fun k => (h.perKey k).mono ht, h.others, h.global.mono ht⟩

theorem drawGlobal_below (state : AppState G) (now : Nat) : (state.drawGlobal now).Below none now state :=
  ⟨rfl, fun _ => .refl now _, fun _ _ => rfl, TokenBucket.below_take _ _⟩

theorem draw_below (state : AppState G) (key : Bytes32) (now : Nat) :
    (state.draw key now).Below (some key) now state := by
  refine ⟨rfl, fun k => ?_, fun k hk => Function.update_of_ne (fun h => hk (congrArg some h)) _ _,
    TokenBucket.below_take _ _⟩
  show (G perPubkeyPerHour).Below now (Function.update state.perKey key _ k) _
  by_cases hk : k = key
  · subst hk
    rw [Function.update_self]
    exact TokenBucket.below_take _ _
  · rw [Function.update_of_ne hk]
    exact .refl now _

/-- What the lower state grants the upper one grants, and drawing from both keeps the comparison. -/
theorem AppState.Below.draw {a b : AppState G} {key : Bytes32} {now : Nat} (h : a.Below drawn now b)
    (hg : Granted a key now) : Granted b key now ∧ (a.draw key now).Below drawn now (b.draw key now) := by
  obtain ⟨hglobal, hdrawn⟩ := h.global.take hg.1
  obtain ⟨hkey, hkeyDrawn⟩ := (h.perKey key).take hg.2
  refine ⟨⟨hglobal, hkey⟩, h.store, fun k => ?_, fun k hne => ?_, hdrawn⟩
  · show (G perPubkeyPerHour).Below now (Function.update a.perKey key _ k) (Function.update b.perKey key _ k)
    by_cases hk : k = key
    · subst hk
      rw [Function.update_self, Function.update_self]
      exact hkeyDrawn
    · rw [Function.update_of_ne hk, Function.update_of_ne hk]
      exact h.perKey k
  · show Function.update a.perKey key _ k = Function.update b.perKey key _ k
    by_cases hk : k = key
    · subst hk
      rw [Function.update_self, Function.update_self, h.others k hne]
    · rw [Function.update_of_ne hk, Function.update_of_ne hk, h.others k hne]

/-- A request that the global limit grants and the limit of its key does not. -/
theorem handleSubmit_keyLimit {state : AppState G} {req : Request}
    (hg : 0 < (G globalPerHour).tokens state.global req.now)
    (hk : (G perPubkeyPerHour).tokens (state.perKey req.key) req.now = 0) :
    handleSubmit C J state req = (.error 429 "per_pubkey_rate_limit", state.drawGlobal req.now) := by
  rcases gates_cases C J state req.envelope req.now with ⟨-, hz, -⟩ | ⟨-, -, hgate⟩ | ⟨hgr, -⟩
  · omega
  · unfold handleSubmit
    rw [hgate]
  · exact absurd hk (Nat.pos_iff_ne_zero.1 hgr.2)

/-- A request that the global limit lets through: refused by the limit of its key, or vetted. -/
theorem handleSubmit_past_global {a : AppState G} {req : Request}
    (hg : (handleSubmit C J a req).1 ≠ .error 429 "global_rate_limit") :
    0 < (G globalPerHour).tokens a.global req.now ∧
    (((G perPubkeyPerHour).tokens (a.perKey req.key) req.now = 0 ∧
        handleSubmit C J a req = (.error 429 "per_pubkey_rate_limit", a.drawGlobal req.now)) ∨
      Granted a req.key req.now) := by
  rcases Nat.eq_zero_or_pos ((G globalPerHour).tokens a.global req.now) with hzero | hpos
  · exfalso
    apply hg
    unfold handleSubmit gates
    rw [TokenBucket.check_eq_none.2 hzero]
  · refine ⟨hpos, ?_⟩
    rcases Nat.eq_zero_or_pos ((G perPubkeyPerHour).tokens (a.perKey req.key) req.now) with hkey | hkey
    · exact .inl ⟨hkey, handleSubmit_keyLimit hpos hkey⟩
    · exact .inr ⟨hpos, hkey⟩

/-- Past both limits the reply and the store depend on the request and the store alone. -/
theorem handleSubmit_granted {state : AppState G} {req : Request}
    (hg : Granted state req.envelope.signed.publicKey req.now) :
    handleSubmit C J state req =
      match vet C J req.envelope with
      | .error (status, error) => (.error status error, state.draw req.envelope.signed.publicKey req.now)
      | .ok row => ((commit state.store req.storeFault row).1,
          { state.draw req.envelope.signed.publicKey req.now with
            store := (commit state.store req.storeFault row).2 }) := by
  unfold handleSubmit
  rcases gates_cases C J state req.envelope req.now with ⟨hn, -, -⟩ | ⟨hn, -, -⟩ | ⟨-, hgate⟩
  · exact absurd hg hn
  · exact absurd hg hn
  · rw [hgate]
    rcases vet C J req.envelope with ⟨status, error⟩ | row <;> rfl

/-- Neither limit that the lower state has fewer tokens of refuses the request: not the global one, nor
the one of the key drawn of. -/
def Unrefused (drawn : Option Bytes32) (req : Request) (reply : SubmitReply) : Prop :=
  reply ≠ .error 429 "global_rate_limit" ∧ (some req.key = drawn → reply ≠ .error 429 "per_pubkey_rate_limit")

/-- Such a submission is answered in the same way by the upper state, and the comparison holds on. -/
theorem handleSubmit_below {a b : AppState G} {req : Request} (h : a.Below drawn req.now b)
    (hlimit : Unrefused drawn req (handleSubmit C J a req).1) :
    (handleSubmit C J a req).1 = (handleSubmit C J b req).1 ∧
      (handleSubmit C J a req).2.Below drawn req.now (handleSubmit C J b req).2 := by
  obtain ⟨hpos, hcases⟩ := handleSubmit_past_global hlimit.1
  rcases hcases with ⟨hzero, hs⟩ | hg
  · -- Only another key can be over its limit, and its bucket is the same in both.
    have hne : some req.key ≠ drawn := fun hd => hlimit.2 hd (congrArg Prod.fst hs)
    obtain ⟨hpos', hglobal⟩ := h.global.take hpos
    rw [hs, handleSubmit_keyLimit hpos' (h.others _ hne ▸ hzero)]
    exact ⟨rfl, h.store, h.perKey, h.others, hglobal⟩
  · obtain ⟨hg', hdraw⟩ := h.draw hg
    rw [handleSubmit_granted hg, handleSubmit_granted hg', h.store]
    rcases vet C J req.envelope with ⟨status, error⟩ | row
    · exact ⟨rfl, hdraw⟩
    · exact ⟨rfl, rfl, hdraw.perKey, hdraw.others, hdraw.global⟩

/-- No request of a run is refused at the global limit, and none at the limit of the key drawn of. -/
def WithinLimits (C : Crypto) (J : SerdeJson) (drawn : Option Bytes32) (state : AppState G)
    (reqs : List Request) : Prop :=
  ∀ x ∈ transcript C J state reqs, Unrefused drawn x.1 x.2

/-- Runs that stay within these limits of the lower state are answered in the same way by the upper
one, and leave the same store. -/
theorem transcript_below : ∀ {reqs : List Request} {t : Nat} {a b : AppState G}, a.Below drawn t b →
    (∀ req ∈ reqs, t ≤ req.now) → reqs.Pairwise (fun r r' => r.now ≤ r'.now) → WithinLimits C J drawn a reqs →
    transcript C J a reqs = transcript C J b reqs ∧ (serve C J a reqs).store = (serve C J b reqs).store
  | [], _, _, _, h, _, _, _ => ⟨rfl, h.store⟩
  | req :: reqs, t, a, b, h, ht, hsorted, hw => by
    obtain ⟨hfirst, hrest⟩ := List.pairwise_cons.1 hsorted
    obtain ⟨hreply, hbelow⟩ := handleSubmit_below (h.mono (ht req (List.mem_cons_self ..)))
      (hw _ (List.mem_cons_self ..))
    obtain ⟨htr, hst⟩ := transcript_below hbelow hfirst hrest fun x hx => hw x (List.mem_cons_of_mem _ hx)
    exact ⟨by rw [transcript, transcript, hreply, htr], hst⟩

/-- What a refused submission leaves behind: nothing when the global limit refused it, one global
token drawn when the limit of its key did, and one token of each when the proof of work or `verify`
failed. -/
theorem refused_state (state : AppState G) (req : Request) :
    ((handleSubmit C J state req).1 = .error 429 "global_rate_limit" → (handleSubmit C J state req).2 = state) ∧
    ((handleSubmit C J state req).1 = .error 429 "per_pubkey_rate_limit" →
      (handleSubmit C J state req).2 = state.drawGlobal req.now) ∧
    ((handleSubmit C J state req).1 = .error 400 "pow_insufficient" ∨
        (handleSubmit C J state req).1 = .error 400 "verification_failed" →
      (handleSubmit C J state req).2 = state.draw req.envelope.signed.publicKey req.now) := by
  rcases gates_cases C J state req.envelope req.now with ⟨-, -, hgate⟩ | ⟨-, -, hgate⟩ | ⟨hg, -⟩
  · have hs : handleSubmit C J state req = (.error 429 "global_rate_limit", state) := by
      unfold handleSubmit; rw [hgate]
    rw [hs]
    exact ⟨fun _ => rfl, fun h => (by simp at h), fun h => (by rcases h with h | h <;> cases h)⟩
  · have hs : handleSubmit C J state req = (.error 429 "per_pubkey_rate_limit", state.drawGlobal req.now) := by
      unfold handleSubmit; rw [hgate]
    rw [hs]
    exact ⟨fun h => (by simp at h), fun _ => rfl, fun h => (by rcases h with h | h <;> cases h)⟩
  · rw [handleSubmit_granted hg]
    rcases hv : vet C J req.envelope with ⟨status, error⟩ | row
    · refine ⟨fun h => ?_, fun h => ?_, fun _ => rfl⟩ <;>
      · injection h with hst
        exact absurd hst (vet_error hv).2
    · unfold commit
      cases req.storeFault with
      | true => exact ⟨fun h => (by cases h), fun h => (by cases h), fun h => (by rcases h with h | h <;> cases h)⟩
      | false => exact ⟨fun h => (by cases h), fun h => (by cases h), fun h => (by rcases h with h | h <;> cases h)⟩

/-- The key whose limit a refused submission has drawn a token of: none when that limit refused it. -/
def drawnKey (q : Request) (reply : SubmitReply) : Option Bytes32 :=
  if reply = .error 429 "per_pubkey_rate_limit" then none else some q.key

/-- A refused submission in a run. Its store stays as it was, its tokens are drawn as
`refused_state` says and nothing else is touched; and every later run of requests, at times that do
not go back, is answered in the same way and leaves the same store as if it had never been sent, as
long as neither the global limit nor the limit of the key it has drawn of refuses a request of that
run. Other keys may run over their own limits meanwhile. -/
theorem refused_leaves_rest (state : AppState G) (q : Request)
    (hq : (handleSubmit C J state q).1 = .error 400 "pow_insufficient" ∨
      (handleSubmit C J state q).1 = .error 400 "verification_failed" ∨
      (handleSubmit C J state q).1 = .error 429 "per_pubkey_rate_limit") :
    (handleSubmit C J state q).2 =
        (if (handleSubmit C J state q).1 = .error 429 "per_pubkey_rate_limit" then state.drawGlobal q.now
          else state.draw q.envelope.signed.publicKey q.now) ∧
      ∀ reqs : List Request, (q :: reqs).Pairwise (fun r r' => r.now ≤ r'.now) →
        WithinLimits C J (drawnKey q (handleSubmit C J state q).1) (handleSubmit C J state q).2 reqs →
          transcript C J (handleSubmit C J state q).2 reqs = transcript C J state reqs ∧
            (serve C J (handleSubmit C J state q).2 reqs).store = (serve C J state reqs).store := by
  obtain ⟨-, hkey, hvet⟩ := refused_state (C := C) (J := J) state q
  have hbelow : ∀ {after : AppState G} {drawn : Option Bytes32}, after.Below drawn q.now state →
      ∀ reqs : List Request, (q :: reqs).Pairwise (fun r r' => r.now ≤ r'.now) →
        WithinLimits C J drawn after reqs →
          transcript C J after reqs = transcript C J state reqs ∧
            (serve C J after reqs).store = (serve C J state reqs).store := by
    intro after drawn hb reqs hsorted hw
    obtain ⟨hfirst, hrest⟩ := List.pairwise_cons.1 hsorted
    exact transcript_below hb hfirst hrest hw
  rcases hq with hr | hr | hr
  · rw [hvet (.inl hr), hr]
    exact ⟨rfl, hbelow (draw_below ..)⟩
  · rw [hvet (.inr hr), hr]
    exact ⟨rfl, hbelow (draw_below ..)⟩
  · rw [hkey hr, hr]
    exact ⟨rfl, hbelow (drawGlobal_below ..)⟩

/-! ## A key whose last token is drawn by somebody else -/

/-- A submission that names the install's key and hash, with no work done and no signature. -/
def junkRequest : Request :=
  { envelope :=
      { signed :=
          { suggestion := sampleSuggestion day20000
            publicKey := sampleKey
            signature := ⟨List.replicate 64 0, rfl⟩ }
        powNonce := 0 }
    now := 0
    storeFault := false }

/-- The service when every key has drawn 59 tokens at time 0: one token is left for each. -/
def oneTokenLeft : AppState hourly :=
  { AppState.new hourly .openInMemory with perKey := fun _ => (3540000000000 : Nat) }

theorem junk_vet : vet sampleCrypto .compact junkRequest.envelope = .error (400, "pow_insufficient") := by
  have hne : sampleHash.1 ++ (sampleKey.1 ++ toLeBytes 0) ≠ sampleHash.1 ++ sampleKey.1 ++ toLeBytes 25433 := by
    decide
  have hwork : verifyPow sampleCrypto sampleHash sampleKey 0 powDifficultyBits = false := by
    unfold verifyPow
    rw [sampleCrypto_blake3, List.append_assoc, if_neg (sampleHash_append_ne _), if_neg hne]
    decide
  exact vet_no_work hwork

theorem oneTokenLeft_granted : Granted oneTokenLeft sampleKey 0 := by
  constructor
  · show 0 < gcraTokens (3600000000000 / 600) 600 0 0
    decide
  · show 0 < gcraTokens (3600000000000 / 60) 60 3540000000000 0
    decide

theorem handle_junk {state : AppState hourly} (hg : Granted state sampleKey 0) :
    handleSubmit sampleCrypto .compact state junkRequest =
      (.error 400 "pow_insufficient", state.draw sampleKey 0) := by
  have hg : Granted state junkRequest.envelope.signed.publicKey junkRequest.now := hg
  rw [handleSubmit_granted hg, junk_vet]
  rfl

/-- The public key of another install. -/
def strangerKey : Bytes32 := ⟨List.replicate 32 1, rfl⟩

/-- A submission that names it. -/
def strangerRequest : Request :=
  { envelope :=
      { signed :=
          { suggestion := sampleSuggestion day20001
            publicKey := strangerKey
            signature := signature20001 }
        powNonce := 0 }
    now := 0
    storeFault := false }

/-- The service when that install has no token left at time 0. -/
def strangerSpent : AppState hourly :=
  { AppState.new hourly .openInMemory with
    perKey := fun k => if k = strangerKey then (3600000000000 : Nat) else (0 : Nat) }

theorem sampleKey_ne : sampleKey ≠ strangerKey := by decide

theorem strangerSpent_sampleKey : strangerSpent.perKey sampleKey = (0 : Nat) := by
  show (if sampleKey = strangerKey then (3600000000000 : Nat) else 0) = 0
  rw [if_neg sampleKey_ne]

theorem strangerSpent_draw : (strangerSpent.draw sampleKey 0).perKey strangerKey = (3600000000000 : Nat) := by
  have hother := Function.update_of_ne sampleKey_ne.symm
    ((hourly perPubkeyPerHour).take (strangerSpent.perKey sampleKey) 0) strangerSpent.perKey
  refine hother.trans ?_
  show (if strangerKey = strangerKey then (3600000000000 : Nat) else 0) = 3600000000000
  rw [if_pos rfl]

/-- Before its submission the install's key is named without its signature, and the other install
keeps sending over its own limit. -/
theorem refused_leaves_rest_junk :
    transcript sampleCrypto .compact (handleSubmit sampleCrypto .compact strangerSpent junkRequest).2
        [strangerRequest, sampleRequest day20000 signature20000 0] =
      transcript sampleCrypto .compact strangerSpent
        [strangerRequest, sampleRequest day20000 signature20000 0] := by
  have hspent : Granted strangerSpent sampleKey 0 :=
    ⟨(sample_granted 0).1, by rw [strangerSpent_sampleKey]; exact (sample_granted 0).2⟩
  have hjunk := handle_junk hspent
  have hstranger : handleSubmit sampleCrypto .compact (strangerSpent.draw sampleKey 0) strangerRequest =
      (.error 429 "per_pubkey_rate_limit", (strangerSpent.draw sampleKey 0).drawGlobal 0) := by
    refine handleSubmit_keyLimit ?_ ?_
    · show 0 < gcraTokens (3600000000000 / 600) 600 (max 0 0 + 3600000000000 / 600) 0
      decide
    · show (hourly perPubkeyPerHour).tokens ((strangerSpent.draw sampleKey 0).perKey strangerKey) 0 = 0
      rw [strangerSpent_draw]
      show gcraTokens (3600000000000 / 60) 60 3600000000000 0 = 0
      decide
  have hp : Passes sampleCrypto .compact ((strangerSpent.draw sampleKey 0).drawGlobal 0)
      (sampleRequest day20000 signature20000 0) := by
    refine ⟨⟨?_, ?_⟩, sample_proven _ _ _ (.inl ⟨rfl, rfl⟩), rfl⟩
    · show 0 < gcraTokens (3600000000000 / 600) 600
        (max (max 0 0 + 3600000000000 / 600) 0 + 3600000000000 / 600) 0
      decide
    · show 0 < (hourly perPubkeyPerHour).tokens ((strangerSpent.draw sampleKey 0).perKey sampleKey) 0
      unfold AppState.draw
      simp only [Function.update_self, strangerSpent_sampleKey]
      show 0 < gcraTokens (3600000000000 / 60) 60 (max 0 0 + 3600000000000 / 60) 0
      decide
  refine ((refused_leaves_rest strangerSpent junkRequest (.inl (congrArg Prod.fst hjunk))).2
    [strangerRequest, sampleRequest day20000 signature20000 0] ?_ ?_).1
  · refine List.pairwise_cons.2 ⟨fun r _ => Nat.zero_le _, List.pairwise_pair.2 (Nat.le_refl 0)⟩
  · rw [hjunk]
    intro x hx
    rw [transcript, hstranger, transcript, handleSubmit_passes hp, transcript, List.mem_cons,
      List.mem_singleton] at hx
    rcases hx with rfl | rfl
    · exact ⟨by simp, fun h => absurd h (by decide)⟩
    · exact ⟨by simp, by simp⟩

/-- A request that names the install's key, without its signature or any work, is refused for its
proof of work and draws the key's last token: the install's own submission, accepted without it, is
refused after it. -/
theorem junk_uses_up_quota :
    (handleSubmit sampleCrypto .compact oneTokenLeft junkRequest).1 = .error 400 "pow_insufficient" ∧
    (handleSubmit sampleCrypto .compact oneTokenLeft (sampleRequest day20000 signature20000 0)).1 = .accepted true ∧
    (handleSubmit sampleCrypto .compact (handleSubmit sampleCrypto .compact oneTokenLeft junkRequest).2
      (sampleRequest day20000 signature20000 0)).1 = .error 429 "per_pubkey_rate_limit" := by
  rw [handle_junk oneTokenLeft_granted]
  refine ⟨rfl, ?_, congrArg Prod.fst (handleSubmit_keyLimit ?_ ?_)⟩
  · have hp : Passes sampleCrypto .compact oneTokenLeft (sampleRequest day20000 signature20000 0) :=
      ⟨oneTokenLeft_granted, sample_proven _ _ _ (.inl ⟨rfl, rfl⟩), rfl⟩
    rw [handleSubmit_passes hp]
    rfl
  · show 0 < gcraTokens (3600000000000 / 600) 600 (max 0 0 + 3600000000000 / 600) 0
    decide
  · show (TokenBucket.gcra (3600000000000 / 60) 60).tokens ((oneTokenLeft.draw sampleKey 0).perKey sampleKey) 0 = 0
    unfold AppState.draw
    simp only [Function.update_self]
    show gcraTokens (3600000000000 / 60) 60 (max 3540000000000 0 + 3600000000000 / 60) 0 = 0
    decide

end Api

end Thundercrab
