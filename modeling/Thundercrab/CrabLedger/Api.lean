/-
`api.rs`: the handlers of the ledger. A submission passes the global limit, the limit of the key it
names, the proof of work and `verify`, in this order, before its row is upserted. A run handles one
request after another; its history is the rows of the accepted ones, and the store after a run is
the store of that history.
-/
import Thundercrab.CrabLedger.History
import Thundercrab.Lib.TokenBucket

namespace Thundercrab

open Lib Lib.Json

namespace Api

/-- Per-pubkey submission ceiling. -/
def perPubkeyPerHour : Nat := 60

/-- Global submission ceiling. -/
def globalPerHour : Nat := 600

/-- Proof-of-work difficulty: required leading zero bits. -/
def powDifficultyBits : Nat := 16

/-- `u8::leading_zeros` of a nonzero octet -/
def leadingZeros (b : UInt8) : Nat := 7 - Nat.log2 b.toNat

/-- Count leading zero bits in a digest. -/
def leadingZeroBits : Bytes → Nat
  | [] => 0
  | b :: bytes => if b = 0 then 8 + leadingZeroBits bytes else leadingZeros b

/-- `u64::to_le_bytes` -/
def toLeBytes (n : UInt64) : Bytes := (List.range 8).map fun i => UInt8.ofNat (n.toNat / 256 ^ i)

/-- Verify that `pattern_hash || pubkey || nonce_le_bytes` hashes to a digest with the required
leading zero bits. -/
def verifyPow (C : Crypto) (patternHash publicKey : Bytes32) (powNonce : UInt64) (difficultyBits : Nat) : Bool :=
  difficultyBits ≤ leadingZeroBits (C.blake3 (patternHash.1 ++ publicKey.1 ++ toLeBytes powNonce)).1

def sortValue {N : Type} (v : Value N) : Value N := v.sortKeys

/-- Canonicalize a rule (sorted keys) before storing. -/
def canonicalRuleJson (J : SerdeJson) (rule : CrabRule) : Option String := some (J.toString (sortValue rule.toValue))

/-- Shared service state, over limiters that grant a number of checks per hour. -/
structure AppState (G : Nat → TokenBucket) where
  store : Store
  perKey : Bytes32 → (G perPubkeyPerHour).State
  global : (G globalPerHour).State

/-- Build a state with default rate-limit ceilings. -/
def AppState.new (G : Nat → TokenBucket) (store : Store) : AppState G :=
  { store, perKey := fun _ => (G perPubkeyPerHour).full, global := (G globalPerHour).full }

/-- Wire envelope for `/v1/submit`. -/
structure SubmitEnvelope where
  signed : SignedSuggestion
  powNonce : UInt64

/-- An envelope with the time it is handled at and whether SQLite fails on its upsert. -/
structure Request where
  envelope : SubmitEnvelope
  now : Nat
  storeFault : Bool

/-- The response of `/v1/submit`. -/
inductive SubmitReply where
  | error (status : Nat) (error : String)
  | accepted (newCorroborator : Bool)
  deriving DecidableEq

def SubmitReply.isAccepted : SubmitReply → Bool
  | .accepted _ => true
  | .error _ _ => false

/-- The gates after the rate limits, and the row to store. -/
def vet (C : Crypto) (J : SerdeJson) (envelope : SubmitEnvelope) : Except (Nat × String) CorroborationRow :=
  let signed := envelope.signed
  if !verifyPow C signed.suggestion.patternHash signed.publicKey envelope.powNonce powDifficultyBits then
    .error (400, "pow_insufficient")
  else
    match Ledger.verify C J signed with
    | .error _ => .error (400, "verification_failed")
    | .ok suggestion =>
      match canonicalRuleJson J suggestion.rule with
      | none => .error (500, "encode_failure")
      | some ruleJson =>
        .ok { patternHash := suggestion.patternHash
              publicKey := signed.publicKey
              signature := signed.signature
              ruleJson
              submittedDay := suggestion.submittedAtDay }

/-- `handle_submit` up to the store lock. -/
def gates (C : Crypto) (J : SerdeJson) {G : Nat → TokenBucket} (state : AppState G) (envelope : SubmitEnvelope)
    (now : Nat) : Except (Nat × String) CorroborationRow × AppState G :=
  -- global ceiling first
  match (G globalPerHour).check state.global now with
  | none => (.error (429, "global_rate_limit"), state)
  | some global =>
    let key := envelope.signed.publicKey
    match (G perPubkeyPerHour).check (state.perKey key) now with
    | none => (.error (429, "per_pubkey_rate_limit"), { state with global })
    | some bucket =>
      (vet C J envelope, { state with perKey := Function.update state.perKey key bucket, global })

/-- `handle_submit` under the store lock. -/
def commit (store : Store) (storeFault : Bool) (row : CorroborationRow) : SubmitReply × Store :=
  -- the statement that fails leaves the table as it was
  if storeFault then (.error 500 "store_failure", store)
  else
    let (newCorroborator, store) := store.upsert row
    (.accepted newCorroborator, store)

def handleSubmit (C : Crypto) (J : SerdeJson) {G : Nat → TokenBucket} (state : AppState G) (req : Request) :
    SubmitReply × AppState G :=
  match gates C J state req.envelope req.now with
  | (.error (status, error), state) => (.error status error, state)
  | (.ok row, state) =>
    let (reply, store) := commit state.store req.storeFault row
    (reply, { state with store })

/-! ## Reading -/

/-- The query of `/v1/suggestions` with its defaults. -/
structure SuggestionsQuery where
  minCorroborators : I64 := ⟨1, by decide⟩
  sinceDay : Option I64 := none
  limit : Nat := 1000

structure SuggestionEntry where
  patternHash : String
  rule : Value
  corroborators : Nat
  firstSeenDay : I64

/-- The response of `/v1/suggestions`; `storeFault` when SQLite fails on the query. -/
def handleSuggestions (J : SerdeJson) {G : Nat → TokenBucket} (state : AppState G) (storeFault : Bool)
    (q : SuggestionsQuery) : Except (Nat × String) (List SuggestionEntry) :=
  let limit := min q.limit 1000
  if storeFault then .error (500, "store_failure")
  else
    .ok (((state.store.listAggregated q.minCorroborators q.sinceDay).take limit).map fun a =>
      { patternHash := a.patternHashHex
        rule := (J.fromStr a.ruleJson).getD .null
        corroborators := a.corroborators
        firstSeenDay := a.firstSeenDay })

structure HealthResponse where
  ok : Bool
  totalUniquePatterns : Nat

def handleHealth {G : Nat → TokenBucket} (state : AppState G) (storeFault : Bool) : HealthResponse :=
  { ok := true, totalUniquePatterns := if storeFault then 0 else state.store.totalUniquePatterns }

/-! ## What one submission does -/

variable {C : Crypto} {J : SerdeJson} {G : Nat → TokenBucket}

/-- The row of a submission. -/
def rowOf (J : SerdeJson) (signed : SignedSuggestion) : CorroborationRow :=
  { patternHash := signed.suggestion.patternHash
    publicKey := signed.publicKey
    signature := signed.signature
    ruleJson := J.toString (sortValue signed.suggestion.rule.toValue)
    submittedDay := signed.suggestion.submittedAtDay }

/-- The proof of work and `verify` both pass. -/
structure Proven (C : Crypto) (J : SerdeJson) (e : SubmitEnvelope) : Prop where
  work : verifyPow C e.signed.suggestion.patternHash e.signed.publicKey e.powNonce powDifficultyBits = true
  verified : Ledger.Verified C J e.signed

theorem vet_ok {e : SubmitEnvelope} {row : CorroborationRow} :
    vet C J e = .ok row ↔ Proven C J e ∧ row = rowOf J e.signed := by
  unfold vet
  constructor
  · intro h
    simp only at h
    split at h
    · cases h
    · rename_i hp
      split at h
      · cases h
      · rename_i hv
        obtain ⟨rfl, hver⟩ := Ledger.verify_ok.1 hv
        cases h
        exact ⟨⟨by simpa using hp, hver⟩, rfl⟩
  · rintro ⟨⟨hp, hv⟩, rfl⟩
    simp only [hp, Ledger.verify_ok.2 ⟨rfl, hv⟩]
    rfl

theorem vet_no_work {e : SubmitEnvelope} (h : verifyPow C e.signed.suggestion.patternHash e.signed.publicKey
    e.powNonce powDifficultyBits = false) : vet C J e = .error (400, "pow_insufficient") := by
  unfold vet
  simp [h]

/-- A submission refused past the limits is not answered as over a limit. -/
theorem vet_error {e : SubmitEnvelope} {status : Nat} {error : String} (h : vet C J e = .error (status, error)) :
    ¬ Proven C J e ∧ status ≠ 429 := by
  constructor
  · intro hp
    rw [vet_ok.2 ⟨hp, rfl⟩] at h; cases h
  · unfold vet at h
    simp only at h
    split at h
    · cases h; decide
    · split at h
      · cases h; decide
      · cases h

/-- The tokens are there: the global limit and the limit of the named key grant a check. -/
def Granted (state : AppState G) (key : Bytes32) (now : Nat) : Prop :=
  0 < (G globalPerHour).tokens state.global now ∧ 0 < (G perPubkeyPerHour).tokens (state.perKey key) now

/-- The state with one token drawn from the global bucket and one from the bucket of a key. -/
def AppState.draw (state : AppState G) (key : Bytes32) (now : Nat) : AppState G :=
  { state with
    perKey := Function.update state.perKey key ((G perPubkeyPerHour).take (state.perKey key) now)
    global := (G globalPerHour).take state.global now }

/-- The state with one token drawn from the global bucket alone. -/
def AppState.drawGlobal (state : AppState G) (now : Nat) : AppState G :=
  { state with global := (G globalPerHour).take state.global now }

/-- The three ways through the gates: stopped at the global limit, stopped at the limit of the key,
or vetted with both tokens drawn. -/
theorem gates_cases (C : Crypto) (J : SerdeJson) (state : AppState G) (e : SubmitEnvelope) (now : Nat) :
    (¬ Granted state e.signed.publicKey now ∧ (G globalPerHour).tokens state.global now = 0 ∧
      gates C J state e now = (.error (429, "global_rate_limit"), state)) ∨
    (¬ Granted state e.signed.publicKey now ∧ (G perPubkeyPerHour).tokens (state.perKey e.signed.publicKey) now = 0 ∧
      gates C J state e now = (.error (429, "per_pubkey_rate_limit"), state.drawGlobal now)) ∨
    (Granted state e.signed.publicKey now ∧
      gates C J state e now = (vet C J e, state.draw e.signed.publicKey now)) := by
  unfold gates Granted
  rcases Nat.eq_zero_or_pos ((G globalPerHour).tokens state.global now) with hg | hg
  · rw [TokenBucket.check_eq_none.2 hg]
    exact .inl ⟨by omega, hg, rfl⟩
  · rw [TokenBucket.check_eq_some.2 ⟨hg, rfl⟩]
    simp only
    rcases Nat.eq_zero_or_pos ((G perPubkeyPerHour).tokens (state.perKey e.signed.publicKey) now) with hk | hk
    · rw [TokenBucket.check_eq_none.2 hk]
      exact .inr (.inl ⟨by omega, hk, rfl⟩)
    · rw [TokenBucket.check_eq_some.2 ⟨hk, rfl⟩]
      exact .inr (.inr ⟨⟨hg, hk⟩, rfl⟩)

/-- No gate touches the store. -/
theorem gates_store (C : Crypto) (J : SerdeJson) (state : AppState G) (e : SubmitEnvelope) (now : Nat) :
    (gates C J state e now).2.store = state.store := by
  rcases gates_cases C J state e now with ⟨-, -, h⟩ | ⟨-, -, h⟩ | ⟨-, h⟩ <;> rw [h] <;> rfl

/-- What passes the gates has its tokens and is proven, and goes on with its row. -/
theorem gates_ok {state : AppState G} {e : SubmitEnvelope} {now : Nat} {row : CorroborationRow} :
    (gates C J state e now).1 = .ok row ↔
      Granted state e.signed.publicKey now ∧ Proven C J e ∧ row = rowOf J e.signed := by
  rcases gates_cases C J state e now with ⟨hn, -, h⟩ | ⟨hn, -, h⟩ | ⟨hg, h⟩
  · rw [h]; exact ⟨fun he => (by cases he), fun he => absurd he.1 hn⟩
  · rw [h]; exact ⟨fun he => (by cases he), fun he => absurd he.1 hn⟩
  · rw [h]; exact ⟨fun he => ⟨hg, vet_ok.1 he⟩, fun he => vet_ok.2 he.2⟩

/-- A submission passes every gate, and the upsert does not fail. -/
structure Passes (C : Crypto) (J : SerdeJson) (state : AppState G) (req : Request) : Prop where
  granted : Granted state req.envelope.signed.publicKey req.now
  proven : Proven C J req.envelope
  stored : req.storeFault = false

/-- A submission that passes every gate is accepted and its row upserted; any other is answered with
an error and leaves the store alone. -/
theorem handleSubmit_store (C : Crypto) (J : SerdeJson) (state : AppState G) (req : Request) :
    (Passes C J state req ∧
      (handleSubmit C J state req).1 = .accepted (state.store.upsert (rowOf J req.envelope.signed)).1 ∧
      (handleSubmit C J state req).2.store = (state.store.upsert (rowOf J req.envelope.signed)).2) ∨
    (¬ Passes C J state req ∧ (∃ status error, (handleSubmit C J state req).1 = .error status error) ∧
      (handleSubmit C J state req).2.store = state.store) := by
  have hstore := gates_store C J state req.envelope req.now
  unfold handleSubmit
  rcases hgate : gates C J state req.envelope req.now with ⟨⟨status, error⟩ | row, state'⟩
  · rw [hgate] at hstore
    refine .inr ⟨fun hp => ?_, ⟨_, _, rfl⟩, hstore⟩
    have := gates_ok.2 ⟨hp.granted, hp.proven, rfl⟩
    rw [hgate] at this; cases this
  · rw [hgate] at hstore
    obtain ⟨hg, hp, rfl⟩ := gates_ok.1 (congrArg Prod.fst hgate)
    simp only at hstore ⊢
    rw [hstore]
    unfold commit
    cases hf : req.storeFault with
    | true => exact .inr ⟨fun h => (by rw [h.stored] at hf; cases hf), ⟨_, _, rfl⟩, rfl⟩
    | false => exact .inl ⟨⟨hg, hp, hf⟩, rfl, rfl⟩

/-- A submission that passes every gate draws its tokens and upserts its row. -/
theorem handleSubmit_passes {state : AppState G} {req : Request} (h : Passes C J state req) :
    handleSubmit C J state req = (.accepted (state.store.upsert (rowOf J req.envelope.signed)).1,
      { state.draw req.envelope.signed.publicKey req.now with
        store := (state.store.upsert (rowOf J req.envelope.signed)).2 }) := by
  unfold handleSubmit
  rcases gates_cases C J state req.envelope req.now with ⟨hn, -, -⟩ | ⟨hn, -, -⟩ | ⟨-, hgate⟩
  · exact absurd h.granted hn
  · exact absurd h.granted hn
  · rw [hgate, vet_ok.2 ⟨h.proven, rfl⟩]
    simp only [commit, h.stored]
    rfl

theorem isAccepted_iff {state : AppState G} {req : Request} :
    (handleSubmit C J state req).1.isAccepted = true ↔ Passes C J state req := by
  rcases handleSubmit_store C J state req with ⟨hp, ha, -⟩ | ⟨hn, ⟨_, _, ha⟩, -⟩
  · rw [ha]; exact ⟨fun _ => hp, fun _ => rfl⟩
  · rw [ha]; exact ⟨fun h => (by cases h), fun h => absurd h hn⟩

/-! ## Runs -/

/-- The state after handling requests one after another. -/
def serve (C : Crypto) (J : SerdeJson) (state : AppState G) (reqs : List Request) : AppState G :=
  reqs.foldl (fun st req => (handleSubmit C J st req).2) state

/-- The requests of a run with their replies. -/
def transcript (C : Crypto) (J : SerdeJson) (state : AppState G) : List Request → List (Request × SubmitReply)
  | [] => []
  | req :: reqs =>
    (req, (handleSubmit C J state req).1) :: transcript C J (handleSubmit C J state req).2 reqs

/-- The accepted requests of a run. -/
def accepted (C : Crypto) (J : SerdeJson) (state : AppState G) (reqs : List Request) : List Request :=
  ((transcript C J state reqs).filter fun x => x.2.isAccepted).map Prod.fst

/-- The rows of the accepted requests of a run. -/
def history (C : Crypto) (J : SerdeJson) (state : AppState G) (reqs : List Request) : History :=
  (accepted C J state reqs).map fun req => rowOf J req.envelope.signed

theorem serve_append (state : AppState G) (rs rs' : List Request) :
    serve C J state (rs ++ rs') = serve C J (serve C J state rs) rs' :=
  List.foldl_append

theorem transcript_append (rs' : List Request) : ∀ (state : AppState G) (rs : List Request),
    transcript C J state (rs ++ rs') = transcript C J state rs ++ transcript C J (serve C J state rs) rs'
  | _, [] => rfl
  | state, r :: rs => by
    rw [List.cons_append, transcript, transcript, List.cons_append, transcript_append rs' _ rs]; rfl

theorem accepted_append (state : AppState G) (rs rs' : List Request) :
    accepted C J state (rs ++ rs') = accepted C J state rs ++ accepted C J (serve C J state rs) rs' := by
  unfold accepted
  rw [transcript_append, List.filter_append, List.map_append]

theorem accepted_single (state : AppState G) (r : Request) :
    accepted C J state [r] = if (handleSubmit C J state r).1.isAccepted then [r] else [] := by
  unfold accepted transcript transcript
  rw [List.filter_cons]
  split <;> rfl

/-- The store of a run from an empty store is the store of its history. -/
theorem serve_store {state : AppState G} (hempty : state.store = .openInMemory) (rs : List Request) :
    (serve C J state rs).store = .ofHistory (history C J state rs) := by
  induction rs using List.reverseRecOn with
  | nil => exact hempty
  | append_singleton rs r ih =>
    unfold history at ih ⊢
    rw [serve_append, accepted_append, accepted_single, List.map_append]
    show (handleSubmit C J (serve C J state rs) r).2.store = _
    rcases handleSubmit_store C J (serve C J state rs) r with ⟨-, ha, hs⟩ | ⟨-, ⟨_, _, ha⟩, hs⟩
    · rw [ha, hs, ih]
      exact (Store.ofHistory_snoc _ _).symm
    · rw [ha, hs, ih]
      show _ = Store.ofHistory (_ ++ [])
      rw [List.append_nil]

/-- Every accepted request passed the proof of work and `verify`. -/
theorem proven_of_accepted {r : Request} : ∀ {state : AppState G} {rs : List Request},
    r ∈ accepted C J state rs → r ∈ rs ∧ Proven C J r.envelope
  | state, r' :: rs, h => by
    rw [← List.singleton_append, accepted_append, List.mem_append] at h
    rcases h with h | h
    · rw [accepted_single] at h
      split at h
      · rename_i ha
        rw [List.mem_singleton.1 h]
        exact ⟨List.mem_cons_self .., (isAccepted_iff.1 ha).proven⟩
      · cases h
    · obtain ⟨hr, hp⟩ := proven_of_accepted h
      exact ⟨List.mem_cons_of_mem _ hr, hp⟩

/-! ## The submissions of one install -/

/-- `Quota::per_hour(n)`, with time in nanoseconds. -/
def hourly (n : Nat) : TokenBucket := .gcra (3600000000000 / n) n

theorem sampleScore_fits : (-2147483648 : Int) ≤ 30 ∧ (30 : Int) < 2147483648 := by decide

/-- The rule of the ledger's own round trip test. -/
def sampleRule : CrabRule :=
  { id := "test_promotions"
    displayName := "Test Promotions"
    when := .hasHeader "List-Unsubscribe"
    action := .fileInto "Promotions"
    score := ⟨30, sampleScore_fits⟩
    stopOnMatch := true
    origin := .user }

def sampleHash : Bytes32 :=
  ⟨[71, 253, 233, 40, 56, 119, 166, 127, 9, 99, 149, 196, 144, 235, 24, 64, 254, 71, 223, 21, 38,
    88, 243, 147, 3, 152, 38, 181, 99, 128, 154, 127], rfl⟩

/-- The public key of the secret that is 32 times the octet 7. -/
def sampleKey : Bytes32 :=
  ⟨[234, 74, 108, 99, 226, 156, 82, 10, 190, 245, 80, 123, 19, 46, 197, 249, 149, 71, 118, 174,
    190, 190, 123, 146, 66, 30, 234, 105, 20, 70, 210, 44], rfl⟩

/-- The proof-of-work digest at nonce 25433. -/
def sampleDigest : Bytes32 :=
  ⟨[0, 0, 145, 232, 179, 210, 161, 228, 108, 194, 222, 92, 206, 60, 133, 236, 232, 106, 150, 158,
    210, 147, 0, 152, 236, 221, 157, 241, 205, 134, 36, 47], rfl⟩

/-- The proof-of-work digest at nonce 0. -/
def sampleDigestZero : Bytes32 :=
  ⟨[53, 213, 241, 72, 113, 134, 25, 202, 145, 227, 91, 139, 51, 92, 167, 160, 243, 88, 158, 62,
    228, 66, 116, 216, 67, 194, 174, 27, 21, 50, 4, 124], rfl⟩

def sampleSuggestion (day : I64) : Suggestion :=
  { rule := sampleRule, patternHash := sampleHash, submittedAtDay := day }

def day20000 : I64 := ⟨20000, by decide⟩

def day20001 : I64 := ⟨20001, by decide⟩

/-- The signature over the suggestion of day 20000. -/
def signature20000 : Bytes64 :=
  ⟨[64, 199, 151, 113, 146, 214, 233, 62, 36, 203, 52, 1, 67, 6, 24, 162, 40, 114, 223, 192, 114,
    244, 178, 136, 73, 100, 88, 100, 226, 120, 44, 99, 171, 138, 113, 211, 187, 240, 238, 190, 116,
    57, 11, 32, 11, 100, 238, 214, 54, 196, 253, 156, 14, 163, 233, 95, 204, 1, 148, 244, 199, 133,
    186, 5], rfl⟩

/-- The signature over the suggestion of day 20001. -/
def signature20001 : Bytes64 :=
  ⟨[131, 241, 36, 245, 57, 41, 181, 36, 231, 194, 125, 44, 151, 191, 130, 238, 253, 61, 23, 203,
    146, 21, 154, 114, 89, 245, 232, 170, 103, 240, 32, 51, 251, 155, 227, 68, 30, 162, 67, 186,
    44, 2, 44, 36, 76, 250, 120, 152, 49, 57, 73, 31, 95, 195, 66, 59, 244, 235, 62, 175, 18, 40,
    151, 0], rfl⟩

/-- BLAKE3 and Ed25519 on the inputs these submissions lead to. -/
def sampleCrypto : Crypto where
  blake3 b :=
    if b = Ledger.canonicalJsonBytes .compact sampleRule.toValue then sampleHash
    else if b = sampleHash.1 ++ sampleKey.1 ++ toLeBytes 25433 then sampleDigest
    else sampleDigestZero
  validKey k := k = sampleKey
  verifySig k m s := k = sampleKey ∧
    ((m = Ledger.canonicalJsonBytes .compact (sampleSuggestion day20000).toValue ∧ s = signature20000) ∨
      (m = Ledger.canonicalJsonBytes .compact (sampleSuggestion day20001).toValue ∧ s = signature20001))
  verifyingKey _ := sampleKey
  sign _ m :=
    if m = Ledger.canonicalJsonBytes .compact (sampleSuggestion day20000).toValue then signature20000
    else signature20001

/-- The install's submission of a day, handled at a time. -/
def sampleRequest (day : I64) (signature : Bytes64) (now : Nat) : Request :=
  { envelope :=
      { signed := { suggestion := sampleSuggestion day, publicKey := sampleKey, signature }, powNonce := 25433 }
    now
    storeFault := false }

/-- The canonical encoding of an object begins with a brace. -/
theorem canonical_obj_head (m : Members) :
    ∃ r, Ledger.canonicalJsonBytes .compact (.obj m) = 123 :: r := by
  have hp : ∀ m' : Members, ∃ r, (Value.obj m').print = '{' :: r := by
    intro m'
    cases m' with
    | nil => exact ⟨_, rfl⟩
    | cons kv m' => exact ⟨_, rfl⟩
  obtain ⟨r, hr⟩ := hp (Members.rebuild (sortKeysMembers m))
  refine ⟨utf8 (String.ofList r), ?_⟩
  show utf8 (String.ofList (Value.obj (Members.rebuild (sortKeysMembers m))).print) = _
  rw [hr, utf8_ofList_cons]
  rfl

theorem sample_granted (now : Nat) : Granted (AppState.new hourly .openInMemory) sampleKey now := by
  constructor
  · show 0 < (TokenBucket.gcra (3600000000000 / 600) 600).tokens (TokenBucket.gcra (3600000000000 / 600) 600).full now
    rw [gcra_tokens_full _ _ _ (by decide)]
    decide
  · show 0 < (TokenBucket.gcra (3600000000000 / 60) 60).tokens (TokenBucket.gcra (3600000000000 / 60) 60).full now
    rw [gcra_tokens_full _ _ _ (by decide)]
    decide

/-- One submission leaves tokens for the next. -/
theorem sample_granted_again (store : Store) :
    Granted { (AppState.new hourly .openInMemory).draw sampleKey 0 with store } sampleKey 0 := by
  constructor
  · show 0 < gcraTokens (3600000000000 / 600) 600 (max 0 0 + 3600000000000 / 600) 0
    decide
  · unfold AppState.draw
    simp only [Function.update_self]
    show 0 < gcraTokens (3600000000000 / 60) 60 (max 0 0 + 3600000000000 / 60) 0
    decide

def sampleRow (day : I64) (signature : Bytes64) : CorroborationRow :=
  rowOf .compact (sampleRequest day signature 0).envelope.signed

theorem sampleCrypto_blake3 (b : Bytes) : sampleCrypto.blake3 b =
    if b = Ledger.canonicalJsonBytes .compact sampleRule.toValue then sampleHash
    else if b = sampleHash.1 ++ sampleKey.1 ++ toLeBytes 25433 then sampleDigest
    else sampleDigestZero := rfl

theorem sampleCrypto_verifySig (k : Bytes32) (m : Bytes) (s : Bytes64) : sampleCrypto.verifySig k m s = true ↔
    k = sampleKey ∧
      ((m = Ledger.canonicalJsonBytes .compact (sampleSuggestion day20000).toValue ∧ s = signature20000) ∨
        (m = Ledger.canonicalJsonBytes .compact (sampleSuggestion day20001).toValue ∧ s = signature20001)) :=
  decide_eq_true_iff

theorem sampleHash_append_ne (r : Bytes) :
    sampleHash.1 ++ r ≠ Ledger.canonicalJsonBytes .compact sampleRule.toValue := by
  obtain ⟨c, hc⟩ := canonical_obj_head _
  rw [CrabRule.toValue, hc]
  intro h
  cases h

theorem sample_work :
    verifyPow sampleCrypto sampleHash sampleKey 25433 powDifficultyBits = true := by
  unfold verifyPow
  rw [sampleCrypto_blake3, List.append_assoc, if_neg (sampleHash_append_ne _), if_pos rfl]
  decide

theorem sample_proven (day : I64) (signature : Bytes64) (now : Nat)
    (h : (day = day20000 ∧ signature = signature20000) ∨ (day = day20001 ∧ signature = signature20001)) :
    Proven sampleCrypto .compact (sampleRequest day signature now).envelope := by
  refine ⟨sample_work, decide_eq_true (rfl : sampleKey = sampleKey), ?_, ?_⟩
  · refine (sampleCrypto_verifySig _ _ _).2 ⟨rfl, ?_⟩
    rcases h with ⟨rfl, rfl⟩ | ⟨rfl, rfl⟩
    · exact .inl ⟨rfl, rfl⟩
    · exact .inr ⟨rfl, rfl⟩
  · rw [sampleCrypto_blake3]
    exact if_pos rfl

end Api

end Thundercrab
