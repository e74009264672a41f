/-
Submissions that come no faster than the limits are let through. A limit that starts full has a token
for the next draw when the draws before it were some of a conforming sequence of times, whichever of
these another limit or the proof of work stopped. So no key is told that it is over its own limit for
what the other keys send, and where all the arrivals conform as well nobody is told anything of limits.
-/
import Thundercrab.CrabLedger.Limits

namespace Thundercrab

open Lib Lib.Json

namespace Api

/-- The times at which requests arrive that name this key. -/
def keyTimes (k : Bytes32) (evs : List Event) : List Nat :=
  evs.filterMap fun
    | .arrive e now => if e.signed.publicKey = k then some now else none
    | .lock _ _ => none

variable {G : Nat → TokenBucket} {C : Crypto} {J : SerdeJson} {s : Server G} {ev : Event} {evs : List Event}

/-- Where each step draws from a bucket at its times, a run leaves it drawn at its times. -/
theorem bucket_run {B : TokenBucket} {time : Server G → Event → List Nat} (bucket : Server G → B.State)
    (h : ∀ s ev, bucket (s.step C J ev).2 = B.drawAll (bucket s) (time s ev)) :
    ∀ (evs : List Event) (s : Server G),
      bucket (s.run C J evs).2 = B.drawAll (bucket s) (timesOf C J time s evs)
  | [], _ => rfl
  | ev :: evs, s => by
    have ih := bucket_run bucket h evs (s.step C J ev).2
    rw [h] at ih
    rw [timesOf, TokenBucket.drawAll, List.foldl_append]
    exact ih

/-- A bucket that starts full has a token at the next of the conforming times, when what a run has drawn
before it was drawn at some of them. -/
theorem token_left {B : TokenBucket} {period burst : Nat} (R : B.Replenished period burst) (hb : 0 < burst)
    {time : Server G → Event → List Nat} {times : List Event → List Nat} (bucket : Server G → B.State)
    (hdraws : ∀ s ev, bucket (s.step C J ev).2 = B.drawAll (bucket s) (time s ev))
    (happend : ∀ evs evs', times (evs ++ evs') = times evs ++ times evs')
    (hsub : ∀ s ev, (time s ev).Sublist (times [ev])) (hfull : bucket s = B.full) {before after : List Event} {now : Nat}
    (hnow : times [ev] = [now]) (hsorted : (times (before ++ ev :: after)).Pairwise (· ≤ ·))
    (hconforms : Conforms period burst (times (before ++ ev :: after))) :
    0 < B.tokens (bucket (s.run C J before).2) now := by
  have htimes : times (before ++ ev :: after) = times before ++ now :: times after := by
    rw [happend, ← List.singleton_append, happend, hnow]
    rfl
  rw [htimes] at hsorted hconforms
  have hall := R.draws_full hb hsorted hconforms
  have hsome : (timesOf C J time s before ++ [now]).Sublist (times before ++ now :: times after) :=
    (timesOf_sublist happend hsub before s).append ((List.nil_sublist _).cons_cons now)
  rw [bucket_run bucket hdraws before s, hfull]
  exact ((TokenBucket.draws_append _).1 (hall.sublist hsome hsorted)).2.1

theorem keyTimes_append (k : Bytes32) (evs evs' : List Event) :
    keyTimes k (evs ++ evs') = keyTimes k evs ++ keyTimes k evs' := List.filterMap_append

theorem keyTimes_sublist (k : Bytes32) : ∀ evs : List Event, (keyTimes k evs).Sublist (arrivalTimes evs)
  | [] => .refl _
  | .arrive e now :: evs => by
    have ih := keyTimes_sublist k evs
    by_cases hk : e.signed.publicKey = k
    · simpa [keyTimes, arrivalTimes, hk] using ih
    · simpa [keyTimes, arrivalTimes, hk] using ih.cons now
  | .lock _ _ :: evs => keyTimes_sublist k evs

/-- What the limit of a key lets through names the key. -/
theorem grantTime_keyTimes (k : Bytes32) (s : Server G) (ev : Event) :
    (grantTime (fun key => key = k) s ev).Sublist (keyTimes k [ev]) := by
  cases ev with
  | arrive e now =>
    by_cases hk : e.signed.publicKey = k
    · simp only [grantTime]
      split
      · simp [keyTimes, hk]
      · exact List.nil_sublist _
    · simp [grantTime, hk]
  | lock i storeFault => exact .refl _

/-! ## What a request is told -/

/-- The reply at an arrival names a limit only when that limit has no token left. -/
theorem arrival_reply {e : SubmitEnvelope} {now : Nat} {r : Response} {error : String}
    (hr : r ∈ (s.step C J (.arrive e now)).1) (hreply : r.reply = .error 429 error) :
    error = "global_rate_limit" ∧ (G globalPerHour).tokens s.app.global now = 0 ∨
      error = "per_pubkey_rate_limit" ∧ (G perPubkeyPerHour).tokens (s.app.perKey e.signed.publicKey) now = 0 := by
  simp only [Server.step] at hr
  rcases gates_cases C J s.app e now with ⟨-, hzero, hgate⟩ | ⟨-, hzero, hgate⟩ | ⟨-, hgate⟩
  · rw [hgate, List.mem_singleton] at hr
    obtain rfl := hr
    injection hreply with _ herror
    exact .inl ⟨herror.symm, hzero⟩
  · rw [hgate, List.mem_singleton] at hr
    obtain rfl := hr
    injection hreply with _ herror
    exact .inr ⟨herror.symm, hzero⟩
  · -- past the limits a refusal has another status
    rw [hgate] at hr
    cases hv : vet C J e with
    | error err =>
      rw [hv, List.mem_singleton] at hr
      obtain rfl := hr
      injection hreply with hstatus _
      exact absurd hstatus (vet_error hv).2
    | ok row =>
      rw [hv] at hr
      cases hr

/-- A row that is committed, or that the store loses, is not told of limits. -/
theorem lock_reply {i : Nat} {storeFault : Bool} {r : Response} (hr : r ∈ (s.step C J (.lock i storeFault)).1)
    (error : String) : r.reply ≠ .error 429 error := by
  simp only [Server.step] at hr
  cases hi : s.waiting[i]? with
  | none => rw [hi] at hr; cases hr
  | some row =>
    rw [hi] at hr
    obtain rfl := List.mem_singleton.1 hr
    cases storeFault with
    | true => intro h; injection h with hstatus _; exact absurd hstatus (by decide)
    | false => intro h; cases h

/-- A response of a run is sent at one of its events. -/
theorem mem_run {r : Response} : ∀ {evs : List Event} {s : Server G}, r ∈ (s.run C J evs).1 →
    ∃ before ev after, evs = before ++ ev :: after ∧ r ∈ ((s.run C J before).2.step C J ev).1
  | [], _, h => absurd h List.not_mem_nil
  | ev :: evs, s, h => by
    rcases List.mem_append.1 h with h | h
    · exact ⟨[], ev, evs, rfl, h⟩
    · obtain ⟨before, ev', after, rfl, hr⟩ := mem_run h
      exact ⟨ev :: before, ev', after, rfl, hr⟩

/-- `Quota::per_hour(n)` as it is documented: full at first, and no slower than one for each `n`-th of
an hour. -/
def hourlyReplenished (n : Nat) (hp : 0 < period n) : (hourly n).Replenished (period n) n :=
  gcraReplenished (period n) n hp

/-- The replies to a request that arrives somewhere in a run name no error of a limit. -/
def NeverTold (C : Crypto) (J : SerdeJson) (s : Server G) (evs : List Event) (p : SubmitEnvelope → Prop)
    (error : String) : Prop :=
  ∀ before e now after, evs = before ++ .arrive e now :: after → p e →
    ∀ r ∈ ((s.run C J before).2.step C J (.arrive e now)).1, r.reply ≠ .error 429 error

theorem key_never_told (perKey : (G perPubkeyPerHour).Replenished (period perPubkeyPerHour) perPubkeyPerHour)
    (store : Store) (hsorted : (arrivalTimes evs).Pairwise (· ≤ ·)) {k : Bytes32}
    (hconforms : Conforms (period perPubkeyPerHour) perPubkeyPerHour (keyTimes k evs)) :
    NeverTold C J ⟨AppState.new G store, []⟩ evs (fun e => e.signed.publicKey = k) "per_pubkey_rate_limit" := by
  rintro before e now after rfl rfl r hr hreply
  have hnow : keyTimes e.signed.publicKey [.arrive e now] = [now] := by simp [keyTimes]
  have htoken := token_left (C := C) (J := J) (s := ⟨AppState.new G store, []⟩) perKey (by decide)
    (fun s => s.app.perKey e.signed.publicKey) (fun s ev => (perKey_step e.signed.publicKey s ev).2)
    (keyTimes_append e.signed.publicKey) (grantTime_keyTimes e.signed.publicKey) rfl hnow
    (hsorted.sublist (keyTimes_sublist e.signed.publicKey _)) hconforms
  rcases arrival_reply hr hreply with ⟨herror, -⟩ | ⟨-, hzero⟩
  · exact absurd herror (by decide)
  · exact Nat.pos_iff_ne_zero.1 htoken hzero

theorem global_never_told (global : (G globalPerHour).Replenished (period globalPerHour) globalPerHour)
    (store : Store) (hsorted : (arrivalTimes evs).Pairwise (· ≤ ·))
    (hconforms : Conforms (period globalPerHour) globalPerHour (arrivalTimes evs)) :
    NeverTold C J ⟨AppState.new G store, []⟩ evs (fun _ => True) "global_rate_limit" := by
  rintro before e now after rfl - r hr hreply
  have htoken := token_left (C := C) (J := J) (s := ⟨AppState.new G store, []⟩) global (by decide)
    (fun s => s.app.global) (fun s ev => (global_step s ev).2) arrivalTimes_append globalTime_sublist rfl rfl
    hsorted hconforms
  rcases arrival_reply hr hreply with ⟨-, hzero⟩ | ⟨herror, -⟩
  · exact Nat.pos_iff_ne_zero.1 htoken hzero
  · exact absurd herror (by decide)

/-- From the start of the service, whatever requests arrive in whatever order they are granted the
store: a key whose requests conform to the limit of a key is never told that it is over that limit,
whoever else sends; where all the requests conform to the global limit nobody is told of that one; and
where both hold no reply of the run is one of the limits. -/
theorem conforming_admitted (perKey : (G perPubkeyPerHour).Replenished (period perPubkeyPerHour) perPubkeyPerHour)
    (global : (G globalPerHour).Replenished (period globalPerHour) globalPerHour) (store : Store) (evs : List Event)
    (hsorted : (arrivalTimes evs).Pairwise (· ≤ ·)) :
    (∀ k, Conforms (period perPubkeyPerHour) perPubkeyPerHour (keyTimes k evs) →
      NeverTold C J ⟨AppState.new G store, []⟩ evs (fun e => e.signed.publicKey = k) "per_pubkey_rate_limit") ∧
    (Conforms (period globalPerHour) globalPerHour (arrivalTimes evs) →
      NeverTold C J ⟨AppState.new G store, []⟩ evs (fun _ => True) "global_rate_limit") ∧
    ((∀ k, Conforms (period perPubkeyPerHour) perPubkeyPerHour (keyTimes k evs)) →
      Conforms (period globalPerHour) globalPerHour (arrivalTimes evs) →
      ∀ r ∈ (Server.run C J ⟨AppState.new G store, []⟩ evs).1, ∀ error, r.reply ≠ .error 429 error) := by
  refine ⟨fun k => key_never_told perKey store hsorted, global_never_told global store hsorted, ?_⟩
  intro hkeys hall r hr error hreply
  obtain ⟨before, ev, after, hevs, hr⟩ := mem_run hr
  cases ev with
  | arrive e now =>
    rcases arrival_reply hr hreply with ⟨rfl, -⟩ | ⟨rfl, -⟩
    · exact global_never_told global store hsorted hall before e now after hevs trivial r hr hreply
    · exact key_never_told perKey store hsorted (hkeys _) before e now after hevs rfl r hr hreply
  | lock i storeFault => exact lock_reply hr error hreply

theorem conforming_admitted_sample :
    NeverTold sampleCrypto .compact sampleStart (sampleEvents ++ sampleEvents) (fun _ => True) "global_rate_limit" ∧
      NeverTold sampleCrypto .compact sampleStart (sampleEvents ++ sampleEvents) (fun e => e.signed.publicKey = sampleKey)
        "per_pubkey_rate_limit" := by
  have hboth := conforming_admitted (C := sampleCrypto) (J := .compact)
    (hourlyReplenished perPubkeyPerHour (by decide)) (hourlyReplenished globalPerHour (by decide)) .openInMemory
    (sampleEvents ++ sampleEvents) (List.pairwise_pair.2 (Nat.le_refl 0))
  have htwo : (arrivalTimes (sampleEvents ++ sampleEvents)).length = 2 := rfl
  have hkey := (keyTimes_sublist sampleKey (sampleEvents ++ sampleEvents)).length_le
  rw [htwo] at hkey
  exact ⟨hboth.2.1 (conforms_of_length_le (by rw [htwo]; decide)),
    hboth.1 sampleKey (conforms_of_length_le (Nat.le_trans hkey (by decide)))⟩

end Api

end Thundercrab
