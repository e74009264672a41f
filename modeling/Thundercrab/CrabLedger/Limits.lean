/-
How many submissions get through in a stretch of time, whoever sends them and however they wait for
the store. Every submission past the gates has drawn a token of the key it names and one of the
global limit, so that what is accepted between two times was waiting already, or was covered by the
tokens that were there or dripped in; and no pattern gathers more keys than that.
-/
import Thundercrab.CrabLedger.Aggregation

namespace Thundercrab

open Lib Lib.Json

namespace Api

/-- Nanoseconds between two tokens of a limit of `n` per hour. -/
def period (n : Nat) : Nat := 3600000000000 / n

/-- The times at which requests arrive. -/
def arrivalTimes (evs : List Event) : List Nat :=
  evs.filterMap fun
    | .arrive _ now => some now
    | .lock _ _ => none

variable {G : Nat → TokenBucket}

instance (state : AppState G) (key : Bytes32) (now : Nat) : Decidable (Granted state key now) :=
  inferInstanceAs (Decidable (_ ∧ _))

/-- The time of an arrival that both limits let through, if its key satisfies `p`. -/
def grantTime (p : Bytes32 → Bool) (s : Server G) : Event → List Nat
  | .arrive e now => if Granted s.app e.signed.publicKey now ∧ p e.signed.publicKey then [now] else []
  | .lock _ _ => []

/-- The time of an arrival that draws a token of the global limit. -/
def globalTime (s : Server G) : Event → List Nat
  | .arrive _ now => if 0 < (G globalPerHour).tokens s.app.global now then [now] else []
  | .lock _ _ => []

/-- The times over a run, as the server goes on. -/
def timesOf (C : Crypto) (J : SerdeJson) (time : Server G → Event → List Nat) : Server G → List Event → List Nat
  | _, [] => []
  | s, ev :: evs => time s ev ++ timesOf C J time (s.step C J ev).2 evs

variable {C : Crypto} {J : SerdeJson} {s : Server G} {ev : Event} {evs : List Event} {p : Bytes32 → Bool}

/-- The rows of the keys that satisfy `p`. -/
def countKeys (p : Bytes32 → Bool) (rows : List CorroborationRow) : Nat := rows.countP fun row => p row.publicKey

/-! ## What an arrival draws -/

/-- What an arrival comes to: stopped at the global limit, stopped at the limit of its key, refused past
both, or waiting with its row. -/
inductive Arrival (C : Crypto) (J : SerdeJson) (s : Server G) (e : SubmitEnvelope) (now : Nat) :
    List Response × Server G → Prop where
  | global (r : Response) : (G globalPerHour).tokens s.app.global now = 0 → r.accepted? = none →
      Arrival C J s e now ([r], s)
  | key (r : Response) : 0 < (G globalPerHour).tokens s.app.global now →
      ¬ Granted s.app e.signed.publicKey now → r.accepted? = none →
      Arrival C J s e now ([r], { s with app := s.app.drawGlobal now })
  | refused (r : Response) : Granted s.app e.signed.publicKey now → r.accepted? = none →
      Arrival C J s e now ([r], { s with app := s.app.draw e.signed.publicKey now })
  | waits : Granted s.app e.signed.publicKey now →
      Arrival C J s e now
        ([], { app := s.app.draw e.signed.publicKey now, waiting := s.waiting ++ [rowOf J e.signed] })

theorem arrival_step (C : Crypto) (J : SerdeJson) (s : Server G) (e : SubmitEnvelope) (now : Nat) :
    Arrival C J s e now (s.step C J (.arrive e now)) := by
  simp only [Server.step]
  rcases Nat.eq_zero_or_pos ((G globalPerHour).tokens s.app.global now) with hzero | hpos
  · have hgate : gates C J s.app e now = (.error (429, "global_rate_limit"), s.app) := by
      unfold gates
      rw [TokenBucket.check_eq_none.2 hzero]
    rw [hgate]
    exact .global _ hzero rfl
  · rcases gates_cases C J s.app e now with ⟨-, hzero, -⟩ | ⟨hn, -, hgate⟩ | ⟨hg, hgate⟩
    · omega
    · rw [hgate]
      exact .key _ hpos hn rfl
    · rw [hgate]
      cases hv : vet C J e with
      | error err => exact .refused _ hg rfl
      | ok row =>
        obtain ⟨-, rfl⟩ := vet_ok.1 hv
        exact .waits hg

/-! ## What a run draws -/

/-- Of the rows of these keys as many are accepted, or left to wait, as waited before and were let
through. -/
theorem countKeys_step (p : Bytes32 → Bool) (s : Server G) (ev : Event) :
    (acceptedIn (s.step C J ev).1).countP (fun x => p x.1.publicKey) + countKeys p (s.step C J ev).2.waiting ≤
      countKeys p s.waiting + (grantTime p s ev).length := by
  cases ev with
  | arrive e now =>
    have hnone : ∀ {r : Response}, r.accepted? = none → acceptedIn [r] = [] := fun h => List.filterMap_cons_none h
    have harr := arrival_step C J s e now
    generalize s.step C J (.arrive e now) = out at harr ⊢
    cases harr with
    | global r _ hr => simp [hnone hr]
    | key r _ _ hr => simp [hnone hr]
    | refused r _ hr => simp [hnone hr]
    | waits hg =>
      unfold grantTime countKeys
      rw [List.countP_append, List.countP_singleton]
      cases hk : p e.signed.publicKey <;> simp [acceptedIn, rowOf, hg, hk]
  | lock i storeFault =>
    simp only [Server.step]
    cases hi : s.waiting[i]? with
    | none => simp [acceptedIn]
    | some row =>
      -- the row that is committed waits no more
      obtain ⟨hlt, rfl⟩ := List.getElem?_eq_some_iff.1 hi
      have hperm := (List.getElem_cons_eraseIdx_perm hlt).countP_eq fun row => p row.publicKey
      rw [List.countP_cons] at hperm
      unfold countKeys commit
      cases storeFault with
      | true =>
        show 0 + (s.waiting.eraseIdx i).countP _ ≤ _
        omega
      | false =>
        show [_].countP _ + (s.waiting.eraseIdx i).countP _ ≤ _
        rw [List.countP_singleton]
        show (if p s.waiting[i].publicKey = true then 1 else 0) + _ ≤ _
        omega

theorem countKeys_run (p : Bytes32 → Bool) : ∀ (evs : List Event) (s : Server G),
    (acceptedIn (s.run C J evs).1).countP (fun x => p x.1.publicKey) ≤
      countKeys p s.waiting + (timesOf C J (grantTime p) s evs).length
  | [], s => Nat.zero_le _
  | ev :: evs, s => by
    have hstep := countKeys_step (C := C) (J := J) p s ev
    have ih := countKeys_run p evs (s.step C J ev).2
    show (acceptedIn ((s.step C J ev).1 ++ ((s.step C J ev).2.run C J evs).1)).countP _ ≤ _
    rw [acceptedIn_append, List.countP_append, timesOf, List.length_append]
    omega

/-- Where each step draws from a bucket at its times, a run does. -/
theorem draws_run {B : TokenBucket} {time : Server G → Event → List Nat} {bucket : Server G → B.State}
    (h : ∀ s ev, B.Draws (bucket s) (time s ev) ∧
      bucket (s.step C J ev).2 = B.drawAll (bucket s) (time s ev)) :
    ∀ (evs : List Event) (s : Server G), B.Draws (bucket s) (timesOf C J time s evs)
  | [], _ => trivial
  | ev :: evs, s => by
    obtain ⟨hdraws, hafter⟩ := h s ev
    have ih := draws_run h evs (s.step C J ev).2
    rw [hafter] at ih
    exact (TokenBucket.draws_append _).2 ⟨hdraws, ih⟩

theorem perKey_step (k : Bytes32) (s : Server G) (ev : Event) :
    (G perPubkeyPerHour).Draws (s.app.perKey k) (grantTime (fun key => key = k) s ev) ∧
      (s.step C J ev).2.app.perKey k =
        (G perPubkeyPerHour).drawAll (s.app.perKey k) (grantTime (fun key => key = k) s ev) := by
  cases ev with
  | arrive e now =>
    have hdraw : Granted s.app e.signed.publicKey now →
        (G perPubkeyPerHour).Draws (s.app.perKey k) (grantTime (fun key => key = k) s (.arrive e now)) ∧
          (s.app.draw e.signed.publicKey now).perKey k =
            (G perPubkeyPerHour).drawAll (s.app.perKey k) (grantTime (fun key => key = k) s (.arrive e now)) := by
      intro hg
      unfold AppState.draw grantTime
      by_cases hk : e.signed.publicKey = k
      · subst hk
        simp only [hg, decide_true, and_self, if_true, Function.update_self]
        exact ⟨⟨hg.2, trivial⟩, rfl⟩
      · simp only [hk, decide_false, Bool.false_eq_true, and_false, if_false, Function.update_of_ne (Ne.symm hk)]
        exact ⟨trivial, rfl⟩
    have hkept : ¬ Granted s.app e.signed.publicKey now →
        grantTime (fun key => key = k) s (.arrive e now) = [] := fun hn => if_neg fun h => hn h.1
    have harr := arrival_step C J s e now
    generalize s.step C J (.arrive e now) = out at harr ⊢
    cases harr with
    | global r hzero _ =>
      rw [hkept fun hg => absurd hg.1 (by omega)]
      exact ⟨trivial, rfl⟩
    | key r _ hn _ =>
      rw [hkept hn]
      exact ⟨trivial, rfl⟩
    | refused r hg _ => exact hdraw hg
    | waits hg => exact hdraw hg
  | lock i storeFault =>
    simp only [Server.step]
    cases s.waiting[i]? with
    | none => exact ⟨trivial, rfl⟩
    | some row => exact ⟨trivial, rfl⟩

theorem global_step (s : Server G) (ev : Event) :
    (G globalPerHour).Draws s.app.global (globalTime s ev) ∧
      (s.step C J ev).2.app.global = (G globalPerHour).drawAll s.app.global (globalTime s ev) := by
  cases ev with
  | arrive e now =>
    simp only [globalTime]
    have harr := arrival_step C J s e now
    generalize s.step C J (.arrive e now) = out at harr ⊢
    cases harr with
    | global r hzero _ =>
      rw [if_neg (by omega)]
      exact ⟨trivial, rfl⟩
    | key r hpos _ _ =>
      rw [if_pos hpos]
      exact ⟨⟨hpos, trivial⟩, rfl⟩
    | refused r hg _ =>
      rw [if_pos hg.1]
      exact ⟨⟨hg.1, trivial⟩, rfl⟩
    | waits hg =>
      rw [if_pos hg.1]
      exact ⟨⟨hg.1, trivial⟩, rfl⟩
  | lock i storeFault =>
    simp only [Server.step]
    cases s.waiting[i]? with
    | none => exact ⟨trivial, rfl⟩
    | some row => exact ⟨trivial, rfl⟩

/-- What both limits let through has drawn from the global one. -/
theorem timesOf_grant_le (p : Bytes32 → Bool) : ∀ (evs : List Event) (s : Server G),
    (timesOf C J (grantTime p) s evs).length ≤ (timesOf C J globalTime s evs).length
  | [], _ => Nat.le_refl _
  | ev :: evs, s => by
    have ih := timesOf_grant_le p evs (s.step C J ev).2
    have hstep : (grantTime p s ev).length ≤ (globalTime s ev).length := by
      cases ev with
      | arrive e now =>
        simp only [grantTime, globalTime]
        by_cases hpos : 0 < (G globalPerHour).tokens s.app.global now
        · rw [if_pos hpos]
          split <;> simp
        · rw [if_neg fun h => hpos h.1.1]
          exact Nat.zero_le _
      | lock i storeFault => exact Nat.le_refl _
    rw [timesOf, timesOf, List.length_append, List.length_append]
    omega

/-- The times drawn in a run are some of those listed for its events. -/
theorem timesOf_sublist {time : Server G → Event → List Nat} {times : List Event → List Nat}
    (happend : ∀ evs evs', times (evs ++ evs') = times evs ++ times evs')
    (h : ∀ s ev, (time s ev).Sublist (times [ev])) :
    ∀ (evs : List Event) (s : Server G), (timesOf C J time s evs).Sublist (times evs)
  | [], _ => List.nil_sublist _
  | ev :: evs, s => by
    have hcons : times (ev :: evs) = times [ev] ++ times evs := happend [ev] evs
    rw [timesOf, hcons]
    exact (h s ev).append (timesOf_sublist happend h evs (s.step C J ev).2)

theorem arrivalTimes_append (evs evs' : List Event) :
    arrivalTimes (evs ++ evs') = arrivalTimes evs ++ arrivalTimes evs' := List.filterMap_append

theorem grantTime_sublist (p : Bytes32 → Bool) (s : Server G) (ev : Event) :
    (grantTime p s ev).Sublist (arrivalTimes [ev]) := by
  cases ev with
  | arrive e now =>
    simp only [grantTime]
    split
    · exact .refl _
    · exact List.nil_sublist _
  | lock i storeFault => exact .refl _

theorem globalTime_sublist (s : Server G) (ev : Event) : (globalTime s ev).Sublist (arrivalTimes [ev]) := by
  cases ev with
  | arrive e now =>
    simp only [globalTime]
    split
    · exact .refl _
    · exact List.nil_sublist _
  | lock i storeFault => exact .refl _

/-- Times within a stretch, in order, of which some are drawn from a bucket. -/
theorem drawn_within {B : TokenBucket} {n : Nat} (M : B.Metered (period n) n) (hp : 0 < period n) {b : B.State}
    {ts : List Nat} {evs : List Event} {t₀ t₁ : Nat} (hsub : ts.Sublist (arrivalTimes evs))
    (hsorted : (t₀ :: arrivalTimes evs).Pairwise (· ≤ ·)) (hlast : ∀ t ∈ arrivalTimes evs, t ≤ t₁)
    (hdraws : B.Draws b ts) : ts.length ≤ n + (t₁ - t₀) / period n :=
  M.length_le hp (hsorted.sublist (hsub.cons_cons t₀)) (fun t ht => hlast t (hsub.subset ht)) hdraws

/-! ## The limits over a run -/

/-- `Quota::per_hour(n)` as it is documented: `n` at once, and one for each `n`-th of an hour. -/
def hourlyMetered (n : Nat) : (hourly n).Metered (period n) n := gcraMetered (period n) n

/-- Whatever requests arrive between two times, and in whatever order they are granted the store: of
one key no more are accepted than waited at first, the 60 that its limit can hold, and one a minute;
of all keys no more than waited, 600, and one every six seconds; and from an empty store no pattern
is listed with more keys than that. -/
theorem accepted_within_limits (perKey : (G perPubkeyPerHour).Metered (period perPubkeyPerHour) perPubkeyPerHour)
    (global : (G globalPerHour).Metered (period globalPerHour) globalPerHour) (s : Server G) (evs : List Event)
    (t₀ t₁ : Nat) (hsorted : (t₀ :: arrivalTimes evs).Pairwise (· ≤ ·)) (hlast : ∀ t ∈ arrivalTimes evs, t ≤ t₁) :
    (∀ k, ((acceptedIn (s.run C J evs).1).countP fun x => x.1.publicKey = k) ≤
      (s.waiting.countP fun row => row.publicKey = k) + perPubkeyPerHour + (t₁ - t₀) / period perPubkeyPerHour) ∧
    (acceptedIn (s.run C J evs).1).length ≤
      s.waiting.length + globalPerHour + (t₁ - t₀) / period globalPerHour ∧
    (s.Fresh → ∀ m since, ∀ e ∈ (s.run C J evs).2.app.store.listAggregated m since,
      e.corroborators ≤ globalPerHour + (t₁ - t₀) / period globalPerHour) := by
  have hall : (acceptedIn (s.run C J evs).1).length ≤
      s.waiting.length + globalPerHour + (t₁ - t₀) / period globalPerHour := by
    have hcount := countKeys_run (C := C) (J := J) (fun _ => true) evs s
    have hdrawn := drawn_within global (by decide) (timesOf_sublist arrivalTimes_append globalTime_sublist evs s) hsorted hlast
      (draws_run (C := C) (J := J) global_step evs s)
    have hle := timesOf_grant_le (C := C) (J := J) (fun _ => true) evs s
    simp only [countKeys, List.countP_true] at hcount
    omega
  refine ⟨fun k => ?_, hall, fun hs m since e he => ?_⟩
  · have hcount := countKeys_run (C := C) (J := J) (fun key => key = k) evs s
    have hdrawn := drawn_within perKey (by decide)
      (timesOf_sublist arrivalTimes_append (grantTime_sublist fun key => key = k) evs s) hsorted hlast
      (draws_run (C := C) (J := J) (perKey_step k) evs s)
    simp only [countKeys] at hcount
    omega
  · -- each key of a pattern was new in one accepted response
    obtain ⟨hstore, -, hnew⟩ := Server.run_spec (C := C) (J := J) evs s [] hs.store
    rw [hstore] at he
    obtain ⟨g, hg, rfl⟩ := List.mem_map.1 he
    rw [PatternGroup.aggregated_corroborators, Store.selected_count hg, hnew]
    have hle := List.countP_le_length (l := acceptedIn (s.run C J evs).1)
      (p := fun x => decide (x.1.patternHash = g.patternHash ∧ x.2 = true))
    have hnone : s.waiting.length = 0 := by rw [hs.waiting]; rfl
    have hzero : History.corroborators [] g.patternHash = 0 := rfl
    omega

theorem accepted_within_limits_sample :
    sampleStart.Fresh ∧ (acceptedIn (sampleStart.run sampleCrypto .compact sampleEvents).1).length ≤ 600 := by
  refine ⟨sampleStart_fresh, (accepted_within_limits (hourlyMetered perPubkeyPerHour)
    (hourlyMetered globalPerHour) sampleStart sampleEvents 0 0
    ?_ ?_).2.1⟩
  · exact List.pairwise_pair.2 (Nat.le_refl 0)
  · exact fun t ht => Nat.le_of_eq (List.mem_singleton.1 ht)

end Api

end Thundercrab
