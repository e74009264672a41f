/-
Concurrent submissions. A request passes the gates when it arrives and then waits for the store
lock; the lock is granted to the waiting requests in any order, with other requests arriving in
between. In every such run the store is the store of the rows in the order they were committed, each
of them vetted at its arrival, and what the aggregated list says is a function of the accepted
submissions alone: their keys, their days and the rule of each pattern, in no order.
-/
import Thundercrab.CrabLedger.Api

namespace Thundercrab

open Lib Lib.Json

namespace Api

/-- The service with the rows that are past the gates and wait for the store lock. -/
structure Server (G : Nat → TokenBucket) where
  app : AppState G
  waiting : List CorroborationRow

inductive Event where
  /-- A request arrives and runs up to the store lock. -/
  | arrive (envelope : SubmitEnvelope) (now : Nat)
  /-- The lock is granted to the `i`-th waiting request. -/
  | lock (i : Nat) (storeFault : Bool)

/-- A reply as it is sent, with the row of a request that got past the gates. -/
structure Response where
  row : Option CorroborationRow
  reply : SubmitReply

variable {C : Crypto} {J : SerdeJson} {G : Nat → TokenBucket}

def Server.step (C : Crypto) (J : SerdeJson) (s : Server G) : Event → List Response × Server G
  | .arrive envelope now =>
    match gates C J s.app envelope now with
    -- refused at a gate: the answer goes out at once
    | (.error (status, error), app) => ([⟨none, .error status error⟩], { s with app })
    | (.ok row, app) => ([], { app, waiting := s.waiting ++ [row] })
  | .lock i storeFault =>
    match s.waiting[i]? with
    | none => ([], s)
    | some row =>
      let (reply, store) := commit s.app.store storeFault row
      ([⟨some row, reply⟩], { app := { s.app with store }, waiting := s.waiting.eraseIdx i })

/-- The responses of a run, in the order they are sent, and the server after it. -/
def Server.run (C : Crypto) (J : SerdeJson) (s : Server G) : List Event → List Response × Server G
  | [] => ([], s)
  | ev :: evs =>
    let (out, s) := s.step C J ev
    let (outs, s) := s.run C J evs
    (out ++ outs, s)

/-- An empty store and nobody waiting, whatever the limiters hold. -/
structure Server.Fresh (s : Server G) : Prop where
  store : s.app.store = .openInMemory
  waiting : s.waiting = []

/-- The row of an accepted response, with what it reported. -/
def Response.accepted? : Response → Option (CorroborationRow × Bool)
  | ⟨some row, .accepted new⟩ => some (row, new)
  | _ => none

/-- The accepted submissions of a run. -/
def acceptedIn (responses : List Response) : List (CorroborationRow × Bool) := responses.filterMap Response.accepted?

/-- The envelopes that arrive in a run. -/
def arrivals (evs : List Event) : List SubmitEnvelope :=
  evs.filterMap fun
    | .arrive envelope _ => some envelope
    | .lock _ _ => none

/-- Handling a request in one go is its arrival followed at once by its lock. -/
theorem handleSubmit_eq_run (state : AppState G) (req : Request) :
    (Server.run C J ⟨state, []⟩ [.arrive req.envelope req.now, .lock 0 req.storeFault]).2.app =
        (handleSubmit C J state req).2 ∧
      ((Server.run C J ⟨state, []⟩ [.arrive req.envelope req.now, .lock 0 req.storeFault]).1.map Response.reply =
        [(handleSubmit C J state req).1]) := by
  unfold handleSubmit
  simp only [Server.run, Server.step]
  rcases gates C J state req.envelope req.now with ⟨⟨status, error⟩ | row, state'⟩ <;> exact ⟨rfl, rfl⟩

/-- A granted and proven submission draws its tokens and waits with its row. -/
theorem Server.step_arrive {s : Server G} {e : SubmitEnvelope} {now : Nat}
    (hg : Granted s.app e.signed.publicKey now) (hp : Proven C J e) :
    s.step C J (.arrive e now) =
      ([], { app := s.app.draw e.signed.publicKey now, waiting := s.waiting ++ [rowOf J e.signed] }) := by
  have hgate : gates C J s.app e now = (.ok (rowOf J e.signed), s.app.draw e.signed.publicKey now) := by
    rcases gates_cases C J s.app e now with ⟨hn, -, -⟩ | ⟨hn, -, -⟩ | ⟨-, h⟩
    · exact absurd hg hn
    · exact absurd hg hn
    · rw [h, vet_ok.2 ⟨hp, rfl⟩]
  simp only [Server.step, hgate]

/-- With the lock to itself it is accepted at once. -/
theorem Server.run_submit {state : AppState G} {e : SubmitEnvelope} {now : Nat} (evs : List Event)
    (hg : Granted state e.signed.publicKey now) (hp : Proven C J e) :
    Server.run C J ⟨state, []⟩ (.arrive e now :: .lock 0 false :: evs) =
      let next : AppState G :=
        { state.draw e.signed.publicKey now with store := (state.store.upsert (rowOf J e.signed)).2 }
      (⟨some (rowOf J e.signed), .accepted (state.store.upsert (rowOf J e.signed)).1⟩ ::
        (Server.run C J ⟨next, []⟩ evs).1, (Server.run C J ⟨next, []⟩ evs).2) := by
  rw [Server.run, Server.step_arrive hg hp]
  rfl

/-! ## What a run commits -/

/-- A row is that of an arrived submission that is proven. -/
def Backed (C : Crypto) (J : SerdeJson) (arrived : List SubmitEnvelope) (row : CorroborationRow) : Prop :=
  ∃ e ∈ arrived, Proven C J e ∧ row = rowOf J e.signed

theorem Backed.mono {arrived arrived' : List SubmitEnvelope} {row : CorroborationRow}
    (h : Backed C J arrived row) (hs : arrived ⊆ arrived') : Backed C J arrived' row := by
  obtain ⟨e, he, hp⟩ := h
  exact ⟨e, hs he, hp⟩

/-- A step commits one waiting row and reports what the upsert reports, or leaves the store alone; a
row that starts to wait is that of the arriving submission. -/
theorem Server.step_cases (s : Server G) (ev : Event) :
    (acceptedIn (s.step C J ev).1 = [] ∧ (s.step C J ev).2.app.store = s.app.store ∧
      ∀ row ∈ (s.step C J ev).2.waiting, row ∈ s.waiting ∨ Backed C J (arrivals [ev]) row) ∨
    ∃ row ∈ s.waiting, acceptedIn (s.step C J ev).1 = [(row, (s.app.store.upsert row).1)] ∧
      (s.step C J ev).2.app.store = (s.app.store.upsert row).2 ∧
      ∀ row' ∈ (s.step C J ev).2.waiting, row' ∈ s.waiting := by
  cases ev with
  | arrive envelope now =>
    left
    have hstore := gates_store C J s.app envelope now
    simp only [Server.step]
    rcases hgate : gates C J s.app envelope now with ⟨⟨status, error⟩ | row, app⟩
    · rw [hgate] at hstore
      exact ⟨rfl, hstore, fun row hrow => .inl hrow⟩
    · rw [hgate] at hstore
      obtain ⟨-, hp, rfl⟩ := gates_ok.1 (congrArg Prod.fst hgate)
      refine ⟨rfl, hstore, fun row hrow => ?_⟩
      rcases List.mem_append.1 hrow with h | h
      · exact .inl h
      · exact .inr ⟨envelope, List.mem_singleton_self _, hp, List.mem_singleton.1 h⟩
  | lock i storeFault =>
    simp only [Server.step]
    cases hi : s.waiting[i]? with
    | none => exact .inl ⟨rfl, rfl, fun row hrow => .inl hrow⟩
    | some row =>
      have herase : ∀ row' ∈ s.waiting.eraseIdx i, row' ∈ s.waiting := fun row' h => List.mem_of_mem_eraseIdx h
      unfold commit
      cases storeFault with
      | true => exact .inl ⟨rfl, rfl, fun row hrow => .inl (herase row hrow)⟩
      | false => exact .inr ⟨row, List.mem_of_getElem? hi, rfl, rfl, herase⟩

theorem acceptedIn_append (a b : List Response) : acceptedIn (a ++ b) = acceptedIn a ++ acceptedIn b :=
  List.filterMap_append

theorem arrivals_cons (ev : Event) (evs : List Event) : arrivals (ev :: evs) = arrivals [ev] ++ arrivals evs := by
  show arrivals ([ev] ++ evs) = _
  exact List.filterMap_append

/-- A run's store is the store of the committed rows, in order, after those committed before; every
committed row was waiting or arrived proven; and a pattern's count grows by the responses that
reported it as new. -/
theorem Server.run_spec : ∀ (evs : List Event) (s : Server G) (hist : History),
    s.app.store = .ofHistory hist →
    (s.run C J evs).2.app.store = .ofHistory (hist ++ (acceptedIn (s.run C J evs).1).map Prod.fst) ∧
    (∀ x ∈ acceptedIn (s.run C J evs).1, x.1 ∈ s.waiting ∨ Backed C J (arrivals evs) x.1) ∧
    ∀ h, History.corroborators (hist ++ (acceptedIn (s.run C J evs).1).map Prod.fst) h =
      hist.corroborators h + (acceptedIn (s.run C J evs).1).countP fun x => x.1.patternHash = h ∧ x.2 = true
  | [], s, hist, hs => by
    simp only [Server.run, acceptedIn, List.filterMap_nil, List.map_nil, List.append_nil, List.countP_nil]
    exact ⟨hs, fun x hx => (by cases hx), fun h => rfl⟩
  | ev :: evs, s, hist, hs => by
    have hrun : (s.run C J (ev :: evs)).1 = (s.step C J ev).1 ++ ((s.step C J ev).2.run C J evs).1 := rfl
    have hfinal : (s.run C J (ev :: evs)).2 = ((s.step C J ev).2.run C J evs).2 := rfl
    rw [hrun, hfinal, acceptedIn_append, arrivals_cons, List.map_append]
    rcases Server.step_cases (C := C) (J := J) s ev with ⟨hout, hstore, hwait⟩ | ⟨row, hrow, hout, hstore, hwait⟩
    -- The step commits nothing, so the rest runs over the same history.
    · obtain ⟨ih1, ih2, ih3⟩ := run_spec evs (s.step C J ev).2 hist (hstore.trans hs)
      rw [hout, List.map_nil, List.nil_append, List.nil_append]
      refine ⟨ih1, fun x hx => ?_, ih3⟩
      rcases ih2 x hx with h | h
      · rcases hwait x.1 h with h' | h'
        · exact .inl h'
        · exact .inr (h'.mono (List.subset_append_left ..))
      · exact .inr (h.mono (List.subset_append_right ..))
    -- The step commits a row, which joins the history before the rest runs.
    · have hs' : (s.step C J ev).2.app.store = .ofHistory (hist ++ [row]) := by
        rw [hstore, hs, Store.ofHistory_snoc]
      obtain ⟨ih1, ih2, ih3⟩ := run_spec evs (s.step C J ev).2 (hist ++ [row]) hs'
      rw [hout, List.map_singleton, ← List.append_assoc]
      refine ⟨ih1, fun x hx => ?_, fun h => ?_⟩
      · rcases List.mem_append.1 hx with hx | hx
        · rw [List.mem_singleton.1 hx]; exact .inl hrow
        · rcases ih2 x hx with h | h
          · exact .inl (hwait x.1 h)
          · exact .inr (h.mono (List.subset_append_right ..))
      · have hnew : ((row.patternHash = h ∧ (s.app.store.upsert row).1 = true) ↔
            (row.patternHash = h ∧ row.publicKey ∉ hist.keysOf h)) := by
          refine and_congr_right fun he => ?_
          rw [hs, Store.upsert_new_iff, he]
        rw [ih3 h, History.corroborators_snoc, List.countP_append, List.countP_singleton, Nat.add_assoc]
        simp only [decide_eq_true_eq, hnew]

end Api

end Thundercrab
