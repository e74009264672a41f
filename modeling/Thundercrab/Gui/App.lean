/-
`main.rs` of the GUI: the state of the connection form and what each message does to it. One task at
most is in flight, and `connecting` says so; but the password leaves the state when a connection is
begun, not when it succeeds, and what is typed in between stays.
-/
import Thundercrab.Lib.Dispatch
import Thundercrab.Imap.ListFolders

namespace Thundercrab

open Lib Dispatcher Imap

namespace Gui

/-- App state. -/
structure App where
  host : String := ""
  user : String := ""
  password : String := ""
  folders : List FolderSummary := []
  /-- Status or error string for the last connection attempt. -/
  status : String := ""
  /-- True while a connect and list operation is in flight. -/
  connecting : Bool := false
  deriving DecidableEq

inductive Message where
  | hostChanged (s : String)
  | userChanged (s : String)
  | passwordChanged (s : String)
  | connect
  | connected (result : Except String (List FolderSummary))

/-- The call `connect_and_list(cfg, password)`. -/
structure ConnectAndList where
  cfg : AccountConfig
  password : String

/-- The new state, and the task to perform if there is one. -/
def App.update (app : App) : Message → App × List ConnectAndList
  | .hostChanged s => ({ app with host := s }, [])
  | .userChanged s => ({ app with user := s }, [])
  | .passwordChanged s => ({ app with password := s }, [])
  | .connect =>
    if app.connecting then (app, [])
    else
      ({ app with connecting := true, status := "Connecting…", password := "" },
        [⟨AccountConfig.plausiden app.host app.user, app.password⟩])
  | .connected (.ok folders) =>
    ({ app with connecting := false, folders := folders, status := s!"Connected. {folders.length} folders." }, [])
  | .connected (.error e) => ({ app with connecting := false, folders := [], status := s!"Failed: {e}" }, [])

/-- The app with its runtime: the task comes back as `Connected`, with any result. -/
def app : Dispatcher App Message ConnectAndList where
  start := {}
  update := App.update
  completes := fun _ m => ∃ result, m = .connected result

/-! ## One task at most -/

variable {ms : List Message} {m : Message} {c c' : Config App ConnectAndList}

/-- A step: the completion of a task in flight, or a message that is none. -/
theorem step_cases (h : Step app c m c') :
    (∃ result before t after, m = .connected result ∧ c.tasks = before ++ t :: after ∧
      c' = ⟨(c.state.update m).1, before ++ after⟩) ∨
    ((∀ result, m ≠ .connected result) ∧ c' = ⟨(c.state.update m).1, c.tasks ++ (c.state.update m).2⟩) := by
  cases h with
  | input hno => exact .inr ⟨fun result he => hno ⟨AccountConfig.plausiden "" "", ""⟩ ⟨result, he⟩, rfl⟩
  | @complete s before after t _ hdone =>
    obtain ⟨result, rfl⟩ := hdone
    refine .inl ⟨result, before, t, after, rfl, rfl, ?_⟩
    cases result <;> simp [app, App.update]

/-- A message that is no completion starts as many tasks as it makes the app go from idle to connecting. -/
theorem App.update_flight (app : App) (hno : ∀ result, m ≠ .connected result) :
    (if (app.update m).1.connecting then 1 else 0) = (if app.connecting then 1 else 0) + (app.update m).2.length := by
  cases m with
  | hostChanged s => rfl
  | userChanged s => rfl
  | passwordChanged s => rfl
  | connect =>
    unfold App.update
    cases hc : app.connecting <;> simp [hc]
  | connected result => exact absurd rfl (hno result)

theorem App.update_connected (app : App) (result : Except String (List FolderSummary)) :
    (app.update (.connected result)).1.connecting = false ∧
      (app.update (.connected result)).1.password = app.password := by
  cases result with
  | ok folders => exact ⟨rfl, rfl⟩
  | error e => exact ⟨rfl, rfl⟩

/-- `connecting` is set while a task is in flight, and there are never two. -/
def SingleFlight (c : Config App ConnectAndList) : Prop := c.tasks.length = if c.state.connecting then 1 else 0

theorem SingleFlight.step (h : SingleFlight c) (hs : Step app c m c') : SingleFlight c' := by
  unfold SingleFlight at h ⊢
  rcases step_cases hs with ⟨result, before, t, after, rfl, htasks, rfl⟩ | ⟨hno, rfl⟩
  · -- the task that came back was the only one
    rw [htasks, List.length_append, List.length_cons] at h
    have hone : before.length + (after.length + 1) ≤ 1 := by
      rw [h]
      split <;> omega
    simp only [(c.state.update_connected result).1, List.length_append]
    show before.length + after.length = 0
    omega
  · rw [List.length_append, h]
    exact (c.state.update_flight hno).symm

theorem SingleFlight.of_runs (h : app.Runs ms c) : SingleFlight c := by
  refine Runs.invariant (I := fun _ c => SingleFlight c) ?_ ?_ h
  · rfl
  · exact SingleFlight.step

theorem SingleFlight.connecting_iff (h : SingleFlight c) :
    c.tasks.length ≤ 1 ∧ (c.state.connecting = true ↔ c.tasks.length = 1) := by
  unfold SingleFlight at h
  rw [h]
  cases c.state.connecting <;> simp

/-! ## The password -/

/-- No task comes back within these messages. -/
def Quiet (ms : List Message) : Prop := ∀ result, .connected result ∉ ms

/-- While a connection is under way this password is typed, and no other after it. -/
def Typed (ms : List Message) (p : String) : Prop :=
  ∃ a b b', ms = a ++ .connect :: (b ++ .passwordChanged p :: b') ∧ Quiet b ∧ Quiet b' ∧
    ∀ q, .passwordChanged q ∉ b'

/-- The connection under way has begun. -/
def Begun (ms : List Message) : Prop := ∃ a b, ms = a ++ .connect :: b ∧ Quiet b

/-- A connection succeeds, after this password was typed while it was under way. -/
def Retyped (ms : List Message) (p : String) : Prop :=
  ∃ pre folders, pre ++ [.connected (.ok folders)] <+: ms ∧ Typed pre p

theorem Quiet.concat {b : List Message} (h : Quiet b) (hno : ∀ result, m ≠ .connected result) : Quiet (b ++ [m]) := by
  intro result hm
  rcases List.mem_append.1 hm with hm | hm
  · exact h result hm
  · exact hno result (List.mem_singleton.1 hm).symm

theorem Begun.concat (h : Begun ms) (hno : ∀ result, m ≠ .connected result) : Begun (ms ++ [m]) := by
  obtain ⟨a, b, rfl, hb⟩ := h
  exact ⟨a, b ++ [m], by simp, hb.concat hno⟩

theorem Typed.concat {p : String} (h : Typed ms p) (hno : ∀ result, m ≠ .connected result)
    (hnp : ∀ q, m ≠ .passwordChanged q) : Typed (ms ++ [m]) p := by
  obtain ⟨a, b, b', rfl, hb, hb', hlast⟩ := h
  refine ⟨a, b, b' ++ [m], by simp, hb, hb'.concat hno, fun q hq => ?_⟩
  rcases List.mem_append.1 hq with hq | hq
  · exact hlast q hq
  · exact hnp q (List.mem_singleton.1 hq).symm

theorem Begun.typed (h : Begun ms) (p : String) : Typed (ms ++ [.passwordChanged p]) p := by
  obtain ⟨a, b, rfl, hb⟩ := h
  exact ⟨a, b, [], by simp, hb, nofun, nofun⟩

/-- While a connection is under way, what the field holds was typed since it began. -/
structure UnderWay (ms : List Message) (app : App) : Prop where
  begun : app.connecting = true → Begun ms
  typed : app.connecting = true → app.password ≠ "" → Typed ms app.password

theorem UnderWay.step {a : App} (h : UnderWay ms a) (m : Message) : UnderWay (ms ++ [m]) (a.update m).1 := by
  cases m with
  | hostChanged s =>
    exact ⟨fun hc => (h.begun hc).concat nofun, fun hc hp => (h.typed hc hp).concat nofun nofun⟩
  | userChanged s =>
    exact ⟨fun hc => (h.begun hc).concat nofun, fun hc hp => (h.typed hc hp).concat nofun nofun⟩
  | passwordChanged s =>
    exact ⟨fun hc => (h.begun hc).concat nofun, fun hc _ => (h.begun hc).typed s⟩
  | connect =>
    unfold App.update
    by_cases hc : a.connecting = true
    · simp only [hc, if_true]
      exact ⟨fun _ => (h.begun hc).concat nofun, fun _ hp => (h.typed hc hp).concat nofun nofun⟩
    · simp only [hc]
      exact ⟨fun _ => ⟨ms, [], rfl, nofun⟩, fun _ hp => absurd rfl hp⟩
  | connected result =>
    have hidle := (a.update_connected result).1
    exact ⟨fun hc => absurd (hidle ▸ hc) Bool.false_ne_true, fun hc => absurd (hidle ▸ hc) Bool.false_ne_true⟩

theorem UnderWay.of_runs (h : app.Runs ms c) : UnderWay ms c.state := by
  refine Runs.invariant (I := fun ms c => UnderWay ms c.state) ?_ ?_ h
  · exact ⟨nofun, nofun⟩
  · intro ms m c c' ih hs
    rw [hs.state]
    exact ih.step m

theorem App.update_connecting {a : App} (hc : a.connecting = true) (hno : ∀ result, m ≠ .connected result) :
    (a.update m).1.connecting = true := by
  cases m with
  | hostChanged s => exact hc
  | userChanged s => exact hc
  | passwordChanged s => exact hc
  | connect =>
    rw [App.update, if_pos hc]
    exact hc
  | connected result => exact absurd rfl (hno result)

theorem App.update_password {a : App} (hc : a.connecting = true) (hnp : ∀ q, m ≠ .passwordChanged q) :
    (a.update m).1.password = a.password := by
  cases m with
  | hostChanged s => rfl
  | userChanged s => rfl
  | passwordChanged s => exact absurd rfl (hnp s)
  | connect => rw [App.update, if_pos hc]
  | connected result => exact (a.update_connected result).2

/-- The state after more messages. -/
def App.run (a : App) (ms : List Message) : App := ms.foldl (fun a m => (a.update m).1) a

theorem App.run_connecting {b : List Message} (hb : Quiet b) : ∀ {a : App}, a.connecting = true →
    (a.run b).connecting = true := by
  induction b with
  | nil => exact id
  | cons m b ih =>
    intro a hc
    exact ih (fun result hm => hb result (List.mem_cons_of_mem _ hm))
      (App.update_connecting hc fun result he => hb result (he ▸ List.mem_cons_self))

theorem App.run_password {b : List Message} (hb : Quiet b) (hnp : ∀ q, .passwordChanged q ∉ b) : ∀ {a : App},
    a.connecting = true → (a.run b).password = a.password := by
  induction b with
  | nil => exact fun _ => rfl
  | cons m b ih =>
    intro a hc
    have hc' := App.update_connecting hc fun result he => hb result (he ▸ List.mem_cons_self)
    calc ((a.update m).1.run b).password
        = (a.update m).1.password :=
          ih (fun result hm => hb result (List.mem_cons_of_mem _ hm))
            (fun q hm => hnp q (List.mem_cons_of_mem _ hm)) hc'
      _ = a.password := App.update_password hc fun q he => hnp q (he ▸ List.mem_cons_self)

/-- What was typed while the connection was under way is what the field holds. -/
theorem Typed.password {p : String} (ht : Typed ms p) (h : app.Runs ms c) : c.state.password = p := by
  obtain ⟨a, b, b', rfl, hb, hb', hlast⟩ := ht
  have hbegun : ((App.run {} a).update .connect).1.connecting = true := by
    unfold App.update
    by_cases hc : (App.run {} a).connecting = true
    · simp only [hc, if_true]
    · simp only [hc]
      rfl
  have htyped : ((((App.run {} a).update .connect).1.run b).update (.passwordChanged p)).1.connecting = true :=
    App.run_connecting hb hbegun
  have hafter : app.after (a ++ .connect :: (b ++ .passwordChanged p :: b')) =
      ((((App.run {} a).update .connect).1.run b).update (.passwordChanged p)).1.run b' := by
    rw [Dispatcher.after, List.foldl_append, List.foldl_cons, List.foldl_append, List.foldl_cons]
    rfl
  rw [h.state, hafter, App.run_password hb' hlast htyped]
  rfl

/-! ## Runs -/

/-- At each moment there is one task at most, and `connecting` says whether there is one; after a
successful connection the password field is empty. -/
structure Orderly (ms : List Message) : Prop where
  flight : ∀ pre c, pre <+: ms → app.Runs pre c →
    c.tasks.length ≤ 1 ∧ (c.state.connecting = true ↔ c.tasks.length = 1)
  cleared : ∀ pre folders c, pre ++ [.connected (.ok folders)] <+: ms →
    app.Runs (pre ++ [.connected (.ok folders)]) c → c.state.password = ""

/-- In every run there is one task at most, with `connecting`; and the field is empty after each
successful connection exactly when nothing else was last typed into it since the connection began. -/
theorem orderly_iff (ms : List Message) (c : Config App ConnectAndList) (h : app.Runs ms c) :
    Orderly ms ↔ ∀ p, Retyped ms p → p = "" := by
  constructor
  · rintro ⟨-, hcleared⟩ p ⟨pre, folders, hpre, ht⟩
    obtain ⟨c', h'⟩ := h.cut hpre
    obtain ⟨c₀, h₀, hs⟩ := h'.last
    calc p = c₀.state.password := (ht.password h₀).symm
      _ = (c₀.state.update (.connected (.ok folders))).1.password := rfl
      _ = c'.state.password := congrArg App.password hs.state.symm
      _ = "" := hcleared pre folders c' hpre h'
  · intro hre
    refine ⟨fun pre c' _ h' => (SingleFlight.of_runs h').connecting_iff, fun pre folders c' hpre h' => ?_⟩
    obtain ⟨c₀, h₀, hs⟩ := h'.last
    -- the completion is of a task, so the app was connecting
    have hconn : c₀.state.connecting = true := by
      rcases step_cases hs with ⟨result, before, t, after, -, htasks, -⟩ | ⟨hno, -⟩
      · have hle := (SingleFlight.of_runs h₀).connecting_iff
        rw [htasks, List.length_append, List.length_cons] at hle
        exact hle.2.2 (by omega)
      · exact absurd rfl (hno _)
    have hsame : c'.state.password = c₀.state.password := by
      rw [hs.state]
      rfl
    rw [hsame]
    by_cases hp : c₀.state.password = ""
    · exact hp
    · exact hre _ ⟨pre, folders, hpre, (UnderWay.of_runs h₀).typed hconn hp⟩

theorem connect_orderly : Orderly [.hostChanged "mail", .connect, .connected (.ok [])] := by
  refine (orderly_iff [.hostChanged "mail", .connect, .connected (.ok [])] _
    (.step (.step (.step .start (.input nofun)) (.input nofun)) (.only ⟨.ok [], rfl⟩))).2 ?_
  rintro p ⟨pre, folders, hpre, a, b, b', rfl, -⟩
  have hmem : Message.passwordChanged p ∈ [Message.hostChanged "mail", .connect, .connected (.ok [])] :=
    hpre.subset (by simp)
  simp at hmem

/-- A password typed while the connection is under way. -/
theorem retyped_not_cleared : ¬ ∀ (ms : List Message) (c : Config App ConnectAndList), app.Runs ms c → Orderly ms := by
  intro hall
  have h1 : app.Runs [.connect] ⟨_, [_]⟩ := .step .start (.input nofun)
  have h2 : app.Runs [.connect, .passwordChanged "x"] ⟨_, [_]⟩ := .step h1 (.input nofun)
  have h3 : app.Runs [.connect, .passwordChanged "x", .connected (.ok [])] ⟨_, _⟩ :=
    .step h2 (.only ⟨.ok [], rfl⟩)
  have hempty := (hall _ _ h3).cleared [.connect, .passwordChanged "x"] [] _ List.prefix_rfl h3
  exact absurd hempty (by decide)

end Gui

end Thundercrab
