/-
Programs that update their state message by message and start tasks as they do. A task in flight
comes back, at any time, as one more message. What holds at the start and after every update holds
after every run, whatever comes in between.
-/
namespace Lib

/-- States, messages, and tasks that come back as messages. -/
structure Dispatcher (σ μ τ : Type) where
  start : σ
  update : σ → μ → σ × List τ
  /-- The task may come back as this message. -/
  completes : τ → μ → Prop

namespace Dispatcher

/-- A state with the tasks in flight. -/
structure Config (σ τ : Type) where
  state : σ
  tasks : List τ

variable {σ μ τ : Type} {D : Dispatcher σ μ τ} {ms ms' : List μ} {m : μ} {c c' : Config σ τ}

/-- One message, of a task in flight or from outside. -/
inductive Step (D : Dispatcher σ μ τ) : Config σ τ → μ → Config σ τ → Prop where
  | input {s : σ} {ts : List τ} {m : μ} : (∀ t, ¬ D.completes t m) →
      Step D ⟨s, ts⟩ m ⟨(D.update s m).1, ts ++ (D.update s m).2⟩
  | complete {s : σ} {before after : List τ} {t : τ} {m : μ} : D.completes t m →
      Step D ⟨s, before ++ t :: after⟩ m ⟨(D.update s m).1, before ++ after ++ (D.update s m).2⟩

/-- A run: its messages, and the state and tasks they lead to. -/
inductive Runs (D : Dispatcher σ μ τ) : List μ → Config σ τ → Prop where
  | start : Runs D [] ⟨D.start, []⟩
  | step {ms : List μ} {m : μ} {c c' : Config σ τ} : Runs D ms c → Step D c m c' → Runs D (ms ++ [m]) c'

/-- The only task in flight comes back. -/
theorem Step.only {s : σ} {t : τ} (h : D.completes t m) : Step D ⟨s, [t]⟩ m ⟨(D.update s m).1, (D.update s m).2⟩ :=
  @Step.complete _ _ _ D s [] [] t m h

/-- The state after some messages. -/
def after (D : Dispatcher σ μ τ) (ms : List μ) : σ := ms.foldl (fun s m => (D.update s m).1) D.start

theorem after_concat : D.after (ms ++ [m]) = (D.update (D.after ms) m).1 := by
  rw [after, List.foldl_append]
  rfl

theorem Step.state (h : Step D c m c') : c'.state = (D.update c.state m).1 := by
  cases h with
  | input _ => rfl
  | complete _ => rfl

theorem Runs.state (h : Runs D ms c) : c.state = D.after ms := by
  induction h with
  | start => rfl
  | step _ hstep ih => rw [hstep.state, ih, after_concat]

/-- What holds at the start and is kept by every step holds after every run. -/
theorem Runs.invariant {I : List μ → Config σ τ → Prop} (hstart : I [] ⟨D.start, []⟩)
    (hstep : ∀ {ms : List μ} {m : μ} {c c' : Config σ τ}, I ms c → Step D c m c' → I (ms ++ [m]) c')
    (h : Runs D ms c) : I ms c := by
  induction h with
  | start => exact hstart
  | step _ hs ih => exact hstep ih hs

/-- A run is cut short to a run. -/
theorem Runs.cut (h : Runs D ms c) (hp : ms' <+: ms) : ∃ c', Runs D ms' c' := by
  induction h with
  | start =>
    rw [List.prefix_nil.1 hp]
    exact ⟨_, .start⟩
  | step hrun hstep ih =>
    rcases List.prefix_concat_iff.1 hp with rfl | hp
    · exact ⟨_, .step hrun hstep⟩
    · exact ih hp

/-- The last step of a run. -/
theorem Runs.last (h : Runs D (ms ++ [m]) c') : ∃ c, Runs D ms c ∧ Step D c m c' := by
  generalize hms : ms ++ [m] = all at h
  cases h with
  | start => exact absurd hms (List.append_ne_nil_of_right_ne_nil _ (List.cons_ne_nil _ _))
  | step hrun hstep =>
    obtain ⟨rfl, hm⟩ := List.append_inj' hms rfl
    cases hm
    exact ⟨_, hrun, hstep⟩

end Dispatcher

end Lib
