/-
Computations that record what they do: each has the list of its events and stops at its first
failure. A computation follows an order of steps when its events take these steps one after
another, each event but a last one good, and it fails exactly when that last one is not good.
-/
import Mathlib.Data.List.Forall2

namespace Lib

structure Traced (ε E α : Type) where
  result : Except ε α
  trace : List E

namespace Traced

variable {ε E α β γ S : Type}

def bind (m : Traced ε E α) (f : α → Traced ε E β) : Traced ε E β :=
  match m.result with
  | .ok a => ⟨(f a).result, m.trace ++ (f a).trace⟩
  | .error e => ⟨.error e, m.trace⟩

instance : Monad (Traced ε E) where
  pure a := ⟨.ok a, []⟩
  bind := bind

/-- Go on whatever comes of it (`let _ = …`). -/
def ignore (m : Traced ε E α) : Traced ε E Unit := ⟨.ok (), m.trace⟩

theorem bind_ok {m : Traced ε E α} {f : α → Traced ε E β} {a : α} (h : m.result = .ok a) :
    m >>= f = ⟨(f a).result, m.trace ++ (f a).trace⟩ := by
  show bind m f = _
  rw [bind, h]

theorem bind_error {m : Traced ε E α} {f : α → Traced ε E β} {e : ε} (h : m.result = .error e) :
    m >>= f = ⟨.error e, m.trace⟩ := by
  show bind m f = _
  rw [bind, h]

theorem bind_assoc (m : Traced ε E α) (f : α → Traced ε E β) (g : β → Traced ε E γ) :
    m >>= f >>= g = m >>= fun a => f a >>= g := by
  cases hm : m.result with
  | error e => rw [bind_error hm, bind_error hm, bind_error rfl]
  | ok a =>
    rw [bind_ok hm, bind_ok hm]
    cases hf : (f a).result with
    | error e => rw [bind_error hf, bind_error rfl]
    | ok b =>
      rw [bind_ok hf, bind_ok rfl]
      simp only [List.append_assoc]

theorem bind_eq_ok {m : Traced ε E α} {f : α → Traced ε E β} {b : β} (h : (m >>= f).result = .ok b) :
    ∃ a, m.result = .ok a ∧ (f a).result = .ok b ∧ (m >>= f).trace = m.trace ++ (f a).trace := by
  cases hm : m.result with
  | error e =>
    rw [bind_error hm] at h
    cases h
  | ok a =>
    rw [bind_ok hm] at h ⊢
    exact ⟨a, rfl, h, rfl⟩

theorem bind_ok_iff {m : Traced ε E α} {f : α → Traced ε E β} {b : β} :
    (m >>= f).result = .ok b ↔ ∃ a, m.result = .ok a ∧ (f a).result = .ok b := by
  constructor
  · intro h
    obtain ⟨a, ha, hb, -⟩ := bind_eq_ok h
    exact ⟨a, ha, hb⟩
  · rintro ⟨a, ha, hb⟩
    rw [bind_ok ha]
    exact hb

theorem mem_bind {m : Traced ε E α} {f : α → Traced ε E β} {e : E} (h : e ∈ (m >>= f).trace) :
    e ∈ m.trace ∨ ∃ a, m.result = .ok a ∧ e ∈ (f a).trace := by
  cases hm : m.result with
  | error x =>
    rw [bind_error hm] at h
    exact .inl h
  | ok a =>
    rw [bind_ok hm] at h
    exact (List.mem_append.1 h).imp_right fun h => ⟨a, rfl, h⟩

/-! ## Order -/

section Order

variable (step : E → S) (good : E → Prop)

/-- The steps are taken in order, and after an event that is not good there is no other. -/
def Ordered (order : List S) (t : List E) : Prop :=
  ∀ p e q, t = p ++ e :: q → p.map step ++ [step e] <+: order ∧ ∀ x ∈ p, good x

/-- All steps are taken and every event is good, or the last event is not. -/
structure Follows (order : List S) (m : Traced ε E α) : Prop where
  ok : ∀ a, m.result = .ok a → m.trace.map step = order ∧ ∀ e ∈ m.trace, good e
  error : ∀ x, m.result = .error x →
    ∃ p e, m.trace = p ++ [e] ∧ m.trace.map step <+: order ∧ (∀ x ∈ p, good x) ∧ ¬ good e

variable {step good} {order order' : List S} {m : Traced ε E α} {f : α → Traced ε E β}

theorem follows_done {e : E} {a : α} {s : S} (hs : step e = s) (hg : good e) :
    Follows step good [s] (⟨.ok a, [e]⟩ : Traced ε E α) := by
  constructor
  · intro _ _
    exact ⟨by rw [List.map_singleton, hs], fun x hx => List.mem_singleton.1 hx ▸ hg⟩
  · intro _ h
    cases h

theorem follows_failed {e : E} {x : ε} {s : S} (hs : step e = s) (hg : ¬ good e) :
    Follows step good [s] (⟨.error x, [e]⟩ : Traced ε E α) := by
  constructor
  · intro _ h
    cases h
  · intro _ _
    refine ⟨[], e, rfl, ?_, fun y hy => absurd hy List.not_mem_nil, hg⟩
    exact hs ▸ List.prefix_refl _

theorem Follows.bind (hm : Follows step good order m) (hf : ∀ a, Follows step good order' (f a)) :
    Follows step good (order ++ order') (m >>= f) := by
  cases h : m.result with
  | error x =>
    rw [bind_error h]
    constructor
    · intro _ hok
      cases hok
    · intro _ _
      obtain ⟨p, e, ht, hpre, hgood, hbad⟩ := hm.error x h
      exact ⟨p, e, ht, hpre.trans (List.prefix_append _ _), hgood, hbad⟩
  | ok a =>
    rw [bind_ok h]
    obtain ⟨hs, hg⟩ := hm.ok a h
    constructor
    · intro b hb
      obtain ⟨hs', hg'⟩ := (hf a).ok b hb
      refine ⟨by rw [List.map_append, hs, hs'], ?_⟩
      intro e he
      exact (List.mem_append.1 he).elim (hg e) (hg' e)
    · intro x hx
      obtain ⟨p, e, ht, hpre, hgood, hbad⟩ := (hf a).error x hx
      -- All of `m` went well, so the first event that is not good is the last one of `f a`.
      refine ⟨m.trace ++ p, e, by rw [ht, List.append_assoc], ?_, ?_, hbad⟩
      · rw [List.map_append, hs]
        exact (List.prefix_append_right_inj _).2 hpre
      · intro y hy
        exact (List.mem_append.1 hy).elim (hg y) (hgood y)

theorem Ordered.mem {t : List E} {e : E} (h : Ordered step good order t) (he : e ∈ t) : step e ∈ order := by
  obtain ⟨p, q, rfl⟩ := List.append_of_mem he
  exact (h p e q rfl).1.subset (by simp)

theorem Ordered.stops {t p q : List E} {e : E} (h : Ordered step good order t) (ht : t = p ++ e :: q)
    (hbad : ¬ good e) : q = [] := by
  cases q with
  | nil => rfl
  | cons x q =>
    have := (h (p ++ [e]) x q (by rw [ht, List.append_assoc]; rfl)).2 e (by simp)
    exact absurd this hbad

/-- Of a list only the last element may fail to be good. -/
theorem good_of_split {t p q : List E} {x e : E} (hg : ∀ y ∈ t, good y) (h : t ++ [x] = p ++ e :: q) :
    ∀ y ∈ p, good y := by
  rcases List.eq_nil_or_concat q with rfl | ⟨q, z, rfl⟩
  · have := (List.append_inj' h rfl).1
    rwa [← this]
  · rw [List.concat_eq_append, ← List.cons_append, ← List.append_assoc] at h
    have := (List.append_inj' h rfl).1
    intro y hy
    exact hg y (by rw [this]; exact List.mem_append_left _ hy)

theorem ordered_of_steps {t : List E} (hp : t.map step <+: order)
    (hg : ∀ p e q, t = p ++ e :: q → ∀ y ∈ p, good y) : Ordered step good order t := by
  rintro p e q rfl
  refine ⟨?_, hg p e q rfl⟩
  refine List.IsPrefix.trans ?_ hp
  exact ⟨q.map step, by simp⟩

theorem Follows.ordered (hm : Follows step good order m) : Ordered step good order m.trace := by
  cases h : m.result with
  | error x =>
    obtain ⟨p, e, ht, hpre, hgood, -⟩ := hm.error x h
    refine ordered_of_steps hpre ?_
    rw [ht]
    intro p' e' q' h
    exact good_of_split hgood h
  | ok a =>
    obtain ⟨hs, hg⟩ := hm.ok a h
    refine ordered_of_steps (hs ▸ List.prefix_refl _) ?_
    rintro p e q ht y hy
    exact hg y (by rw [ht]; exact List.mem_append_left _ hy)

/-- A last step that is taken whatever comes of it keeps the order. -/
theorem Follows.ordered_ignore {s : S} (hm : Follows step good order m)
    (hf : ∀ a, ∃ e, (f a).trace = [e] ∧ step e = s) :
    Ordered step good (order ++ [s]) (m >>= fun a => (f a).ignore).trace := by
  cases h : m.result with
  | error x =>
    rw [bind_error h]
    rintro p e q ht
    obtain ⟨hp, hg⟩ := hm.ordered p e q ht
    exact ⟨hp.trans (List.prefix_append _ _), hg⟩
  | ok a =>
    rw [bind_ok h]
    obtain ⟨hs, hg⟩ := hm.ok a h
    obtain ⟨e, he, hse⟩ := hf a
    simp only [ignore, he]
    have hsteps : (m.trace ++ [e]).map step = order ++ [s] := by
      rw [List.map_append, hs, List.map_singleton, hse]
    exact ordered_of_steps (hsteps ▸ List.prefix_refl _) fun p e q ht => good_of_split hg ht

end Order

/-! ## Two runs -/

section Alike

variable (R : E → E → Prop)

/-- Events that correspond, and equal values or two failures. -/
structure Alike (m m' : Traced ε E α) : Prop where
  trace : List.Forall₂ R m.trace m'.trace
  result : (∃ a, m.result = .ok a ∧ m'.result = .ok a) ∨ ∃ x x', m.result = .error x ∧ m'.result = .error x'

variable {R} {m m' : Traced ε E α} {f f' : α → Traced ε E β}

theorem Alike.refl (hR : ∀ e, R e e) (m : Traced ε E α) : Alike R m m := by
  refine ⟨List.forall₂_same.2 fun e _ => hR e, ?_⟩
  cases m.result with
  | error x => exact Or.inr ⟨x, x, rfl, rfl⟩
  | ok a => exact Or.inl ⟨a, rfl, rfl⟩

theorem Alike.bind (hm : Alike R m m') (hf : ∀ a, Alike R (f a) (f' a)) : Alike R (m >>= f) (m' >>= f') := by
  rcases hm.result with ⟨a, h, h'⟩ | ⟨x, x', h, h'⟩
  · rw [bind_ok h, bind_ok h']
    exact ⟨List.rel_append hm.trace (hf a).trace, (hf a).result⟩
  · rw [bind_error h, bind_error h']
    exact ⟨hm.trace, Or.inr ⟨x, x', rfl, rfl⟩⟩

end Alike

end Traced

end Lib
