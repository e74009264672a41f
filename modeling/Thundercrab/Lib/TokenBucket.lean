/-
Token buckets: a limiter holds a number of tokens that only grows while nobody draws from it, a
check draws one token when there is one and is refused without effect when there is none. Two
buckets are compared by what they hold from some time on; a drawn-from bucket never holds more, and
drawing from both keeps the comparison. A metered bucket gains one token a period at most, so that
the tokens drawn from it in a stretch of time are those it can hold and one for each period that
passes; a replenished one gains one a period at least, so that draws that come no faster than that
all find a token.
-/
import Mathlib.Order.Basic
import Mathlib.Tactic.ByContra

namespace Lib

/-- A token bucket over natural-number time. -/
structure TokenBucket where
  State : Type
  full : State
  tokens : State → Nat → Nat
  take : State → Nat → State
  /-- A check that is granted draws one token. -/
  tokens_take : ∀ s t, 0 < tokens s t → tokens (take s t) t + 1 = tokens s t
  /-- Drawing never adds tokens at a later time. -/
  take_le : ∀ s t t', t ≤ t' → tokens (take s t) t' ≤ tokens s t'
  /-- Of two buckets the one that holds less holds less after both are drawn from. -/
  take_mono : ∀ s s' t, (∀ t', t ≤ t' → tokens s t' ≤ tokens s' t') → 0 < tokens s t →
    ∀ t', t ≤ t' → tokens (take s t) t' ≤ tokens (take s' t) t'

namespace TokenBucket

variable (G : TokenBucket)

/-- One check: the bucket after it, or `none` when the check is refused. -/
def check (s : G.State) (t : Nat) : Option G.State := if 0 < G.tokens s t then some (G.take s t) else none

/-- From time `t` on, `s` holds no more tokens than `s'`. -/
def Below (t : Nat) (s s' : G.State) : Prop := ∀ t', t ≤ t' → G.tokens s t' ≤ G.tokens s' t'

variable {G} {s s' : G.State} {t t' : Nat}

theorem check_eq_some {u : G.State} : G.check s t = some u ↔ 0 < G.tokens s t ∧ u = G.take s t := by
  unfold check
  split
  · rename_i h
    constructor
    · intro hu; exact ⟨h, (Option.some.inj hu).symm⟩
    · rintro ⟨-, rfl⟩; rfl
  · rename_i h
    constructor
    · intro hu; cases hu
    · rintro ⟨hp, -⟩; exact absurd hp h

theorem check_eq_none : G.check s t = none ↔ G.tokens s t = 0 := by
  unfold check
  split
  · rename_i h
    constructor
    · intro hn; cases hn
    · intro hz; omega
  · rename_i h
    constructor
    · intro _; omega
    · intro _; rfl

theorem Below.refl (t : Nat) (s : G.State) : G.Below t s s := fun _ _ => Nat.le_refl _

theorem Below.mono (h : G.Below t s s') (ht : t ≤ t') : G.Below t' s s' :=
  fun u hu => h u (Nat.le_trans ht hu)

theorem below_take (s : G.State) (t : Nat) : G.Below t (G.take s t) s := fun t' ht => G.take_le s t t' ht

/-- What the lower bucket can draw the upper one can, and the comparison holds on. -/
theorem Below.take (h : G.Below t s s') (hpos : 0 < G.tokens s t) :
    0 < G.tokens s' t ∧ G.Below t (G.take s t) (G.take s' t) :=
  ⟨Nat.lt_of_lt_of_le hpos (h t (Nat.le_refl t)), G.take_mono s s' t h hpos⟩

end TokenBucket

/-! ## The generic cell rate algorithm

The state is the theoretical arrival time: the bucket is full when it lies in the past, and each
granted check moves it `period` further. -/

section Gcra

variable (period burst : Nat)

/-- Whole periods between the theoretical arrival time and the end of the burst window. -/
def gcraTokens (tat t : Nat) : Nat := (t + period * burst - max tat t) / period

theorem gcra_tokens_take (tat t : Nat) (h : 0 < gcraTokens period burst tat t) :
    gcraTokens period burst (max tat t + period) t + 1 = gcraTokens period burst tat t := by
  unfold gcraTokens at h ⊢
  have hp : 0 < period := by
    rcases Nat.eq_zero_or_pos period with h0 | h0
    · rw [h0, Nat.div_zero] at h; cases h
    · exact h0
  have hle : period ≤ t + period * burst - max tat t := by
    by_contra hlt
    rw [Nat.div_eq_of_lt (by omega)] at h; cases h
  have hsub : t + period * burst - max (max tat t + period) t = t + period * burst - max tat t - period := by
    omega
  rw [hsub, ← Nat.add_div_right _ hp, Nat.sub_add_cancel hle]

theorem gcra_take_le (tat t t' : Nat) (_ : t ≤ t') :
    gcraTokens period burst (max tat t + period) t' ≤ gcraTokens period burst tat t' :=
  Nat.div_le_div_right (by omega)

theorem gcra_take_mono (tat tat' t : Nat)
    (h : ∀ t', t ≤ t' → gcraTokens period burst tat t' ≤ gcraTokens period burst tat' t')
    (hpos : 0 < gcraTokens period burst tat t) (t' : Nat) (_ : t ≤ t') :
    gcraTokens period burst (max tat t + period) t' ≤ gcraTokens period burst (max tat' t + period) t' := by
  unfold gcraTokens at *
  have hp : 0 < period := by
    rcases Nat.eq_zero_or_pos period with h0 | h0
    · rw [h0, Nat.div_zero] at hpos; cases hpos
    · exact h0
  -- at its own arrival time the lower bucket is full, so the upper one has arrived there too
  have hfull : burst ≤ (max tat t + period * burst - max tat' (max tat t)) / period := by
    have hm := h (max tat t) (Nat.le_max_right ..)
    rw [Nat.max_eq_right (Nat.le_max_left ..), Nat.add_sub_cancel_left, Nat.mul_div_cancel_left _ hp] at hm
    exact hm
  have hwin : 0 < period * burst := by
    have := Nat.div_pos_iff.1 hpos
    omega
  have harr : max tat' t ≤ max tat t := by
    have := (Nat.le_div_iff_mul_le hp).1 hfull
    rw [Nat.mul_comm burst] at this
    omega
  exact Nat.div_le_div_right (by omega)

/-- A bucket of `burst` tokens that gets one back every `period`. -/
def TokenBucket.gcra : TokenBucket where
  State := Nat
  full := 0
  tokens := gcraTokens period burst
  take tat t := max tat t + period
  tokens_take := gcra_tokens_take period burst
  take_le := gcra_take_le period burst
  take_mono := gcra_take_mono period burst

theorem gcra_tokens_full (t : Nat) (hp : 0 < period) :
    (TokenBucket.gcra period burst).tokens (TokenBucket.gcra period burst).full t = burst := by
  show (t + period * burst - max 0 t) / period = burst
  rw [Nat.zero_max, Nat.add_sub_cancel_left, Nat.mul_div_cancel_left _ hp]

end Gcra

/-! ## Metered buckets -/

/-- A bucket that holds `burst` tokens at most and gains one a `period` at most. The credit of a state
is what it holds in time: a token is worth a period. -/
structure TokenBucket.Metered (G : TokenBucket) (period burst : Nat) where
  credit : G.State → Nat → Nat
  le_full : ∀ s t, credit s t ≤ period * burst
  drip : ∀ s t t', t ≤ t' → credit s t' ≤ credit s t + (t' - t)
  /-- A token that is drawn costs a period. -/
  spend : ∀ s t, 0 < G.tokens s t → credit (G.take s t) t + period ≤ credit s t

namespace TokenBucket

variable {G : TokenBucket} {period burst : Nat}

/-- The states after drawing at these times, one after another. -/
def drawAll (G : TokenBucket) (s : G.State) (ts : List Nat) : G.State := ts.foldl G.take s

/-- Each draw finds a token. -/
def Draws (G : TokenBucket) : G.State → List Nat → Prop
  | _, [] => True
  | s, t :: ts => 0 < G.tokens s t ∧ Draws G (G.take s t) ts

theorem draws_append {us : List Nat} : ∀ (ts : List Nat) {s : G.State},
    G.Draws s (ts ++ us) ↔ G.Draws s ts ∧ G.Draws (G.drawAll s ts) us
  | [], _ => (and_iff_right trivial).symm
  | _ :: ts, _ => by
    rw [List.cons_append, Draws, Draws, draws_append ts, and_assoc]
    rfl

/-- An upper bucket can draw what a lower one can. -/
theorem Draws.mono : ∀ {ts : List Nat} {s s' : G.State} {t₀ : Nat}, (t₀ :: ts).Pairwise (· ≤ ·) → G.Below t₀ s s' →
    G.Draws s ts → G.Draws s' ts
  | [], _, _, _, _, _, _ => trivial
  | t :: ts, s, s', t₀, hsorted, hbelow, ⟨htoken, hdraws⟩ => by
    obtain ⟨hfirst, hrest⟩ := List.pairwise_cons.1 hsorted
    obtain ⟨htoken', hbelow'⟩ := (hbelow.mono (hfirst t List.mem_cons_self)).take htoken
    exact ⟨htoken', Draws.mono hrest hbelow' hdraws⟩

/-- A bucket that serves all of the times serves some of them. -/
theorem Draws.sublist {us : List Nat} : ∀ {ts : List Nat} {s : G.State}, us.Sublist ts → ts.Pairwise (· ≤ ·) →
    G.Draws s ts → G.Draws s us := by
  intro ts s hsub
  induction hsub generalizing s with
  | slnil => exact fun _ _ => trivial
  | cons t hsub ih =>
    rintro hsorted ⟨-, hdraws⟩
    exact Draws.mono (hsorted.sublist (hsub.cons_cons t)) (below_take s t) (ih (List.pairwise_cons.1 hsorted).2 hdraws)
  | cons_cons t _ ih =>
    rintro hsorted ⟨htoken, hdraws⟩
    exact ⟨htoken, ih (List.pairwise_cons.1 hsorted).2 hdraws⟩

/-- What is drawn until some time was there at the start or has dripped in since. -/
theorem Metered.drawn_le (M : G.Metered period burst) {t₁ : Nat} : ∀ {ts : List Nat} {s : G.State} {t₀ : Nat},
    (t₀ :: ts).Pairwise (· ≤ ·) → (∀ t ∈ ts, t ≤ t₁) → G.Draws s ts →
      period * ts.length + M.credit (G.drawAll s ts) (max t₀ t₁) ≤ M.credit s t₀ + (t₁ - t₀)
  | [], s, t₀, _, _, _ => by
    have := M.drip s t₀ (max t₀ t₁) (Nat.le_max_left ..)
    simp only [List.length_nil, Nat.mul_zero, Nat.zero_add, drawAll, List.foldl_nil]
    omega
  | t :: ts, s, t₀, hsorted, hlast, ⟨htoken, hdraws⟩ => by
    obtain ⟨hfirst, hrest⟩ := List.pairwise_cons.1 hsorted
    have ih := M.drawn_le (s := G.take s t) hrest (fun t' ht' => hlast t' (List.mem_cons_of_mem _ ht')) hdraws
    have ht := hfirst t (List.mem_cons_self ..)
    have ht₁ := hlast t (List.mem_cons_self ..)
    have hdrip := M.drip s t₀ t ht
    have hspend := M.spend s t htoken
    have hmax : max t t₁ = max t₀ t₁ := by omega
    rw [hmax] at ih
    rw [List.length_cons, Nat.mul_succ, drawAll, List.foldl_cons]
    unfold drawAll at ih
    omega

/-- Between two times no more is drawn than the bucket can hold and what drips in. -/
theorem Metered.length_le (M : G.Metered period burst) (hp : 0 < period) {ts : List Nat} {s : G.State} {t₀ t₁ : Nat}
    (hsorted : (t₀ :: ts).Pairwise (· ≤ ·)) (hlast : ∀ t ∈ ts, t ≤ t₁) (hdraws : G.Draws s ts) :
    ts.length ≤ burst + (t₁ - t₀) / period := by
  have hdrawn := M.drawn_le hsorted hlast hdraws
  have hfull := M.le_full s t₀
  rw [← Nat.mul_add_div hp, Nat.le_div_iff_mul_le hp, Nat.mul_comm]
  omega

end TokenBucket

/-! ## Replenished buckets -/

/-- A bucket that is full at first and gains one token a `period` at least, until it holds `burst`. The
credit of a state is what it holds in time, or what it lacks. -/
structure TokenBucket.Replenished (G : TokenBucket) (period burst : Nat) where
  credit : G.State → Nat → Int
  full : ∀ t, (period * burst : Nat) ≤ credit G.full t
  refill : ∀ s t t', t ≤ t' → min ((period * burst : Nat) : Int) (credit s t + (t' - t : Nat)) ≤ credit s t'
  token : ∀ s t, (period : Int) ≤ credit s t → 0 < G.tokens s t
  /-- A token that is drawn costs no more than a period. -/
  spend : ∀ s t, 0 < G.tokens s t → credit s t ≤ credit (G.take s t) t + period

/-- Between any two of the times, these included, there are no more than `burst` and one for each
`period` that has passed. -/
def Conforms (period burst : Nat) (ts : List Nat) : Prop :=
  ∀ before t mid u after, ts = before ++ t :: (mid ++ u :: after) → mid.length + 2 ≤ burst + (u - t) / period

/-- No more times than the bucket holds always conform. -/
theorem conforms_of_length_le {period burst : Nat} {ts : List Nat} (h : ts.length ≤ burst) : Conforms period burst ts := by
  rintro before t mid u after rfl
  simp only [List.length_append, List.length_cons] at h
  exact Nat.le_add_right_of_le (by omega)

theorem cost_le {period burst n elapsed : Nat} (h : n ≤ burst + elapsed / period) :
    period * n ≤ period * burst + elapsed :=
  calc period * n ≤ period * (burst + elapsed / period) := Nat.mul_le_mul_left _ h
    _ = period * burst + period * (elapsed / period) := Nat.mul_add ..
    _ ≤ period * burst + elapsed := Nat.add_le_add_left (Nat.mul_div_le ..) _

theorem Conforms.tail {period burst t : Nat} {ts : List Nat} (h : Conforms period burst (t :: ts)) :
    Conforms period burst ts :=
  fun before a mid b after hts => h (t :: before) a mid b after (by rw [hts, List.cons_append])

namespace TokenBucket

variable {G : TokenBucket} {period burst : Nat}

/-- Up to each of the times, what is drawn costs no more than the credit at the start and what has
dripped in since. -/
def Covered (period : Nat) (credit : Int) (t₀ : Nat) (ts : List Nat) : Prop :=
  ∀ mid u after, ts = mid ++ u :: after → (period * (mid.length + 1) : Nat) ≤ credit + (u - t₀ : Nat)

theorem Replenished.draws (R : G.Replenished period burst) (hb : 0 < burst) :
    ∀ {ts : List Nat} {s : G.State} {t₀ : Nat}, (t₀ :: ts).Pairwise (· ≤ ·) → Covered period (R.credit s t₀) t₀ ts →
      Conforms period burst ts → G.Draws s ts
  | [], _, _, _, _, _ => trivial
  | t :: ts, s, t₀, hsorted, hcovered, hconforms => by
    obtain ⟨hfirst, hrest⟩ := List.pairwise_cons.1 hsorted
    have ht := hfirst t List.mem_cons_self
    have hrefill := R.refill s t₀ t ht
    have hone : period ≤ period * burst := Nat.le_mul_of_pos_right period hb
    have hnow := hcovered [] t ts rfl
    rw [List.length_nil, Nat.zero_add, Nat.mul_one] at hnow
    have htoken : 0 < G.tokens s t := R.token s t (by omega)
    have hspend := R.spend s t htoken
    refine ⟨htoken, R.draws hb hrest (fun mid u after hts => ?_) hconforms.tail⟩
    -- The credit was cut at a full bucket, or everything since the start counts.
    have hwindow := hconforms [] t mid u after (by rw [hts, List.nil_append])
    have hsince := hcovered (t :: mid) u after (by rw [hts, List.cons_append])
    have hu : t ≤ u := (List.pairwise_cons.1 hrest).1 u (by rw [hts]; simp)
    have hcost := cost_le hwindow
    have hsucc : period * (mid.length + 2) = period * (mid.length + 1) + period := Nat.mul_succ _ _
    rw [hsucc] at hcost
    rw [List.length_cons, hsucc] at hsince
    omega

/-- A full bucket has a token for each of the times when these conform. -/
theorem Replenished.draws_full (R : G.Replenished period burst) (hb : 0 < burst) {ts : List Nat}
    (hsorted : ts.Pairwise (· ≤ ·)) (hconforms : Conforms period burst ts) : G.Draws G.full ts := by
  cases ts with
  | nil => trivial
  | cons t ts =>
    have hfull := R.full t
    have hcovered : Covered period (R.credit G.full t) t (t :: ts) := by
      intro mid u after hts
      cases mid with
      | nil =>
        have hone : period ≤ period * burst := Nat.le_mul_of_pos_right period hb
        rw [List.length_nil, Nat.zero_add, Nat.mul_one]
        omega
      | cons t' mid =>
        obtain ⟨rfl, -⟩ := List.cons.inj hts
        have hcost := cost_le (hconforms [] t mid u after hts)
        rw [List.length_cons]
        show ((period * (mid.length + 2) : Nat) : Int) ≤ _
        omega
    refine R.draws hb (List.pairwise_cons.2 ⟨fun u hu => ?_, hsorted⟩) hcovered hconforms
    rcases List.mem_cons.1 hu with rfl | hu
    · exact Nat.le_refl _
    · exact (List.pairwise_cons.1 hsorted).1 u hu

end TokenBucket

/-- The generic cell rate algorithm meters its tokens. -/
def gcraMetered (period burst : Nat) : (TokenBucket.gcra period burst).Metered period burst where
  credit (tat t : Nat) := t + period * burst - max tat t
  le_full (tat t : Nat) := by
    show t + period * burst - max tat t ≤ _
    omega
  drip (tat t t' : Nat) h := by
    show t' + period * burst - max tat t' ≤ t + period * burst - max tat t + (t' - t)
    omega
  spend (tat t : Nat) h := by
    have h : 0 < (t + period * burst - max tat t) / period := h
    have hle := Nat.div_pos_iff.1 h
    show t + period * burst - max (max tat t + period) t + period ≤ t + period * burst - max tat t
    omega

/-- It gives them back in time. -/
def gcraReplenished (period burst : Nat) (hp : 0 < period) :
    (TokenBucket.gcra period burst).Replenished period burst where
  credit (tat t : Nat) := (t + period * burst : Nat) - (max tat t : Nat)
  full t := by
    show ((period * burst : Nat) : Int) ≤ (t + period * burst : Nat) - (max 0 t : Nat)
    omega
  refill (tat t t' : Nat) h := by
    show min ((period * burst : Nat) : Int) ((t + period * burst : Nat) - (max tat t : Nat) + (t' - t : Nat)) ≤
      (t' + period * burst : Nat) - (max tat t' : Nat)
    omega
  token (tat t : Nat) h := by
    have h : (period : Int) ≤ (t + period * burst : Nat) - (max tat t : Nat) := h
    show 0 < (t + period * burst - max tat t) / period
    exact Nat.div_pos (by omega) hp
  spend (tat t : Nat) _ := by
    show ((t + period * burst : Nat) : Int) - (max tat t : Nat) ≤
      (t + period * burst : Nat) - (max (max tat t + period) t : Nat) + period
    omega

end Lib
