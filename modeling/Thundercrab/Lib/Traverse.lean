/-
Loops over a list that collect what each element comes to and stop at the first that fails.
-/
namespace Lib

variable {α β γ ε : Type} {f : α → Except ε β} {l : List α} {bs : List β} {e : ε}

theorem mapM_cons_ok {a : α} {b : β} (h : f a = .ok b) : (a :: l).mapM f = (l.mapM f).map (b :: ·) := by
  rw [List.mapM_cons, h]
  rfl

theorem mapM_cons_error {a : α} (h : f a = .error e) : (a :: l).mapM f = .error e := by
  rw [List.mapM_cons, h]
  rfl

/-- Where no element fails, the loop collects what they come to. -/
theorem mapM_filterMap_ok {cs : List γ} {k : γ → α} {g : γ → Option β}
    (h : ∀ c ∈ cs, ∃ b, g c = some b ∧ f (k c) = .ok b) : (cs.map k).mapM f = .ok (cs.filterMap g) := by
  induction cs with
  | nil => rfl
  | cons c cs ih =>
    obtain ⟨b, hg, hf⟩ := h c List.mem_cons_self
    rw [List.map_cons, mapM_cons_ok hf, ih fun x hx => h x (List.mem_cons_of_mem _ hx), List.filterMap_cons_some hg]
    rfl

theorem mapM_map_ok {cs : List γ} {k : γ → α} {g : γ → β} (h : ∀ c ∈ cs, f (k c) = .ok (g c)) :
    (cs.map k).mapM f = .ok (cs.map g) := by
  have hok : (cs.map k).mapM f = .ok (cs.filterMap (some ∘ g)) := mapM_filterMap_ok fun c hc => ⟨g c, rfl, h c hc⟩
  rwa [List.filterMap_eq_map] at hok

/-- A loop that succeeds has collected something for each element. -/
theorem mapM_ok_length (h : l.mapM f = .ok bs) : bs.length = l.length := by
  induction l generalizing bs with
  | nil =>
    cases h
    rfl
  | cons a l ih =>
    cases ha : f a with
    | error e =>
      rw [mapM_cons_error ha] at h
      cases h
    | ok b =>
      rw [mapM_cons_ok ha] at h
      cases hl : l.mapM f with
      | error e =>
        rw [hl] at h
        cases h
      | ok bs' =>
        rw [hl] at h
        cases h
        rw [List.length_cons, List.length_cons, ih hl]

theorem mem_of_mapM_ok (h : l.mapM f = .ok bs) {b : β} (hb : b ∈ bs) : ∃ a ∈ l, f a = .ok b := by
  induction l generalizing bs with
  | nil =>
    cases h
    cases hb
  | cons a l ih =>
    cases ha : f a with
    | error e =>
      rw [mapM_cons_error ha] at h
      cases h
    | ok b' =>
      rw [mapM_cons_ok ha] at h
      cases hl : l.mapM f with
      | error e =>
        rw [hl] at h
        cases h
      | ok bs' =>
        rw [hl] at h
        cases h
        rcases List.mem_cons.1 hb with rfl | hb
        · exact ⟨a, List.mem_cons_self, ha⟩
        · obtain ⟨a', ha', hf⟩ := ih hl hb
          exact ⟨a', List.mem_cons_of_mem _ ha', hf⟩

end Lib
