/-
Keyed tables: rows with distinct primary keys, insertion with a conflict rule that merges the
stored row with the incoming one, and deletion by key. A table is determined up to row order by
its lookup function, so each operation is described by what it does to lookups, and a run of
insertions by what each key's own insertions fold to. Rows may be put in the order of one column,
descending, and of something else for ties, and of rows in order the first may be returned.
-/
import Mathlib.Data.List.Nodup
import Mathlib.Data.List.Perm.Basic
import Mathlib.Order.Lattice

namespace Lib

/-- Rows with distinct keys. -/
structure Table (ρ κ : Type) (key : ρ → κ) where
  rows : List ρ
  nodup : (rows.map key).Nodup

/-- What an insertion does to a stored row with the same key. The stored key stays. -/
structure Conflict {ρ κ : Type} (key : ρ → κ) where
  merge : ρ → ρ → ρ
  key_merge : ∀ old new, key (merge old new) = key old

/-- The row stored after an insertion: merged with the stored one, or the incoming one as it is. -/
def Conflict.stored {ρ κ : Type} {key : ρ → κ} (c : Conflict key) : Option ρ → ρ → ρ
  | some old, new => c.merge old new
  | none, new => new

/-- `INSERT OR IGNORE`: the stored row stays. -/
def Conflict.ignore {ρ κ : Type} (key : ρ → κ) : Conflict key where
  merge old _ := old
  key_merge _ _ := rfl

namespace Table

variable {ρ κ : Type} [DecidableEq κ] {key : ρ → κ}

def empty : Table ρ κ key := ⟨[], List.nodup_nil⟩

/-- The row stored under a key. -/
def find? (t : Table ρ κ key) (k : κ) : Option ρ := t.rows.find? fun r => key r = k

theorem find?_eq_some {t : Table ρ κ key} {k : κ} {r : ρ} : t.find? k = some r ↔ r ∈ t.rows ∧ key r = k := by
  constructor
  · intro h
    exact ⟨List.mem_of_find?_eq_some h, by simpa using List.find?_some h⟩
  · rintro ⟨hr, rfl⟩
    unfold find?
    cases h : t.rows.find? fun r' => key r' = key r with
    | none =>
      rw [List.find?_eq_none] at h
      exact absurd (decide_eq_true rfl) (h r hr)
    | some r' =>
      have hk : key r' = key r := by simpa using List.find?_some h
      rw [List.inj_on_of_nodup_map t.nodup (List.mem_of_find?_eq_some h) hr hk]

theorem find?_eq_none {t : Table ρ κ key} {k : κ} : t.find? k = none ↔ ∀ r ∈ t.rows, key r ≠ k := by
  unfold find?; rw [List.find?_eq_none]; simp

theorem mem_iff_find? {t : Table ρ κ key} {r : ρ} : r ∈ t.rows ↔ t.find? (key r) = some r := by
  rw [find?_eq_some]; simp

/-! ## Insertion -/

/-- The rows after an insertion: the stored row of that key is merged in place, or the new row is
added at the end. -/
def upsertRows (c : Conflict key) (new : ρ) (t : Table ρ κ key) : List ρ :=
  match t.find? (key new) with
  | some _ => t.rows.map fun r => if key r = key new then c.merge r new else r
  | none => t.rows ++ [new]

theorem upsertRows_nodup (c : Conflict key) (new : ρ) (t : Table ρ κ key) :
    ((t.upsertRows c new).map key).Nodup := by
  unfold upsertRows
  split
  · rw [List.map_map, List.map_congr_left (g := key)]
    · exact t.nodup
    · intro r _
      simp only [Function.comp]
      split
      · exact c.key_merge _ _
      · rfl
  · rename_i hn
    rw [List.map_append, List.nodup_append]
    refine ⟨t.nodup, List.nodup_singleton _, fun a ha b hb => ?_⟩
    obtain ⟨r, hr, rfl⟩ := List.mem_map.1 ha
    rw [List.map_singleton, List.mem_singleton] at hb
    subst hb
    exact find?_eq_none.1 hn r hr

/-- Insertion with a conflict rule. -/
def upsert (c : Conflict key) (t : Table ρ κ key) (new : ρ) : Table ρ κ key :=
  ⟨t.upsertRows c new, t.upsertRows_nodup c new⟩

theorem key_stored (c : Conflict key) (t : Table ρ κ key) (new : ρ) :
    key (c.stored (t.find? (key new)) new) = key new := by
  cases hf : t.find? (key new) with
  | none => rfl
  | some old => exact (c.key_merge old new).trans (find?_eq_some.1 hf).2

/-- The rows after an insertion: those of other keys, and the row stored under the inserted key. -/
theorem mem_upsert (c : Conflict key) (t : Table ρ κ key) (new r : ρ) :
    r ∈ (t.upsert c new).rows ↔
      (r ∈ t.rows ∧ key r ≠ key new) ∨ r = c.stored (t.find? (key new)) new := by
  show r ∈ t.upsertRows c new ↔ _
  unfold upsertRows
  cases hf : t.find? (key new) with
  | none =>
    have hno := find?_eq_none.1 hf
    simp only [List.mem_append, List.mem_singleton, Conflict.stored]
    constructor
    · rintro (h | h)
      · exact .inl ⟨h, hno r h⟩
      · exact .inr h
    · rintro (⟨h, -⟩ | h)
      · exact .inl h
      · exact .inr h
  | some old =>
    obtain ⟨hold, hkold⟩ := find?_eq_some.1 hf
    simp only [List.mem_map, Conflict.stored]
    constructor
    · rintro ⟨x, hx, rfl⟩
      by_cases hk : key x = key new
      · rw [if_pos hk]
        have : x = old := List.inj_on_of_nodup_map t.nodup hx hold (hk.trans hkold.symm)
        exact .inr (by rw [this])
      · rw [if_neg hk]; exact .inl ⟨hx, hk⟩
    · rintro (⟨h, hk⟩ | rfl)
      · exact ⟨r, h, if_neg hk⟩
      · exact ⟨old, hold, if_pos hkold⟩

/-- An insertion stores its row under its key and leaves every other key alone. -/
theorem find?_upsert (c : Conflict key) (t : Table ρ κ key) (new : ρ) (k : κ) :
    (t.upsert c new).find? k = if k = key new then some (c.stored (t.find? (key new)) new) else t.find? k := by
  by_cases hk : k = key new
  · subst hk
    rw [if_pos rfl, find?_eq_some]
    exact ⟨(mem_upsert c t new _).2 (.inr rfl), key_stored c t new⟩
  · rw [if_neg hk]
    cases hf : t.find? k with
    | some r =>
      obtain ⟨hr, hkr⟩ := find?_eq_some.1 hf
      exact find?_eq_some.2 ⟨(mem_upsert c t new r).2 (.inl ⟨hr, by rw [hkr]; exact hk⟩), hkr⟩
    | none =>
      refine find?_eq_none.2 fun r hr => ?_
      rcases (mem_upsert c t new r).1 hr with ⟨h, -⟩ | rfl
      · exact find?_eq_none.1 hf r h
      · rw [key_stored c t new]; exact Ne.symm hk

/-- Insertions one after another. -/
def upsertAll (c : Conflict key) (t : Table ρ κ key) (news : List ρ) : Table ρ κ key :=
  news.foldl (upsert c) t

/-- What a key's own insertions fold to, from what is stored under it. -/
def foldKey (c : Conflict key) (start : Option ρ) (news : List ρ) : Option ρ :=
  news.foldl (fun o new => some (c.stored o new)) start

theorem find?_upsertAll (c : Conflict key) (k : κ) : ∀ (news : List ρ) (t : Table ρ κ key),
    (t.upsertAll c news).find? k = foldKey c (t.find? k) (news.filter fun n => key n = k)
  | [], _ => rfl
  | new :: news, t => by
    show ((t.upsert c new).upsertAll c news).find? k = _
    rw [find?_upsertAll c k news (t.upsert c new), find?_upsert]
    by_cases hk : k = key new
    · subst hk; simp [foldKey]
    · have hk' : key new ≠ k := Ne.symm hk
      rw [if_neg hk, List.filter_cons_of_neg (by simpa using hk')]

omit [DecidableEq κ] in
theorem foldKey_isSome (c : Conflict key) : ∀ (news : List ρ) (o : Option ρ),
    (foldKey c o news).isSome = (o.isSome || !news.isEmpty)
  | [], o => by simp [foldKey]
  | new :: news, o => by
    show (foldKey c (some (c.stored o new)) news).isSome = _
    rw [foldKey_isSome c news]; simp

/-- The keys stored after insertions into an empty table are the inserted ones. -/
theorem find?_upsertAll_isSome (c : Conflict key) (news : List ρ) (k : κ) :
    ((empty.upsertAll c news).find? k).isSome ↔ ∃ n ∈ news, key n = k := by
  rw [find?_upsertAll, foldKey_isSome]
  simp [empty, find?, List.filter_eq_nil_iff]

omit [DecidableEq κ] in
theorem foldKey_ignore (k : Option ρ) : ∀ news : List ρ,
    foldKey (Conflict.ignore key) k news = k.orElse fun _ => news.head?
  | [] => by cases k <;> rfl
  | new :: news => by
    show foldKey (Conflict.ignore key) (some ((Conflict.ignore key).stored k new)) news = _
    rw [foldKey_ignore _ news]
    cases k <;> rfl

/-- Where conflicts are ignored, the row stored under a key is the first that was inserted. -/
theorem mem_upsertAll_ignore (news : List ρ) (r : ρ) :
    r ∈ (empty.upsertAll (Conflict.ignore key) news).rows ↔ news.find? (fun n => key n = key r) = some r := by
  rw [mem_iff_find?, find?_upsertAll, foldKey_ignore, List.head?_filter]
  rfl

/-- Where conflicts are ignored, an insertion changes no stored row: it adds the new row, or nothing. -/
theorem upsert_ignore_rows (t : Table ρ κ key) (new : ρ) : ∃ added : List ρ, added.Sublist [new] ∧
    (t.upsert (Conflict.ignore key) new).rows = t.rows ++ added := by
  show ∃ added : List ρ, added.Sublist [new] ∧ t.upsertRows (Conflict.ignore key) new = t.rows ++ added
  unfold upsertRows
  split
  · refine ⟨[], List.nil_sublist _, ?_⟩
    rw [List.append_nil]
    exact (List.map_congr_left fun r _ => ite_self r).trans (List.map_id _)
  · exact ⟨[new], List.Sublist.refl _, rfl⟩

/-- Insertions that ignore conflicts add some of their rows at the end, in their order. -/
theorem upsertAll_ignore_rows : ∀ (news : List ρ) (t : Table ρ κ key), ∃ added : List ρ, added.Sublist news ∧
    (t.upsertAll (Conflict.ignore key) news).rows = t.rows ++ added
  | [], t => ⟨[], List.Sublist.refl _, (List.append_nil _).symm⟩
  | new :: news, t => by
    obtain ⟨first, hfirst, hrows⟩ := upsert_ignore_rows t new
    obtain ⟨rest, hrest, hall⟩ := upsertAll_ignore_rows news (t.upsert (Conflict.ignore key) new)
    refine ⟨first ++ rest, hfirst.append hrest, ?_⟩
    show ((t.upsert (Conflict.ignore key) new).upsertAll (Conflict.ignore key) news).rows = _
    rw [hall, hrows, List.append_assoc]

/-! ## Deletion -/

def delete (t : Table ρ κ key) (k : κ) : Table ρ κ key :=
  ⟨t.rows.filter fun r => key r ≠ k, t.nodup.sublist (List.filter_sublist.map key)⟩

theorem mem_delete {t : Table ρ κ key} {k : κ} {r : ρ} : r ∈ (t.delete k).rows ↔ r ∈ t.rows ∧ key r ≠ k := by
  unfold delete; rw [List.mem_filter, decide_eq_true_eq]

/-- A deletion removes the row of its key and leaves every other key alone. -/
theorem find?_delete (t : Table ρ κ key) (k k' : κ) :
    (t.delete k).find? k' = if k' = k then none else t.find? k' := by
  by_cases hk : k' = k
  · subst hk
    rw [if_pos rfl, find?_eq_none]
    exact fun r hr => (mem_delete.1 hr).2
  · rw [if_neg hk]
    cases hf : t.find? k' with
    | none => exact find?_eq_none.2 fun r hr => find?_eq_none.1 hf r (mem_delete.1 hr).1
    | some r =>
      obtain ⟨hr, hkr⟩ := find?_eq_some.1 hf
      exact find?_eq_some.2 ⟨mem_delete.2 ⟨hr, by rw [hkr]; exact hk⟩, hkr⟩

end Table

/-! ## Order of rows -/

section OrderBy

variable {ρ α : Type} [LinearOrder α] {column : ρ → α} {tie : ρ → ρ → Prop} {a b c : ρ}

/-- `ORDER BY column DESC`, and by something else where the columns are equal. -/
def DescThen (column : ρ → α) (tie : ρ → ρ → Prop) (a b : ρ) : Prop :=
  column b < column a ∨ (column a = column b ∧ tie a b)

theorem DescThen.trans (h : tie a b → tie b c → tie a c) (hab : DescThen column tie a b)
    (hbc : DescThen column tie b c) : DescThen column tie a c := by
  rcases hab with hab | ⟨hab, tab⟩
  · rcases hbc with hbc | ⟨hbc, -⟩
    · exact .inl (lt_trans hbc hab)
    · exact .inl (hbc ▸ hab)
  · rcases hbc with hbc | ⟨hbc, tbc⟩
    · exact .inl (hab ▸ hbc)
    · exact .inr ⟨hab.trans hbc, h tab tbc⟩

theorem DescThen.total (column : ρ → α) (tie : ρ → ρ → Prop) (h : tie a b ∨ tie b a) :
    DescThen column tie a b ∨ DescThen column tie b a := by
  rcases lt_trichotomy (column a) (column b) with hlt | heq | hgt
  · exact .inr (.inl hlt)
  · exact h.imp (fun tab => .inr ⟨heq, tab⟩) (fun tba => .inr ⟨heq.symm, tba⟩)
  · exact .inl (.inl hgt)

theorem DescThen.tie_of_both (hab : DescThen column tie a b) (hba : DescThen column tie b a) : tie a b ∧ tie b a := by
  rcases hab with hab | ⟨hab, tab⟩
  · rcases hba with hba | ⟨hba, -⟩
    · exact absurd hab (lt_asymm hba)
    · exact absurd hab (hba ▸ lt_irrefl _)
  · rcases hba with hba | ⟨-, tba⟩
    · exact absurd hba (hab ▸ lt_irrefl _)
    · exact ⟨tab, tba⟩

end OrderBy

section Limit

variable {ρ : Type} {before : ρ → ρ → Prop} {rows : List ρ} {r : ρ}

/-- `LIMIT`: a row that is not returned comes after as many as the limit says. -/
theorem mem_take_or_after (h : rows.Pairwise before) (n : Nat) (hr : r ∈ rows) :
    r ∈ rows.take n ∨ ((rows.take n).length = n ∧ ∀ x ∈ rows.take n, before x r) := by
  have hsplit := h
  rw [← List.take_append_drop n rows, List.pairwise_append] at hsplit
  rw [← List.take_append_drop n rows, List.mem_append] at hr
  rcases hr with hr | hr
  · exact .inl hr
  · right
    have hlen : n ≤ rows.length := by
      by_contra hlt
      rw [List.drop_eq_nil_of_le (by omega)] at hr
      cases hr
    exact ⟨List.length_take_of_le hlen, fun x hx => hsplit.2.2 x hx r hr⟩

end Limit

end Lib
