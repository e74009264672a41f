/-
The ledger seen from its submission history. A history is the list of rows handed to the store; what
it says of a pattern is the set of keys that submitted it and the least day among those submissions,
and neither depends on the order of the history. The store refines this view: its groups carry
exactly these counts and days, an insertion is reported as new exactly when it adds one to the count
of its pattern, and the aggregated list is the same for every order of the history.
-/
import Thundercrab.CrabLedger.Store

namespace Thundercrab

open Lib Lib.Json

/-- The rows handed to the store, in order. -/
abbrev History := List CorroborationRow

namespace History

/-- The distinct keys that submitted a pattern. -/
def keysOf (hist : History) (h : Bytes32) : List Bytes32 :=
  ((hist.filter fun r => r.patternHash = h).map CorroborationRow.publicKey).dedup

/-- How many distinct keys submitted a pattern. -/
def corroborators (hist : History) (h : Bytes32) : Nat := (hist.keysOf h).length

/-- The days a pattern was submitted with. -/
def days (hist : History) (h : Bytes32) : Set I64 := { d | ∃ r ∈ hist, r.patternHash = h ∧ r.submittedDay = d }

/-- The distinct patterns. -/
def patterns (hist : History) : List Bytes32 := (hist.map CorroborationRow.patternHash).dedup

/-- Submissions of one pattern carry one rule text. -/
def OneText (hist : History) : Prop :=
  ∀ a ∈ hist, ∀ b ∈ hist, a.patternHash = b.patternHash → a.ruleJson = b.ruleJson

variable {hist hist' : History} {h : Bytes32}

theorem mem_keysOf {k : Bytes32} : k ∈ hist.keysOf h ↔ ∃ r ∈ hist, r.key = (h, k) := by
  unfold keysOf
  simp only [List.mem_dedup, List.mem_map, List.mem_filter, decide_eq_true_eq, CorroborationRow.key,
    Prod.mk.injEq]
  constructor
  · rintro ⟨r, ⟨hr, hh⟩, hk⟩; exact ⟨r, hr, hh, hk⟩
  · rintro ⟨r, hr, hh, hk⟩; exact ⟨r, ⟨hr, hh⟩, hk⟩

/-- The count is the length of any list of the pattern's keys without repetition. -/
theorem corroborators_eq {ks : List Bytes32} (hn : ks.Nodup) (hm : ∀ k, k ∈ ks ↔ ∃ r ∈ hist, r.key = (h, k)) :
    ks.length = hist.corroborators h := by
  refine List.Perm.length_eq ((List.perm_ext_iff_of_nodup hn (List.nodup_dedup _)).2 fun k => ?_)
  rw [hm, ← mem_keysOf]; rfl

theorem corroborators_perm (hp : hist.Perm hist') : hist.corroborators h = hist'.corroborators h :=
  corroborators_eq (List.nodup_dedup _) fun _ =>
    mem_keysOf.trans (exists_congr fun _ => and_congr_left fun _ => hp.mem_iff)

theorem days_perm (hp : hist.Perm hist') : hist.days h = hist'.days h :=
  Set.ext fun _ => exists_congr fun _ => and_congr_left fun _ => hp.mem_iff

/-- A further submission adds one to the count of its pattern when its key is new for the pattern,
and changes no other count. -/
theorem corroborators_snoc (hist : History) (r : CorroborationRow) (h : Bytes32) :
    corroborators (hist ++ [r]) h =
      corroborators hist h + if r.patternHash = h ∧ r.publicKey ∉ hist.keysOf h then 1 else 0 := by
  have hmem : ∀ k, (∃ x ∈ hist ++ [r], x.key = (h, k)) ↔
      k ∈ hist.keysOf h ∨ (r.patternHash = h ∧ r.publicKey = k) := by
    intro k
    rw [mem_keysOf]
    simp only [List.mem_append, List.mem_singleton, CorroborationRow.key, Prod.mk.injEq]
    constructor
    · rintro ⟨x, hx | rfl, he⟩
      · exact .inl ⟨x, hx, he⟩
      · exact .inr he
    · rintro (⟨x, hx, he⟩ | he)
      · exact ⟨x, .inl hx, he⟩
      · exact ⟨r, .inr rfl, he⟩
  split
  -- The keys are those so far and the new one.
  · rename_i hnew
    have hn : (hist.keysOf h ++ [r.publicKey]).Nodup := by
      rw [← List.concat_eq_append]; exact List.Nodup.concat hnew.2 (List.nodup_dedup _)
    have hlen : (hist.keysOf h ++ [r.publicKey]).length = hist.corroborators h + 1 := List.length_append
    rw [← hlen]
    refine (corroborators_eq hn fun k => ?_).symm
    rw [hmem, List.mem_append, List.mem_singleton]
    constructor
    · rintro (hk | rfl)
      · exact .inl hk
      · exact .inr ⟨hnew.1, rfl⟩
    · rintro (hk | ⟨-, hk⟩)
      · exact .inl hk
      · exact .inr hk.symm
  -- The keys stay: this one was counted, or the pattern is another.
  · rename_i hold
    refine (corroborators_eq (List.nodup_dedup _) fun k => ?_).symm
    rw [hmem]
    constructor
    · exact .inl
    · rintro (hk | ⟨hh, rfl⟩)
      · exact hk
      · exact not_not.1 fun hk => hold ⟨hh, hk⟩

/-- A further submission adds its day to the days of its pattern. -/
theorem lowerBounds_days_snoc (hist : History) (r : CorroborationRow) (h : Bytes32) (d : I64) :
    d ∈ lowerBounds (days (hist ++ [r]) h) ↔
      d ∈ lowerBounds (days hist h) ∧ (r.patternHash = h → d ≤ r.submittedDay) := by
  constructor
  · intro hd
    refine ⟨?_, fun hh => hd ⟨r, List.mem_append_right _ (List.mem_singleton_self r), hh, rfl⟩⟩
    rintro _ ⟨x, hx, hh, rfl⟩
    exact hd ⟨x, List.mem_append_left _ hx, hh, rfl⟩
  · rintro ⟨hd, hr⟩ _ ⟨x, hx, hh, rfl⟩
    rcases List.mem_append.1 hx with hx | hx
    · exact hd ⟨x, hx, hh, rfl⟩
    · rw [List.mem_singleton.1 hx] at hh ⊢
      exact hr hh

end History

/-! ## The stored row of a key -/

namespace Store

variable {hist hist' : History}

theorem ofHistory_snoc (hist : History) (r : CorroborationRow) :
    ofHistory (hist ++ [r]) = ((ofHistory hist).upsert r).2 := by
  unfold ofHistory
  rw [List.foldl_append]; rfl

theorem ofHistory_table : ∀ (hist : History),
    (ofHistory hist).corroborations = Table.empty.upsertAll corroborationConflict hist := by
  intro hist
  induction hist using List.reverseRecOn with
  | nil => rfl
  | append_singleton hist r ih =>
    rw [ofHistory_snoc]
    show (ofHistory hist).corroborations.upsert corroborationConflict r = _
    rw [ih, Table.upsertAll, Table.upsertAll, List.foldl_append]; rfl

/-- What a key's own submissions leave stored: signature and text of the last, least day of all. -/
structure Stored (subs : History) (r : CorroborationRow) : Prop where
  last : ∃ s, subs.getLast? = some s ∧ r.signature = s.signature ∧ r.ruleJson = s.ruleJson
  day : IsLeast { d | ∃ s ∈ subs, s.submittedDay = d } r.submittedDay

theorem foldKey_stored (subs : History) {r : CorroborationRow}
    (h : Table.foldKey corroborationConflict none subs = some r) : Stored subs r := by
  induction subs using List.reverseRecOn generalizing r with
  | nil => cases h
  | append_singleton subs x ih =>
    unfold Table.foldKey at h ih
    rw [List.foldl_append] at h
    cases hold : subs.foldl (fun o new => some (corroborationConflict.stored o new)) none with
    | none =>
      rw [hold] at h
      cases h
      -- Nothing is stored before the first submission of the key.
      have hnil : subs = [] := by
        have := Table.foldKey_isSome corroborationConflict subs none
        unfold Table.foldKey at this
        rw [hold] at this
        simpa using this.symm
      subst hnil
      refine ⟨⟨x, rfl, rfl, rfl⟩, ⟨x, List.mem_singleton_self x, rfl⟩, ?_⟩
      rintro d ⟨s, hs, rfl⟩
      rw [List.mem_singleton.1 hs]; exact le_refl _
    | some old =>
      rw [hold] at h
      cases h
      -- Signature and text are the new submission's; only the day looks back.
      obtain ⟨-, hd⟩ := ih hold
      refine ⟨⟨x, List.getLast?_concat, rfl, rfl⟩, ?_⟩
      have hset : { d | ∃ s ∈ subs ++ [x], s.submittedDay = d } =
          insert x.submittedDay { d | ∃ s ∈ subs, s.submittedDay = d } := by
        refine Set.ext fun d => ⟨?_, ?_⟩
        · rintro ⟨s, hs, rfl⟩
          rcases List.mem_append.1 hs with hs | hs
          · exact .inr ⟨s, hs, rfl⟩
          · exact .inl (by rw [List.mem_singleton.1 hs])
        · rintro (rfl | ⟨s, hs, rfl⟩)
          · exact ⟨x, List.mem_append_right _ (List.mem_singleton_self x), rfl⟩
          · exact ⟨s, List.mem_append_left _ hs, rfl⟩
      rw [hset]
      show IsLeast _ (min old.submittedDay x.submittedDay)
      rw [min_comm]
      exact hd.insert x.submittedDay

/-- The stored row of a key is what its own submissions leave. -/
theorem stored_of_find? {k : Bytes32 × Bytes32} {r : CorroborationRow}
    (h : (ofHistory hist).corroborations.find? k = some r) : Stored (hist.filter fun s => s.key = k) r := by
  rw [ofHistory_table, Table.find?_upsertAll] at h
  exact foldKey_stored _ h

theorem find?_ofHistory_isSome (hist : History) (k : Bytes32 × Bytes32) :
    ((ofHistory hist).corroborations.find? k).isSome ↔ ∃ s ∈ hist, s.key = k := by
  rw [ofHistory_table]; exact Table.find?_upsertAll_isSome _ hist k

/-- The keys of the stored rows are the submitted ones. -/
theorem exists_row_iff (k : Bytes32 × Bytes32) :
    (∃ r ∈ (ofHistory hist).corroborations.rows, r.key = k) ↔ ∃ s ∈ hist, s.key = k := by
  rw [← find?_ofHistory_isSome hist k, Option.isSome_iff_exists]
  exact exists_congr fun _ => Table.find?_eq_some.symm

theorem stored_of_mem {r : CorroborationRow} (h : r ∈ (ofHistory hist).corroborations.rows) :
    Stored (hist.filter fun s => s.key = r.key) r :=
  stored_of_find? (Table.mem_iff_find?.1 h)

/-- The text of a stored row is the text of a submission of its pattern. -/
theorem text_of_mem {r : CorroborationRow} (h : r ∈ (ofHistory hist).corroborations.rows) :
    ∃ s ∈ hist, s.key = r.key ∧ s.ruleJson = r.ruleJson := by
  obtain ⟨⟨s, hs, -, ht⟩, -⟩ := stored_of_mem h
  have hs := List.mem_filter.1 (List.mem_of_getLast? hs)
  exact ⟨s, hs.1, by simpa using hs.2, ht.symm⟩

/-! ## Groups -/

theorem mem_rowsOf {s : Store} {h : Bytes32} {r : CorroborationRow} :
    r ∈ s.rowsOf h ↔ r ∈ s.corroborations.rows ∧ r.patternHash = h := by
  unfold rowsOf; rw [List.mem_filter, decide_eq_true_eq]

/-- The keys of a group's rows are distinct, and are the keys that submitted the pattern. -/
theorem group_count (hist : History) (h : Bytes32) :
    (((ofHistory hist).rowsOf h).map CorroborationRow.publicKey).dedup.length = hist.corroborators h := by
  refine History.corroborators_eq (List.nodup_dedup _) fun k => ?_
  rw [List.mem_dedup, List.mem_map, ← exists_row_iff]
  constructor
  · rintro ⟨r, hr, rfl⟩
    obtain ⟨hmem, rfl⟩ := mem_rowsOf.1 hr
    exact ⟨r, hmem, rfl⟩
  · rintro ⟨r, hr, hk⟩
    simp only [CorroborationRow.key, Prod.mk.injEq] at hk
    exact ⟨r, mem_rowsOf.2 ⟨hr, hk.1⟩, hk.2⟩

/-- The least day stored for a pattern is the least day submitted for it. -/
theorem isLeast_days {h : Bytes32} {d : I64}
    (hd : IsLeast { d | ∃ r ∈ (ofHistory hist).rowsOf h, r.submittedDay = d } d) : IsLeast (hist.days h) d := by
  obtain ⟨⟨r, hr, rfl⟩, hleast⟩ := hd
  constructor
  · obtain ⟨hmem, rfl⟩ := mem_rowsOf.1 hr
    obtain ⟨s, hs, hsd⟩ := (stored_of_mem hmem).day.1
    have hs := List.mem_filter.1 hs
    exact ⟨s, hs.1, congrArg Prod.fst (by simpa using hs.2 : s.key = r.key), hsd⟩
  · rintro _ ⟨s, hs, rfl, rfl⟩
    obtain ⟨r', hr', hk⟩ := (exists_row_iff s.key).2 ⟨s, hs, rfl⟩
    have hle : r.submittedDay ≤ r'.submittedDay :=
      hleast ⟨r', mem_rowsOf.2 ⟨hr', congrArg Prod.fst hk⟩, rfl⟩
    exact le_trans hle ((stored_of_mem hr').day.2 ⟨s, List.mem_filter.2 ⟨hs, by simpa using hk.symm⟩, rfl⟩)

end Store

/-- What the history says of a pattern, as a group: the count of its keys, its least day, and the
text of one of its submissions. -/
structure History.IsGroup (hist : History) (g : PatternGroup) : Prop where
  count : g.corroborators = hist.corroborators g.patternHash
  day : IsLeast (hist.days g.patternHash) g.firstSeenDay
  text : ∃ s ∈ hist, s.patternHash = g.patternHash ∧ s.ruleJson = g.ruleJson

theorem History.IsGroup.perm {hist hist' : History} {g : PatternGroup} (hg : hist.IsGroup g)
    (hp : hist.Perm hist') : hist'.IsGroup g := by
  obtain ⟨s, hs, he⟩ := hg.text
  exact ⟨hg.count.trans (corroborators_perm hp), by rw [← days_perm hp]; exact hg.day, s, hp.mem_iff.1 hs, he⟩

/-- With one text per pattern, the history determines the group of a pattern. -/
theorem History.IsGroup.unique {hist : History} (hone : hist.OneText) {g g' : PatternGroup}
    (hg : hist.IsGroup g) (hg' : hist.IsGroup g') (he : g.patternHash = g'.patternHash) : g = g' := by
  obtain ⟨s, hs, hsh, hst⟩ := hg.text
  obtain ⟨s', hs', hsh', hst'⟩ := hg'.text
  have htext : g.ruleJson = g'.ruleJson := by
    rw [← hst, ← hst']; exact hone s hs s' hs' (by rw [hsh, hsh', he])
  have hcount : g.corroborators = g'.corroborators := by rw [hg.count, hg'.count, he]
  have hday : g.firstSeenDay = g'.firstSeenDay := hg.day.unique (by rw [he]; exact hg'.day)
  cases g; cases g'
  cases he; cases htext; cases hcount; cases hday
  rfl

namespace Store

variable {hist hist' : History}

theorem group_isGroup {h : Bytes32} {g : PatternGroup} (hg : (ofHistory hist).group h = some g) :
    g.patternHash = h ∧ hist.IsGroup g := by
  unfold group at hg
  split at hg
  · rename_i text day htext hday
    cases hg
    refine ⟨rfl, group_count hist h, isLeast_days ?_, ?_⟩
    · obtain ⟨hmem, hle⟩ := List.min?_eq_some_iff.1 hday
      constructor
      · exact List.mem_map.1 hmem
      · rintro _ ⟨r, hr, rfl⟩
        exact hle _ (List.mem_map.2 ⟨r, hr, rfl⟩)
    · obtain ⟨r, hr, hrt⟩ := List.mem_map.1 (List.min?_eq_some_iff.1 htext).1
      obtain ⟨hmem, rfl⟩ := mem_rowsOf.1 hr
      obtain ⟨s, hs, hk, ht⟩ := text_of_mem hmem
      exact ⟨s, hs, congrArg Prod.fst hk, ht.trans hrt⟩
  · cases hg

/-- Every submitted pattern has a group. -/
theorem exists_group {h : Bytes32} (hs : ∃ s ∈ hist, s.patternHash = h) :
    ∃ g, (ofHistory hist).group h = some g := by
  obtain ⟨s, hs, rfl⟩ := hs
  obtain ⟨r, hr, hk⟩ := (exists_row_iff s.key).2 ⟨s, hs, rfl⟩
  have hr : r ∈ (ofHistory hist).rowsOf s.patternHash := mem_rowsOf.2 ⟨hr, congrArg Prod.fst hk⟩
  have hmin : ∀ {α : Type} [Min α] (f : CorroborationRow → α),
      ∃ x, (((ofHistory hist).rowsOf s.patternHash).map f).min? = some x := by
    intro α _ f
    refine Option.isSome_iff_exists.1 (List.isSome_min?_of_ne_nil fun hnil => ?_)
    rw [List.map_eq_nil_iff.1 hnil] at hr
    cases hr
  obtain ⟨text, htext⟩ := hmin CorroborationRow.ruleJson
  obtain ⟨day, hday⟩ := hmin CorroborationRow.submittedDay
  unfold group
  rw [htext, hday]
  exact ⟨_, rfl⟩

theorem mem_selected {m : I64} {since : Option I64} {g : PatternGroup} :
    g ∈ (ofHistory hist).selected m since ↔
      (ofHistory hist).group g.patternHash = some g ∧ having m (since.getD I64.min) g := by
  unfold selected
  rw [(List.perm_insertionSort groupOrder _).mem_iff, List.mem_filter, decide_eq_true_eq, List.mem_filterMap]
  constructor
  · rintro ⟨⟨h, -, hg⟩, hv⟩
    rw [(group_isGroup hg).1]
    exact ⟨hg, hv⟩
  · rintro ⟨hg, hv⟩
    refine ⟨⟨g.patternHash, ?_, hg⟩, hv⟩
    obtain ⟨s, hs, hk, -⟩ := (group_isGroup hg).2.text
    obtain ⟨r, hr, hrk⟩ := (exists_row_iff s.key).2 ⟨s, hs, rfl⟩
    rw [List.mem_dedup, List.mem_map]
    exact ⟨r, hr, (congrArg Prod.fst hrk).trans hk⟩

theorem selected_patterns_nodup (m : I64) (since : Option I64) :
    (((ofHistory hist).selected m since).map PatternGroup.patternHash).Nodup := by
  unfold selected
  rw [((List.perm_insertionSort groupOrder _).map _).nodup_iff, List.Nodup, List.pairwise_map]
  refine List.Pairwise.filter _ (List.Pairwise.filterMap _ ?_ (List.nodup_dedup _))
  intro h h' hne g hg g' hg' he
  rw [← (group_isGroup hg).1, ← (group_isGroup hg').1] at hne
  exact hne he

theorem groupOrder_iff {a b : PatternGroup} : groupOrder a b ↔
    DescThen PatternGroup.corroborators (fun a b => memLe a.patternHash.1 b.patternHash.1) a b := Iff.rfl

instance : IsTrans PatternGroup groupOrder where
  trans _ _ _ hab hbc := groupOrder_iff.2 (DescThen.trans memLe_trans hab hbc)

instance : Std.Total groupOrder where
  total a b := DescThen.total PatternGroup.corroborators (fun a b => memLe a.patternHash.1 b.patternHash.1)
    (memLe_total a.patternHash.1 b.patternHash.1)

theorem selected_sorted (s : Store) (m : I64) (since : Option I64) :
    (s.selected m since).Pairwise groupOrder :=
  List.pairwise_insertionSort groupOrder _

theorem groupOrder_antisymm {a b : PatternGroup} (h1 : groupOrder a b) (h2 : groupOrder b a) :
    a.patternHash = b.patternHash := by
  obtain ⟨hab, hba⟩ := DescThen.tie_of_both (groupOrder_iff.1 h1) (groupOrder_iff.1 h2)
  exact Subtype.ext (memLe_antisymm hab hba)

/-- With one text per pattern, the selected groups are those the history determines. -/
theorem mem_selected_iff (hone : hist.OneText) {m : I64} {since : Option I64} {g : PatternGroup} :
    g ∈ (ofHistory hist).selected m since ↔ hist.IsGroup g ∧ having m (since.getD I64.min) g := by
  rw [mem_selected]
  refine and_congr_left fun _ => ⟨fun hg => (group_isGroup hg).2, fun hg => ?_⟩
  obtain ⟨s, hs, hh, -⟩ := hg.text
  obtain ⟨g', hg'⟩ := exists_group ⟨s, hs, hh⟩
  obtain ⟨he, hig⟩ := group_isGroup hg'
  rw [hg', hig.unique hone hg he]

/-- The aggregated list does not depend on the order of the history. -/
theorem selected_perm (hone : hist.OneText) (hp : hist.Perm hist') (m : I64) (since : Option I64) :
    (ofHistory hist).selected m since = (ofHistory hist').selected m since := by
  have hone' : hist'.OneText := fun a ha b hb => hone a (hp.mem_iff.2 ha) b (hp.mem_iff.2 hb)
  have hmem : ∀ g, g ∈ (ofHistory hist).selected m since ↔ g ∈ (ofHistory hist').selected m since := by
    intro g
    rw [mem_selected_iff hone, mem_selected_iff hone']
    exact and_congr_left fun _ => ⟨fun hg => hg.perm hp, fun hg => hg.perm hp.symm⟩
  have hperm : ((ofHistory hist).selected m since).Perm ((ofHistory hist').selected m since) :=
    (List.perm_ext_iff_of_nodup (List.Nodup.of_map _ (selected_patterns_nodup m since))
      (List.Nodup.of_map _ (selected_patterns_nodup m since))).2 hmem
  refine List.Perm.eq_of_pairwise ?_ (selected_sorted _ m since) (selected_sorted _ m since) hperm
  intro a b ha hb hab hba
  have ha := (mem_selected_iff hone).1 ha
  have hb := (mem_selected_iff hone).1 ((hmem b).2 hb)
  exact ha.1.unique hone hb.1 (groupOrder_antisymm hab hba)

/-- A pattern is listed when it was submitted, by enough keys, and never with a day before the
filter's. -/
theorem listed_iff {m : I64} {since : Option I64} {h : Bytes32} :
    (∃ g ∈ (ofHistory hist).selected m since, g.patternHash = h) ↔
      (∃ s ∈ hist, s.patternHash = h) ∧ m.1 ≤ hist.corroborators h ∧
        since.getD I64.min ∈ lowerBounds (hist.days h) := by
  constructor
  · rintro ⟨g, hg, rfl⟩
    obtain ⟨hgr, hc, hd⟩ := mem_selected.1 hg
    obtain ⟨-, hig⟩ := group_isGroup hgr
    obtain ⟨s, hs, hh, -⟩ := hig.text
    refine ⟨⟨s, hs, hh⟩, by rw [← hig.count]; exact hc, fun d hdm => le_trans hd (hig.day.2 hdm)⟩
  · rintro ⟨hs, hc, hd⟩
    obtain ⟨g, hg⟩ := exists_group hs
    obtain ⟨rfl, hig⟩ := group_isGroup hg
    exact ⟨g, mem_selected.2 ⟨hg, by rw [hig.count]; exact hc, hd hig.day.1⟩, rfl⟩

/-- The count of a listed group. -/
theorem selected_count {m : I64} {since : Option I64} {g : PatternGroup}
    (hg : g ∈ (ofHistory hist).selected m since) : g.corroborators = hist.corroborators g.patternHash :=
  (group_isGroup (mem_selected.1 hg).1).2.count

/-- After a further submission a listed pattern is still listed, with no lower count, unless it is the
submitted pattern and the day is before the filter's. -/
theorem still_listed_iff {m : I64} {since : Option I64} {g : PatternGroup} (r : CorroborationRow)
    (hg : g ∈ (ofHistory hist).selected m since) :
    (∃ g' ∈ (ofHistory (hist ++ [r])).selected m since,
        g'.patternHash = g.patternHash ∧ g.corroborators ≤ g'.corroborators) ↔
      ¬ (g.patternHash = r.patternHash ∧ ∃ s ∈ since, r.submittedDay < s) := by
  obtain ⟨⟨s, hs, hh⟩, hc, hd⟩ := listed_iff.1 ⟨g, hg, rfl⟩
  have hle : hist.corroborators g.patternHash ≤ History.corroborators (hist ++ [r]) g.patternHash := by
    rw [History.corroborators_snoc]; exact Nat.le_add_right ..
  have hday : (r.patternHash = g.patternHash → since.getD I64.min ≤ r.submittedDay) ↔
      ¬ (g.patternHash = r.patternHash ∧ ∃ s ∈ since, r.submittedDay < s) := by
    cases since with
    | none =>
      constructor
      · rintro - ⟨-, s, hs, -⟩; cases hs
      · intro _ _; exact I64.min_le _
    | some s =>
      constructor
      · rintro hle ⟨he, s', hs', hlt⟩
        cases hs'
        exact absurd (hle he.symm) (not_le_of_gt hlt)
      · intro hn he
        by_contra hlt
        exact hn ⟨he.symm, s, rfl, not_le.1 hlt⟩
  rw [← hday]
  constructor
  · rintro ⟨g', hg', he, -⟩
    have hl := (listed_iff.1 ⟨g', hg', he⟩).2.2
    exact ((History.lowerBounds_days_snoc ..).1 hl).2
  · intro hr
    obtain ⟨g', hg', he⟩ := listed_iff.2 ⟨⟨s, List.mem_append_left _ hs, hh⟩, le_trans hc (by exact_mod_cast hle),
      (History.lowerBounds_days_snoc ..).2 ⟨hd, hr⟩⟩
    refine ⟨g', hg', he, ?_⟩
    rw [selected_count hg, selected_count hg', he]
    exact hle

theorem totalUniquePatterns_ofHistory (hist : History) :
    (ofHistory hist).totalUniquePatterns = hist.patterns.length := by
  refine List.Perm.length_eq ((List.perm_ext_iff_of_nodup (List.nodup_dedup _) (List.nodup_dedup _)).2 fun h => ?_)
  rw [List.mem_dedup, List.mem_dedup, List.mem_map, List.mem_map]
  constructor
  · rintro ⟨r, hr, rfl⟩
    obtain ⟨s, hs, hk, -⟩ := text_of_mem hr
    exact ⟨s, hs, congrArg Prod.fst hk⟩
  · rintro ⟨s, hs, rfl⟩
    obtain ⟨r, hr, hk⟩ := (exists_row_iff s.key).2 ⟨s, hs, rfl⟩
    exact ⟨r, hr, congrArg Prod.fst hk⟩

/-! ## What an insertion reports -/

theorem upsert_new_iff (hist : History) (r : CorroborationRow) :
    ((ofHistory hist).upsert r).1 = true ↔ r.publicKey ∉ hist.keysOf r.patternHash := by
  show (!((ofHistory hist).corroborations.find? r.key).isSome) = true ↔ _
  rw [Bool.not_eq_true', ← Bool.not_eq_true, find?_ofHistory_isSome, History.mem_keysOf]
  rfl

end Store

end Thundercrab
