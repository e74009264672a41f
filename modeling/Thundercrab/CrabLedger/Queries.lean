/-
`api.rs`, the two queries over whole runs. `/v1/suggestions` returns the first of the listed patterns
by their counts, up to a limit, each with the rule that was submitted: what the limit cuts off has no
more keys than anything that is returned, a narrower query returns what a client would keep of a
wider one, and what one query returned a later one returns with no lower count, unless others have
come before it. `/v1/health` counts the patterns.
-/
import Thundercrab.CrabLedger.Aggregation
import Thundercrab.CrabLedger.Provenance

namespace Thundercrab

open Lib Lib.Json

/-! ## Histories with the same rows -/

namespace History

variable {hist hist' : History} {h : Bytes32}

theorem corroborators_mono (hsub : ∀ r ∈ hist, r ∈ hist') (h : Bytes32) :
    hist.corroborators h ≤ hist'.corroborators h := by
  refine (List.subperm_of_subset (List.nodup_dedup _) fun k hk => ?_).length_le
  obtain ⟨r, hr, hkey⟩ := mem_keysOf.1 hk
  exact mem_keysOf.2 ⟨r, hsub r hr, hkey⟩

theorem corroborators_pos : 1 ≤ hist.corroborators h ↔ ∃ r ∈ hist, r.patternHash = h := by
  show 0 < (hist.keysOf h).length ↔ _
  rw [List.length_pos_iff_exists_mem]
  constructor
  · rintro ⟨k, hk⟩
    obtain ⟨r, hr, hkey⟩ := mem_keysOf.1 hk
    exact ⟨r, hr, congrArg Prod.fst hkey⟩
  · rintro ⟨r, hr, rfl⟩
    exact ⟨r.publicKey, mem_keysOf.2 ⟨r, hr, rfl⟩⟩

theorem mem_patterns : h ∈ hist.patterns ↔ ∃ r ∈ hist, r.patternHash = h := by
  unfold patterns
  rw [List.mem_dedup, List.mem_map]

theorem IsGroup.of_same (hsame : ∀ r, r ∈ hist ↔ r ∈ hist') {g : PatternGroup} (hg : hist.IsGroup g) :
    hist'.IsGroup g := by
  have hdays : hist.days g.patternHash = hist'.days g.patternHash :=
    Set.ext fun _ => exists_congr fun r => and_congr_left fun _ => hsame r
  obtain ⟨r, hr, ht⟩ := hg.text
  refine ⟨hg.count.trans (le_antisymm ?_ ?_), hdays ▸ hg.day, r, (hsame r).1 hr, ht⟩
  · exact corroborators_mono (fun r hr => (hsame r).1 hr) _
  · exact corroborators_mono (fun r hr => (hsame r).2 hr) _

end History

namespace Store

variable {hist hist' : History}

/-- Sorted lists of groups with the same members are the same, a pattern having one group. -/
theorem sorted_eq {a b : List PatternGroup} (hone : ∀ g ∈ a, ∀ g' ∈ a, g.patternHash = g'.patternHash → g = g')
    (hp : a.Perm b) (ha : a.Pairwise groupOrder) (hb : b.Pairwise groupOrder) : a = b := by
  refine List.Perm.eq_of_pairwise (fun g g' hg hg' hab hba => ?_) ha hb hp
  exact hone g hg g' (hp.mem_iff.2 hg') (groupOrder_antisymm hab hba)

theorem selected_one {m : I64} {since : Option I64} {g g' : PatternGroup}
    (hg : g ∈ (ofHistory hist).selected m since) (hg' : g' ∈ (ofHistory hist).selected m since)
    (h : g.patternHash = g'.patternHash) : g = g' := by
  have hfind := (mem_selected.1 hg).1
  rw [h, (mem_selected.1 hg').1] at hfind
  exact (Option.some.inj hfind).symm

/-- The aggregated list does not depend on the order of the history, nor on repeated submissions. -/
theorem selected_same (hone : hist.OneText) (hsame : ∀ r, r ∈ hist ↔ r ∈ hist') (m : I64) (since : Option I64) :
    (ofHistory hist).selected m since = (ofHistory hist').selected m since := by
  have hone' : hist'.OneText := fun a ha b hb => hone a ((hsame a).2 ha) b ((hsame b).2 hb)
  have hmem : ∀ g, g ∈ (ofHistory hist).selected m since ↔ g ∈ (ofHistory hist').selected m since := by
    intro g
    rw [mem_selected_iff hone, mem_selected_iff hone']
    exact and_congr_left fun _ => ⟨fun hg => hg.of_same hsame, fun hg => hg.of_same fun r => (hsame r).symm⟩
  refine sorted_eq (fun g hg g' hg' => selected_one hg hg') ?_ (selected_sorted _ m since) (selected_sorted _ m since)
  exact (List.perm_ext_iff_of_nodup (List.Nodup.of_map _ (selected_patterns_nodup m since))
    (List.Nodup.of_map _ (selected_patterns_nodup m since))).2 hmem

/-- Where the first groups have every selected pattern among them they are all. -/
theorem take_selected_all {m : I64} {since : Option I64} {n : Nat}
    (h : ∀ g ∈ (ofHistory hist).selected m since,
      ∃ g' ∈ ((ofHistory hist).selected m since).take n, g'.patternHash = g.patternHash) :
    ((ofHistory hist).selected m since).take n = (ofHistory hist).selected m since := by
  have hnodup : ((ofHistory hist).selected m since).Nodup := List.Nodup.of_map _ (selected_patterns_nodup m since)
  refine List.take_of_length_le (not_lt.1 fun hlt => ?_)
  obtain ⟨g', hg', hh⟩ := h _ (List.getElem_mem hlt)
  rw [selected_one (List.mem_of_mem_take hg') (List.getElem_mem hlt) hh] at hg'
  obtain ⟨i, hi, heq⟩ := List.mem_take_iff_getElem.1 hg'
  have := hnodup.getElem_inj_iff.1 heq
  omega

/-- What a narrower filter selects is what it keeps of the wider one's. -/
theorem selected_filter {m m' : I64} {since since' : Option I64} (hm : m.1 ≤ m'.1)
    (hs : since.getD I64.min ≤ since'.getD I64.min) :
    (ofHistory hist).selected m' since' =
      ((ofHistory hist).selected m since).filter (having m' (since'.getD I64.min)) := by
  refine sorted_eq (fun g hg g' hg' => selected_one hg hg') ?_ (selected_sorted _ m' since')
    ((selected_sorted _ m since).filter _)
  refine (List.perm_ext_iff_of_nodup (List.Nodup.of_map _ (selected_patterns_nodup m' since'))
    ((List.Nodup.of_map _ (selected_patterns_nodup m since)).filter _)).2 fun g => ?_
  rw [List.mem_filter, decide_eq_true_eq, mem_selected, mem_selected]
  constructor
  · rintro ⟨hg, hv⟩
    exact ⟨⟨hg, hm.trans hv.1, hs.trans hv.2⟩, hv⟩
  · rintro ⟨⟨hg, -⟩, hv⟩
    exact ⟨hg, hv⟩

end Store

namespace Api

variable {C : Crypto} {J : SerdeJson} {G : Nat → TokenBucket}

/-- The most entries that a query gets. -/
def SuggestionsQuery.cap (q : SuggestionsQuery) : Nat := min q.limit 1000

/-- The query asks for the pattern: enough keys, and no day before its own. -/
def SuggestionsQuery.Wants (q : SuggestionsQuery) (hist : History) (h : Bytes32) : Prop :=
  q.minCorroborators.1 ≤ hist.corroborators h ∧ ∃ d, IsLeast (hist.days h) d ∧ ∀ s ∈ q.sinceDay, s ≤ d

/-- A pattern comes before another: by more keys, or by its hash. -/
def Before (hist : History) (a b : Bytes32) : Prop :=
  hist.corroborators b < hist.corroborators a ∨ (hist.corroborators a = hist.corroborators b ∧ memLe a.1 b.1)

/-- What an entry of a reply says of its pattern. -/
structure Tells (C : Crypto) (J : SerdeJson) (es : List SubmitEnvelope) (hist : History) (h : Bytes32)
    (e : SuggestionEntry) : Prop where
  hash : e.patternHash = hexEncode h.1
  count : e.corroborators = hist.corroborators h
  day : IsLeast (hist.days h) e.firstSeenDay
  rule : ∃ rule : CrabRule, e.rule = sortValue rule.toValue ∧ CrabRule.fromValue e.rule = some rule ∧
    C.blake3 (Ledger.canonicalJsonBytes J rule.toValue) = h ∧
    ∀ e' ∈ es, C.blake3 (Ledger.canonicalJsonBytes J e'.signed.suggestion.rule.toValue) = h →
      e'.signed.suggestion.rule = rule

/-- A row of the aggregated list as an entry of the reply. -/
def suggestionEntry (J : SerdeJson) (a : AggregatedSuggestion) : SuggestionEntry :=
  { patternHash := a.patternHashHex
    rule := (J.fromStr a.ruleJson).getD .null
    corroborators := a.corroborators
    firstSeenDay := a.firstSeenDay }

/-! ## One query -/

theorem handleSuggestions_ok {state : AppState G} {storeFault : Bool} {q : SuggestionsQuery}
    {entries : List SuggestionEntry} (h : handleSuggestions J state storeFault q = .ok entries) :
    entries = ((state.store.listAggregated q.minCorroborators q.sinceDay).take q.cap).map (suggestionEntry J) := by
  unfold handleSuggestions at h
  cases storeFault with
  | true => cases h
  | false => cases h; rfl

/-- The entry of a pattern tells what the history has of it. -/
theorem EntryOf.tells {es : List SubmitEnvelope} {hist : History} {h : Bytes32} {a : AggregatedSuggestion}
    (ha : EntryOf C J es hist h a) : Tells C J es hist h (suggestionEntry J a) := by
  obtain ⟨rule, hhash, htext, honly⟩ := ha.rule
  obtain ⟨hparse, hdecode⟩ := fromStr_canonical J rule
  have ht : J.toString (sortValue rule.toValue) = a.ruleJson := Option.some.inj htext
  have hrule : (suggestionEntry J a).rule = sortValue rule.toValue := by
    show (J.fromStr a.ruleJson).getD .null = _
    rw [← ht, hparse]; rfl
  exact ⟨ha.hex, ha.count, ha.day, rule, hrule, by rw [hrule, hdecode], hhash, honly⟩

/-- A reply as the patterns it is about: those that come first of the ones asked for. -/
structure Page (C : Crypto) (J : SerdeJson) (es : List SubmitEnvelope) (hist : History) (q : SuggestionsQuery)
    (hs : List Bytes32) (entries : List SuggestionEntry) : Prop where
  tells : List.Forall₂ (Tells C J es hist) hs entries
  nodup : hs.Nodup
  sorted : hs.Pairwise (Before hist)
  wanted : ∀ h ∈ hs, q.Wants hist h
  le_cap : entries.length ≤ q.cap
  /-- What is asked for and not returned comes after all of a full reply. -/
  cut : ∀ h, q.Wants hist h → h ∈ hs ∨ (entries.length = q.cap ∧ ∀ h' ∈ hs, Before hist h' h)

theorem exists_page {es : List SubmitEnvelope} {hist : History} (hcoll : CollisionFree C J es)
    (hb : ∀ row ∈ hist, Backed C J es row) (q : SuggestionsQuery) :
    ∃ hs, Page C J es hist q hs
      ((((Store.ofHistory hist).listAggregated q.minCorroborators q.sinceDay).take q.cap).map (suggestionEntry J)) := by
  obtain ⟨all, hnodup, hmem, hsorted, hentries⟩ := listAggregated_spec hcoll hb q.minCorroborators q.sinceDay
  have htells : List.Forall₂ (Tells C J es hist) (all.take q.cap)
      ((((Store.ofHistory hist).listAggregated q.minCorroborators q.sinceDay).take q.cap).map (suggestionEntry J)) := by
    rw [List.forall₂_map_right_iff]
    exact (List.forall₂_take q.cap hentries).imp fun _ _ => EntryOf.tells
  have hlen := htells.length_eq
  refine ⟨all.take q.cap, htells, hnodup.sublist (List.take_sublist ..), hsorted.sublist (List.take_sublist ..),
    fun h hh => (hmem h).1 (List.mem_of_mem_take hh), ?_, fun h hh => ?_⟩
  · rw [← hlen]
    exact List.length_take_le ..
  · rcases mem_take_or_after hsorted q.cap ((hmem h).2 hh) with hin | ⟨hfull, hafter⟩
    · exact .inl hin
    · exact .inr ⟨hlen ▸ hfull, hafter⟩

theorem wants_mem {hist : History} {q : SuggestionsQuery} {h : Bytes32} (hw : q.Wants hist h) : h ∈ hist.patterns := by
  obtain ⟨-, -, ⟨⟨r, hr, hh, -⟩, -⟩, -⟩ := hw
  exact History.mem_patterns.2 ⟨r, hr, hh⟩

/-- A query that asks for one key and for any day asks for every pattern. -/
theorem wants_of_mem {hist : History} {q : SuggestionsQuery} (hm : q.minCorroborators.1 ≤ 1)
    (hsince : q.sinceDay = none) {h : Bytes32} (hh : h ∈ hist.patterns) : q.Wants hist h := by
  have hrow := History.mem_patterns.1 hh
  obtain ⟨g, hg⟩ := Store.exists_group hrow
  obtain ⟨rfl, hig⟩ := Store.group_isGroup hg
  refine ⟨hm.trans (by exact_mod_cast History.corroborators_pos.2 hrow), g.firstSeenDay, hig.day, fun s hs => ?_⟩
  rw [hsince] at hs
  cases hs

namespace Page

variable {es : List SubmitEnvelope} {hist : History} {q : SuggestionsQuery} {hs : List Bytes32}
  {entries : List SuggestionEntry}

theorem length_eq (hp : Page C J es hist q hs entries) (hm : q.minCorroborators.1 ≤ 1) (hsince : q.sinceDay = none) :
    entries.length = min q.cap hist.patterns.length := by
  have hlen := hp.tells.length_eq
  have hsub : hs ⊆ hist.patterns := fun h hh => wants_mem (hp.wanted h hh)
  have hle : hs.length ≤ hist.patterns.length := (List.subperm_of_subset hp.nodup hsub).length_le
  by_cases hall : hist.patterns ⊆ hs
  -- everything is returned
  · have hge : hist.patterns.length ≤ hs.length := (List.subperm_of_subset (List.nodup_dedup _) hall).length_le
    have := hp.le_cap
    omega
  -- something is cut off
  · obtain ⟨h, hh, hnot⟩ : ∃ h ∈ hist.patterns, h ∉ hs := by
      by_contra hno
      exact hall fun h hh => by_contra fun hnot => hno ⟨h, hh, hnot⟩
    obtain ⟨hfull, -⟩ := (hp.cut h (wants_of_mem hm hsince hh)).resolve_left hnot
    omega

/-- A returned pattern has its entry, and an entry its pattern. -/
theorem entry_of (hp : Page C J es hist q hs entries) {h : Bytes32} (hh : h ∈ hs) :
    ∃ e ∈ entries, Tells C J es hist h e := by
  obtain ⟨i, hi, rfl⟩ := List.mem_iff_getElem.1 hh
  have hi' : i < entries.length := hp.tells.length_eq ▸ hi
  exact ⟨entries[i], List.getElem_mem hi', hp.tells.get hi hi'⟩

theorem pattern_of (hp : Page C J es hist q hs entries) {e : SuggestionEntry} (he : e ∈ entries) :
    ∃ h ∈ hs, Tells C J es hist h e := by
  obtain ⟨i, hi, rfl⟩ := List.mem_iff_getElem.1 he
  have hi' : i < hs.length := hp.tells.length_eq ▸ hi
  exact ⟨hs[i], List.getElem_mem hi', hp.tells.get hi' hi⟩

end Page

theorem getD_le_iff {since : Option I64} {d : I64} : since.getD I64.min ≤ d ↔ ∀ s ∈ since, s ≤ d := by
  cases since with
  | none => exact ⟨fun _ s hs => (by cases hs), fun _ => I64.min_le d⟩
  | some s => exact ⟨fun h s' hs' => (by cases hs'; exact h), fun h => h s rfl⟩

/-- The entries of a list of groups. -/
def entriesOf (J : SerdeJson) (gs : List PatternGroup) : List SuggestionEntry :=
  gs.map fun g => suggestionEntry J g.aggregated

theorem entriesOf_take (gs : List PatternGroup) (n : Nat) : (entriesOf J gs).take n = entriesOf J (gs.take n) :=
  List.map_take.symm

theorem entriesOf_filter (m : I64) (since : Option I64) (gs : List PatternGroup) :
    (entriesOf J gs).filter (fun e => m.1 ≤ e.corroborators ∧ ∀ d ∈ since, d ≤ e.firstSeenDay) =
      entriesOf J (gs.filter (Store.having m (since.getD I64.min))) := by
  unfold entriesOf
  rw [List.filter_map]
  refine congrArg _ (List.filter_congr fun g _ => ?_)
  exact decide_eq_decide.2 (and_congr_right fun _ => getD_le_iff.symm)

theorem handleSuggestions_eq (state : AppState G) (q : SuggestionsQuery) :
    handleSuggestions J state false q =
      .ok ((entriesOf J (state.store.selected q.minCorroborators q.sinceDay)).take q.cap) := by
  have hlist : (entriesOf J (state.store.selected q.minCorroborators q.sinceDay)).take q.cap =
      ((state.store.listAggregated q.minCorroborators q.sinceDay).take q.cap).map (suggestionEntry J) := by
    rw [Store.listAggregated, List.map_take, List.map_map]
    rfl
  rw [hlist]
  rfl

theorem handleSuggestions_entriesOf {state : AppState G} {storeFault : Bool} {q : SuggestionsQuery}
    {entries : List SuggestionEntry} (h : handleSuggestions J state storeFault q = .ok entries) :
    entries = (entriesOf J (state.store.selected q.minCorroborators q.sinceDay)).take q.cap := by
  cases storeFault with
  | true => cases h
  | false =>
    rw [handleSuggestions_eq] at h
    exact (Except.ok.inj h).symm

/-- The entry of a pattern from more submissions: the same rule, no fewer keys, no later day. -/
theorem Tells.grow {es es' : List SubmitEnvelope} {hist hist' : History} {h : Bytes32} {e e' : SuggestionEntry}
    (hb : ∀ row ∈ hist, Backed C J es row) (hes : es ⊆ es') (hsub : ∀ r ∈ hist, r ∈ hist')
    (he : Tells C J es hist h e) (he' : Tells C J es' hist' h e') :
    e'.patternHash = e.patternHash ∧ e'.rule = e.rule ∧ e.corroborators ≤ e'.corroborators ∧
      e'.firstSeenDay ≤ e.firstSeenDay := by
  obtain ⟨⟨row, hrow, hh, hd⟩, -⟩ := he.day
  obtain ⟨rule, hrule, -, -, honly⟩ := he.rule
  obtain ⟨rule', hrule', -, -, honly'⟩ := he'.rule
  -- the submission behind the day has the rule of both entries
  obtain ⟨x, hx, hp, rfl⟩ := hb row hrow
  have hsame : rule' = rule :=
    (honly' x (hes hx) (hp.verified.hash.trans hh)).symm.trans (honly x hx (hp.verified.hash.trans hh))
  refine ⟨he'.hash.trans he.hash.symm, by rw [hrule, hrule', hsame], ?_, ?_⟩
  · rw [he.count, he'.count]
    exact History.corroborators_mono hsub h
  · exact he'.day.2 ⟨_, hsub _ hrow, hh, hd⟩

/-! ## Stores of the same rows -/

section Same

variable {hist hist' : History} {a b : AppState G} (hsame : ∀ r, r ∈ hist ↔ r ∈ hist')
  (ha : a.store = .ofHistory hist) (hb : b.store = .ofHistory hist')

include hsame ha hb

theorem answers_same (hone : hist.OneText) (storeFault : Bool) (q : SuggestionsQuery) :
    handleSuggestions J a storeFault q = handleSuggestions J b storeFault q := by
  have hlist : a.store.listAggregated q.minCorroborators q.sinceDay =
      b.store.listAggregated q.minCorroborators q.sinceDay := by
    rw [ha, hb, Store.listAggregated, Store.selected_same hone hsame]
    rfl
  unfold handleSuggestions
  rw [hlist]

theorem health_same (storeFault : Bool) : handleHealth a storeFault = handleHealth b storeFault := by
  have htotal : a.store.totalUniquePatterns = b.store.totalUniquePatterns := by
    rw [ha, hb, Store.totalUniquePatterns_ofHistory, Store.totalUniquePatterns_ofHistory]
    refine ((List.perm_ext_iff_of_nodup (List.nodup_dedup _) (List.nodup_dedup _)).2 fun k => ?_).length_eq
    rw [← History.patterns, ← History.patterns, History.mem_patterns, History.mem_patterns]
    exact exists_congr fun r => and_congr_left fun _ => hsame r
  unfold handleHealth
  rw [htotal]

end Same

theorem handleHealth_total (state : AppState G) :
    (handleHealth state false).totalUniquePatterns = state.store.totalUniquePatterns := rfl

/-! ## Over a run -/

theorem arrivals_append (evs evs' : List Event) : arrivals (evs ++ evs') = arrivals evs ++ arrivals evs' :=
  List.filterMap_append

theorem CollisionFree.mono {es es' : List SubmitEnvelope} (h : CollisionFree C J es') (hsub : es ⊆ es') :
    CollisionFree C J es :=
  fun e he e' he' => h e (hsub he) e' (hsub he')

theorem Server.run_append (s : Server G) : ∀ (evs evs' : List Event),
    s.run C J (evs ++ evs') =
      ((s.run C J evs).1 ++ ((s.run C J evs).2.run C J evs').1, ((s.run C J evs).2.run C J evs').2)
  | [], evs' => rfl
  | ev :: evs, evs' => by
    show ((s.step C J ev).1 ++ ((s.step C J ev).2.run C J (evs ++ evs')).1,
      ((s.step C J ev).2.run C J (evs ++ evs')).2) = _
    rw [run_append (s.step C J ev).2 evs evs', ← List.append_assoc]
    rfl

theorem committed_append (s : Server G) (evs evs' : List Event) :
    committed C J s (evs ++ evs') = committed C J s evs ++ committed C J (s.run C J evs).2 evs' := by
  unfold committed
  rw [Server.run_append, acceptedIn_append, List.map_append]

section Fresh

variable {s : Server G} (hs : s.Fresh) {evs : List Event}

include hs

theorem page_of_run (hcoll : CollisionFree C J (arrivals evs)) {storeFault : Bool} {q : SuggestionsQuery}
    {entries : List SuggestionEntry}
    (h : handleSuggestions J (s.run C J evs).2.app storeFault q = .ok entries) :
    ∃ hs, Page C J (arrivals evs) (committed C J s evs) q hs entries := by
  rw [handleSuggestions_ok h, store_of_run hs]
  exact exists_page hcoll (backed_of_run hs evs) q

/-- What one query returns. In every run from an empty store, with requests and store locks interleaved
in any order, a reply of `/v1/suggestions` is the patterns that come first, by their accepted keys and
then by their hash, of those asked for: each once, with its count, its least day and the one rule that
was submitted for it, no more than the limit, and when something asked for is left out the reply is as
long as the limit and all of it comes first. A query without filters returns as many patterns as
`/v1/health` counts, up to the limit. -/
theorem suggestions_of_run (hcoll : CollisionFree C J (arrivals evs)) (storeFault : Bool) (q : SuggestionsQuery)
    (entries : List SuggestionEntry)
    (h : handleSuggestions J (s.run C J evs).2.app storeFault q = .ok entries) :
    (∃ hs, Page C J (arrivals evs) (committed C J s evs) q hs entries) ∧
    (q.minCorroborators.1 ≤ 1 → q.sinceDay = none →
      entries.length = min q.cap (handleHealth (s.run C J evs).2.app false).totalUniquePatterns) := by
  obtain ⟨hs', hpage⟩ := page_of_run hs hcoll h
  refine ⟨⟨hs', hpage⟩, fun hm hsince => ?_⟩
  rw [hpage.length_eq hm hsince, handleHealth_total, store_of_run hs, Store.totalUniquePatterns_ofHistory]

/-- A narrower query in place of a wider one. In every run from an empty store, when a reply leaves out
nothing that was asked for, a query for more keys or for later days returns what a client keeps of that
reply by counting and comparing days itself, up to its own limit. -/
theorem narrower_suggestions (evs : List Event) (storeFault storeFault' : Bool) (q q' : SuggestionsQuery)
    (entries entries' : List SuggestionEntry) (hm : q.minCorroborators.1 ≤ q'.minCorroborators.1)
    (hsince : ∀ d ∈ q.sinceDay, ∃ d' ∈ q'.sinceDay, d ≤ d')
    (h : handleSuggestions J (s.run C J evs).2.app storeFault q = .ok entries)
    (h' : handleSuggestions J (s.run C J evs).2.app storeFault' q' = .ok entries')
    (hall : ∀ k, q.Wants (committed C J s evs) k → ∃ e ∈ entries, e.patternHash = hexEncode k.1) :
    entries' = (entries.filter fun e =>
      q'.minCorroborators.1 ≤ e.corroborators ∧ ∀ d ∈ q'.sinceDay, d ≤ e.firstSeenDay).take q'.cap := by
  have hcut := handleSuggestions_entriesOf h
  rw [store_of_run hs, entriesOf_take, Store.take_selected_all fun g hg => ?_] at hcut
  · have hday : q.sinceDay.getD I64.min ≤ q'.sinceDay.getD I64.min := by
      refine getD_le_iff.2 fun d hd => ?_
      obtain ⟨d', hd', hle⟩ := hsince d hd
      rw [hd']; exact hle
    rw [handleSuggestions_entriesOf h', hcut, entriesOf_filter, store_of_run hs, Store.selected_filter hm hday]
  -- what is selected is asked for, so it has an entry
  · obtain ⟨e, he, hhex⟩ := hall g.patternHash (listed_iff_least.1 ⟨g, hg, rfl⟩)
    rw [hcut, entriesOf] at he
    obtain ⟨g', hg', rfl⟩ := List.mem_map.1 he
    exact ⟨g', hg', Subtype.ext (hexEncode_inj hhex)⟩

/-- What a reader has seen stays. In every run from an empty store that goes on after a reply, a later
reply to the same query, with no day to filter by, is no shorter and has each entry of the earlier one
again, with the same rule, no fewer keys and no later day, except those that the limit cuts off: then
the later reply is full, and of patterns with as many keys at least. -/
theorem later_suggestions (evs evs' : List Event) (hcoll : CollisionFree C J (arrivals (evs ++ evs')))
    (storeFault storeFault' : Bool) (q : SuggestionsQuery) (hsince : q.sinceDay = none)
    (entries entries' : List SuggestionEntry)
    (h : handleSuggestions J (s.run C J evs).2.app storeFault q = .ok entries)
    (h' : handleSuggestions J (s.run C J (evs ++ evs')).2.app storeFault' q = .ok entries') :
    entries.length ≤ entries'.length ∧
    ∀ e ∈ entries,
      (∃ e' ∈ entries', e'.patternHash = e.patternHash ∧ e'.rule = e.rule ∧ e.corroborators ≤ e'.corroborators ∧
        e'.firstSeenDay ≤ e.firstSeenDay) ∨
      (entries'.length = q.cap ∧ ∀ e' ∈ entries', e.corroborators ≤ e'.corroborators) := by
  have hes : arrivals evs ⊆ arrivals (evs ++ evs') := by
    rw [arrivals_append]
    exact List.subset_append_left ..
  have hsub : ∀ r ∈ committed C J s evs, r ∈ committed C J s (evs ++ evs') := by
    rw [committed_append]
    exact fun r hr => List.mem_append_left _ hr
  have hb := backed_of_run (C := C) (J := J) hs evs
  obtain ⟨hs₁, hpage⟩ := page_of_run hs (hcoll.mono hes) h
  obtain ⟨hs₂, hpage'⟩ := page_of_run hs hcoll h'
  -- what was asked for still is
  have hcut : ∀ k ∈ hs₁, k ∈ hs₂ ∨ (entries'.length = q.cap ∧
      ∀ k' ∈ hs₂, Before (committed C J s (evs ++ evs')) k' k) := by
    intro k hk
    obtain ⟨hm, -, ⟨⟨r, hr, hh, -⟩, -⟩, -⟩ := hpage.wanted k hk
    obtain ⟨g, hg⟩ := Store.exists_group ⟨r, hsub r hr, hh⟩
    obtain ⟨rfl, hig⟩ := Store.group_isGroup hg
    refine hpage'.cut g.patternHash ⟨hm.trans (by exact_mod_cast History.corroborators_mono hsub _), g.firstSeenDay,
      hig.day, fun d hd => ?_⟩
    rw [hsince] at hd
    cases hd
  have hlen := hpage.tells.length_eq
  have hlen' := hpage'.tells.length_eq
  constructor
  · by_cases hall : hs₁ ⊆ hs₂
    · have := (List.subperm_of_subset hpage.nodup hall).length_le
      omega
    · obtain ⟨k, hk, hnot⟩ : ∃ k ∈ hs₁, k ∉ hs₂ := by
        by_contra hno
        exact hall fun k hk => by_contra fun hnot => hno ⟨k, hk, hnot⟩
      obtain ⟨hfull, -⟩ := (hcut k hk).resolve_left hnot
      rw [hfull]
      exact hpage.le_cap
  · intro e he
    obtain ⟨k, hk, htells⟩ := hpage.pattern_of he
    rcases hcut k hk with hin | ⟨hfull, hbefore⟩
    · obtain ⟨e', he', htells'⟩ := hpage'.entry_of hin
      exact .inl ⟨e', he', htells.grow hb hes hsub htells'⟩
    · refine .inr ⟨hfull, fun e' he' => ?_⟩
      obtain ⟨k', hk', htells'⟩ := hpage'.pattern_of he'
      rw [htells.count, htells'.count]
      refine (History.corroborators_mono hsub k).trans ?_
      rcases hbefore k' hk' with hlt | ⟨heq, -⟩
      · exact hlt.le
      · exact heq.ge

/-- Submissions that are sent again change nothing that is read. Two runs from empty stores, whatever
their limiters hold and however their requests interleave, that accept the same rows, in any order and
any number of times each, answer every query alike. -/
theorem same_rows_same_answers (evs : List Event) (hcoll : CollisionFree C J (arrivals evs)) (s' : Server G)
    (hs' : s'.Fresh) (evs' : List Event)
    (hsame : ∀ row, row ∈ committed C J s evs ↔ row ∈ committed C J s' evs') (storeFault : Bool) :
    (∀ q, handleSuggestions J (s.run C J evs).2.app storeFault q =
      handleSuggestions J (s'.run C J evs').2.app storeFault q) ∧
    handleHealth (s.run C J evs).2.app storeFault = handleHealth (s'.run C J evs').2.app storeFault := by
  have hone := oneText_of_backed hcoll (backed_of_run hs evs)
  exact ⟨fun q => answers_same hsame (store_of_run hs evs) (store_of_run hs' evs') hone storeFault q,
    health_same hsame (store_of_run hs evs) (store_of_run hs' evs') storeFault⟩

end Fresh

/-! ## Queries after submissions of two installs -/

/-- The reply to a query after a run of both installs. -/
def pairReply (q : SuggestionsQuery) : List SuggestionEntry :=
  (entriesOf .compact ((sampleStart.run pairCrypto .compact pairEvents).2.app.store.selected
    q.minCorroborators q.sinceDay)).take q.cap

theorem pairReply_ok (q : SuggestionsQuery) :
    handleSuggestions .compact (sampleStart.run pairCrypto .compact pairEvents).2.app false q = .ok (pairReply q) :=
  handleSuggestions_eq _ q

theorem pair_total : (handleHealth (sampleStart.run pairCrypto .compact pairEvents).2.app false).totalUniquePatterns =
    2 := by
  rw [handleHealth_total, store_of_run sampleStart_fresh, pair_committed, Store.totalUniquePatterns_ofHistory]
  decide

theorem suggestions_of_run_sample : (pairReply {}).length = 2 ∧ (pairReply { limit := 1 }).length = 1 := by
  have hall := (suggestions_of_run sampleStart_fresh pair_collisionFree false {} _ (pairReply_ok {})).2 (le_refl _) rfl
  have hone := (suggestions_of_run sampleStart_fresh pair_collisionFree false { limit := 1 } _
    (pairReply_ok { limit := 1 })).2 (le_refl _) rfl
  rw [pair_total] at hall hone
  exact ⟨hall, hone⟩

/-- The query for patterns of two keys. -/
def twoKeys : SuggestionsQuery := { minCorroborators := ⟨2, by decide⟩ }

/-- A reply of two entries at most leaves nothing out. -/
theorem narrower_suggestions_sample : pairReply twoKeys =
    ((pairReply { limit := 2 }).filter fun e =>
      (2 : Int) ≤ e.corroborators ∧ ∀ d ∈ (none : Option I64), d ≤ e.firstSeenDay).take 1000 := by
  refine narrower_suggestions sampleStart_fresh pairEvents false false { limit := 2 } twoKeys _ _ (by decide)
    (fun d hd => (by cases hd)) (pairReply_ok _) (pairReply_ok _) fun k hk => ?_
  obtain ⟨hs, hpage⟩ := page_of_run sampleStart_fresh pair_collisionFree (pairReply_ok { limit := 2 })
  have hpatterns : hs.length = 2 := by
    rw [hpage.tells.length_eq, hpage.length_eq (le_refl _) rfl, pair_committed]
    decide
  have hmem : k ∈ hs := by
    by_contra hnot
    have hsub : k :: hs ⊆ (committed pairCrypto .compact sampleStart pairEvents).patterns :=
      List.cons_subset.2 ⟨wants_mem hk, fun h hh => wants_mem (hpage.wanted h hh)⟩
    have hle := (List.subperm_of_subset (List.nodup_cons.2 ⟨hnot, hpage.nodup⟩) hsub).length_le
    rw [pair_committed, List.length_cons, hpatterns] at hle
    exact absurd hle (by decide)
  obtain ⟨e, he, htells⟩ := hpage.entry_of hmem
  exact ⟨e, he, htells.hash⟩

/-! ## A submission that is sent again -/

/-- The reply to a query after a run of the install. -/
def sampleReply (evs : List Event) (q : SuggestionsQuery) : List SuggestionEntry :=
  (entriesOf .compact ((sampleStart.run sampleCrypto .compact evs).2.app.store.selected
    q.minCorroborators q.sinceDay)).take q.cap

theorem sampleReply_ok (evs : List Event) (q : SuggestionsQuery) :
    handleSuggestions .compact (sampleStart.run sampleCrypto .compact evs).2.app false q = .ok (sampleReply evs q) :=
  handleSuggestions_eq _ q

/-- The install's submissions are all of its one rule. -/
theorem sample_collisionFree {evs : List Event}
    (h : ∀ e ∈ arrivals evs, e.signed.suggestion.rule = sampleRule) :
    CollisionFree sampleCrypto .compact (arrivals evs) := by
  intro e he e' he' _
  rw [h e he, h e' he']

theorem sampleEvents_rule : ∀ e ∈ arrivals sampleEvents, e.signed.suggestion.rule = sampleRule := by
  intro e he
  rw [List.mem_singleton.1 he]
  rfl

/-- The install sends its submission twice. -/
def resentEvents : List Event := sampleEvents ++ sampleEvents

theorem resentEvents_rule : ∀ e ∈ arrivals resentEvents, e.signed.suggestion.rule = sampleRule := by
  intro e he
  rw [resentEvents, arrivals_append, List.mem_append, or_self] at he
  exact sampleEvents_rule e he

theorem later_suggestions_sample :
    (sampleReply sampleEvents {}).length ≤ (sampleReply resentEvents {}).length :=
  (later_suggestions sampleStart_fresh sampleEvents sampleEvents (sample_collisionFree resentEvents_rule) false false {}
    rfl _ _ (sampleReply_ok _ _) (sampleReply_ok _ _)).1

theorem committed_pair {state : AppState G} {e e' : SubmitEnvelope} {now now' : Nat}
    (hg : Granted state e.signed.publicKey now) (hp : Proven C J e) (hp' : Proven C J e')
    (hg' : ∀ store, Granted { state.draw e.signed.publicKey now with store } e'.signed.publicKey now') :
    committed C J ⟨state, []⟩ [.arrive e now, .lock 0 false, .arrive e' now', .lock 0 false] =
      [rowOf J e.signed, rowOf J e'.signed] := by
  unfold committed
  rw [Server.run_submit _ hg hp]
  simp only
  rw [Server.run_submit _ (hg' _) hp']
  rfl

theorem resent_committed : committed sampleCrypto .compact sampleStart resentEvents =
    [sampleRow day20000 signature20000, sampleRow day20000 signature20000] := by
  have hproven := sample_proven day20000 signature20000 0 (.inl ⟨rfl, rfl⟩)
  rw [resentEvents, sampleEvents, sampleStart]
  exact committed_pair (sample_granted 0) hproven hproven sample_granted_again

theorem same_rows_same_answers_sample :
    handleHealth (sampleStart.run sampleCrypto .compact sampleEvents).2.app false =
      handleHealth (sampleStart.run sampleCrypto .compact resentEvents).2.app false := by
  refine (same_rows_same_answers sampleStart_fresh sampleEvents (sample_collisionFree sampleEvents_rule) sampleStart
    sampleStart_fresh resentEvents (fun row => ?_) false).2
  rw [sample_committed, resent_committed]
  constructor
  · exact List.mem_cons_of_mem _
  · intro hrow
    rcases List.mem_cons.1 hrow with rfl | hrow
    · exact List.mem_singleton_self _
    · exact hrow

end Api

end Thundercrab
