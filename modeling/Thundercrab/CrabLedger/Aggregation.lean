/-
What readers of the ledger see. The aggregated list of any run is determined by the accepted
submissions: one entry for each pattern with enough distinct keys and no day before the filter's,
with the count, the least day and the canonical text of its one rule. A further submission keeps
every entry and lowers no count, except that a pattern submitted with an earlier day is first seen
earlier and leaves the lists filtered from a later day on.
-/
import Thundercrab.CrabLedger.Server

namespace Thundercrab

open Lib Lib.Json

namespace Api

variable {C : Crypto} {J : SerdeJson} {G : Nat → TokenBucket}

/-- `blake3` does not collide on the rules of these submissions. -/
def CollisionFree (C : Crypto) (J : SerdeJson) (es : List SubmitEnvelope) : Prop :=
  ∀ e ∈ es, ∀ e' ∈ es,
    C.blake3 (Ledger.canonicalJsonBytes J e.signed.suggestion.rule.toValue) =
      C.blake3 (Ledger.canonicalJsonBytes J e'.signed.suggestion.rule.toValue) →
    Ledger.canonicalJsonBytes J e.signed.suggestion.rule.toValue =
      Ledger.canonicalJsonBytes J e'.signed.suggestion.rule.toValue

/-- The text of a stored rule is the text that was hashed, so one hash has one text. -/
theorem oneText_of_backed {es : List SubmitEnvelope} {hist : History} (hcoll : CollisionFree C J es)
    (hb : ∀ row ∈ hist, Backed C J es row) : hist.OneText := by
  intro a ha b hb' hab
  obtain ⟨e, he, hp, rfl⟩ := hb a ha
  obtain ⟨e', he', hp', rfl⟩ := hb b hb'
  have hhash := hp.verified.hash.trans (Eq.trans hab hp'.verified.hash.symm)
  exact utf8_inj (hcoll e he e' he' hhash)

/-- What the entry of a pattern says: its count, its least day, and the canonical text of the one
rule with its hash. -/
structure EntryOf (C : Crypto) (J : SerdeJson) (es : List SubmitEnvelope) (hist : History) (h : Bytes32)
    (e : AggregatedSuggestion) : Prop where
  hex : e.patternHashHex = hexEncode h.1
  count : e.corroborators = hist.corroborators h
  day : IsLeast (hist.days h) e.firstSeenDay
  rule : ∃ rule, C.blake3 (Ledger.canonicalJsonBytes J rule.toValue) = h ∧
    canonicalRuleJson J rule = some e.ruleJson ∧
    ∀ e' ∈ es, C.blake3 (Ledger.canonicalJsonBytes J e'.signed.suggestion.rule.toValue) = h →
      e'.signed.suggestion.rule = rule

/-- A group of the history whose rows are backed is the entry of its pattern. -/
theorem entryOf_group {es : List SubmitEnvelope} {hist : History} (hcoll : CollisionFree C J es)
    (hb : ∀ row ∈ hist, Backed C J es row) {g : PatternGroup} (hg : hist.IsGroup g) :
    EntryOf C J es hist g.patternHash g.aggregated := by
  refine ⟨rfl, hg.count, hg.day, ?_⟩
  obtain ⟨row, hrow, hh, ht⟩ := hg.text
  obtain ⟨e, he, hp, rfl⟩ := hb row hrow
  refine ⟨e.signed.suggestion.rule, hp.verified.hash.trans hh, congrArg some ht, fun e' he' hh' => ?_⟩
  have hhash := hh'.trans (hp.verified.hash.trans hh).symm
  exact Ledger.canonical_rule_inj (hcoll e' he' e he hhash)

/-- A filter day bounds the submitted days from below exactly when it is not above the least. -/
theorem since_mem_lowerBounds {hist : History} {h : Bytes32} {since : Option I64} {d : I64}
    (hd : IsLeast (hist.days h) d) : since.getD I64.min ∈ lowerBounds (hist.days h) ↔ ∀ s ∈ since, s ≤ d := by
  rw [hd.lowerBounds_eq]
  cases since with
  | none =>
    constructor
    · intro _ s hs; cases hs
    · intro _; exact I64.min_le d
  | some s =>
    constructor
    · intro h s' hs'; cases hs'; exact h
    · intro h; exact h s rfl

/-- A pattern is listed when enough distinct keys submitted it and its least day passes the
filter. -/
theorem listed_iff_least {hist : History} {m : I64} {since : Option I64} {h : Bytes32} :
    (∃ g ∈ (Store.ofHistory hist).selected m since, g.patternHash = h) ↔
      m.1 ≤ hist.corroborators h ∧ ∃ d, IsLeast (hist.days h) d ∧ ∀ s ∈ since, s ≤ d := by
  rw [Store.listed_iff]
  constructor
  · rintro ⟨hs, hc, hd⟩
    obtain ⟨g, hg⟩ := Store.exists_group hs
    obtain ⟨rfl, hig⟩ := Store.group_isGroup hg
    exact ⟨hc, g.firstSeenDay, hig.day, (since_mem_lowerBounds hig.day).1 hd⟩
  · rintro ⟨hc, d, hd, hsince⟩
    obtain ⟨row, hrow, hh, -⟩ := hd.1
    exact ⟨⟨row, hrow, hh⟩, hc, (since_mem_lowerBounds hd).2 hsince⟩

/-- The aggregated list of a history of backed rows: the listed patterns, each once, sorted by count
and then by hash, with their entries. -/
theorem listAggregated_spec {es : List SubmitEnvelope} {hist : History} (hcoll : CollisionFree C J es)
    (hb : ∀ row ∈ hist, Backed C J es row) (m : I64) (since : Option I64) :
    ∃ hs : List Bytes32, hs.Nodup ∧
      (∀ h, h ∈ hs ↔ m.1 ≤ hist.corroborators h ∧ ∃ d, IsLeast (hist.days h) d ∧ ∀ s ∈ since, s ≤ d) ∧
      (hs.Pairwise fun a b => hist.corroborators b < hist.corroborators a ∨
        (hist.corroborators a = hist.corroborators b ∧ memLe a.1 b.1)) ∧
      List.Forall₂ (EntryOf C J es hist) hs ((Store.ofHistory hist).listAggregated m since) := by
  have hgroup : ∀ g ∈ (Store.ofHistory hist).selected m since, hist.IsGroup g :=
    fun g hg => (Store.group_isGroup (Store.mem_selected.1 hg).1).2
  refine ⟨((Store.ofHistory hist).selected m since).map PatternGroup.patternHash,
    Store.selected_patterns_nodup m since, fun h => ?_, ?_, ?_⟩
  · rw [List.mem_map]; exact listed_iff_least
  · rw [List.pairwise_map]
    refine (Store.selected_sorted _ m since).imp_of_mem fun {a b} ha hb' hab => ?_
    rw [← (hgroup a ha).count, ← (hgroup b hb').count]
    exact hab
  · unfold Store.listAggregated
    rw [List.forall₂_map_left_iff, List.forall₂_map_right_iff, List.forall₂_same]
    exact fun g hg => entryOf_group hcoll hb (hgroup g hg)

/-- The same as `still_listed_iff`, of the entries that readers get. -/
theorem entry_still_listed {hist : History} {m : I64} {since : Option I64} (r : CorroborationRow)
    {e : AggregatedSuggestion} (he : e ∈ (Store.ofHistory hist).listAggregated m since) :
    (∃ e' ∈ (Store.ofHistory (hist ++ [r])).listAggregated m since,
        e'.patternHashHex = e.patternHashHex ∧ e.corroborators ≤ e'.corroborators) ↔
      ¬ (e.patternHashHex = hexEncode r.patternHash.1 ∧ ∃ d ∈ since, r.submittedDay < d) := by
  obtain ⟨g, hg, rfl⟩ := List.mem_map.1 he
  have hhex : ∀ a b : Bytes32, hexEncode a.1 = hexEncode b.1 ↔ a = b :=
    fun a b => ⟨fun h => Subtype.ext (hexEncode_inj h), fun h => by rw [h]⟩
  simp only [PatternGroup.aggregated_hex, PatternGroup.aggregated_corroborators, hhex]
  rw [← Store.still_listed_iff r hg]
  constructor
  · rintro ⟨_, he', hh, hc⟩
    obtain ⟨g', hg', rfl⟩ := List.mem_map.1 he'
    exact ⟨g', hg', (hhex _ _).1 hh, hc⟩
  · rintro ⟨g', hg', hh, hc⟩
    exact ⟨_, List.mem_map.2 ⟨g', hg', rfl⟩, (hhex _ _).2 hh, hc⟩

/-- The entry of the submitted pattern, when its day is before the filter's: the query lists the
pattern no more, and without the filter it is listed as first seen before that day. -/
theorem entry_unlisted {hist : History} {m : I64} {since : Option I64} (r : CorroborationRow)
    {e : AggregatedSuggestion} (he : e ∈ (Store.ofHistory hist).listAggregated m since)
    (hhex : e.patternHashHex = hexEncode r.patternHash.1) {d : I64} (hd : d ∈ since) (hlt : r.submittedDay < d) :
    (∀ e' ∈ (Store.ofHistory (hist ++ [r])).listAggregated m since, e'.patternHashHex ≠ e.patternHashHex) ∧
      ∃ e' ∈ (Store.ofHistory (hist ++ [r])).listAggregated m none,
        e'.patternHashHex = e.patternHashHex ∧ e.corroborators ≤ e'.corroborators ∧ e'.firstSeenDay < d := by
  obtain ⟨g, hg, rfl⟩ := List.mem_map.1 he
  have hh : g.patternHash = r.patternHash := Subtype.ext (hexEncode_inj hhex)
  have hmem : r.submittedDay ∈ History.days (hist ++ [r]) r.patternHash :=
    ⟨r, List.mem_append_right _ (List.mem_singleton_self _), rfl, rfl⟩
  constructor
  · intro e' he' heq
    obtain ⟨g', hg', rfl⟩ := List.mem_map.1 he'
    have hh' : g'.patternHash = r.patternHash := Subtype.ext (hexEncode_inj (heq.trans hhex))
    have hbound := (Store.listed_iff.1 ⟨g', hg', hh'⟩).2.2 hmem
    rw [hd] at hbound
    exact absurd hbound (not_le_of_gt hlt)
  · -- without the filter the pattern was listed before as well, with the same count
    obtain ⟨hs, hc, -⟩ := Store.listed_iff.1 ⟨g, hg, rfl⟩
    have hmin : (none : Option I64).getD I64.min ∈ lowerBounds (hist.days g.patternHash) := fun day _ => I64.min_le day
    obtain ⟨g₀, hg₀, hh₀⟩ := Store.listed_iff.2 ⟨hs, hc, hmin⟩
    obtain ⟨g', hg', he', hle⟩ := (Store.still_listed_iff r hg₀).2 (fun hn => by
      obtain ⟨-, day, hday, -⟩ := hn
      cases hday)
    have hcount : g.corroborators = g₀.corroborators := by
      rw [Store.selected_count hg, Store.selected_count hg₀, hh₀]
    refine ⟨_, List.mem_map.2 ⟨g', hg', rfl⟩, congrArg (fun h : Bytes32 => hexEncode h.1) (he'.trans hh₀),
      hcount.trans_le hle, ?_⟩
    have hleast := (Store.group_isGroup (Store.mem_selected.1 hg').1).2.day.2
    rw [he', hh₀, hh] at hleast
    exact lt_of_le_of_lt (hleast hmem) hlt

/-- The submissions that a run accepts, as the store has them. -/
def committed (C : Crypto) (J : SerdeJson) (s : Server G) (evs : List Event) : History :=
  (acceptedIn (s.run C J evs).1).map Prod.fst

section Fresh

variable {s : Server G} (hs : s.Fresh)

include hs

theorem store_of_run (evs : List Event) : (s.run C J evs).2.app.store = .ofHistory (committed C J s evs) :=
  (Server.run_spec evs s [] hs.store).1

theorem backed_of_run (evs : List Event) : ∀ row ∈ committed C J s evs, Backed C J (arrivals evs) row := by
  intro row hrow
  obtain ⟨x, hx, rfl⟩ := List.mem_map.1 hrow
  rcases (Server.run_spec evs s [] hs.store).2.1 x hx with h | h
  · rw [hs.waiting] at h; cases h
  · exact h

/-- The ledger refines its submission history. For every run from an empty store, with requests and
store locks interleaved in any order: the aggregated list has one entry for each pattern with enough
distinct accepted keys whose least accepted day passes the filter, with that count, that day and the
canonical text of the one rule with the hash, sorted by count descending and then by hash; the count
is the number of accepted responses that reported a new corroborator; the total is the number of
distinct patterns; and the list depends on the accepted submissions only up to their order. -/
theorem listAggregated_of_run (evs : List Event) (hcoll : CollisionFree C J (arrivals evs)) :
    let run := s.run C J evs
    let hist := committed C J s evs
    (∀ (m : I64) (since : Option I64), ∃ hs : List Bytes32, hs.Nodup ∧
      (∀ h, h ∈ hs ↔ m.1 ≤ hist.corroborators h ∧ ∃ d, IsLeast (hist.days h) d ∧ ∀ s ∈ since, s ≤ d) ∧
      (hs.Pairwise fun a b => hist.corroborators b < hist.corroborators a ∨
        (hist.corroborators a = hist.corroborators b ∧ memLe a.1 b.1)) ∧
      List.Forall₂ (EntryOf C J (arrivals evs) hist) hs (run.2.app.store.listAggregated m since)) ∧
    (∀ h, hist.corroborators h =
      (acceptedIn run.1).countP fun x => x.1.patternHash = h ∧ x.2 = true) ∧
    run.2.app.store.totalUniquePatterns = hist.patterns.length ∧
    ∀ s' : Server G, s'.Fresh → ∀ evs', (committed C J s' evs').Perm hist → ∀ m since,
      (s'.run C J evs').2.app.store.listAggregated m since = run.2.app.store.listAggregated m since := by
  have hb := backed_of_run (C := C) (J := J) hs evs
  refine ⟨fun m since => ?_, fun h => ?_, ?_, fun s' hs' evs' hp m since => ?_⟩
  · simp only [store_of_run hs evs]
    exact listAggregated_spec hcoll hb m since
  · have hcount := (Server.run_spec (C := C) (J := J) evs s [] hs.store).2.2 h
    rw [List.nil_append] at hcount
    exact hcount.trans (Nat.zero_add _)
  · simp only [store_of_run hs evs]
    exact Store.totalUniquePatterns_ofHistory _
  · simp only [store_of_run hs, store_of_run hs']
    unfold Store.listAggregated
    rw [Store.selected_perm (oneText_of_backed hcoll hb) hp.symm]

/-- The ledger as its readers see it, from one submission to the next. For every run from an empty
store and every further accepted submission, each entry a query returned before is returned after
with no lower count, except one: the entry of the submitted pattern, when the query filters by a day
and the submission's day is before it. No entry of that pattern is returned then, and without the day
filter it is returned, with no lower count, as first seen before that day. -/
theorem listed_after_submission (evs : List Event) (ev : Event) (row : CorroborationRow) (new : Bool)
    (hacc : acceptedIn ((s.run C J evs).2.step C J ev).1 = [(row, new)]) (m : I64) (since : Option I64) :
    ∀ e ∈ (s.run C J evs).2.app.store.listAggregated m since,
      ((∃ e' ∈ ((s.run C J evs).2.step C J ev).2.app.store.listAggregated m since,
          e'.patternHashHex = e.patternHashHex ∧ e.corroborators ≤ e'.corroborators) ↔
        ¬ (e.patternHashHex = hexEncode row.patternHash.1 ∧ ∃ d ∈ since, row.submittedDay < d)) ∧
      (e.patternHashHex = hexEncode row.patternHash.1 → ∀ d ∈ since, row.submittedDay < d →
        (∀ e' ∈ ((s.run C J evs).2.step C J ev).2.app.store.listAggregated m since,
          e'.patternHashHex ≠ e.patternHashHex) ∧
        ∃ e' ∈ ((s.run C J evs).2.step C J ev).2.app.store.listAggregated m none,
          e'.patternHashHex = e.patternHashHex ∧ e.corroborators ≤ e'.corroborators ∧ e'.firstSeenDay < d) := by
  intro e he
  have hstep : ((s.run C J evs).2.step C J ev).2.app.store = .ofHistory (committed C J s evs ++ [row]) := by
    rw [Store.ofHistory_snoc, ← store_of_run hs evs]
    rcases Server.step_cases (C := C) (J := J) (s.run C J evs).2 ev with ⟨hnone, -⟩ | ⟨row', -, hone, hstore, -⟩
    · rw [hnone] at hacc; cases hacc
    · rw [hone] at hacc
      cases hacc
      exact hstore
  rw [store_of_run hs evs] at he
  rw [hstep]
  exact ⟨entry_still_listed row he, fun hhex d hd hlt => entry_unlisted row he hhex hd hlt⟩

end Fresh

/-! ## A run of one install -/

/-- A service that has accepted nothing, with its limits per hour. -/
def sampleStart : Server hourly := ⟨AppState.new hourly .openInMemory, []⟩

theorem sampleStart_fresh : sampleStart.Fresh := ⟨rfl, rfl⟩

/-- The install's submission of day 20000. -/
def sampleEvents : List Event :=
  [.arrive (sampleRequest day20000 signature20000 0).envelope 0, .lock 0 false]

theorem sample_committed : committed sampleCrypto .compact sampleStart sampleEvents =
    [sampleRow day20000 signature20000] := by
  have hrun := Server.run_submit [] (sample_granted 0)
    (sample_proven day20000 signature20000 0 (.inl ⟨rfl, rfl⟩))
  rw [committed, sampleStart, sampleEvents, hrun]
  rfl

/-! ## Two installs and two patterns -/

/-- Submissions that arrive at time 0 one after another and are committed at once. -/
def submitAll (es : List SubmitEnvelope) : List Event := es.flatMap fun e => [.arrive e 0, .lock 0 false]

theorem arrivals_submitAll : ∀ es : List SubmitEnvelope, arrivals (submitAll es) = es
  | [] => rfl
  | e :: es => congrArg (e :: ·) (arrivals_submitAll es)

/-- At time 0 the global bucket has been drawn from `n` times, and no key's more often. -/
structure Drawn (n : Nat) (state : AppState hourly) : Prop where
  global : state.global = (n * 6000000000 : Nat)
  perKey : ∀ k, ∃ j ≤ n, state.perKey k = (j * 60000000000 : Nat)

theorem drawn_new (store : Store) : Drawn 0 (AppState.new hourly store) :=
  ⟨rfl, fun _ => ⟨0, le_refl 0, rfl⟩⟩

theorem Drawn.granted {n : Nat} {state : AppState hourly} (h : Drawn n state) (hn : n < 60) (k : Bytes32) :
    Granted state k 0 := by
  obtain ⟨j, hj, hk⟩ := h.perKey k
  constructor
  · show 0 < gcraTokens 6000000000 600 state.global 0
    rw [h.global]
    exact Nat.div_pos (by omega) (by decide)
  · show 0 < gcraTokens 60000000000 60 (state.perKey k) 0
    rw [hk]
    exact Nat.div_pos (by omega) (by decide)

theorem Drawn.draw {n : Nat} {state : AppState hourly} (h : Drawn n state) (k : Bytes32) (store : Store) :
    Drawn (n + 1) { state.draw k 0 with store } := by
  refine ⟨?_, fun k' => ?_⟩
  · show (TokenBucket.gcra 6000000000 600).take state.global 0 = _
    rw [h.global]
    show max (n * 6000000000) 0 + 6000000000 = (n + 1) * 6000000000
    omega
  · show ∃ j ≤ n + 1, Function.update state.perKey k _ k' = (j * 60000000000 : Nat)
    by_cases hk : k' = k
    · subst hk
      obtain ⟨j, hj, hbucket⟩ := h.perKey k'
      refine ⟨j + 1, by omega, ?_⟩
      rw [Function.update_self, hbucket]
      show max (j * 60000000000) 0 + 60000000000 = (j + 1) * 60000000000
      omega
    · obtain ⟨j, hj, hbucket⟩ := h.perKey k'
      exact ⟨j, by omega, (Function.update_of_ne hk _ _).trans hbucket⟩

/-- As long as no key can be over its limit, proven submissions are all accepted. -/
theorem committed_submitAll {n : Nat} : ∀ {es : List SubmitEnvelope} {state : AppState hourly}, Drawn n state →
    (∀ e ∈ es, Proven C J e) → n + es.length ≤ 60 →
    committed C J ⟨state, []⟩ (submitAll es) = es.map fun e => rowOf J e.signed := by
  intro es
  induction es generalizing n with
  | nil => intro _ _ _ _; rfl
  | cons e es ih =>
    intro state h hp hlen
    rw [List.length_cons] at hlen
    have hrun := Server.run_submit (C := C) (J := J) (submitAll es) (h.granted (by omega) _)
      (hp e (List.mem_cons_self ..))
    have hrest := ih (h.draw e.signed.publicKey (state.store.upsert (rowOf J e.signed)).2)
      (fun e' he' => hp e' (List.mem_cons_of_mem _ he')) (by omega)
    show (acceptedIn (Server.run C J ⟨state, []⟩ (.arrive e 0 :: .lock 0 false :: submitAll es)).1).map Prod.fst = _
    rw [hrun, List.map_cons, ← hrest]
    rfl

/-- The rule of another pattern. -/
def listIdRule : CrabRule :=
  { id := "test_updates"
    displayName := "Test Updates"
    when := .hasHeader "List-Id"
    action := .fileInto "Updates"
    score := ⟨30, sampleScore_fits⟩
    stopOnMatch := true
    origin := .user }

def listIdHash : Bytes32 :=
  ⟨[172, 172, 59, 155, 23, 178, 117, 172, 133, 101, 230, 182, 28, 144, 146, 132, 251, 254, 165, 5, 148,
    191, 90, 93, 108, 251, 169, 6, 173, 71, 50, 33], rfl⟩

def listIdSuggestion : Suggestion := { rule := listIdRule, patternHash := listIdHash, submittedAtDay := day20001 }

/-- The install's signature over it. -/
def listIdSignature : Bytes64 :=
  ⟨[77, 123, 34, 160, 109, 207, 52, 126, 2, 25, 34, 203, 173, 72, 181, 58, 66, 152, 206, 214, 2, 157, 162,
    2, 27, 243, 182, 33, 238, 202, 106, 167, 246, 148, 202, 182, 183, 36, 224, 4, 12, 200, 238, 156, 10, 34,
    154, 106, 104, 69, 246, 248, 204, 233, 110, 190, 125, 252, 242, 162, 63, 169, 180, 3], rfl⟩

/-- The public key of the secret that is 32 times the octet 8. -/
def secondKey : Bytes32 :=
  ⟨[19, 152, 246, 44, 109, 26, 69, 124, 81, 186, 106, 75, 95, 61, 189, 47, 105, 252, 169, 50, 22, 33, 141,
    200, 153, 126, 65, 107, 209, 125, 147, 202], rfl⟩

/-- The second install's signature over the first pattern's suggestion of day 20000. -/
def secondSignature : Bytes64 :=
  ⟨[187, 158, 44, 201, 199, 202, 101, 180, 72, 41, 11, 54, 121, 13, 17, 157, 244, 47, 62, 228, 32, 224, 110,
    208, 102, 171, 217, 212, 44, 59, 196, 64, 201, 138, 5, 160, 76, 239, 130, 219, 207, 219, 197, 107, 235,
    215, 141, 20, 64, 78, 248, 242, 49, 174, 228, 72, 215, 247, 204, 224, 166, 1, 119, 0], rfl⟩

/-- The proof-of-work digest of the second pattern and the first key at nonce 41178. -/
def listIdDigest : Bytes32 :=
  ⟨[0, 0, 28, 236, 95, 88, 173, 135, 225, 79, 155, 16, 57, 139, 26, 37, 133, 165, 89, 222, 151, 196, 93,
    240, 209, 39, 187, 187, 59, 93, 198, 153], rfl⟩

/-- The proof-of-work digest of the first pattern and the second key at nonce 87479. -/
def secondDigest : Bytes32 :=
  ⟨[0, 0, 213, 31, 248, 87, 113, 164, 253, 40, 187, 38, 36, 200, 177, 21, 39, 69, 211, 57, 235, 136, 234,
    77, 34, 183, 73, 40, 245, 223, 34, 30], rfl⟩

/-- BLAKE3 and Ed25519 on the inputs that the submissions of both installs lead to. -/
def pairCrypto : Crypto where
  blake3 b :=
    if b = Ledger.canonicalJsonBytes .compact sampleRule.toValue then sampleHash
    else if b = Ledger.canonicalJsonBytes .compact listIdRule.toValue then listIdHash
    else if b = sampleHash.1 ++ sampleKey.1 ++ toLeBytes 25433 then sampleDigest
    else if b = sampleHash.1 ++ secondKey.1 ++ toLeBytes 87479 then secondDigest
    else if b = listIdHash.1 ++ sampleKey.1 ++ toLeBytes 41178 then listIdDigest
    else sampleDigestZero
  validKey k := k = sampleKey ∨ k = secondKey
  verifySig k m s :=
    (k = sampleKey ∧ m = Ledger.canonicalJsonBytes .compact (sampleSuggestion day20001).toValue ∧ s = signature20001) ∨
    (k = sampleKey ∧ m = Ledger.canonicalJsonBytes .compact listIdSuggestion.toValue ∧ s = listIdSignature) ∨
    (k = secondKey ∧ m = Ledger.canonicalJsonBytes .compact (sampleSuggestion day20000).toValue ∧ s = secondSignature)
  verifyingKey secret := if secret.1 = List.replicate 32 8 then secondKey else sampleKey
  sign secret m :=
    if secret.1 = List.replicate 32 8 then secondSignature
    else if m = Ledger.canonicalJsonBytes .compact listIdSuggestion.toValue then listIdSignature
    else signature20001

theorem pairCrypto_blake3 (b : Bytes) : pairCrypto.blake3 b =
    if b = Ledger.canonicalJsonBytes .compact sampleRule.toValue then sampleHash
    else if b = Ledger.canonicalJsonBytes .compact listIdRule.toValue then listIdHash
    else if b = sampleHash.1 ++ sampleKey.1 ++ toLeBytes 25433 then sampleDigest
    else if b = sampleHash.1 ++ secondKey.1 ++ toLeBytes 87479 then secondDigest
    else if b = listIdHash.1 ++ sampleKey.1 ++ toLeBytes 41178 then listIdDigest
    else sampleDigestZero := rfl

theorem pairCrypto_validKey {k : Bytes32} (h : k = sampleKey ∨ k = secondKey) : pairCrypto.validKey k = true :=
  decide_eq_true h

theorem pairCrypto_verifySig (k : Bytes32) (m : Bytes) (s : Bytes64) : pairCrypto.verifySig k m s = true ↔
    (k = sampleKey ∧ m = Ledger.canonicalJsonBytes .compact (sampleSuggestion day20001).toValue ∧ s = signature20001) ∨
    (k = sampleKey ∧ m = Ledger.canonicalJsonBytes .compact listIdSuggestion.toValue ∧ s = listIdSignature) ∨
    (k = secondKey ∧ m = Ledger.canonicalJsonBytes .compact (sampleSuggestion day20000).toValue ∧
      s = secondSignature) :=
  decide_eq_true_iff

/-- The canonical text of a rule is not the input of a proof of work whose first octet is not a brace. -/
theorem canonical_rule_ne (rule : CrabRule) {c : UInt8} (hc : c ≠ 123) (r : Bytes) :
    c :: r ≠ Ledger.canonicalJsonBytes .compact rule.toValue := by
  obtain ⟨r', hr'⟩ := canonical_obj_head _
  rw [CrabRule.toValue, hr']
  intro h
  exact hc (List.cons.inj h).1

/-- A proof of work in the table. -/
theorem pair_work {hash key digest : Bytes32} {c : UInt8} {r : Bytes} (hhead : hash.1 = c :: r) (hc : c ≠ 123)
    {nonce : UInt64}
    (hdigest : (if hash.1 ++ key.1 ++ toLeBytes nonce = sampleHash.1 ++ sampleKey.1 ++ toLeBytes 25433 then sampleDigest
      else if hash.1 ++ key.1 ++ toLeBytes nonce = sampleHash.1 ++ secondKey.1 ++ toLeBytes 87479 then secondDigest
      else if hash.1 ++ key.1 ++ toLeBytes nonce = listIdHash.1 ++ sampleKey.1 ++ toLeBytes 41178 then listIdDigest
      else sampleDigestZero) = digest)
    (hwork : powDifficultyBits ≤ leadingZeroBits digest.1) :
    verifyPow pairCrypto hash key nonce powDifficultyBits = true := by
  have hne : ∀ rule : CrabRule,
      hash.1 ++ key.1 ++ toLeBytes nonce ≠ Ledger.canonicalJsonBytes .compact rule.toValue := by
    intro rule
    rw [hhead]
    exact canonical_rule_ne rule hc _
  unfold verifyPow
  rw [pairCrypto_blake3, if_neg (hne _), if_neg (hne _), hdigest]
  exact decide_eq_true hwork

theorem pair_sampleHash :
    pairCrypto.blake3 (Ledger.canonicalJsonBytes .compact sampleRule.toValue) = sampleHash :=
  (pairCrypto_blake3 _).trans (if_pos rfl)

theorem pair_listIdHash :
    pairCrypto.blake3 (Ledger.canonicalJsonBytes .compact listIdRule.toValue) = listIdHash := by
  have hne : Ledger.canonicalJsonBytes .compact listIdRule.toValue ≠
      Ledger.canonicalJsonBytes .compact sampleRule.toValue := by
    intro h
    have hid : "test_updates" = "test_promotions" := congrArg CrabRule.id (Ledger.canonical_rule_inj h)
    exact absurd hid (by decide)
  rw [pairCrypto_blake3, if_neg hne, if_pos rfl]

/-- The install's submissions of two patterns, the second install's of the first pattern, with an
earlier day, and the install's first submission once more. -/
def pairEnvelopes : List SubmitEnvelope :=
  [⟨⟨sampleSuggestion day20001, sampleKey, signature20001⟩, 25433⟩,
    ⟨⟨listIdSuggestion, sampleKey, listIdSignature⟩, 41178⟩,
    ⟨⟨sampleSuggestion day20000, secondKey, secondSignature⟩, 87479⟩,
    ⟨⟨sampleSuggestion day20001, sampleKey, signature20001⟩, 25433⟩]

theorem pair_proven : ∀ e ∈ pairEnvelopes, Proven pairCrypto .compact e := by
  have hfirst : Proven pairCrypto .compact ⟨⟨sampleSuggestion day20001, sampleKey, signature20001⟩, 25433⟩ :=
    ⟨pair_work rfl (by decide) (if_pos rfl) (by decide), pairCrypto_validKey (.inl rfl),
      (pairCrypto_verifySig _ _ _).2 (.inl ⟨rfl, rfl, rfl⟩), pair_sampleHash⟩
  intro e he
  simp only [pairEnvelopes, List.mem_cons, List.not_mem_nil, or_false] at he
  rcases he with rfl | rfl | rfl | rfl
  · exact hfirst
  · exact ⟨pair_work rfl (by decide) ((if_neg (by decide)).trans ((if_neg (by decide)).trans (if_pos rfl)))
      (by decide), pairCrypto_validKey (.inl rfl), (pairCrypto_verifySig _ _ _).2 (.inr (.inl ⟨rfl, rfl, rfl⟩)),
      pair_listIdHash⟩
  · exact ⟨pair_work rfl (by decide) ((if_neg (by decide)).trans (if_pos rfl)) (by decide),
      pairCrypto_validKey (.inr rfl), (pairCrypto_verifySig _ _ _).2 (.inr (.inr ⟨rfl, rfl, rfl⟩)), pair_sampleHash⟩
  · exact hfirst

def pairEvents : List Event := submitAll pairEnvelopes

theorem pair_collisionFree : CollisionFree pairCrypto .compact (arrivals pairEvents) := by
  have hrule : ∀ e ∈ pairEnvelopes, e.signed.suggestion.rule = sampleRule ∨ e.signed.suggestion.rule = listIdRule := by
    intro e he
    simp only [pairEnvelopes, List.mem_cons, List.not_mem_nil, or_false] at he
    rcases he with rfl | rfl | rfl | rfl
    · exact .inl rfl
    · exact .inr rfl
    · exact .inl rfl
    · exact .inl rfl
  have hne : sampleHash ≠ listIdHash := by decide
  rw [pairEvents, arrivals_submitAll]
  intro e he e' he' h
  rcases hrule e he with hr | hr <;> rcases hrule e' he' with hr' | hr' <;> rw [hr, hr'] at h ⊢
  · rw [pair_sampleHash, pair_listIdHash] at h
    exact absurd h hne
  · rw [pair_sampleHash, pair_listIdHash] at h
    exact absurd h.symm hne

/-- The rows of both installs. -/
def pairRows : History := pairEnvelopes.map fun e => rowOf .compact e.signed

theorem pair_committed : committed pairCrypto .compact sampleStart pairEvents = pairRows :=
  committed_submitAll (drawn_new .openInMemory) pair_proven (by decide)

theorem pair_counts :
    History.corroborators pairRows sampleHash = 2 ∧ History.corroborators pairRows listIdHash = 1 := by
  decide

theorem pair_days : IsLeast (History.days pairRows sampleHash) day20000 ∧
    IsLeast (History.days pairRows listIdHash) day20001 := by
  have hmem : ∀ {r : CorroborationRow}, r ∈ pairRows →
      (r.patternHash = sampleHash ∧ day20000 ≤ r.submittedDay) ∨
        (r.patternHash = listIdHash ∧ r.submittedDay = day20001) := by
    intro r hr
    obtain ⟨e, he, rfl⟩ := List.mem_map.1 hr
    simp only [pairEnvelopes, List.mem_cons, List.not_mem_nil, or_false] at he
    rcases he with rfl | rfl | rfl | rfl
    · exact .inl ⟨rfl, by decide⟩
    · exact .inr ⟨rfl, rfl⟩
    · exact .inl ⟨rfl, by decide⟩
    · exact .inl ⟨rfl, by decide⟩
  have hne : sampleHash ≠ listIdHash := by decide
  refine ⟨⟨⟨_, List.mem_cons_of_mem _ (List.mem_cons_of_mem _ (List.mem_cons_self ..)), rfl, rfl⟩, ?_⟩,
    ⟨⟨_, List.mem_cons_of_mem _ (List.mem_cons_self ..), rfl, rfl⟩, ?_⟩⟩
  · rintro _ ⟨r, hr, hh, rfl⟩
    rcases hmem hr with ⟨-, hle⟩ | ⟨hh', -⟩
    · exact hle
    · exact absurd (hh.symm.trans hh') hne
  · rintro _ ⟨r, hr, hh, rfl⟩
    rcases hmem hr with ⟨hh', -⟩ | ⟨-, hd⟩
    · exact absurd (hh'.symm.trans hh) hne
    · rw [hd]

theorem pair_patterns {h : Bytes32} : (∃ r ∈ pairRows, r.patternHash = h) ↔ h = sampleHash ∨ h = listIdHash := by
  simp only [pairRows, pairEnvelopes, List.map_cons, List.map_nil, List.mem_cons, List.not_mem_nil, or_false,
    exists_eq_or_imp, exists_eq_left]
  show sampleHash = h ∨ listIdHash = h ∨ sampleHash = h ∨ sampleHash = h ↔ _
  constructor
  · rintro (h | h | h | h)
    · exact .inl h.symm
    · exact .inr h.symm
    · exact .inl h.symm
    · exact .inl h.symm
  · rintro (h | h)
    · exact .inl h.symm
    · exact .inr (.inl h.symm)

/-- The pattern of both installs comes first, with the earlier of their days. -/
theorem listAggregated_of_run_sample :
    ((sampleStart.run pairCrypto .compact pairEvents).2.app.store.listAggregated ⟨1, by decide⟩ none).map
        (fun e => (e.patternHashHex, e.corroborators, e.firstSeenDay)) =
      [(hexEncode sampleHash.1, 2, day20000), (hexEncode listIdHash.1, 1, day20001)] := by
  obtain ⟨hlist, -⟩ := listAggregated_of_run sampleStart_fresh pairEvents pair_collisionFree
  obtain ⟨hs, hn, hmem, hsorted, hf⟩ := hlist ⟨1, by decide⟩ none
  rw [pair_committed] at hmem hsorted hf
  obtain ⟨hcount, hcount'⟩ := pair_counts
  obtain ⟨hday, hday'⟩ := pair_days
  have hperm : hs.Perm [sampleHash, listIdHash] := by
    refine (List.perm_ext_iff_of_nodup hn (by decide)).2 fun h => ?_
    rw [hmem, List.mem_cons, List.mem_singleton]
    constructor
    · rintro ⟨-, d, ⟨⟨r, hr, hh, -⟩, -⟩, -⟩
      exact pair_patterns.1 ⟨r, hr, hh⟩
    · rintro (rfl | rfl)
      · exact ⟨by rw [hcount]; decide, _, hday, fun d hd => (by cases hd)⟩
      · exact ⟨by rw [hcount']; decide, _, hday', fun d hd => (by cases hd)⟩
  obtain ⟨a, b, rfl⟩ := List.length_eq_two.1 hperm.length_eq
  have ha : a = sampleHash ∨ a = listIdHash := by simpa using hperm.subset (List.mem_cons_self ..)
  have hb : b = sampleHash ∨ b = listIdHash := by
    simpa using hperm.subset (List.mem_cons_of_mem _ (List.mem_cons_self ..))
  have hne : a ≠ b := (List.nodup_cons.1 hn).1 ∘ List.mem_singleton.2
  obtain ⟨rfl, rfl⟩ : a = sampleHash ∧ b = listIdHash := by
    rcases ha with rfl | rfl <;> rcases hb with rfl | rfl
    · exact absurd rfl hne
    · exact ⟨rfl, rfl⟩
    · -- the other order has the smaller count first
      rw [List.pairwise_pair, hcount, hcount'] at hsorted
      omega
    · exact absurd rfl hne
  obtain ⟨e, rest, he, hrest, hlist⟩ := List.forall₂_cons_left_iff.1 hf
  obtain ⟨e', rest', he', hrest', rfl⟩ := List.forall₂_cons_left_iff.1 hrest
  rw [List.forall₂_nil_left_iff.1 hrest'] at hlist
  rw [hlist, List.map_cons, List.map_cons, List.map_nil, he.hex, he'.hex, he.count, he'.count, hcount, hcount',
    he.day.unique hday, he'.day.unique hday']

/-! ## An earlier day -/

/-- The install submits its pattern with day 20001, and then with day 20000, which waits. -/
def backdatedEvents : List Event :=
  [.arrive (sampleRequest day20001 signature20001 0).envelope 0, .lock 0 false,
    .arrive (sampleRequest day20000 signature20000 0).envelope 0]

/-- What is left after one accepted submission and the arrival of a second one. -/
theorem run_submit_arrive {state : AppState G} {e e' : SubmitEnvelope} {now now' : Nat}
    (hg : Granted state e.signed.publicKey now) (hp : Proven C J e) (hp' : Proven C J e')
    (hg' : ∀ store, Granted { state.draw e.signed.publicKey now with store } e'.signed.publicKey now') :
    ∃ app, (Server.run C J ⟨state, []⟩ [.arrive e now, .lock 0 false, .arrive e' now']).2 =
      ⟨app, [rowOf J e'.signed]⟩ ∧ app.store = (state.store.upsert (rowOf J e.signed)).2 := by
  rw [Server.run_submit _ hg hp]
  simp only [Server.run]
  rw [Server.step_arrive (hg' _) hp']
  exact ⟨_, rfl, rfl⟩

theorem backdated_run : ∃ app, (sampleStart.run sampleCrypto .compact backdatedEvents).2 =
    ⟨app, [sampleRow day20000 signature20000]⟩ ∧ app.store = .ofHistory [sampleRow day20001 signature20001] := by
  rw [sampleStart, backdatedEvents]
  exact run_submit_arrive (sample_granted 0)
    (sample_proven day20001 signature20001 0 (.inr ⟨rfl, rfl⟩))
    (sample_proven day20000 signature20000 0 (.inl ⟨rfl, rfl⟩))
    fun store => sample_granted_again store

theorem backdated_accepted :
    ∃ new, acceptedIn ((sampleStart.run sampleCrypto .compact backdatedEvents).2.step sampleCrypto .compact
      (.lock 0 false)).1 = [(sampleRow day20000 signature20000, new)] := by
  obtain ⟨app, hrun, -⟩ := backdated_run
  rw [hrun]
  exact ⟨_, rfl⟩

theorem sample_listed (since : Option I64) (h : ∀ s ∈ since, s ≤ day20001) :
    ∃ e ∈ (Store.ofHistory [sampleRow day20001 signature20001]).listAggregated ⟨1, by decide⟩ since,
      e.patternHashHex = hexEncode sampleHash.1 := by
  obtain ⟨g, hg, hh⟩ : ∃ g ∈ (Store.ofHistory [sampleRow day20001 signature20001]).selected ⟨1, by decide⟩ since,
      g.patternHash = sampleHash := by
    refine listed_iff_least.2 ⟨by decide, day20001, ⟨⟨_, List.mem_singleton_self _, rfl, rfl⟩, ?_⟩, h⟩
    rintro _ ⟨r, hr, -, rfl⟩
    rw [List.mem_singleton.1 hr]; exact le_refl _
  exact ⟨g.aggregated, List.mem_map.2 ⟨g, hg, rfl⟩, by rw [PatternGroup.aggregated_hex, hh]⟩

theorem listed_after_submission_unfiltered :
    ∃ e ∈ (sampleStart.run sampleCrypto .compact backdatedEvents).2.app.store.listAggregated ⟨1, by decide⟩ none,
      ∃ e' ∈ ((sampleStart.run sampleCrypto .compact backdatedEvents).2.step sampleCrypto .compact
          (.lock 0 false)).2.app.store.listAggregated ⟨1, by decide⟩ none,
        e'.patternHashHex = e.patternHashHex ∧ e.corroborators ≤ e'.corroborators := by
  obtain ⟨new, hacc⟩ := backdated_accepted
  obtain ⟨app, hrun, hstore⟩ := backdated_run
  obtain ⟨e, he, -⟩ := sample_listed none fun s hs => (by cases hs)
  have he : e ∈ (sampleStart.run sampleCrypto .compact backdatedEvents).2.app.store.listAggregated
      ⟨1, by decide⟩ none := by
    rw [hrun, hstore]; exact he
  refine ⟨e, he, (listed_after_submission sampleStart_fresh backdatedEvents _ _ _ hacc _ none e he).1.2 ?_⟩
  rintro ⟨-, d, hd, -⟩
  cases hd

/-- The submission of the earlier day takes the pattern off the list filtered from the later day. -/
theorem backdated_submission_unlists :
    (∃ new, acceptedIn ((sampleStart.run sampleCrypto .compact backdatedEvents).2.step sampleCrypto .compact
      (.lock 0 false)).1 = [(sampleRow day20000 signature20000, new)]) ∧
    ¬ ∀ e ∈ (sampleStart.run sampleCrypto .compact backdatedEvents).2.app.store.listAggregated ⟨1, by decide⟩
        (some day20001),
      ∃ e' ∈ ((sampleStart.run sampleCrypto .compact backdatedEvents).2.step sampleCrypto .compact
          (.lock 0 false)).2.app.store.listAggregated ⟨1, by decide⟩ (some day20001),
        e'.patternHashHex = e.patternHashHex ∧ e.corroborators ≤ e'.corroborators := by
  refine ⟨backdated_accepted, fun hkept => ?_⟩
  obtain ⟨app, hrun, hstore⟩ := backdated_run
  have hafter : ((⟨app, [sampleRow day20000 signature20000]⟩ : Server hourly).step sampleCrypto .compact
      (.lock 0 false)).2.app.store =
      .ofHistory ([sampleRow day20001 signature20001] ++ [sampleRow day20000 signature20000]) := by
    rw [Store.ofHistory_snoc, ← hstore]; rfl
  rw [hrun, hafter, hstore] at hkept
  obtain ⟨e, he, hh⟩ := sample_listed (some day20001) fun s hs => (by cases hs; exact le_refl _)
  refine (entry_still_listed (sampleRow day20000 signature20000) he).1 (hkept _ he) ⟨hh, day20001, rfl, ?_⟩
  show day20000 < day20001
  decide

end Api

end Thundercrab
