/-
What the safety layer lets through. The check of an action walks the leaves of its tree from left to
right and refuses at the first that offends, wrapped once for each sequence around it; so a rule is
accepted exactly when no leaf offends, whatever its match expression. The rest passes unchanged: what
the match expression says of sender domains is what the sender wrote, and the text of a flag is what
the IMAP server reads, as names separated by spaces.
-/
import Thundercrab.Suggestions.Safety
import Thundercrab.Imap.SetFlag
import Mathlib.Logic.Function.Iterate
import Mathlib.Data.List.Infix

namespace Thundercrab

/-! ## Leaves -/

mutual
/-- The leaves of an action from left to right, each with the number of sequences around it. -/
def Action.leaves : Action → List (Nat × Action)
  | .fileInto folder => [(0, .fileInto folder)]
  | .setFlag flag => [(0, .setFlag flag)]
  | .sequence actions => (actionsLeaves actions).map fun p => (p.1 + 1, p.2)
def actionsLeaves : List Action → List (Nat × Action)
  | [] => []
  | a :: as => a.leaves ++ actionsLeaves as
end

/-- A leaf that files into a protected folder, up to ASCII case, or sets a protected flag. -/
def Offends : Action → Prop
  | .fileInto folder => eqIgnoreAsciiCase folder "INBOX" = true ∨ eqIgnoreAsciiCase folder "Important" = true
  | .setFlag flag => flag ∈ protectedFlags
  | .sequence _ => False

/-- The error that describes a leaf. -/
def leafError : Action → Option SafetyError
  | .fileInto folder => some (.protectedFolder folder)
  | .setFlag flag => some (.protectedFlag flag)
  | .sequence _ => none

/-- The error describes the first leaf that offends, under one layer for each sequence around it. -/
def FirstOffence (leaves : List (Nat × Action)) (e : SafetyError) : Prop :=
  ∃ before depth leaf after inner, leaves = before ++ (depth, leaf) :: after ∧ (∀ p ∈ before, ¬ Offends p.2) ∧
    Offends leaf ∧ leafError leaf = some inner ∧ e = SafetyError.nested^[depth] inner

theorem FirstOffence.append {leaves : List (Nat × Action)} {e : SafetyError} (h : FirstOffence leaves e)
    (rest : List (Nat × Action)) : FirstOffence (leaves ++ rest) e := by
  obtain ⟨before, depth, leaf, after, inner, rfl, hb, ho, hi, he⟩ := h
  exact ⟨before, depth, leaf, after ++ rest, inner, by simp, hb, ho, hi, he⟩

theorem FirstOffence.prepend {leaves : List (Nat × Action)} {e : SafetyError} (h : FirstOffence leaves e)
    {safe : List (Nat × Action)} (hsafe : ∀ p ∈ safe, ¬ Offends p.2) : FirstOffence (safe ++ leaves) e := by
  obtain ⟨before, depth, leaf, after, inner, rfl, hb, ho, hi, he⟩ := h
  refine ⟨safe ++ before, depth, leaf, after, inner, by simp, fun p hp => ?_, ho, hi, he⟩
  exact (List.mem_append.1 hp).elim (hsafe p) (hb p)

theorem FirstOffence.nested {leaves : List (Nat × Action)} {e : SafetyError} (h : FirstOffence leaves e) :
    FirstOffence (leaves.map fun p => (p.1 + 1, p.2)) (.nested e) := by
  obtain ⟨before, depth, leaf, after, inner, rfl, hb, ho, hi, rfl⟩ := h
  refine ⟨before.map fun p => (p.1 + 1, p.2), depth + 1, leaf, after.map fun p => (p.1 + 1, p.2), inner, by simp,
    fun p hp => ?_, ho, hi, (Function.iterate_succ_apply' _ _ _).symm⟩
  obtain ⟨q, hq, rfl⟩ := List.mem_map.1 hp
  exact hb q hq

theorem eqIgnoreAsciiCase_comm (a b : String) : eqIgnoreAsciiCase a b = eqIgnoreAsciiCase b a := by
  unfold eqIgnoreAsciiCase
  exact Bool.beq_comm

theorem protectedFolder_iff (folder : String) :
    (protectedFolders.any fun p => eqIgnoreAsciiCase p folder) = true ↔ Offends (.fileInto folder) := by
  have hinbox : eqIgnoreAsciiCase "Inbox" folder = eqIgnoreAsciiCase "INBOX" folder := by
    unfold eqIgnoreAsciiCase
    rw [show "Inbox".toList.map Char.toLower = "INBOX".toList.map Char.toLower by decide]
  simp only [protectedFolders, List.any_cons, List.any_nil, Bool.or_false, hinbox, Bool.or_eq_true, Offends,
    eqIgnoreAsciiCase_comm folder]
  exact ⟨fun h => h.elim .inl id, fun h => .inr h⟩

theorem protectedFlag_iff (flag : String) :
    (protectedFlags.any fun p => p == flag) = true ↔ Offends (.setFlag flag) := by
  simp [Offends]

mutual
theorem checkAction_ok_iff : ∀ a : Action, checkAction a = .ok () ↔ ∀ p ∈ a.leaves, ¬ Offends p.2
  | .fileInto folder => by
    rw [checkAction, Action.leaves, List.forall_mem_singleton, ← protectedFolder_iff]
    split
    · rename_i hp; exact ⟨nofun, fun h => absurd hp h⟩
    · rename_i hp; exact ⟨fun _ => hp, fun _ => rfl⟩
  | .setFlag flag => by
    rw [checkAction, Action.leaves, List.forall_mem_singleton, ← protectedFlag_iff]
    split
    · rename_i hp; exact ⟨nofun, fun h => absurd hp h⟩
    · rename_i hp; exact ⟨fun _ => hp, fun _ => rfl⟩
  | .sequence actions => by
    rw [checkAction, Action.leaves, List.forall_mem_map]
    exact checkActions_ok_iff actions
theorem checkActions_ok_iff : ∀ as : List Action, checkActions as = .ok () ↔ ∀ p ∈ actionsLeaves as, ¬ Offends p.2
  | [] => by simp [checkActions, actionsLeaves]
  | a :: as => by
    rw [checkActions, actionsLeaves, List.forall_mem_append, ← checkAction_ok_iff a, ← checkActions_ok_iff as]
    cases checkAction a with
    | error e => exact ⟨nofun, fun h => nomatch h.1⟩
    | ok u => exact ⟨fun h => ⟨rfl, h⟩, fun h => h.2⟩
end

mutual
theorem checkAction_error : ∀ {a : Action} {e : SafetyError}, checkAction a = .error e → FirstOffence a.leaves e
  | .fileInto folder, e, h => by
    rw [checkAction] at h
    split at h
    · rename_i hp
      cases h
      exact ⟨[], 0, _, [], _, rfl, nofun, (protectedFolder_iff folder).1 hp, rfl, rfl⟩
    · cases h
  | .setFlag flag, e, h => by
    rw [checkAction] at h
    split at h
    · rename_i hp
      cases h
      exact ⟨[], 0, _, [], _, rfl, nofun, (protectedFlag_iff flag).1 hp, rfl, rfl⟩
    · cases h
  | .sequence actions, e, h => by
    rw [checkAction] at h
    exact checkActions_error h
/-- Each layer of nesting is put on by the loop over the sequence. -/
theorem checkActions_error : ∀ {as : List Action} {e : SafetyError}, checkActions as = .error e →
    FirstOffence ((actionsLeaves as).map fun p => (p.1 + 1, p.2)) e
  | [], e, h => by cases h
  | a :: as, e, h => by
    rw [checkActions] at h
    rw [actionsLeaves, List.map_append]
    cases hc : checkAction a with
    | error inner =>
      rw [hc] at h
      cases h
      exact (checkAction_error hc).nested.append _
    | ok u =>
      rw [hc] at h
      refine (checkActions_error h).prepend fun p hp => ?_
      obtain ⟨q, hq, rfl⟩ := List.mem_map.1 hp
      exact (checkAction_ok_iff a).1 hc q hq
end

/-! ## Acceptance -/

mutual
theorem isSafeMatch_true : ∀ e : MatchExpr, isSafeMatch e = true
  | .always => rfl
  | .hasHeader _ => rfl
  | .headerContains _ _ => rfl
  | .fromDomainIn _ => rfl
  | .subjectContainsAny _ => rfl
  | .all exprs => allSafeMatch_true exprs
  | .any exprs => allSafeMatch_true exprs
  | .not expr => isSafeMatch_true expr
theorem allSafeMatch_true : ∀ es : List MatchExpr, allSafeMatch es = true
  | [] => rfl
  | e :: es => by rw [allSafeMatch, isSafeMatch_true e, allSafeMatch_true es]; rfl
end

theorem applySuggestion_eq (r : CrabRule) : applySuggestion r =
    match checkAction r.action with
    | .error e => .error e
    | .ok () => .ok { r with origin := .federated, score := I32.clamp r.score ⟨1, by decide⟩ ⟨49, by decide⟩ } := by
  rw [applySuggestion, isSafeMatch_true]; rfl

theorem applySuggestion_ok_iff {r f : CrabRule} : applySuggestion r = .ok f ↔ checkAction r.action = .ok () ∧
    f = { r with origin := .federated, score := I32.clamp r.score ⟨1, by decide⟩ ⟨49, by decide⟩ } := by
  constructor
  · intro h
    exact (applySuggestion_ok h).symm
  · rintro ⟨hc, rfl⟩
    rw [applySuggestion_eq, hc]

/-- A rule is accepted when no leaf of its action offends; its match expression is not looked at. -/
theorem accepted_iff (r : CrabRule) : (∃ f, applySuggestion r = .ok f) ↔ ∀ p ∈ r.action.leaves, ¬ Offends p.2 := by
  simp only [applySuggestion_ok_iff, exists_and_left, exists_eq, and_true]
  exact checkAction_ok_iff r.action

/-- What holds of a rule as it comes out under a condition holds of it, if it comes out at all, exactly
when the rule is refused for a leaf or the condition is met. -/
theorem forall_accepted_iff {r : CrabRule} {P : CrabRule → Prop} {safe : Prop}
    (h : ∀ f, applySuggestion r = .ok f → (P f ↔ safe)) :
    (∀ f, applySuggestion r = .ok f → P f) ↔ (∃ p ∈ r.action.leaves, Offends p.2) ∨ safe := by
  constructor
  · intro hall
    by_cases hoff : ∃ p ∈ r.action.leaves, Offends p.2
    · exact .inl hoff
    · obtain ⟨f, hf⟩ := (accepted_iff r).2 fun p hp ho => hoff ⟨p, hp, ho⟩
      exact .inr ((h f hf).1 (hall f hf))
  · rintro (⟨p, hp, ho⟩ | hsafe) f hf
    · exact absurd ho ((accepted_iff r).1 ⟨f, hf⟩ p hp)
    · exact (h f hf).2 hsafe

theorem applySuggestion_error_iff {r : CrabRule} {e : SafetyError} :
    applySuggestion r = .error e ↔ checkAction r.action = .error e := by
  rw [applySuggestion_eq]
  cases checkAction r.action with
  | error e' =>
    simp only [Except.error.injEq]
  | ok u => exact ⟨nofun, nofun⟩

theorem I32.clamp_val (x lo hi : I32) (h : lo ≤ hi) : (x.clamp lo hi).1 = max lo.1 (min hi.1 x.1) := by
  have hle : lo.1 ≤ hi.1 := h
  unfold I32.clamp
  split
  · rename_i hlt
    have hlt : x.1 < lo.1 := hlt
    omega
  · rename_i hge
    have hge : ¬ x.1 < lo.1 := hge
    split
    · rename_i hgt
      have hgt : hi.1 < x.1 := hgt
      omega
    · rename_i hle'
      have hle' : ¬ hi.1 < x.1 := hle'
      omega

/-- A rule is accepted exactly when no leaf of its action offends. It comes out as it was but for the
origin and the score clamped into `1..=49`, and the layer leaves it so when it is applied again. A
refusal describes the first leaf that offends, in one layer for each sequence around it. -/
theorem applySuggestion_spec (r : CrabRule) :
    ((∃ f, applySuggestion r = .ok f) ↔ ∀ p ∈ r.action.leaves, ¬ Offends p.2) ∧
    (∀ f, applySuggestion r = .ok f → f = { r with origin := .federated, score := f.score } ∧
      f.score.1 = max 1 (min 49 r.score.1) ∧ applySuggestion f = .ok f) ∧
    ∀ e, applySuggestion r = .error e → FirstOffence r.action.leaves e := by
  refine ⟨accepted_iff r, fun f hf => ?_, fun e he => checkAction_error (applySuggestion_error_iff.1 he)⟩
  obtain ⟨hc, rfl⟩ := applySuggestion_ok_iff.1 hf
  have hscore := I32.clamp_val r.score ⟨1, by decide⟩ ⟨49, by decide⟩ (by decide)
  refine ⟨rfl, hscore, applySuggestion_ok_iff.2 ⟨hc, ?_⟩⟩
  -- what is clamped once is within the bounds
  have hagain := I32.clamp_val (I32.clamp r.score ⟨1, by decide⟩ ⟨49, by decide⟩) ⟨1, by decide⟩ ⟨49, by decide⟩
    (by decide)
  refine congrArg (fun score => { r with origin := .federated, score }) (Subtype.ext ?_)
  rw [hagain, hscore]
  simp only
  omega

/-! ## Sender domains -/

mutual
/-- The domains of every `FromDomainIn` node, at any depth. -/
def MatchExpr.domainLists : MatchExpr → List (List String)
  | .always => []
  | .hasHeader _ => []
  | .headerContains _ _ => []
  | .fromDomainIn domains => [domains]
  | .subjectContainsAny _ => []
  | .all exprs => exprsDomainLists exprs
  | .any exprs => exprsDomainLists exprs
  | .not expr => expr.domainLists
def exprsDomainLists : List MatchExpr → List (List String)
  | [] => []
  | e :: es => e.domainLists ++ exprsDomainLists es
end

/-- The documented form of a domain: an `@`, and no other, with something after it. -/
def DomainWithAt (d : String) : Prop := ∃ rest, d.toList = '@' :: rest ∧ '@' ∉ rest ∧ rest ≠ []

/-- The documented meaning of an entry: the address ends with it. -/
def EndsWith (address d : String) : Prop := d.toList <:+ address.toList

/-- The entry tells senders apart by their host alone, and does not match every sender. -/
structure HostOnly (d : String) : Prop where
  host : ∀ user user' host : String, '@' ∉ host.toList →
    (EndsWith (user ++ "@" ++ host) d ↔ EndsWith (user' ++ "@" ++ host) d)
  notAll : ∃ user host : String, '@' ∉ host.toList ∧ ¬ EndsWith (user ++ "@" ++ host) d

/-- Carrying out the flag leaves of an accepted rule sets no protected flag exactly when no flag leaf
of the rule names one or the rule is refused for a leaf. -/
theorem accepted_flags_iff (r : CrabRule) :
    (∀ f, applySuggestion r = .ok f → ∀ n flag, (n, .setFlag flag) ∈ f.action.leaves →
      ∀ (β : Type) (s : Imap.Session β) (replies : Imap.SetFlagReplies) (folder : String) (uid : UInt32),
        Imap.SetsNone protectedFlags s.boxes (Imap.setFlag s replies folder uid flag true).2.boxes) ↔
    (∃ p ∈ r.action.leaves, Offends p.2) ∨
      ¬ ∃ n flag, (n, .setFlag flag) ∈ r.action.leaves ∧ Imap.Names protectedFlags flag := by
  refine forall_accepted_iff fun f hf => ?_
  have haction : f.action = r.action := by rw [(applySuggestion_ok hf).1]
  rw [haction]
  constructor
  · rintro h ⟨n, flag, hleaf, hnames⟩
    exact (Imap.setFlag_setsNone_iff protectedFlags flag).1 (h n flag hleaf) hnames
  · intro hno n flag hleaf
    exact (Imap.setFlag_setsNone_iff protectedFlags flag).2 fun hnames => hno ⟨n, flag, hleaf, hnames⟩

/-- A rule with a second name in the text of its flag, in capitals. -/
def smuggledFlagRule : CrabRule where
  id := "g"
  displayName := "G"
  when := .fromDomainIn ["@x.com"]
  action := .sequence [.setFlag "\\Seen \\FLAGGED"]
  score := ⟨10, by decide⟩
  stopOnMatch := true
  origin := .federated

/-- It is accepted, and carrying it out sets `\Flagged`. -/
theorem smuggled_flag_set : ¬ ∀ f, applySuggestion smuggledFlagRule = .ok f →
    ∀ n flag, (n, .setFlag flag) ∈ f.action.leaves →
      ∀ (β : Type) (s : Imap.Session β) (replies : Imap.SetFlagReplies) (folder : String) (uid : UInt32),
        Imap.SetsNone protectedFlags s.boxes (Imap.setFlag s replies folder uid flag true).2.boxes := by
  intro h
  have hnone := h smuggledFlagRule rfl 1 "\\Seen \\FLAGGED" (List.mem_singleton_self _) String Imap.unflagged
    Imap.accepting "INBOX" 1
  obtain ⟨m, hm, -, hcarries⟩ := hnone "INBOX" ⟨1, ["\\Seen", "\\FLAGGED"], "newsletter"⟩ (by decide) "\\Flagged"
    (by decide) (by decide)
  cases List.mem_singleton.1 hm
  cases hcarries

end Thundercrab
