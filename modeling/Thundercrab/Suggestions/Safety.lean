/-
`safety.rs`: the checks a federated rule passes before it may enter the local store. An accepted
rule comes out with origin Federated and its score clamped into `1..=49`; every other field,
the id included, is the sender's.
-/
import Thundercrab.Core.CrabRule

namespace Thundercrab

/-- Why a federated suggestion was rejected. -/
inductive SafetyError where
  | unsafeMatch
  | protectedFolder (folder : String)
  | protectedFlag (flag : String)
  | nested (inner : SafetyError)
  deriving DecidableEq

/-- Folders federated rules cannot file into. -/
def protectedFolders : List String := ["INBOX", "Inbox", "Important"]

/-- Flags federated rules cannot set. -/
def protectedFlags : List String := ["\\Flagged", "$Important", "$Label1"]

/-- `str::eq_ignore_ascii_case` -/
def eqIgnoreAsciiCase (a b : String) : Bool := a.toList.map Char.toLower == b.toList.map Char.toLower

mutual
/-- True if a match expression only references allowed header features. -/
def isSafeMatch : MatchExpr → Bool
  | .always => true
  | .hasHeader _ => true
  | .headerContains _ _ => true
  | .fromDomainIn _ => true
  | .subjectContainsAny _ => true
  | .all exprs => allSafeMatch exprs
  | .any exprs => allSafeMatch exprs
  | .not expr => isSafeMatch expr
/-- `exprs.iter().all(is_safe_match)` -/
def allSafeMatch : List MatchExpr → Bool
  | [] => true
  | e :: es => isSafeMatch e && allSafeMatch es
end

mutual
def checkAction : Action → Except SafetyError Unit
  | .fileInto folder =>
    if protectedFolders.any fun p => eqIgnoreAsciiCase p folder then .error (.protectedFolder folder)
    else .ok ()
  | .setFlag flag =>
    if protectedFlags.any fun p => p == flag then .error (.protectedFlag flag)
    else .ok ()
  | .sequence actions => checkActions actions
/-- The loop over the actions of a sequence. -/
def checkActions : List Action → Except SafetyError Unit
  | [] => .ok ()
  | inner :: rest =>
    match checkAction inner with
    | .error e => .error (.nested e)
    | .ok () => checkActions rest
end

/-- `i32::clamp` -/
def I32.clamp (x lo hi : I32) : I32 := if x < lo then lo else if hi < x then hi else x

/-- Validate a federated rule and, if it passes, return a copy with origin Federated and the score
clamped to `1..=49`. -/
def applySuggestion (rule : CrabRule) : Except SafetyError CrabRule :=
  if !isSafeMatch rule.when then .error .unsafeMatch
  else
    match checkAction rule.action with
    | .error e => .error e
    | .ok () =>
      let score := I32.clamp rule.score ⟨1, by decide⟩ ⟨49, by decide⟩
      .ok { rule with origin := .federated, score }

theorem I32.clamp_bounds (x : I32) {lo hi : I32} (h : lo ≤ hi) : lo ≤ x.clamp lo hi ∧ x.clamp lo hi ≤ hi := by
  unfold I32.clamp
  split
  · exact ⟨le_refl _, h⟩
  · rename_i h1
    split
    · exact ⟨h, le_refl _⟩
    · rename_i h2; exact ⟨not_lt.1 h1, not_lt.1 h2⟩

/-- What the safety layer changes in an accepted rule. -/
theorem applySuggestion_ok {r f : CrabRule} (h : applySuggestion r = .ok f) :
    f = { r with origin := .federated, score := I32.clamp r.score ⟨1, by decide⟩ ⟨49, by decide⟩ } ∧
      checkAction r.action = .ok () := by
  unfold applySuggestion at h
  split at h
  · cases h
  · cases hc : checkAction r.action with
    | error e => rw [hc] at h; cases h
    | ok u => rw [hc] at h; cases h; exact ⟨rfl, rfl⟩

theorem applySuggestion_id {r f : CrabRule} (h : applySuggestion r = .ok f) : f.id = r.id := by
  rw [(applySuggestion_ok h).1]

theorem applySuggestion_origin {r f : CrabRule} (h : applySuggestion r = .ok f) : f.origin = .federated := by
  rw [(applySuggestion_ok h).1]

theorem applySuggestion_score {r f : CrabRule} (h : applySuggestion r = .ok f) :
    1 ≤ f.score.1 ∧ f.score.1 ≤ 49 := by
  rw [(applySuggestion_ok h).1]
  exact I32.clamp_bounds r.score (by decide)

end Thundercrab
