/-
`crab_rule.rs`: the sorting rule, its match and action trees, and their serde schema. Both enums
are internally tagged by `kind` with snake_case names. Decoding reads members by key alone, so it
gives the rule back from the encoded value whatever the order of object members at any depth, in
particular from its key-sorted form.
-/
import Thundercrab.Core.Serde

namespace Thundercrab

open Lib Lib.Json

/-- AST of a header-only match expression. -/
inductive MatchExpr where
  | always
  | headerContains (header substring : String)
  | hasHeader (header : String)
  | fromDomainIn (domains : List String)
  | subjectContainsAny (needles : List String)
  | all (exprs : List MatchExpr)
  | any (exprs : List MatchExpr)
  | not (expr : MatchExpr)

/-- Action when a rule fires. -/
inductive Action where
  | fileInto (folder : String)
  | setFlag (flag : String)
  | sequence (actions : List Action)

/-- Where a rule came from. -/
inductive RuleOrigin where
  | user
  | platform
  | federated
  deriving DecidableEq

/-- A sorting rule. -/
structure CrabRule where
  id : String
  displayName : String
  when : MatchExpr
  action : Action
  score : I32
  stopOnMatch : Bool
  origin : RuleOrigin

/-! ## Serialize -/

mutual
def MatchExpr.toValue : MatchExpr → Value
  | .always => .obj [("kind", .str "always")]
  | .headerContains header substring =>
    .obj [("kind", .str "header_contains"), ("header", .str header), ("substring", .str substring)]
  | .hasHeader header => .obj [("kind", .str "has_header"), ("header", .str header)]
  | .fromDomainIn domains => .obj [("kind", .str "from_domain_in"), ("domains", .arr (domains.map .str))]
  | .subjectContainsAny needles =>
    .obj [("kind", .str "subject_contains_any"), ("needles", .arr (needles.map .str))]
  | .all exprs => .obj [("kind", .str "all"), ("exprs", .arr (matchExprsToValue exprs))]
  | .any exprs => .obj [("kind", .str "any"), ("exprs", .arr (matchExprsToValue exprs))]
  | .not expr => .obj [("kind", .str "not"), ("expr", expr.toValue)]
def matchExprsToValue : List MatchExpr → List Value
  | [] => []
  | e :: es => e.toValue :: matchExprsToValue es
end

mutual
def Action.toValue : Action → Value
  | .fileInto folder => .obj [("kind", .str "file_into"), ("folder", .str folder)]
  | .setFlag flag => .obj [("kind", .str "set_flag"), ("flag", .str flag)]
  | .sequence actions => .obj [("kind", .str "sequence"), ("actions", .arr (actionsToValue actions))]
def actionsToValue : List Action → List Value
  | [] => []
  | a :: as => a.toValue :: actionsToValue as
end

/-- The snake_case name of an origin. -/
def RuleOrigin.name : RuleOrigin → String
  | .user => "user"
  | .platform => "platform"
  | .federated => "federated"

def CrabRule.toValue (r : CrabRule) : Value :=
  .obj [("id", .str r.id), ("display_name", .str r.displayName), ("when", r.when.toValue),
    ("action", r.action.toValue), ("score", .num r.score.1), ("stop_on_match", .bool r.stopOnMatch),
    ("origin", .str r.origin.name)]

/-! ## Deserialize -/

mutual
def MatchExpr.fromValue : Value → Option MatchExpr
  | .obj m =>
    match strField "kind" m with
    | some "always" => some .always
    | some "header_contains" =>
      match strField "header" m, strField "substring" m with
      | some header, some substring => some (.headerContains header substring)
      | _, _ => none
    | some "has_header" => (strField "header" m).map .hasHeader
    | some "from_domain_in" => (strsField "domains" m).map .fromDomainIn
    | some "subject_contains_any" => (strsField "needles" m).map .subjectContainsAny
    | some "all" => (exprsField "exprs" m).map .all
    | some "any" => (exprsField "exprs" m).map .any
    | some "not" => (exprField "expr" m).map .not
    | _ => none
  | _ => none
termination_by structural v => v
/-- A `Vec<MatchExpr>` field. -/
def exprsField (k : String) : List (String × Value) → Option (List MatchExpr)
  | [] => none
  | (k', v) :: m => if k' = k then exprsFromValue v else exprsField k m
termination_by structural m => m
/-- A `Box<MatchExpr>` field. -/
def exprField (k : String) : List (String × Value) → Option MatchExpr
  | [] => none
  | (k', v) :: m => if k' = k then MatchExpr.fromValue v else exprField k m
termination_by structural m => m
def exprsFromValue : Value → Option (List MatchExpr)
  | .arr vs => exprItems vs
  | _ => none
termination_by structural v => v
def exprItems : List Value → Option (List MatchExpr)
  | [] => some []
  | v :: vs =>
    match MatchExpr.fromValue v, exprItems vs with
    | some e, some es => some (e :: es)
    | _, _ => none
termination_by structural vs => vs
end

mutual
def Action.fromValue : Value → Option Action
  | .obj m =>
    match strField "kind" m with
    | some "file_into" => (strField "folder" m).map .fileInto
    | some "set_flag" => (strField "flag" m).map .setFlag
    | some "sequence" => (actionsField "actions" m).map .sequence
    | _ => none
  | _ => none
termination_by structural v => v
/-- A `Vec<Action>` field. -/
def actionsField (k : String) : List (String × Value) → Option (List Action)
  | [] => none
  | (k', v) :: m => if k' = k then actionsFromValue v else actionsField k m
termination_by structural m => m
def actionsFromValue : Value → Option (List Action)
  | .arr vs => actionItems vs
  | _ => none
termination_by structural v => v
def actionItems : List Value → Option (List Action)
  | [] => some []
  | v :: vs =>
    match Action.fromValue v, actionItems vs with
    | some a, some as => some (a :: as)
    | _, _ => none
termination_by structural vs => vs
end

def RuleOrigin.fromName : String → Option RuleOrigin
  | "user" => some .user
  | "platform" => some .platform
  | "federated" => some .federated
  | _ => none

/-- A member decoded by its own decoder. -/
def field {α : Type} (decode : Value → Option α) (k : String) (m : Members) : Option α :=
  (Members.get k m).bind decode

def CrabRule.fromValue : Value → Option CrabRule
  | .obj m =>
    match strField "id" m, strField "display_name" m, field MatchExpr.fromValue "when" m,
      field Action.fromValue "action" m, i32Field "score" m, boolField "stop_on_match" m,
      (strField "origin" m).bind RuleOrigin.fromName with
    | some id, some displayName, some when, some action, some score, some stopOnMatch, some origin =>
      some { id, displayName, when, action, score, stopOnMatch, origin }
    | _, _, _, _, _, _, _ => none
  | _ => none

/-- `serde_json::to_string(&rule)` -/
def CrabRule.toStr (J : SerdeJson) (r : CrabRule) : String := J.toString r.toValue

/-- `serde_json::from_str::<CrabRule>` -/
def CrabRule.fromStr (J : SerdeJson) (s : String) : Option CrabRule := (J.fromStr s).bind CrabRule.fromValue

/-! ## The schema has distinct keys -/

theorem wfItems_str : ∀ ss : List String, WFItems (ss.map .str : List Value)
  | [] => trivial
  | _ :: ss => ⟨trivial, wfItems_str ss⟩

mutual
theorem MatchExpr.toValue_wf : ∀ e : MatchExpr, e.toValue.WF
  | .always => ⟨by decide, trivial, trivial⟩
  | .headerContains _ _ => ⟨(by decide : ["kind", "header", "substring"].Nodup), trivial, trivial, trivial, trivial⟩
  | .hasHeader _ => ⟨(by decide : ["kind", "header"].Nodup), trivial, trivial, trivial⟩
  | .fromDomainIn ds => ⟨(by decide : ["kind", "domains"].Nodup), trivial, wfItems_str ds, trivial⟩
  | .subjectContainsAny ns => ⟨(by decide : ["kind", "needles"].Nodup), trivial, wfItems_str ns, trivial⟩
  | .all es => ⟨(by decide : ["kind", "exprs"].Nodup), trivial, matchExprsToValue_wf es, trivial⟩
  | .any es => ⟨(by decide : ["kind", "exprs"].Nodup), trivial, matchExprsToValue_wf es, trivial⟩
  | .not e => ⟨(by decide : ["kind", "expr"].Nodup), trivial, e.toValue_wf, trivial⟩
theorem matchExprsToValue_wf : ∀ es : List MatchExpr, WFItems (matchExprsToValue es)
  | [] => trivial
  | e :: es => ⟨e.toValue_wf, matchExprsToValue_wf es⟩
end

mutual
theorem Action.toValue_wf : ∀ a : Action, a.toValue.WF
  | .fileInto _ => ⟨(by decide : ["kind", "folder"].Nodup), trivial, trivial, trivial⟩
  | .setFlag _ => ⟨(by decide : ["kind", "flag"].Nodup), trivial, trivial, trivial⟩
  | .sequence as => ⟨(by decide : ["kind", "actions"].Nodup), trivial, actionsToValue_wf as, trivial⟩
theorem actionsToValue_wf : ∀ as : List Action, WFItems (actionsToValue as)
  | [] => trivial
  | a :: as => ⟨a.toValue_wf, actionsToValue_wf as⟩
end

theorem CrabRule.toValue_wf (r : CrabRule) : r.toValue.WF :=
  ⟨(by decide : (["id", "display_name", "when", "action", "score", "stop_on_match", "origin"]).Nodup),
    trivial, trivial, r.when.toValue_wf, r.action.toValue_wf, trivial, trivial, trivial, trivial⟩

/-! ## Decoding what was encoded -/

theorem exprsField_eq (k : String) (m : Members) : exprsField k m = (Members.get k m).bind exprsFromValue := by
  induction m with
  | nil => rfl
  | cons p m ih =>
    obtain ⟨k', v⟩ := p
    rw [exprsField, Members.get]
    split
    · rfl
    · exact ih

theorem exprField_eq (k : String) (m : Members) : exprField k m = (Members.get k m).bind MatchExpr.fromValue := by
  induction m with
  | nil => rfl
  | cons p m ih =>
    obtain ⟨k', v⟩ := p
    rw [exprField, Members.get]
    split
    · rfl
    · exact ih

theorem actionsField_eq (k : String) (m : Members) : actionsField k m = (Members.get k m).bind actionsFromValue := by
  induction m with
  | nil => rfl
  | cons p m ih =>
    obtain ⟨k', v⟩ := p
    rw [actionsField, Members.get]
    split
    · rfl
    · exact ih

mutual
theorem MatchExpr.fromValue_same : ∀ (e : MatchExpr) (w : Value), e.toValue.Same w →
    MatchExpr.fromValue w = some e
  | .always, w, h => by
    obtain ⟨m', rfl, hm⟩ := same_obj_get (MatchExpr.toValue_wf .always).1 h
    rw [MatchExpr.fromValue, strField_same hm rfl]
    rfl
  | .headerContains header substring, w, h => by
    obtain ⟨m', rfl, hm⟩ := same_obj_get (MatchExpr.toValue_wf (.headerContains header substring)).1 h
    rw [MatchExpr.fromValue, strField_same hm rfl]
    simp only
    rw [strField_same (k := "header") hm rfl, strField_same (k := "substring") hm rfl]
  | .hasHeader header, w, h => by
    obtain ⟨m', rfl, hm⟩ := same_obj_get (MatchExpr.toValue_wf (.hasHeader header)).1 h
    rw [MatchExpr.fromValue, strField_same hm rfl]
    simp only
    rw [strField_same (k := "header") hm rfl]; rfl
  | .fromDomainIn domains, w, h => by
    obtain ⟨m', rfl, hm⟩ := same_obj_get (MatchExpr.toValue_wf (.fromDomainIn domains)).1 h
    rw [MatchExpr.fromValue, strField_same hm rfl]
    simp only
    rw [strsField_same (k := "domains") hm rfl]; rfl
  | .subjectContainsAny needles, w, h => by
    obtain ⟨m', rfl, hm⟩ := same_obj_get (MatchExpr.toValue_wf (.subjectContainsAny needles)).1 h
    rw [MatchExpr.fromValue, strField_same hm rfl]
    simp only
    rw [strsField_same (k := "needles") hm rfl]; rfl
  | .all es, w, h => by
    obtain ⟨m', rfl, hm⟩ := same_obj_get (MatchExpr.toValue_wf (.all es)).1 h
    obtain ⟨v', hv', hs⟩ := hm "exprs" _ rfl
    rw [MatchExpr.fromValue, strField_same hm rfl]
    simp only
    rw [exprsField_eq, hv', Option.bind_some, exprsFromValue_same es v' hs]; rfl
  | .any es, w, h => by
    obtain ⟨m', rfl, hm⟩ := same_obj_get (MatchExpr.toValue_wf (.any es)).1 h
    obtain ⟨v', hv', hs⟩ := hm "exprs" _ rfl
    rw [MatchExpr.fromValue, strField_same hm rfl]
    simp only
    rw [exprsField_eq, hv', Option.bind_some, exprsFromValue_same es v' hs]; rfl
  | .not e, w, h => by
    obtain ⟨m', rfl, hm⟩ := same_obj_get (MatchExpr.toValue_wf (.not e)).1 h
    obtain ⟨v', hv', hs⟩ := hm "expr" _ rfl
    rw [MatchExpr.fromValue, strField_same hm rfl]
    simp only
    rw [exprField_eq, hv', Option.bind_some, MatchExpr.fromValue_same e v' hs]; rfl
theorem exprsFromValue_same : ∀ (es : List MatchExpr) (w : Value),
    (Value.arr (matchExprsToValue es)).Same w → exprsFromValue w = some es
  | es, w, h => by
    obtain ⟨vs, rfl, hvs⟩ := h
    rw [exprsFromValue]; exact exprItems_same es vs hvs
theorem exprItems_same : ∀ (es : List MatchExpr) (vs : List Value), SameItems (matchExprsToValue es) vs →
    exprItems vs = some es
  | [], vs, h => by rw [show vs = [] from h]; rfl
  | e :: es, vs, h => by
    obtain ⟨w, rest, rfl, hw, hr⟩ := h
    rw [exprItems, MatchExpr.fromValue_same e w hw, exprItems_same es rest hr]
end

mutual
theorem Action.fromValue_same : ∀ (a : Action) (w : Value), a.toValue.Same w → Action.fromValue w = some a
  | .fileInto folder, w, h => by
    obtain ⟨m', rfl, hm⟩ := same_obj_get (Action.toValue_wf (.fileInto folder)).1 h
    rw [Action.fromValue, strField_same hm rfl]
    simp only
    rw [strField_same (k := "folder") hm rfl]; rfl
  | .setFlag flag, w, h => by
    obtain ⟨m', rfl, hm⟩ := same_obj_get (Action.toValue_wf (.setFlag flag)).1 h
    rw [Action.fromValue, strField_same hm rfl]
    simp only
    rw [strField_same (k := "flag") hm rfl]; rfl
  | .sequence as, w, h => by
    obtain ⟨m', rfl, hm⟩ := same_obj_get (Action.toValue_wf (.sequence as)).1 h
    obtain ⟨v', hv', hs⟩ := hm "actions" _ rfl
    obtain ⟨vs, rfl, hvs⟩ := hs
    rw [Action.fromValue, strField_same hm rfl]
    simp only
    rw [actionsField_eq, hv', Option.bind_some, actionsFromValue, actionItems_same as vs hvs]; rfl
theorem actionItems_same : ∀ (as : List Action) (vs : List Value), SameItems (actionsToValue as) vs →
    actionItems vs = some as
  | [], vs, h => by rw [show vs = [] from h]; rfl
  | a :: as, vs, h => by
    obtain ⟨w, rest, rfl, hw, hr⟩ := h
    rw [actionItems, Action.fromValue_same a w hw, actionItems_same as rest hr]
end

theorem RuleOrigin.fromName_name (o : RuleOrigin) : RuleOrigin.fromName o.name = some o := by
  cases o <;> rfl

/-- A rule is decoded from every value that is its encoding up to key order. -/
theorem CrabRule.fromValue_same (r : CrabRule) {w : Value} (h : r.toValue.Same w) :
    CrabRule.fromValue w = some r := by
  obtain ⟨m', rfl, hm⟩ := same_obj_get (by exact r.toValue_wf.1) h
  obtain ⟨vw, hvw, hsw⟩ := hm "when" _ rfl
  obtain ⟨va, hva, hsa⟩ := hm "action" _ rfl
  have hwhen : field MatchExpr.fromValue "when" m' = some r.when := by
    unfold field; rw [hvw]; exact MatchExpr.fromValue_same _ _ hsw
  have haction : field Action.fromValue "action" m' = some r.action := by
    unfold field; rw [hva]; exact Action.fromValue_same _ _ hsa
  have horigin : (strField "origin" m').bind RuleOrigin.fromName = some r.origin := by
    rw [strField_same (k := "origin") hm rfl]; exact RuleOrigin.fromName_name _
  rw [CrabRule.fromValue, strField_same (k := "id") hm rfl, strField_same (k := "display_name") hm rfl,
    hwhen, haction, i32Field_same (k := "score") hm rfl, boolField_same (k := "stop_on_match") hm rfl,
    horigin]

theorem CrabRule.fromValue_toValue (r : CrabRule) : CrabRule.fromValue r.toValue = some r :=
  r.fromValue_same (Value.Same.refl _)

theorem CrabRule.fromStr_toStr (J : SerdeJson) (r : CrabRule) : CrabRule.fromStr J (r.toStr J) = some r := by
  unfold CrabRule.fromStr CrabRule.toStr
  rw [J.fromStr_toString _ r.toValue_wf]; exact r.fromValue_toValue

end Thundercrab
