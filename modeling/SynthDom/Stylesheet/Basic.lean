import SynthDom.ItemKind
import SynthDom.PropertyList.Basic

/-!
# Stylesheets

A stylesheet is a list of rules.  A style rule and a keyframe step hold declarations under a header
text; a condition rule holds further rules under an at-keyword and a condition.

* `Rule.sameHeader`: two rules agree in all but what they hold.
* `Rule.equiv`: two rules agree up to the order of declarations.
-/

namespace SynthDom

/-- The at-keyword of a condition rule. -/
inductive ConditionKind where
  | media
  | supports
  | keyframes
  | unknown (keyword : String)
deriving DecidableEq

namespace ConditionKind

/-- The keyword without its `@`. -/
def keyword : ConditionKind → String
  | .media => "media"
  | .supports => "supports"
  | .keyframes => "keyframes"
  | .unknown keyword => keyword

/-- The keyword as a stylesheet writes it. -/
def atKeyword (kind : ConditionKind) : String := "@" ++ kind.keyword

/-- Nothing is known about what an unknown keyword's rules mean, so they are kept or replaced as a
whole. -/
def isOpaque : ConditionKind → Bool
  | .unknown _ => true
  | _ => false

end ConditionKind

/-- A rule of a stylesheet. -/
inductive Rule where
  | style (selector : String) (declarations : PropertyList)
  | condition (kind : ConditionKind) (condition : String) (rules : List Rule)
  | keyframeStep (offset : String) (declarations : PropertyList)
deriving Inhabited

namespace Rule

def kind : Rule → ItemKind
  | .style .. => .styleRule
  | .condition .. => .conditionRule
  | .keyframeStep .. => .keyframeStep

/-- The declarations of a style rule or a keyframe step. -/
def declarations? : Rule → Option PropertyList
  | .style _ ds | .keyframeStep _ ds => some ds
  | .condition .. => none

/-- The rules inside a condition rule. -/
def rules? : Rule → Option (List Rule)
  | .condition _ _ rules => some rules
  | _ => none

/-- The rule with other declarations, if it has any. -/
def withDeclarations : Rule → PropertyList → Rule
  | .style selector _, ds => .style selector ds
  | .keyframeStep offset _, ds => .keyframeStep offset ds
  | r, _ => r

/-- The rule with other rules inside, if it has any. -/
def withRules : Rule → List Rule → Rule
  | .condition k c _, rules => .condition k c rules
  | r, _ => r

/-- A style rule or keyframe step with one more declaration written. -/
def declare (r : Rule) (name value : String) : Rule :=
  match r.declarations? with
  | some ds => r.withDeclarations (ds.insert name value)
  | none => r

/-- A condition rule with one more rule at its end. -/
def push (r : Rule) (inner : Rule) : Rule :=
  match r.rules? with
  | some rules => r.withRules (rules ++ [inner])
  | none => r

/-- The same kind of rule with the same selector, offset, or keyword and condition. -/
def sameHeader : Rule → Rule → Bool
  | .style s _, .style t _ => s == t
  | .keyframeStep o _, .keyframeStep p _ => o == p
  | .condition k c _, .condition l d _ => k == l && c == d
  | _, _ => false

mutual

/-- Equal up to the order of declarations, at every depth. -/
def equiv : Rule → Rule → Bool
  | .style s ds, .style t es => s == t && ds.equiv es
  | .keyframeStep o ds, .keyframeStep p es => o == p && ds.equiv es
  | .condition k c rs, .condition l d ss => k == l && c == d && equivList rs ss
  | _, _ => false
termination_by structural r => r

/-- Equal rule by rule. -/
def equivList : List Rule → List Rule → Bool
  | [], [] => true
  | r :: rs, s :: ss => equiv r s && equivList rs ss
  | _, _ => false
termination_by structural rs => rs

end

end Rule

/-- A stylesheet. -/
structure Stylesheet where
  rules : List Rule
deriving Inhabited

namespace Stylesheet

/-- The stylesheet without rules. -/
def empty : Stylesheet := ⟨[]⟩

def isEmpty (s : Stylesheet) : Bool := s.rules.isEmpty

/-- The stylesheet with one more rule at its end. -/
def push (s : Stylesheet) (r : Rule) : Stylesheet := ⟨s.rules ++ [r]⟩

/-- Equal rule by rule, up to the order of declarations. -/
def equiv (s t : Stylesheet) : Bool := Rule.equivList s.rules t.rules

@[simp] theorem rules_empty : empty.rules = [] := rfl

@[simp] theorem rules_push (s : Stylesheet) (r : Rule) : (s.push r).rules = s.rules ++ [r] := rfl

end Stylesheet

end SynthDom
