import SynthDom.Mutation.Basic
import SynthDom.PropertyList.Change

/-!
# Diffs

`Tree.diff old new` is the list of mutations that turns one document into another.  Children and
rules are compared by position: what keeps its shape is changed in place, what does not is removed
and inserted anew, and moves are never looked for.  The mutations of an element come in the order
attributes, rules of its stylesheet, children.

Every function here gives its mutations relative to the item it compares; `Mutation.under` puts the
step to that item in front.

* `attributeMutations`, `declarationMutations`: the changes of one property list.
* `resized`: removals from the end and insertions at the end.
* `Rule.diffList`, `Node.diffList`: rules and children by position.
* `Element.diff`, `Tree.diff`.
-/

namespace SynthDom

/-! ## Property lists -/

/-- A change of an attribute. -/
def attributeAction : PropertyList.Change → Action
  | .removed name oldValue => .removeAttribute name (some oldValue)
  | .changed name _ newValue oldValue => .setAttribute name newValue (some oldValue)
  | .inserted name index newValue => .insertAttribute index name newValue

/-- A change of a declaration. -/
def declarationAction : PropertyList.Change → Action
  | .removed name oldValue => .removeProperty name (some oldValue)
  | .changed name index newValue oldValue => .setProperty index name newValue (some oldValue)
  | .inserted name index newValue => .setProperty index name newValue none

/-- The mutations of an element's attributes. -/
def attributeMutations (old new : PropertyList) : List Mutation :=
  (PropertyList.changes old new).map fun c => ⟨[], attributeAction c⟩

/-- The mutations of a rule's declarations. -/
def declarationMutations (old new : PropertyList) : List Mutation :=
  (PropertyList.changes old new).map fun c => ⟨[], declarationAction c⟩

/-! ## Lists by position -/

/-- Drops a child. -/
def removal (index : Nat) : Mutation := ⟨[], .removeChild index⟩

/-- Puts in a child. -/
def insertion (index : Nat) (child : Payload) : Mutation := ⟨[], .insertChild index child true⟩

/-- Puts a child in the place of another. -/
def replacement (index : Nat) (child : Payload) : List Mutation :=
  [removal index, insertion index child]

/-- Drops `count` children from the end of a list that keeps `start` of them, the last one first. -/
def truncation (start count : Nat) : List Mutation :=
  ((List.range' start count).map removal).reverse

/-- Puts in children one after the other from an index on. -/
def extension (start : Nat) : List Payload → List Mutation
  | [] => []
  | c :: cs => insertion start c :: extension (start + 1) cs

/-! ## Rules -/

mutual

/-- The mutations that turn the rule at an index of a list into another, relative to the owner of
the list. -/
def Rule.diffAt (index : Nat) : Rule → Rule → List Mutation
  | .style s ds, new =>
    if Rule.equiv (.style s ds) new then []
    else match new with
      | .style t es =>
        if s == t then (declarationMutations ds es).map (Mutation.under [.rule index])
        else replacement index (.rule new)
      | _ => replacement index (.rule new)
  | .keyframeStep o ds, new =>
    if Rule.equiv (.keyframeStep o ds) new then []
    else match new with
      | .keyframeStep p es =>
        if o == p then (declarationMutations ds es).map (Mutation.under [.rule index])
        else replacement index (.rule new)
      | _ => replacement index (.rule new)
  | .condition k c rules, new =>
    if Rule.equiv (.condition k c rules) new then []
    else match new with
      | .condition l d news =>
        if k == l && c == d && !k.isOpaque then
          (Rule.diffList 0 rules news).map (Mutation.under [.rule index])
        else replacement index (.rule new)
      | _ => replacement index (.rule new)
termination_by structural old => old

/-- The mutations that turn one list of rules into another, from an index on, relative to the owner
of the lists. -/
def Rule.diffList (index : Nat) : List Rule → List Rule → List Mutation
  | old :: olds, new :: news => Rule.diffAt index old new ++ Rule.diffList (index + 1) olds news
  | olds@(_ :: _), [] => truncation index olds.length
  | [], news => extension index (news.map .rule)
termination_by structural olds => olds

end

/-! ## Nodes -/

mutual

/-- The mutations that turn the child at an index into another, relative to the parent. -/
def Node.diffAt (index : Nat) : Node → Node → List Mutation
  | .text v, .text w =>
    if v == w then [] else [⟨[.child index], .setText w (some v)⟩]
  | .element e, .element f =>
    if e.tag == f.tag then (Element.diff e f).map (Mutation.under [.child index])
    else replacement index (.node (.element f))
  | _, new => replacement index (.node new)
termination_by structural old => old

/-- The mutations that turn one element into another, but for its tag, relative to it. -/
def Element.diff : Element → Element → List Mutation
  | ⟨_, attributes, children, stylesheet⟩, new =>
    attributeMutations attributes new.attributes
      ++ (Rule.diffList 0 (stylesheet.getD .empty).rules new.rules).map (Mutation.under [.shadow])
      ++ Node.diffList 0 children new.children
termination_by structural old => old

/-- The mutations that turn one list of children into another, from an index on, relative to the
parent. -/
def Node.diffList (index : Nat) : List Node → List Node → List Mutation
  | old :: olds, new :: news => Node.diffAt index old new ++ Node.diffList (index + 1) olds news
  | olds@(_ :: _), [] => truncation index olds.length
  | [], news => extension index (news.map .node)
termination_by structural olds => olds

end

/-- The mutations that turn one document into another.  The root is the wrapper of the document: its
tag is not compared, and it is never replaced. -/
def Tree.diff (old new : Tree) : List Mutation := Element.diff old.root new.root

end SynthDom
