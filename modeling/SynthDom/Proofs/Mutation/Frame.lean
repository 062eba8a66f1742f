import SynthDom.Proofs.Mutation.Refusal
import SynthDom.Proofs.PropertyList.Lookup

/-!
# A mutation changes its target and nothing else

What an address leads to after a mutation depends on how the address lies to the target.  Where neither
leads on to the other, nothing has changed.  On the way to the target the items keep the data of their
own.  Beyond the target, a child that was put in or taken out moves the ones behind it by one place, and
everything else stays where it was.

* `Item.place`, `Item.members`: the children of an element and the rules of a list, by position.
* `PropertyList.Edited`: a list that differs from another in one entry.
* `Tree.Framed`: what a mutation leaves alone.
* `Tree.patch_framed`: every mutation does so, and no list of them touches the tag of the root or the
  modules.
-/

namespace SynthDom

/-! ## Property lists -/

/-- A list that reads as another but for one name, under which it has a value, or none.  The other
entries stand in the order that they had. -/
def PropertyList.Edited (l m : PropertyList) (name : String) (value : Option String) : Prop :=
  m.get? name = value ∧ m.remove name = l.remove name

namespace PropertyList

theorem remove_remove (l : PropertyList) (name : String) :
    (l.remove name).remove name = l.remove name :=
  ext_entries (by simp)

theorem remove_overwrite (l : PropertyList) (name value : String) :
    (l.overwrite name value).remove name = l.remove name := by
  refine ext_entries ?_
  rw [entries_remove, entries_overwrite, entries_remove]
  induction l.entries with
  | nil => rfl
  | cons e es ih =>
    rw [List.map_cons, List.filter_cons, List.filter_cons, ih]
    by_cases h : e.1 = name <;> simp [h]

theorem remove_place {l : PropertyList} {name : String} (h : name ∉ l.names) (i : Nat)
    (value : String) : (l.place i name value h).remove name = l.remove name := by
  refine ext_entries ?_
  simp only [entries_remove, entries_place, List.filter_append, List.filter_cons, bne_self_eq_false,
    Bool.false_eq_true, if_false]
  rw [← List.filter_append, List.take_append_drop]

end PropertyList

/-- The name that a step is about. -/
def PropertyList.Edit.name : PropertyList.Edit → String
  | .remove name => name
  | .overwrite name _ => name
  | .insert _ name _ => name

/-- The value that a step leaves under its name. -/
def PropertyList.Edit.value? : PropertyList.Edit → Option String
  | .remove _ => none
  | .overwrite _ value => some value
  | .insert _ _ value => some value

/-- A step changes one entry. -/
theorem PropertyList.edited_of_edit {l m : PropertyList} {edit : PropertyList.Edit}
    (h : l.edit edit = .ok m) : l.Edited m edit.name edit.value? := by
  obtain ⟨hvalid, rfl⟩ := edit_eq_ok_iff.mp h
  cases edit with
  | remove name => exact ⟨by rw [Edit.outcome, get?_remove]; exact if_pos rfl, remove_remove l name⟩
  | overwrite name value =>
    exact ⟨by rw [Edit.outcome, get?_overwrite]; exact if_pos ⟨rfl, hvalid⟩,
      remove_overwrite l name value⟩
  | insert i name value =>
    refine ⟨by rw [Edit.outcome, get?_insertAt]; exact if_pos rfl, ?_⟩
    rw [Edit.outcome, insertAt_of_not_mem hvalid]
    exact remove_place hvalid i value

/-! ## Places -/

theorem getElem?_splice_of_lt {α : Type} {l : List α} {i j : Nat} (x : α) (hi : i ≤ l.length)
    (hj : j < i) : (l.take i ++ x :: l.drop i)[j]? = l[j]? := by
  rw [List.getElem?_append_left (by rw [List.length_take]; omega), List.getElem?_take_of_lt hj]

theorem getElem?_splice_self {α : Type} {l : List α} {i : Nat} (x : α) (hi : i ≤ l.length) :
    (l.take i ++ x :: l.drop i)[i]? = some x := by
  have hlength : (l.take i).length = i := List.length_take_of_le hi
  rw [List.getElem?_append_right (Nat.le_of_eq hlength), hlength, Nat.sub_self]
  rfl

theorem getElem?_splice_succ {α : Type} {l : List α} {i j : Nat} (x : α) (hi : i ≤ l.length)
    (hj : i ≤ j) : (l.take i ++ x :: l.drop i)[j + 1]? = l[j]? := by
  have hlength : (l.take i).length = i := List.length_take_of_le hi
  have hplace : j + 1 - i = j - i + 1 := by omega
  rw [List.getElem?_append_right (by omega), hlength, hplace, List.getElem?_cons_succ,
    List.getElem?_drop, Nat.add_sub_cancel' hj]

/-- What an insertion puts in, as an item. -/
def Payload.item : Payload → Item
  | .node n => n.item
  | .rule r => .rule r

namespace Item

variable {it it' new x : Item} {s : Segment} {i j : Nat} {b : Address}

/-- The step to a position: to a child of an element, or to a rule of a list. -/
def place : Item → Nat → Segment
  | .element _, i => .child i
  | _, i => .rule i

/-- What an item holds by position: the children of an element, or the rules of a list. -/
def members : Item → List Item
  | .element e => e.children.map Node.item
  | .stylesheet s => s.rules.map .rule
  | .rule (.condition _ _ rules) => rules.map .rule
  | _ => []

theorem ruleAt_eq_ok_iff {rules : List Rule} :
    ruleAt rules i = .ok x ↔ (rules.map Item.rule)[i]? = some x := by
  rw [List.getElem?_map, ruleAt]
  cases rules[i]? <;> simp

theorem step_place_eq_ok_iff : it.step (it.place i) = .ok x ↔ it.members[i]? = some x := by
  cases it with
  | element e =>
    rw [place, members, List.getElem?_map, step]
    cases e.children[i]? <;> simp
  | stylesheet t => exact ruleAt_eq_ok_iff
  | rule r =>
    cases r with
    | condition k c rules => exact ruleAt_eq_ok_iff
    | style | keyframeStep => constructor <;> (intro h; cases h)
  | text | declaration => constructor <;> (intro h; cases h)

/-- Addresses through a position lead on from the member there. -/
theorem descend_place_cons_eq_ok_iff : it.descend (it.place i :: b) = .ok x ↔
    ∃ y, it.members[i]? = some y ∧ y.descend b = .ok x := by
  simp only [descend_cons_eq_ok_iff, step_place_eq_ok_iff]

/-! ## Items with other members -/

/-- An item with other members, and everything else as it was. -/
structure WithMembers (it it' : Item) (l : List Item) : Prop where
  members : it'.members = l
  own : it.SameOwn it'
  place : it'.place = it.place
  others : ∀ s, (∀ j, s ≠ it.place j) → it'.step s = it.step s

/-- The step to a position leads to the same member as before, if it is still there. -/
theorem WithMembers.step_place_eq {l : List Item} (h : it.WithMembers it' l)
    (hi : i < it.members.length) (hsame : l[i]? = it.members[i]?) :
    it'.step (it.place i) = it.step (it.place i) := by
  have hx : it.members[i]? = some it.members[i] := List.getElem?_eq_getElem hi
  have hstep : it'.step (it'.place i) = .ok it.members[i] := by
    rw [step_place_eq_ok_iff, h.members, hsame, hx]
  rw [h.place] at hstep
  exact hstep.trans (step_place_eq_ok_iff.mpr hx).symm

theorem withMembers_element (e : Element) (ns : List Node) :
    (Item.element e).WithMembers (.element { e with children := ns }) (ns.map Node.item) where
  members := rfl
  own := .element rfl rfl
  place := rfl
  others s hs := by
    cases s with
    | child j => exact absurd rfl (hs j)
    | shadow | rule | declaration => rfl

theorem withMembers_stylesheet (t : Stylesheet) (rs : List Rule) :
    (Item.stylesheet t).WithMembers (.stylesheet ⟨rs⟩) (rs.map .rule) where
  members := rfl
  own := .stylesheet t ⟨rs⟩
  place := rfl
  others s hs := by
    cases s with
    | rule j => exact absurd rfl (hs j)
    | child | shadow | declaration => rfl

theorem withMembers_condition (k : ConditionKind) (c : String) (rules rs : List Rule) :
    (Item.rule (.condition k c rules)).WithMembers (.rule (.condition k c rs)) (rs.map .rule) where
  members := rfl
  own := .rule (by simp [Rule.sameHeader])
  place := rfl
  others s hs := by
    cases s with
    | rule j => exact absurd rfl (hs j)
    | child | shadow | declaration => rfl

end Item

namespace Action

variable {it it' : Item}

/-- An insertion puts one member in. -/
theorem Done.insertChild {i : Nat} {child : Payload} {clone : Bool}
    (h : (Action.insertChild i child clone).Done it it') : i ≤ it.members.length ∧
      it.WithMembers it' (it.members.take i ++ child.item :: it.members.drop i) := by
  cases h with
  | @insertNode _ n _ e h =>
    have hmembers := Item.withMembers_element e (e.children.take i ++ n :: e.children.drop i)
    rw [List.map_append, List.map_cons, List.map_take, List.map_drop] at hmembers
    exact ⟨by rwa [Item.members, List.length_map], hmembers⟩
  | @insertRule _ r _ s h =>
    have hmembers := Item.withMembers_stylesheet s (s.rules.take i ++ r :: s.rules.drop i)
    rw [List.map_append, List.map_cons, List.map_take, List.map_drop] at hmembers
    exact ⟨by rwa [Item.members, List.length_map], hmembers⟩
  | @insertNested _ r _ k c rules h =>
    have hmembers := Item.withMembers_condition k c rules (rules.take i ++ r :: rules.drop i)
    rw [List.map_append, List.map_cons, List.map_take, List.map_drop] at hmembers
    exact ⟨by rwa [Item.members, List.length_map], hmembers⟩
  | attributes hedit => cases hedit
  | declarations _ hedit => cases hedit

/-- A removal takes one member out. -/
theorem Done.removeChild {i : Nat} (h : (Action.removeChild i).Done it it') :
    i < it.members.length ∧ it.WithMembers it' (it.members.eraseIdx i) := by
  cases h with
  | @removeNode _ e h =>
    have hmembers := Item.withMembers_element e (e.children.eraseIdx i)
    rw [← List.eraseIdx_map] at hmembers
    exact ⟨by rwa [Item.members, List.length_map], hmembers⟩
  | @removeRule _ s h =>
    have hmembers := Item.withMembers_stylesheet s (s.rules.eraseIdx i)
    rw [← List.eraseIdx_map] at hmembers
    exact ⟨by rwa [Item.members, List.length_map], hmembers⟩
  | @removeNested _ k c rules h =>
    have hmembers := Item.withMembers_condition k c rules (rules.eraseIdx i)
    rw [← List.eraseIdx_map] at hmembers
    exact ⟨by rwa [Item.members, List.length_map], hmembers⟩
  | attributes hedit => cases hedit
  | declarations _ hedit => cases hedit

/-- No action is both on attributes and on declarations. -/
theorem declarationEdit?_eq_none {a : Action} {edit : PropertyList.Edit}
    (h : a.attributeEdit? = some edit) : a.declarationEdit? = none := by
  cases a with
  | setAttribute | insertAttribute | removeAttribute => rfl
  | setText | insertChild | removeChild | setProperty | removeProperty => cases h

/-- An action on attributes edits one of them. -/
theorem Done.attributeEdited {a : Action} {edit : PropertyList.Edit} (h : a.Done it it')
    (hedit : a.attributeEdit? = some edit) : ∃ e l, it = .element e ∧
      it' = .element { e with attributes := l } ∧ e.attributes.Edited l edit.name edit.value? := by
  cases h with
  | attributes hedit' h =>
    cases hedit.symm.trans hedit'
    exact ⟨_, _, rfl, rfl, PropertyList.edited_of_edit h⟩
  | declarations _ hedit' => cases (declarationEdit?_eq_none hedit).symm.trans hedit'
  | setText | insertNode | insertRule | insertNested | removeNode | removeRule | removeNested =>
    cases hedit

/-- An action on declarations edits one of them. -/
theorem Done.declarationEdited {a : Action} {edit : PropertyList.Edit} (h : a.Done it it')
    (hedit : a.declarationEdit? = some edit) : ∃ r ds es, it = .rule r ∧ r.declarations? = some ds ∧
      it' = .rule (r.withDeclarations es) ∧ ds.Edited es edit.name edit.value? := by
  cases h with
  | declarations hds hedit' h =>
    cases hedit.symm.trans hedit'
    exact ⟨_, _, _, rfl, hds, rfl, PropertyList.edited_of_edit h⟩
  | attributes hedit' => cases (declarationEdit?_eq_none hedit').symm.trans hedit
  | setText | insertNode | insertRule | insertNested | removeNode | removeRule | removeNested =>
    cases hedit

end Action

/-! ## Documents -/

namespace Tree

variable {t t' : Tree} {a : Address} {old new : Item}

/-- Beyond an address that leads somewhere an address leads on from there. -/
theorem resolve_append (h : t.resolve a = .ok old) (b : Address) :
    t.resolve (a ++ b) = (old.descend b).mapError (⟨a ++ b, ·⟩) := by
  rw [resolve, Item.descend_append, resolve_eq_ok_iff.mp h]
  rfl

/-- Addresses through one step lead to the same, if the step does. -/
theorem resolve_append_cons_eq (h : t.resolve a = .ok old) (h' : t'.resolve a = .ok new)
    {s : Segment} (hs : new.step s = old.step s) (b : Address) :
    t'.resolve (a ++ s :: b) = t.resolve (a ++ s :: b) := by
  rw [resolve_append h, resolve_append h', Item.descend_cons, Item.descend_cons, hs]

theorem resolve_place_eq_ok_iff (h : t.resolve a = .ok old) {i : Nat} {b : Address} {x : Item} :
    t.resolve (a ++ old.place i :: b) = .ok x ↔
      ∃ y, old.members[i]? = some y ∧ y.descend b = .ok x := by
  rw [resolve_eq_ok_iff, Item.descend_append_eq_ok_iff, resolve_eq_ok_iff.mp h]
  simp only [Except.ok.injEq, exists_eq_left', Item.descend_place_cons_eq_ok_iff]

/-- A member is put in at a position of the item at an address: those before it stay, and those from
there on move up by one. -/
structure ChildInserted (t t' : Tree) (a : Address) (old new : Item) (i : Nat) (child : Payload) :
    Prop where
  own : old.SameOwn new
  here : t'.resolve (a.join (old.place i)) = .ok child.item
  before : ∀ j < i, ∀ b, t'.resolve (a ++ old.place j :: b) = t.resolve (a ++ old.place j :: b)
  after : ∀ j ≥ i, ∀ b x, t.resolve (a ++ old.place j :: b) = .ok x ↔
    t'.resolve (a ++ old.place (j + 1) :: b) = .ok x
  others : ∀ s, (∀ j, s ≠ old.place j) →
    ∀ b, t'.resolve (a ++ s :: b) = t.resolve (a ++ s :: b)

/-- The member at a position of the item at an address is taken out: those before it stay, and those
behind it move down by one. -/
structure ChildRemoved (t t' : Tree) (a : Address) (old new : Item) (i : Nat) : Prop where
  own : old.SameOwn new
  before : ∀ j < i, ∀ b, t'.resolve (a ++ old.place j :: b) = t.resolve (a ++ old.place j :: b)
  after : ∀ j ≥ i, ∀ b x, t.resolve (a ++ old.place (j + 1) :: b) = .ok x ↔
    t'.resolve (a ++ old.place j :: b) = .ok x
  others : ∀ s, (∀ j, s ≠ old.place j) →
    ∀ b, t'.resolve (a ++ s :: b) = t.resolve (a ++ s :: b)

/-- One attribute of the element at an address is edited, and nothing inside it changes. -/
def AttributeEdited (t t' : Tree) (a : Address) (old new : Item) (name : String)
    (value : Option String) : Prop :=
  (∃ e l, old = .element e ∧ new = .element { e with attributes := l } ∧
    e.attributes.Edited l name value) ∧
  ∀ s b, t'.resolve (a ++ s :: b) = t.resolve (a ++ s :: b)

/-- One declaration of the rule at an address is edited; all that its header says stays. -/
def DeclarationEdited (t t' : Tree) (a : Address) (old new : Item) (name : String)
    (value : Option String) : Prop :=
  (∃ r ds es, old = .rule r ∧ r.declarations? = some ds ∧ new = .rule (r.withDeclarations es) ∧
    ds.Edited es name value) ∧
  ∀ s, (∀ j, s ≠ .declaration j) → ∀ b, t'.resolve (a ++ s :: b) = t.resolve (a ++ s :: b)

/-- What an action leaves alone of the item that it is for, which it turns from one into another. -/
def FramedInside (t t' : Tree) (a : Address) (old new : Item) : Action → Prop
  | .setText value _ => new = .text value ∧ ∀ s b, t'.resolve (a ++ s :: b) = t.resolve (a ++ s :: b)
  | .insertChild i child _ => t.ChildInserted t' a old new i child
  | .removeChild i => t.ChildRemoved t' a old new i
  | .setAttribute name value _ => t.AttributeEdited t' a old new name (some value)
  | .insertAttribute _ name value => t.AttributeEdited t' a old new name (some value)
  | .removeAttribute name _ => t.AttributeEdited t' a old new name none
  | .setProperty _ name value _ => t.DeclarationEdited t' a old new name (some value)
  | .removeProperty name _ => t.DeclarationEdited t' a old new name none

/-- What a mutation leaves alone: elsewhere everything, on the way to the target the data of the items
themselves, and at the target what the action is not about. -/
structure Framed (t : Tree) (m : Mutation) (t' : Tree) : Prop where
  elsewhere : ∀ b, m.target.Incomparable b → t'.resolve b = t.resolve b
  onTheWay : ∀ p, p <+: m.target → p ≠ m.target →
    ∃ x x', t.resolve p = .ok x ∧ t'.resolve p = .ok x' ∧ x.SameOwn x'
  inside : ∃ old new, t.resolve m.target = .ok old ∧ t'.resolve m.target = .ok new ∧
    t.FramedInside t' m.target old new m.action

theorem childInserted (h : t.resolve a = .ok old) (h' : t'.resolve a = .ok new) {i : Nat}
    {child : Payload} (hi : i ≤ old.members.length)
    (hmembers : old.WithMembers new (old.members.take i ++ child.item :: old.members.drop i)) :
    t.ChildInserted t' a old new i child where
  own := hmembers.own
  here := by
    rw [← hmembers.place]
    refine (resolve_place_eq_ok_iff h').mpr ⟨child.item, ?_, rfl⟩
    rw [hmembers.members, getElem?_splice_self _ hi]
  before j hj b :=
    resolve_append_cons_eq h h'
      (hmembers.step_place_eq (Nat.lt_of_lt_of_le hj hi) (getElem?_splice_of_lt _ hi hj)) b
  after j hj b x := by
    rw [← hmembers.place, resolve_place_eq_ok_iff h', hmembers.place, resolve_place_eq_ok_iff h,
      hmembers.members, getElem?_splice_succ _ hi hj]
  others s hs b := resolve_append_cons_eq h h' (hmembers.others s hs) b

theorem childRemoved (h : t.resolve a = .ok old) (h' : t'.resolve a = .ok new) {i : Nat}
    (hi : i < old.members.length) (hmembers : old.WithMembers new (old.members.eraseIdx i)) :
    t.ChildRemoved t' a old new i where
  own := hmembers.own
  before j hj b :=
    resolve_append_cons_eq h h'
      (hmembers.step_place_eq (Nat.lt_trans hj hi) (List.getElem?_eraseIdx_of_lt hj)) b
  after j hj b x := by
    rw [← hmembers.place, resolve_place_eq_ok_iff h', hmembers.place, resolve_place_eq_ok_iff h,
      hmembers.members, List.getElem?_eraseIdx_of_ge hj]
  others s hs b := resolve_append_cons_eq h h' (hmembers.others s hs) b

theorem attributeEdited {action : Action} {edit : PropertyList.Edit} (h : t.resolve a = .ok old)
    (h' : t'.resolve a = .ok new) (hdone : action.Done old new)
    (hedit : action.attributeEdit? = some edit) :
    t.AttributeEdited t' a old new edit.name edit.value? := by
  have hedited := hdone.attributeEdited hedit
  refine ⟨hedited, fun s b => resolve_append_cons_eq h h' ?_ b⟩
  obtain ⟨e, l, rfl, rfl, -⟩ := hedited
  cases s <;> rfl

theorem declarationEdited {action : Action} {edit : PropertyList.Edit} (h : t.resolve a = .ok old)
    (h' : t'.resolve a = .ok new) (hdone : action.Done old new)
    (hedit : action.declarationEdit? = some edit) :
    t.DeclarationEdited t' a old new edit.name edit.value? := by
  have hedited := hdone.declarationEdited hedit
  refine ⟨hedited, fun s hs b => resolve_append_cons_eq h h' ?_ b⟩
  obtain ⟨r, ds, es, rfl, hds, rfl, -⟩ := hedited
  cases s with
  | declaration j => exact absurd rfl (hs j)
  | child | shadow | rule => cases r <;> rfl

theorem framedInside {action : Action} (h : t.resolve a = .ok old) (h' : t'.resolve a = .ok new)
    (hdone : action.Done old new) : t.FramedInside t' a old new action := by
  cases action with
  | setText value recorded =>
    cases hdone with
    | setText => exact ⟨rfl, fun s b => resolve_append_cons_eq h h' (by cases s <;> rfl) b⟩
    | attributes hedit => cases hedit
    | declarations _ hedit => cases hedit
  | insertChild i child clone => exact childInserted h h' hdone.insertChild.1 hdone.insertChild.2
  | removeChild i => exact childRemoved h h' hdone.removeChild.1 hdone.removeChild.2
  | setAttribute | insertAttribute | removeAttribute => exact attributeEdited h h' hdone rfl
  | setProperty i name value recorded =>
    cases recorded <;> exact declarationEdited h h' hdone rfl
  | removeProperty => exact declarationEdited h h' hdone rfl

variable {m : Mutation}

/-- A mutation that is carried out leaves alone what it is not about. -/
theorem framed_of_patch (h : t.patch m = .ok t') : t.Framed m t' := by
  obtain ⟨old, new, hresolve, hdone, hput, hmodules⟩ := patch_eq_ok_iff.mp h
  have hfits : old.Fits new := (Item.sameHead_onItem hdone.onItem_eq).fits
  have hreplaced := replaced_of_putAt hresolve hfits hput hmodules
  exact ⟨hreplaced.elsewhere, hreplaced.onTheWay, old, new, hresolve, hreplaced.here,
    framedInside hresolve hreplaced.here hdone⟩

/-- A mutation leaves the tag of the root and the modules. -/
theorem root_of_patch (h : t.patch m = .ok t') :
    t'.root.tag = t.root.tag ∧ t'.modules = t.modules := by
  obtain ⟨old, new, hresolve, hdone, hput, hmodules⟩ := patch_eq_ok_iff.mp h
  have hhead : old.SameHead new := Item.sameHead_onItem hdone.onItem_eq
  have hroot := Item.sameHead_putAt hhead (resolve_eq_ok_iff.mp hresolve)
  rw [hput] at hroot
  cases hroot with
  | element htag => exact ⟨htag.symm, hmodules⟩

/-- So does a list of mutations. -/
theorem root_of_patchAll {ms : List Mutation} (h : t.patchAll ms = .ok t') :
    t'.root.tag = t.root.tag ∧ t'.modules = t.modules := by
  induction ms generalizing t with
  | nil =>
    cases h
    exact ⟨rfl, rfl⟩
  | cons m ms ih =>
    rw [patchAll_cons] at h
    cases hpatch : t.patch m with
    | error e =>
      rw [hpatch] at h
      cases h
    | ok u =>
      rw [hpatch] at h
      obtain ⟨htag, hmodules⟩ := root_of_patch hpatch
      obtain ⟨htag', hmodules'⟩ := ih h
      exact ⟨htag'.trans htag, hmodules'.trans hmodules⟩

/-- A mutation changes what its action is about and leaves everything else alone, and no list of
mutations touches the tag of the root or the modules. -/
theorem patch_framed (t : Tree) : (∀ m t', t.patch m = .ok t' → t.Framed m t') ∧
    ∀ ms t', t.patchAll ms = .ok t' → t'.root.tag = t.root.tag ∧ t'.modules = t.modules :=
  ⟨fun _ _ => framed_of_patch, fun _ _ => root_of_patchAll⟩

/-- A text is put in before the one of a paragraph, which has another text next to it. -/
theorem patch_framed_paragraph :
    let page (texts : List Node) : Tree := .document [.element ⟨"p", ∅, texts, none⟩, .text "b"]
    let t := page [.text "a"]
    let t' := page [.text "c", .text "a"]
    let m : Mutation := ⟨[.child 0], .insertChild 0 (.node (.text "c")) false⟩
    t.patch m = .ok t' ∧ t.Framed m t' ∧ t'.resolve [.child 1] = t.resolve [.child 1] ∧
      t.patchAll [m] = .ok t' ∧ t'.root.tag = t.root.tag ∧ t'.modules = t.modules := by
  intro page t t' m
  obtain ⟨hpatch, hall⟩ := t.patch_framed
  have hframed : t.Framed m t' := hpatch m t' rfl
  refine ⟨rfl, hframed, hframed.elsewhere [.child 1] ⟨?_, ?_⟩, rfl, hall [m] t' rfl⟩ <;>
    simp [m]

end Tree

end SynthDom
