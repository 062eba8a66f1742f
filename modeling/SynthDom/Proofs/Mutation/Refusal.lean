import SynthDom.Proofs.Address.PutAt
import SynthDom.Proofs.Mutation.Act

/-!
# When a mutation applies

A mutation applies if its target leads to an item of the kind its action is for, and the index or name
of the action fits that item.  Of what can be amiss, that the target leads nowhere comes before the
kind, and the kind before the index or name, so that each refusal has one cause.  All of this is read
off the document as it is, although patching finds it out while it writes.

* `Expected.Admits`: the items of the kind that an action is for.
* `Action.Applies`, `Action.Refused`: what an action needs of an item, and the faults of those that do
  not have it.
* `Action.Done`: what an action makes of an item.
* `Item.act_of_descend_ok`, `Item.act_of_descend_error`: an action at an address is the action on the
  item there.
* `Tree.patch_iff`: when a mutation is carried out, and what the error is when it is not.
-/

namespace SynthDom

/-! ## What an action needs -/

/-- The items of the kind that an action may ask for. -/
def Expected.Admits : Expected → Item → Prop
  | .text, .text _ => True
  | .element, .element _ => True
  | .ruleList, .stylesheet _ => True
  | .ruleList, .rule (.condition ..) => True
  | .container, .element _ => True
  | .container, .stylesheet _ => True
  | .container, .rule (.condition ..) => True
  | .declarations, .rule (.style ..) => True
  | .declarations, .rule (.keyframeStep ..) => True
  | _, _ => False

namespace Action

/-- An item is of the kind that an action is for, and the index or name of the action fits it.  A new
attribute may be given any index. -/
def Applies : Action → Item → Prop
  | .setText .., .text _ => True
  | .insertChild i (.node _) _, .element e => i ≤ e.children.length
  | .insertChild i (.rule _) _, .stylesheet s => i ≤ s.rules.length
  | .insertChild i (.rule _) _, .rule (.condition _ _ rules) => i ≤ rules.length
  | .removeChild i, .element e => i < e.children.length
  | .removeChild i, .stylesheet s => i < s.rules.length
  | .removeChild i, .rule (.condition _ _ rules) => i < rules.length
  | .setAttribute name .., .element e => name ∈ e.attributes.names
  | .insertAttribute _ name _, .element e => name ∉ e.attributes.names
  | .removeAttribute name _, .element e => name ∈ e.attributes.names
  | .setProperty _ name _ (some _), .rule r => ∃ ds, r.declarations? = some ds ∧ name ∈ ds.names
  | .setProperty _ name _ none, .rule r => ∃ ds, r.declarations? = some ds ∧ name ∉ ds.names
  | .removeProperty name _, .rule r => ∃ ds, r.declarations? = some ds ∧ name ∈ ds.names
  | _, _ => False

/-- The fault of an action on an item that it does not apply to. -/
inductive Refused : Action → Item → ActionFault → Prop
  /-- The item is of another kind, whatever the index or name. -/
  | shape {a : Action} {it : Item} :
      ¬a.expected.Admits it → Refused a it (.shape a.expected it.kind)
  | insertNode {i : Nat} {n : Node} {clone : Bool} {e : Element} : e.children.length < i →
      Refused (.insertChild i (.node n) clone) (.element e)
        (.reason (.childOutOfRange i e.children.length))
  | insertRule {i : Nat} {r : Rule} {clone : Bool} {s : Stylesheet} : s.rules.length < i →
      Refused (.insertChild i (.rule r) clone) (.stylesheet s)
        (.reason (.ruleOutOfRange i s.rules.length))
  | insertNested {i : Nat} {r : Rule} {clone : Bool} {k : ConditionKind} {c : String}
      {rules : List Rule} : rules.length < i →
      Refused (.insertChild i (.rule r) clone) (.rule (.condition k c rules))
        (.reason (.ruleOutOfRange i rules.length))
  | removeNode {i : Nat} {e : Element} : e.children.length ≤ i →
      Refused (.removeChild i) (.element e) (.reason (.childOutOfRange i e.children.length))
  | removeRule {i : Nat} {s : Stylesheet} : s.rules.length ≤ i →
      Refused (.removeChild i) (.stylesheet s) (.reason (.ruleOutOfRange i s.rules.length))
  | removeNested {i : Nat} {k : ConditionKind} {c : String} {rules : List Rule} :
      rules.length ≤ i → Refused (.removeChild i) (.rule (.condition k c rules))
        (.reason (.ruleOutOfRange i rules.length))
  | setAttribute {name new : String} {old : Option String} {e : Element} :
      name ∉ e.attributes.names →
      Refused (.setAttribute name new old) (.element e) (.reason (.nameNotFound .attribute name))
  | insertAttribute {i : Nat} {name new : String} {e : Element} : name ∈ e.attributes.names →
      Refused (.insertAttribute i name new) (.element e) (.reason (.nameExists .attribute name))
  | removeAttribute {name : String} {old : Option String} {e : Element} :
      name ∉ e.attributes.names →
      Refused (.removeAttribute name old) (.element e) (.reason (.nameNotFound .attribute name))
  | changeProperty {i : Nat} {name new old : String} {r : Rule} {ds : PropertyList} :
      r.declarations? = some ds → name ∉ ds.names →
      Refused (.setProperty i name new (some old)) (.rule r)
        (.reason (.nameNotFound .declaration name))
  | insertProperty {i : Nat} {name new : String} {r : Rule} {ds : PropertyList} :
      r.declarations? = some ds → name ∈ ds.names →
      Refused (.setProperty i name new none) (.rule r) (.reason (.nameExists .declaration name))
  | removeProperty {name : String} {old : Option String} {r : Rule} {ds : PropertyList} :
      r.declarations? = some ds → name ∉ ds.names →
      Refused (.removeProperty name old) (.rule r) (.reason (.nameNotFound .declaration name))

/-- What an action makes of an item. -/
inductive Done : Action → Item → Item → Prop
  | setText {new v : String} {old : Option String} : Done (.setText new old) (.text v) (.text new)
  | insertNode {i : Nat} {n : Node} {clone : Bool} {e : Element} : i ≤ e.children.length →
      Done (.insertChild i (.node n) clone) (.element e)
        (.element { e with children := e.children.take i ++ n :: e.children.drop i })
  | insertRule {i : Nat} {r : Rule} {clone : Bool} {s : Stylesheet} : i ≤ s.rules.length →
      Done (.insertChild i (.rule r) clone) (.stylesheet s)
        (.stylesheet ⟨s.rules.take i ++ r :: s.rules.drop i⟩)
  | insertNested {i : Nat} {r : Rule} {clone : Bool} {k : ConditionKind} {c : String}
      {rules : List Rule} : i ≤ rules.length →
      Done (.insertChild i (.rule r) clone) (.rule (.condition k c rules))
        (.rule (.condition k c (rules.take i ++ r :: rules.drop i)))
  | removeNode {i : Nat} {e : Element} : i < e.children.length →
      Done (.removeChild i) (.element e) (.element { e with children := e.children.eraseIdx i })
  | removeRule {i : Nat} {s : Stylesheet} : i < s.rules.length →
      Done (.removeChild i) (.stylesheet s) (.stylesheet ⟨s.rules.eraseIdx i⟩)
  | removeNested {i : Nat} {k : ConditionKind} {c : String} {rules : List Rule} :
      i < rules.length → Done (.removeChild i) (.rule (.condition k c rules))
        (.rule (.condition k c (rules.eraseIdx i)))
  /-- The attributes are edited. -/
  | attributes {a : Action} {e : Element} {edit : PropertyList.Edit} {l : PropertyList} :
      a.attributeEdit? = some edit → e.attributes.edit edit = .ok l →
      Done a (.element e) (.element { e with attributes := l })
  /-- The declarations of a style rule or keyframe step are edited. -/
  | declarations {a : Action} {r : Rule} {edit : PropertyList.Edit} {ds es : PropertyList} :
      r.declarations? = some ds → a.declarationEdit? = some edit → ds.edit edit = .ok es →
      Done a (.rule r) (.rule (r.withDeclarations es))

end Action

/-! ## Lists -/

section Lists

variable {α : Type} {outOfRange : Nat → Nat → Reason} {l m : List α} {i : Nat} {x : α}

theorem insertItem_eq_ok_iff : insertItem outOfRange l i x = .ok m ↔
    i ≤ l.length ∧ l.take i ++ x :: l.drop i = m := by
  unfold insertItem
  split <;> simp [*]

theorem insertItem_of_lt (h : l.length < i) :
    insertItem outOfRange l i x = .error (.reason (outOfRange i l.length)) :=
  if_neg (Nat.not_le.mpr h)

theorem removeItem_eq_ok_iff : removeItem outOfRange l i = .ok m ↔
    i < l.length ∧ l.eraseIdx i = m := by
  unfold removeItem
  split <;> simp [*]

theorem removeItem_of_le (h : l.length ≤ i) :
    removeItem outOfRange l i = .error (.reason (outOfRange i l.length)) :=
  if_neg (Nat.not_lt.mpr h)

end Lists

section Entries

variable {what : EntryKind} {l m : PropertyList} {edit : PropertyList.Edit}

/-- The step can be taken: a name to be removed or overwritten is there, one to be inserted is not. -/
def PropertyList.Edit.Valid (l : PropertyList) : PropertyList.Edit → Prop
  | .remove name => name ∈ l.names
  | .overwrite name _ => name ∈ l.names
  | .insert _ name _ => name ∉ l.names

/-- The reason why a step cannot be taken. -/
def PropertyList.Edit.reason (what : EntryKind) : PropertyList.Edit → Reason
  | .remove name => .nameNotFound what name
  | .overwrite name _ => .nameNotFound what name
  | .insert _ name _ => .nameExists what name

theorem editEntries_eq_ok_iff : editEntries what l edit = .ok m ↔ l.edit edit = .ok m := by
  unfold editEntries
  split <;> simp [*]

/-- What a step makes of a list. -/
def PropertyList.Edit.outcome (l : PropertyList) : PropertyList.Edit → PropertyList
  | .remove name => l.remove name
  | .overwrite name value => l.overwrite name value
  | .insert index name value => l.insertAt index name value

theorem PropertyList.edit_eq_ok_iff : l.edit edit = .ok m ↔ edit.Valid l ∧ edit.outcome l = m := by
  cases edit with
  | remove name | overwrite name value =>
    rw [PropertyList.edit, Edit.Valid, Edit.outcome, ← contains_iff]
    split <;> simp [*]
  | insert index name value =>
    rw [PropertyList.edit, Edit.Valid, Edit.outcome, ← contains_iff]
    split <;> simp [*]

theorem PropertyList.Edit.Valid.edit_eq (h : edit.Valid l) : ∃ m, l.edit edit = .ok m :=
  ⟨edit.outcome l, PropertyList.edit_eq_ok_iff.mpr ⟨h, rfl⟩⟩

theorem editEntries_of_not_valid (h : ¬edit.Valid l) :
    editEntries what l edit = .error (.reason (edit.reason what)) := by
  rw [editEntries]
  cases edit with
  | remove name => rw [PropertyList.edit, if_neg (mt PropertyList.contains_iff.mp h)]; rfl
  | overwrite name value => rw [PropertyList.edit, if_neg (mt PropertyList.contains_iff.mp h)]; rfl
  | insert i name value =>
    rw [PropertyList.edit, if_pos (PropertyList.contains_iff.mpr (Classical.not_not.mp h))]
    rfl

end Entries

/-! ## An action on an item -/

namespace Action

variable {a : Action} {it it' : Item} {f : ActionFault}

/-- What an action does to the attributes of an element. -/
theorem onItem_attributes {e : Element} {edit : PropertyList.Edit}
    (hedit : a.attributeEdit? = some edit) :
    a.onItem (.element e) = (editEntries .attribute e.attributes edit).map fun l =>
      .element { e with attributes := l } := by
  cases a with
  | setAttribute | insertAttribute | removeAttribute =>
    cases hedit
    simp only [onItem, onElement, attributeEdit?]
    cases editEntries .attribute e.attributes _ <;> rfl
  | setText | insertChild | removeChild | setProperty | removeProperty => cases hedit

/-- What an action does to the declarations of a rule that has some. -/
theorem onItem_declarations {r : Rule} {ds : PropertyList} {edit : PropertyList.Edit}
    (hds : r.declarations? = some ds) (hedit : a.declarationEdit? = some edit) :
    a.onItem (.rule r) = (editEntries .declaration ds edit).map fun es =>
      .rule (r.withDeclarations es) := by
  cases r with
  | style | keyframeStep =>
    cases hds
    simp only [onItem, onRule, onDeclarations, hedit]
    cases editEntries .declaration ds edit <;> rfl
  | condition => cases hds

theorem onItem_attributes_of_not_valid {e : Element} (edit : PropertyList.Edit)
    (hedit : a.attributeEdit? = some edit) (h : ¬edit.Valid e.attributes) :
    a.onItem (.element e) = .error (.reason (edit.reason .attribute)) := by
  rw [onItem_attributes hedit, editEntries_of_not_valid h]
  rfl

theorem onItem_declarations_of_not_valid {r : Rule} {ds : PropertyList} (edit : PropertyList.Edit)
    (hds : r.declarations? = some ds) (hedit : a.declarationEdit? = some edit)
    (h : ¬edit.Valid ds) :
    a.onItem (.rule r) = .error (.reason (edit.reason .declaration)) := by
  rw [onItem_declarations hds hedit, editEntries_of_not_valid h]
  rfl

/-- An item of another kind is refused for its kind. -/
theorem onItem_of_not_admits (h : ¬a.expected.Admits it) :
    a.onItem it = .error (.shape a.expected it.kind) := by
  rcases a with _ | ⟨_, _ | _, _⟩ | _ | _ | _ | _ | ⟨_, _, _, _ | _⟩ | _ <;>
    rcases it with _ | _ | _ | (_ | _ | _) | _ <;> first | rfl | exact absurd trivial h

/-- What is done is what the action comes to. -/
theorem Done.onItem_eq (h : a.Done it it') : a.onItem it = .ok it' := by
  cases h with
  | setText => rfl
  | insertNode h => simp only [onItem, onElement, insertItem_eq_ok_iff.mpr ⟨h, rfl⟩, Except.map]
  | insertRule h | insertNested h =>
    simp only [onItem, onRule, onRules, insertItem_eq_ok_iff.mpr ⟨h, rfl⟩, Except.map]
  | removeNode h => simp only [onItem, onElement, removeItem_eq_ok_iff.mpr ⟨h, rfl⟩, Except.map]
  | removeRule h | removeNested h =>
    simp only [onItem, onRule, onRules, removeItem_eq_ok_iff.mpr ⟨h, rfl⟩, Except.map]
  | attributes hedit h =>
    rw [onItem_attributes hedit, editEntries_eq_ok_iff.mpr h]
    rfl
  | declarations hds hedit h =>
    rw [onItem_declarations hds hedit, editEntries_eq_ok_iff.mpr h]
    rfl

/-- A fault is what the action comes to. -/
theorem Refused.onItem_eq (h : a.Refused it f) : a.onItem it = .error f := by
  cases h with
  | shape h => exact onItem_of_not_admits h
  | insertNode h => simp only [onItem, onElement, insertItem_of_lt h, Except.map]
  | insertRule h | insertNested h =>
    simp only [onItem, onRule, onRules, insertItem_of_lt h, Except.map]
  | removeNode h => simp only [onItem, onElement, removeItem_of_le h, Except.map]
  | removeRule h | removeNested h =>
    simp only [onItem, onRule, onRules, removeItem_of_le h, Except.map]
  | setAttribute h => exact onItem_attributes_of_not_valid (.overwrite _ _) rfl h
  | insertAttribute h =>
    exact onItem_attributes_of_not_valid (.insert _ _ _) rfl (not_not_intro h)
  | removeAttribute h => exact onItem_attributes_of_not_valid (.remove _) rfl h
  | changeProperty hds h => exact onItem_declarations_of_not_valid (.overwrite _ _) hds rfl h
  | insertProperty hds h =>
    exact onItem_declarations_of_not_valid (.insert _ _ _) hds rfl (not_not_intro h)
  | removeProperty hds h => exact onItem_declarations_of_not_valid (.remove _) hds rfl h

/-- An action that applies to an item makes something of it. -/
theorem Applies.done (h : a.Applies it) : ∃ it', a.Done it it' := by
  have hattributes {e : Element} {edit : PropertyList.Edit} (hedit : a.attributeEdit? = some edit)
      (h : edit.Valid e.attributes) : ∃ it', a.Done (.element e) it' := by
    obtain ⟨l, hl⟩ := h.edit_eq
    exact ⟨_, .attributes hedit hl⟩
  have hdeclarations {r : Rule} {ds : PropertyList} {edit : PropertyList.Edit}
      (hds : r.declarations? = some ds) (hedit : a.declarationEdit? = some edit)
      (h : edit.Valid ds) : ∃ it', a.Done (.rule r) it' := by
    obtain ⟨es, hes⟩ := h.edit_eq
    exact ⟨_, .declarations hds hedit hes⟩
  unfold Applies at h
  split at h
  · exact ⟨_, .setText⟩
  · exact ⟨_, .insertNode h⟩
  · exact ⟨_, .insertRule h⟩
  · exact ⟨_, .insertNested h⟩
  · exact ⟨_, .removeNode h⟩
  · exact ⟨_, .removeRule h⟩
  · exact ⟨_, .removeNested h⟩
  · exact hattributes rfl h
  · exact hattributes rfl h
  · exact hattributes rfl h
  · obtain ⟨ds, hds, h⟩ := h
    exact hdeclarations hds rfl h
  · obtain ⟨ds, hds, h⟩ := h
    exact hdeclarations hds rfl h
  · obtain ⟨ds, hds, h⟩ := h
    exact hdeclarations hds rfl h
  · exact h.elim

/-- The rules that hold declarations are the targets for actions on declarations. -/
theorem declarations_of_admits {it : Item} (h : Expected.declarations.Admits it) :
    ∃ r ds, it = .rule r ∧ r.declarations? = some ds := by
  cases it with
  | rule r =>
    cases r with
    | style | keyframeStep => exact ⟨_, _, rfl, rfl⟩
    | condition => exact h.elim
  | element | text | stylesheet | declaration => exact h.elim

theorem element_of_admits {it : Item} (h : Expected.element.Admits it) : ∃ e, it = .element e := by
  cases it with
  | element e => exact ⟨e, rfl⟩
  | text | stylesheet | rule | declaration => exact h.elim

/-- An action applies to an item or has a fault. -/
theorem applies_or_refused (a : Action) (it : Item) : a.Applies it ∨ ∃ f, a.Refused it f := by
  by_cases hadmits : a.expected.Admits it
  · cases a with
    | setText =>
      cases it with
      | text => exact .inl trivial
      | _ => exact hadmits.elim
    | insertChild i child clone =>
      cases child with
      | node n =>
        obtain ⟨e, rfl⟩ := element_of_admits hadmits
        exact (Nat.lt_or_ge _ i).symm.imp id fun h => ⟨_, .insertNode h⟩
      | rule r =>
        cases it with
        | stylesheet s => exact (Nat.lt_or_ge _ i).symm.imp id fun h => ⟨_, .insertRule h⟩
        | rule r =>
          cases r with
          | condition k c rules =>
            exact (Nat.lt_or_ge _ i).symm.imp id fun h => ⟨_, .insertNested h⟩
          | _ => exact hadmits.elim
        | _ => exact hadmits.elim
    | removeChild i =>
      cases it with
      | element e => exact (Nat.lt_or_ge i _).imp id fun h => ⟨_, .removeNode h⟩
      | stylesheet s => exact (Nat.lt_or_ge i _).imp id fun h => ⟨_, .removeRule h⟩
      | rule r =>
        cases r with
        | condition k c rules => exact (Nat.lt_or_ge i _).imp id fun h => ⟨_, .removeNested h⟩
        | _ => exact hadmits.elim
      | _ => exact hadmits.elim
    | setAttribute name =>
      obtain ⟨e, rfl⟩ := element_of_admits hadmits
      exact (Classical.em (name ∈ e.attributes.names)).imp id fun h => ⟨_, .setAttribute h⟩
    | insertAttribute i name =>
      obtain ⟨e, rfl⟩ := element_of_admits hadmits
      exact (Classical.em (name ∈ e.attributes.names)).symm.imp id fun h => ⟨_, .insertAttribute h⟩
    | removeAttribute name =>
      obtain ⟨e, rfl⟩ := element_of_admits hadmits
      exact (Classical.em (name ∈ e.attributes.names)).imp id fun h => ⟨_, .removeAttribute h⟩
    | setProperty i name new old =>
      obtain ⟨r, ds, rfl, hds⟩ := declarations_of_admits hadmits
      cases old with
      | none =>
        exact (Classical.em (name ∈ ds.names)).symm.imp (fun h => ⟨ds, hds, h⟩) fun h =>
          ⟨_, .insertProperty hds h⟩
      | some old =>
        exact (Classical.em (name ∈ ds.names)).imp (fun h => ⟨ds, hds, h⟩) fun h =>
          ⟨_, .changeProperty hds h⟩
    | removeProperty name =>
      obtain ⟨r, ds, rfl, hds⟩ := declarations_of_admits hadmits
      exact (Classical.em (name ∈ ds.names)).imp (fun h => ⟨ds, hds, h⟩) fun h =>
        ⟨_, .removeProperty hds h⟩
  · exact .inr ⟨_, .shape hadmits⟩

/-- An action is carried out on the items that it applies to. -/
theorem onItem_isOk_iff : (∃ it', a.onItem it = .ok it') ↔ a.Applies it := by
  constructor
  · rintro ⟨it', h⟩
    rcases a.applies_or_refused it with happlies | ⟨f, hf⟩
    · exact happlies
    · cases hf.onItem_eq.symm.trans h
  · intro h
    obtain ⟨it', hdone⟩ := h.done
    exact ⟨it', hdone.onItem_eq⟩

/-- An action comes to its fault on the items that it does not apply to. -/
theorem onItem_eq_error_iff : a.onItem it = .error f ↔ a.Refused it f := by
  refine ⟨fun h => ?_, Refused.onItem_eq⟩
  rcases a.applies_or_refused it with happlies | ⟨f', hf'⟩
  · obtain ⟨it', hdone⟩ := happlies.done
    cases hdone.onItem_eq.symm.trans h
  · cases hf'.onItem_eq.symm.trans h
    exact hf'

/-- What an action comes to on an item that it applies to is what it makes of it. -/
theorem done_of_onItem (h : a.onItem it = .ok it') : a.Done it it' := by
  obtain ⟨it'', hdone⟩ := (onItem_isOk_iff.mp ⟨it', h⟩).done
  cases hdone.onItem_eq.symm.trans h
  exact hdone

end Action

/-! ## An action at an address -/

namespace Item

variable {a : Action} {b : Address} {it sub : Item}

/-- An action at an address is the action, at the rest of the address, on the item that the first part
leads to, put in its place. -/
theorem act_append (h : it.descend b = .ok sub) (c : Address) :
    it.act a (b ++ c) = (sub.act a c).map (it.putAt b) := by
  induction b generalizing it with
  | nil =>
    cases h
    rw [List.nil_append]
    cases sub.act a c <;> rfl
  | cons s b ih =>
    obtain ⟨x, hs, hx⟩ := descend_cons_eq_ok_iff.mp h
    rw [List.cons_append, act_cons_ok hs, ih hx]
    cases sub.act a c with
    | error f => rfl
    | ok new => simp only [Except.map, putAt_cons hs]

/-- An action at an address is the action on the item there, put in its place. -/
theorem act_of_descend_ok (h : it.descend b = .ok sub) :
    it.act a b = (a.onItem sub).map (it.putAt b) := by
  have hact := act_append (a := a) h []
  rwa [List.append_nil, act_nil] at hact

/-- An action at an address that leads nowhere fails as the address does. -/
theorem act_of_descend_error {r : Reason} (h : it.descend b = .error r) :
    it.act a b = .error (.reason r) := by
  induction b generalizing it with
  | nil => cases h
  | cons s b ih =>
    rw [descend_cons] at h
    cases hs : it.step s with
    | error r' =>
      rw [hs] at h
      cases h
      exact act_cons_error hs
    | ok x =>
      rw [hs] at h
      rw [act_cons_ok hs, ih h]
      rfl

end Item

/-! ## Mutations of a document -/

namespace Tree

variable {t t' : Tree} {m : Mutation}

theorem resolve_eq_error_iff {a : Address} {e : AddressError} :
    t.resolve a = .error e ↔ ∃ r, (Item.element t.root).descend a = .error r ∧ e = ⟨a, r⟩ := by
  rw [resolve]
  constructor
  · intro h
    cases hr : (Item.element t.root).descend a with
    | ok x => rw [hr] at h; cases h
    | error r =>
      rw [hr] at h
      cases h
      exact ⟨r, rfl, rfl⟩
  · rintro ⟨r, hr, rfl⟩
    rw [hr]
    rfl

/-- A mutation that is carried out puts what its action makes of an item in the place of that item. -/
theorem patch_eq_ok_iff : t.patch m = .ok t' ↔ ∃ old new : Item, t.resolve m.target = .ok old ∧
    m.action.Done old new ∧ (Item.element t.root).putAt m.target new = .element t'.root ∧
    t'.modules = t.modules := by
  simp only [resolve_eq_ok_iff]
  constructor
  · intro h
    rcases t.act_root_cases m with ⟨root, hact⟩ | ⟨f, hact⟩
    · cases (patch_of_act_ok hact).symm.trans h
      cases hold : (Item.element t.root).descend m.target with
      | error r => cases (Item.act_of_descend_error hold).symm.trans hact
      | ok old =>
        obtain ⟨new, hnew, hput⟩ :=
          Except.map_eq_ok_iff.mp ((Item.act_of_descend_ok hold).symm.trans hact)
        exact ⟨old, new, rfl, Action.done_of_onItem hnew, hput, rfl⟩
    · cases (patch_of_act_error hact).symm.trans h
  · rintro ⟨old, new, hold, hdone, hput, hmodules⟩
    have hact : (Item.element t.root).act m.action m.target = .ok (.element t'.root) := by
      rw [Item.act_of_descend_ok hold, hdone.onItem_eq, ← hput]
      rfl
    rw [patch_of_act_ok hact, ← hmodules]

/-- A mutation whose action has a fault on the item that its target leads to is refused for it. -/
theorem patch_of_refused {it : Item} {f : ActionFault} (hit : t.resolve m.target = .ok it)
    (hf : m.action.Refused it f) : t.patch m = .error (f.at m.target) := by
  apply patch_of_act_error
  rw [Item.act_of_descend_ok (resolve_eq_ok_iff.mp hit), hf.onItem_eq]
  rfl

/-- A mutation whose target leads nowhere is refused with the error of the target. -/
theorem patch_of_resolve_error {e : AddressError} (h : t.resolve m.target = .error e) :
    t.patch m = .error (.address e) := by
  obtain ⟨r, hr, rfl⟩ := resolve_eq_error_iff.mp h
  exact patch_of_act_error (Item.act_of_descend_error hr)

/-- A mutation whose action applies to the item that its target leads to is carried out. -/
theorem patch_of_applies {it : Item} (hit : t.resolve m.target = .ok it)
    (h : m.action.Applies it) : ∃ t', t.patch m = .ok t' := by
  obtain ⟨new, hdone⟩ := h.done
  rcases t.act_root_cases m with ⟨root, hact⟩ | ⟨f, hact⟩
  · exact ⟨_, patch_of_act_ok hact⟩
  · rw [Item.act_of_descend_ok (resolve_eq_ok_iff.mp hit), hdone.onItem_eq] at hact
    cases hact

/-- A mutation that is refused is so for its target or for the fault of its action. -/
theorem refusal_of_patch_error {e : PatchError} (h : t.patch m = .error e) :
    (∃ e', t.resolve m.target = .error e' ∧ e = .address e') ∨
      ∃ it f, t.resolve m.target = .ok it ∧ m.action.Refused it f ∧ e = f.at m.target := by
  cases hit : t.resolve m.target with
  | error e' =>
    cases (patch_of_resolve_error hit).symm.trans h
    exact .inl ⟨e', rfl, rfl⟩
  | ok it =>
    rcases m.action.applies_or_refused it with happlies | ⟨f, hf⟩
    · obtain ⟨t', ht'⟩ := patch_of_applies hit happlies
      cases ht'.symm.trans h
    · cases (patch_of_refused hit hf).symm.trans h
      exact .inr ⟨it, f, rfl, hf, rfl⟩

/-- A mutation is carried out exactly if its target leads, in the document as it is, to an item that
its action applies to.  If not, the error is that of the target, which leads nowhere, or the fault that
the action has on the item there.  Every error carries the target. -/
theorem patch_iff (t : Tree) (m : Mutation) :
    ((∃ t', t.patch m = .ok t') ↔ ∃ it, t.resolve m.target = .ok it ∧ m.action.Applies it) ∧
    (∀ e, t.patch m = .error e ↔
      (∃ e', t.resolve m.target = .error e' ∧ e = .address e') ∨
        ∃ it f, t.resolve m.target = .ok it ∧ m.action.Refused it f ∧ e = f.at m.target) ∧
    ∀ e, t.patch m = .error e → e.target = m.target := by
  refine ⟨⟨?_, ?_⟩, fun e => ⟨refusal_of_patch_error, ?_⟩, fun e h => ?_⟩
  · rintro ⟨t', h⟩
    obtain ⟨old, new, hold, hdone, -, -⟩ := patch_eq_ok_iff.mp h
    exact ⟨old, hold, Action.onItem_isOk_iff.mp ⟨new, hdone.onItem_eq⟩⟩
  · rintro ⟨it, hit, happlies⟩
    exact patch_of_applies hit happlies
  · rintro (⟨e', he', rfl⟩ | ⟨it, f, hit, hf, rfl⟩)
    · exact patch_of_resolve_error he'
    · exact patch_of_refused hit hf
  · rcases refusal_of_patch_error h with ⟨e', he', rfl⟩ | ⟨it, f, -, -, rfl⟩
    · obtain ⟨r, -, rfl⟩ := resolve_eq_error_iff.mp he'
      rfl
    · cases f <;> rfl

/-- A child is to be removed from a text: that it is a text is what is amiss, not the index. -/
theorem patch_iff_text :
    let t : Tree := .document [.text "x"]
    let m : Mutation := ⟨[.child 0], .removeChild 3⟩
    let e : PatchError := .shape ⟨[.child 0], .container, .text⟩
    t.patch m = .error e ∧ e.target = m.target ∧ (¬∃ t', t.patch m = .ok t') ∧
      ∃ it f, t.resolve m.target = .ok it ∧ m.action.Refused it f ∧ e = f.at m.target := by
  intro t m e
  have herror : t.patch m = .error e := rfl
  obtain ⟨-, hrefused, htarget⟩ := patch_iff t m
  refine ⟨herror, htarget e herror, ?_, ((hrefused e).mp herror).resolve_left ?_⟩
  · rintro ⟨t', ht'⟩
    cases herror.symm.trans ht'
  · rintro ⟨e', he', -⟩
    cases he'

end Tree

end SynthDom
