import SynthDom.Proofs.Mutation.Congruence
import SynthDom.Proofs.Mutation.Refusal

/-!
# Mutations of a diff are exact

A mutation carries more than patching needs: old values, which patching does not look at, and indexes
of new entries, which it moves back into the list when they lie beyond its end.  In a diff nothing of
this is off.  Every mutation says of the document that it meets only what is so, every index lies
within its list, and no mutation leaves the document equal to what it was.

* `Action.Exact`: what an action says of the item it is for is so.
* `Mutation.Step.not_twin`: a step changes more than the order of entries.
* `Tree.exact_of_diff_eq`: both, for every mutation of a diff at the document it meets.
-/

namespace SynthDom

/-! ## What a mutation says -/

/-- The name is there, and has the old value that is recorded, if one is. -/
def PropertyList.Records (l : PropertyList) (name : String) (oldValue : Option String) : Prop :=
  name ∈ l.names ∧ ∀ old ∈ oldValue, l.get? name = some old

/-- The name is new, and the index lies within the list. -/
def PropertyList.HasRoom (l : PropertyList) (index : Nat) (name : String) : Prop :=
  name ∉ l.names ∧ index ≤ l.length

/-- What an action says of the item it is for is so. -/
def Action.Exact : Action → Item → Prop
  | .setText newValue oldValue, .text value => ∀ old ∈ oldValue, old = value ∧ old ≠ newValue
  | .insertChild index (.node _) _, .element e => index ≤ e.children.length
  | .insertChild index (.rule _) _, .stylesheet s => index ≤ s.rules.length
  | .insertChild index (.rule _) _, .rule (.condition _ _ rules) => index ≤ rules.length
  | .removeChild index, .element e => index < e.children.length
  | .removeChild index, .stylesheet s => index < s.rules.length
  | .removeChild index, .rule (.condition _ _ rules) => index < rules.length
  | .setAttribute name newValue oldValue, .element e =>
    e.attributes.Records name oldValue ∧ oldValue ≠ some newValue
  | .insertAttribute index name _, .element e => e.attributes.HasRoom index name
  | .removeAttribute name oldValue, .element e => e.attributes.Records name oldValue
  | .setProperty index name newValue oldValue, .rule r => ∃ ds, r.declarations? = some ds ∧
    if oldValue.isSome then ds.Records name oldValue ∧ oldValue ≠ some newValue
    else ds.HasRoom index name
  | .removeProperty name oldValue, .rule r => ∃ ds, r.declarations? = some ds ∧
    ds.Records name oldValue
  | _, _ => False

namespace PropertyList

variable {l : PropertyList} {name value : String}

theorem records_of_get? (h : l.get? name = some value) : l.Records name (some value) := by
  constructor
  · exact mem_names_of_get? h
  · rintro _ ⟨⟩
    exact h

end PropertyList

/-- What fits an item is exact for it. -/
theorem Action.Apt.exact {a : Action} {it : Item} (h : a.Apt it) : a.Exact it := by
  rcases h with hne | @⟨c, e, hc⟩ | @⟨c, r, ds, hds, hc⟩ | ⟨_, hi⟩ | ⟨_, hi⟩ | ⟨_, hi⟩ | hi | hi | hi
  · rintro _ ⟨⟩
    exact ⟨rfl, hne⟩
  · cases c with
    | removed name old => exact PropertyList.records_of_get? hc
    | changed name index new old =>
      exact ⟨PropertyList.records_of_get? hc.1, fun h => hc.2 (Option.some.inj h)⟩
    | inserted name index new => exact hc
  · cases c with
    | removed name old => exact ⟨ds, hds, PropertyList.records_of_get? hc⟩
    | changed name index new old =>
      exact ⟨ds, hds, PropertyList.records_of_get? hc.1, fun h => hc.2 (Option.some.inj h)⟩
    | inserted name index new => exact ⟨ds, hds, hc⟩
  all_goals exact hi

/-! ## Nothing is done in vain -/

/-- A change that fits a list makes another list of it, whatever the order. -/
theorem PropertyList.Change.Step.not_alike {c : Change} {l m : PropertyList} (h : c.Step l m) :
    ¬l.Alike m := by
  intro halike
  obtain ⟨hapt, hedit⟩ := h
  cases c with
  | removed name old =>
    obtain rfl := Except.ok.inj ((Change.step_removed hapt).2.symm.trans hedit)
    have hread := halike.get?_eq name
    rw [get?_remove, if_pos rfl] at hread
    exact absurd (hapt.symm.trans hread) nofun
  | changed name index new old =>
    obtain ⟨hget, hne⟩ := hapt
    have hstep : Change.Step (.changed name index new old) l (l.overwrite name new) :=
      Change.step_changed hget hne
    obtain rfl := Except.ok.inj (hstep.2.symm.trans hedit)
    have hread := halike.get?_eq name
    rw [get?_overwrite, if_pos ⟨rfl, mem_names_of_get? hget⟩] at hread
    exact hne (Option.some.inj (hget.symm.trans hread))
  | inserted name index new =>
    obtain ⟨hnew, hindex⟩ := hapt
    obtain rfl := Except.ok.inj ((Change.step_inserted hnew hindex).2.symm.trans hedit)
    have hplaced : name ∈ (l.place index name new hnew).names :=
      mem_names_iff.mpr ⟨new, mem_entries_place.mpr (.inl rfl)⟩
    exact hnew (halike.mem_names_iff.mpr hplaced)

/-- A rule with declarations is a block around them. -/
theorem Rule.block_of_declarations? {r : Rule} {ds : PropertyList} (h : r.declarations? = some ds) :
    ∃ own, Rule.Block own ∧ r = own ds := by
  cases r with
  | style selector =>
    cases h
    exact ⟨_, .style selector, rfl⟩
  | keyframeStep offset =>
    cases h
    exact ⟨_, .keyframeStep offset, rfl⟩
  | condition => cases h

/-- The number of children of an element, or of rules of a stylesheet or condition rule. -/
def Item.size : Item → Nat
  | .element e => e.children.length
  | .stylesheet s => s.rules.length
  | .rule (.condition _ _ rules) => rules.length
  | _ => 0

theorem Item.Twin.size_eq {it jt : Item} (h : it.Twin jt) : it.size = jt.size := by
  cases h with
  | element h => exact h.children.length_eq
  | text => rfl
  | stylesheet h => exact h.length_eq
  | rule h =>
    cases h with
    | style | keyframeStep => rfl
    | condition h => exact h.length_eq

namespace Action

variable {a : Action} {it it' : Item}

/-- An insertion adds one to the children or rules. -/
theorem size_of_insertChild {i : Nat} {p : Payload} {clone : Bool}
    (h : (insertChild i p clone).onItem it = .ok it') : it'.size = it.size + 1 := by
  cases done_of_onItem h with
  | insertNode hi | insertRule hi | insertNested hi =>
    simp only [Item.size, List.length_append, List.length_cons, List.length_take, List.length_drop]
    omega
  | attributes hedit => cases hedit
  | declarations _ hedit => cases hedit

/-- A removal takes one from the children or rules. -/
theorem size_of_removeChild {i : Nat} (h : (removeChild i).onItem it = .ok it') :
    it'.size + 1 = it.size := by
  cases done_of_onItem h with
  | removeNode hi | removeRule hi | removeNested hi =>
    simp only [Item.size, List.length_eraseIdx_of_lt hi]
    omega
  | attributes hedit => cases hedit
  | declarations _ hedit => cases hedit

/-- An action that fits an item changes more than the order of entries in it. -/
theorem Apt.not_twin (h : a.Apt it) (hact : a.onItem it = .ok it') : ¬it.Twin it' := by
  intro htwin
  have hsize := htwin.size_eq
  rcases h with hne | @⟨c, e, hc⟩ | @⟨c, r, ds, hds, hc⟩ | _ | _ | _ | _ | _ | _
  · cases hact
    cases htwin
    exact hne rfl
  · rw [onItem, onElement_attributeAction] at hact
    obtain ⟨_, hf, rfl⟩ := Except.map_eq_ok_iff.mp hact
    obtain ⟨attributes, hedit, rfl⟩ := Except.map_eq_ok_iff.mp hf
    have hchange := PropertyList.Change.Step.not_alike ⟨hc, editEntries_eq_ok_iff.mp hedit⟩
    cases htwin with
    | element hsame => exact hchange hsame.attributes
  · obtain ⟨own, hown, rfl⟩ := Rule.block_of_declarations? hds
    rw [onItem, hown.onRule, onDeclarations_declarationAction] at hact
    obtain ⟨_, hf, rfl⟩ := Except.map_eq_ok_iff.mp hact
    obtain ⟨es, hedit, rfl⟩ := Except.map_eq_ok_iff.mp hf
    have hchange := PropertyList.Change.Step.not_alike ⟨hc, editEntries_eq_ok_iff.mp hedit⟩
    cases hown <;> cases htwin with
    | rule halike =>
      cases halike
      exact hchange ‹_›
  iterate 3
    · have hlonger := size_of_insertChild hact
      omega
  all_goals
    have hshorter := size_of_removeChild hact
    omega

end Action

/-- Nothing is done to a declaration. -/
theorem Mutation.Step.not_declaration {m : Mutation} {name value : String} {it' : Item}
    (h : m.Step (.declaration name value) it') : False := by
  obtain ⟨f, hf⟩ := Item.act_declaration m.action m.target
  exact absurd (h.2.symm.trans (hf name value)) nofun

/-- A step at an address is a step of the part that the first segment leads to. -/
theorem Mutation.step_cons {s : Segment} {b : Address} {a : Action} {it it' : Item}
    (h : Step ⟨s :: b, a⟩ it it') :
    ∃ x x', it.step s = .ok x ∧ Step ⟨b, a⟩ x x' ∧ it.put s x' = it' := by
  obtain ⟨⟨sub, htarget, hapt⟩, hact⟩ := h
  cases hs : it.step s with
  | error r =>
    simp only [Item.descend_cons, hs] at htarget
    cases htarget
  | ok x =>
    simp only [Item.descend_cons, hs] at htarget
    obtain ⟨x', hpart, hput⟩ := Except.map_eq_ok_iff.mp ((Item.act_cons_ok hs).symm.trans hact)
    exact ⟨x, x', rfl, ⟨⟨sub, htarget, hapt⟩, hpart⟩, hput⟩

/-- A step changes more than the order of entries in the item it starts from. -/
theorem Mutation.Step.not_twin {m : Mutation} {it it' : Item} (h : m.Step it it') : ¬it.Twin it' := by
  obtain ⟨target, action⟩ := m
  induction target generalizing it it' with
  | nil =>
    obtain ⟨⟨_, ⟨⟩, hapt⟩, hact⟩ := h
    exact hapt.not_twin hact
  | cons s b ih =>
    obtain ⟨x, x', hs, hpart, rfl⟩ := Mutation.step_cons h
    have hs' : (it.put s x').step s = .ok x' := Item.step_put hs hpart.fits
    intro htwin
    -- twins take the step to twins, so the part would be a twin of what it has become
    cases Item.step_twin htwin s with
    | part hx hy hxy _ =>
      cases hs.symm.trans hx
      cases hs'.symm.trans hy
      exact ih hpart hxy
    | declaration hx _ =>
      cases hs.symm.trans hx
      exact hpart.not_declaration
    | refused hx _ => cases hs.symm.trans hx

/-! ## Every mutation of a diff -/

/-- Every mutation of a diff applies to the document that it meets, the one that the mutations before
it lead to; what it says of that document is so, and it leaves one that is not equal to it. -/
theorem Tree.exact_of_diff_eq {old new : Tree} {before after : List Mutation} {m : Mutation}
    (h : old.diff new = before ++ m :: after) :
    ∃ (t t' : Tree) (it : Item), old.patchAll before = .ok t ∧ t.resolve m.target = .ok it ∧
      m.action.Exact it ∧ t.patch m = .ok t' ∧ t'.equiv t = false := by
  obtain ⟨t, root, hbefore, hpatch, hstep, -⟩ := Tree.step_of_diff_eq h
  obtain ⟨it, htarget, hapt⟩ := hstep.1
  have hchange : ¬Tree.Alike { t with root } t := fun halike =>
    hstep.not_twin (.element halike.symm)
  refine ⟨t, { t with root }, it, hbefore, Tree.resolve_eq_ok_iff.mpr htarget, hapt.exact, hpatch, ?_⟩
  rw [Bool.eq_false_iff]
  exact fun hequiv => hchange (Tree.equiv_iff_alike.mp hequiv)

/-- The second mutation of the diff from `<p a="1"/>` to `<q/><p/>`, which puts the new node in the
place of the one that is removed first. -/
theorem Tree.exact_of_diff_eq_second :
    let p : Node := .element { Element.bare "p" with attributes := .ofPairs [("a", "1")] }
    let q : Node := .element (Element.bare "q")
    let old := Tree.document [p]
    let m := insertion 0 (.node q)
    old.diff (Tree.document [q, p]) = [removal 0] ++ m :: [insertion 1 (.node p)] ∧
      ∃ (t t' : Tree) (it : Item), old.patchAll [removal 0] = .ok t ∧ t.resolve m.target = .ok it ∧
        m.action.Exact it ∧ t.patch m = .ok t' ∧ t'.equiv t = false := by
  intro p q old m
  have hdiff : old.diff (Tree.document [q, p]) = [removal 0] ++ m :: [insertion 1 (.node p)] := rfl
  exact ⟨hdiff, Tree.exact_of_diff_eq hdiff⟩

end SynthDom
