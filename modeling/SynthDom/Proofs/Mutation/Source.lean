import SynthDom.Proofs.Mutation.Paired

/-!
# Mutations are read off the new document

The target of a mutation means the same place in three documents: in the old one, in the new one, and
in the one between them that the mutation meets, although siblings may have shifted there since.  It
leads to an item of the same kind in all of them, and what the mutation puts in is what the new
document has at that place.

* `Mutation.ReadFrom`: what a mutation puts in is what a document has at its target.
* `Tree.readFrom_of_diff_eq`: the two statements, for every mutation of a diff.
-/

namespace SynthDom

/-- What a mutation puts in is what the document has at its target, indexes included.  A name that is
taken away does not occur there. -/
def Mutation.ReadFrom (new : Tree) (m : Mutation) : Prop :=
  match m.action with
  | .setText newValue _ => new.resolve m.target = .ok (.text newValue)
  | .insertChild i (.node n) _ => new.resolve (m.target.join (.child i)) = .ok n.item
  | .insertChild i (.rule r) _ => new.resolve (m.target.join (.rule i)) = .ok (.rule r)
  | .removeChild _ => True
  | .setAttribute name newValue _ => ∃ e, new.resolve m.target = .ok (.element e) ∧
    e.attributes.get? name = some newValue
  | .insertAttribute i name newValue => ∃ e, new.resolve m.target = .ok (.element e) ∧
    e.attributes.entryAt? i = some (name, newValue)
  | .removeAttribute name _ => ∃ e, new.resolve m.target = .ok (.element e) ∧
    name ∉ e.attributes.names
  | .setProperty i name newValue _ =>
    new.resolve (m.target.join (.declaration i)) = .ok (.declaration name newValue)
  | .removeProperty name _ => ∃ r ds, new.resolve m.target = .ok (.rule r) ∧
    r.declarations? = some ds ∧ name ∉ ds.names

/-! ## Kinds -/

namespace Item

variable {x y : Item}

theorem SameHead.kind_eq (h : x.SameHead y) : x.kind = y.kind := by
  cases h with
  | @rule r s hheader => cases r <;> cases s <;> first | rfl | cases hheader
  | element | text | stylesheet | declaration => rfl

theorem Comparable.kind_eq (h : x.Comparable y) : x.kind = y.kind := by
  cases h with
  | block ds es hown => cases hown <;> rfl
  | element | text | stylesheet | condition => rfl

/-- At the end of an address along which heads agree they agree too. -/
theorem SameWay.descend {a : Address} {x' : Item} (h : x.SameWay y a) (hx : x.descend a = .ok x') :
    ∃ y', y.descend a = .ok y' ∧ x'.SameHead y' := by
  induction a generalizing x y with
  | nil =>
    cases hx
    exact ⟨y, rfl, h⟩
  | cons s a ih =>
    obtain ⟨-, x₁, y₁, hstep, hstep', hway⟩ := h
    rw [descend_cons, hstep] at hx
    rw [descend_cons, hstep']
    exact ih hway hx

end Item

/-! ## Payloads -/

/-- One step further than an address leads. -/
theorem Tree.resolve_join {t : Tree} {a : Address} {s : Segment} {it sub : Item}
    (ha : (Item.element t.root).descend a = .ok it) (hs : it.step s = .ok sub) :
    t.resolve (a.join s) = .ok sub := by
  rw [Tree.resolve_eq_ok_iff, Item.descend_join_eq_ok_iff]
  exact ⟨it, ha, hs⟩

theorem Item.step_declaration {r : Rule} {ds : PropertyList} {i : Nat} {name value : String}
    (hds : r.declarations? = some ds) (hentry : ds.entryAt? i = some (name, value)) :
    (Item.rule r).step (.declaration i) = .ok (.declaration name value) := by
  rw [Item.step_eq_ok_iff]
  cases r with
  | style =>
    cases hds
    exact .styleDeclaration hentry
  | keyframeStep =>
    cases hds
    exact .keyframeDeclaration hentry
  | condition => cases hds

/-- What is due between two items is read off the second one. -/
theorem Mutation.readFrom_of_due {new : Tree} {m : Mutation} {x y : Item} (hdue : x.Due y m.action)
    (hy : (Item.element new.root).descend m.target = .ok y) : m.ReadFrom new := by
  obtain ⟨target, action⟩ := m
  have hresolve : new.resolve target = .ok y := Tree.resolve_eq_ok_iff.mpr hy
  cases hdue with
  | text => exact hresolve
  | @«attribute» e f c hc =>
    have hbetween := PropertyList.Change.between_of_mem hc
    cases c with
    | removed => exact ⟨_, hresolve, hbetween.2⟩
    | changed => exact ⟨_, hresolve, PropertyList.get?_of_mem (List.mem_of_getElem? hbetween.1)⟩
    | inserted => exact ⟨_, hresolve, hbetween.1⟩
  | child hdue =>
    cases hdue with
    | removed => trivial
    | inserted hnew => exact Tree.resolve_join hy (Item.step_eq_ok_iff.mpr (.child hnew))
  | rule hdue =>
    cases hdue with
    | removed => trivial
    | inserted hnew => exact Tree.resolve_join hy (Item.step_eq_ok_iff.mpr (.rule hnew))
  | nested hdue =>
    cases hdue with
    | removed => trivial
    | inserted hnew => exact Tree.resolve_join hy (Item.step_eq_ok_iff.mpr (.nested hnew))
  | @declaration _ q _ es c _ hes hc =>
    have hbetween := PropertyList.Change.between_of_mem hc
    cases c with
    | removed => exact ⟨q, es, hresolve, hes, hbetween.2⟩
    | changed | inserted =>
      exact Tree.resolve_join hy (Item.step_declaration hes hbetween.1)

/-! ## Every mutation of a diff -/

/-- The target of a mutation of a diff leads to items of one kind in the old document, in the one that
the mutation meets and in the new one, and what it puts in is what the new one has there. -/
theorem Tree.readFrom_of_diff_eq {old new : Tree} {before after : List Mutation} {m : Mutation}
    (h : old.diff new = before ++ m :: after) :
    ∃ (t : Tree) (x z y : Item), old.patchAll before = .ok t ∧ old.resolve m.target = .ok x ∧
      t.resolve m.target = .ok z ∧ new.resolve m.target = .ok y ∧
      x.kind = y.kind ∧ z.kind = y.kind ∧ m.ReadFrom new := by
  obtain ⟨t, x, y, hbefore, hcompared, hdue, hway⟩ := Tree.due_of_diff_eq h
  obtain ⟨z, hz, hhead⟩ := hway.descend hcompared.descend_left
  have hxy : x.kind = y.kind := (hcompared.comparable (.element _ _)).kind_eq
  have hread : m.ReadFrom new := Mutation.readFrom_of_due hdue hcompared.descend_right
  simp only [Tree.resolve_eq_ok_iff]
  exact ⟨t, x, z, y, hbefore, hcompared.descend_left, hz, hcompared.descend_right, hxy,
    hhead.kind_eq.symm.trans hxy, hread⟩

/-- From `.a {color: red}` to `.a {margin: 0; color: blue}`, the second mutation inserts the first
declaration of the new rule. -/
theorem Tree.readFrom_of_diff_eq_declaration :
    let sheet (ds : List (String × String)) : Tree :=
      ⟨⟨"div", ∅, [], some ⟨[.style ".a" (.ofPairs ds)]⟩⟩, []⟩
    let old := sheet [("color", "red")]
    let new := sheet [("margin", "0"), ("color", "blue")]
    let change : Mutation := ⟨[.shadow, .rule 0], .setProperty 1 "color" "blue" (some "red")⟩
    let m : Mutation := ⟨[.shadow, .rule 0], .setProperty 0 "margin" "0" none⟩
    old.diff new = [change] ++ m :: [] ∧
      ∃ (t : Tree) (x z y : Item), old.patchAll [change] = .ok t ∧ old.resolve m.target = .ok x ∧
        t.resolve m.target = .ok z ∧ new.resolve m.target = .ok y ∧
        x.kind = y.kind ∧ z.kind = y.kind ∧ m.ReadFrom new := by
  intro sheet old new change m
  have hdiff : old.diff new = [change] ++ m :: [] := rfl
  exact ⟨hdiff, Tree.readFrom_of_diff_eq hdiff⟩

end SynthDom
