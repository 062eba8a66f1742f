import SynthDom.Proofs.Mutation.Frame
import SynthDom.Proofs.PropertyList.Pairs

/-!
# The property lists of a document

The attribute lists of a document's elements and the declaration lists of its rules, at any depth.  A
mutation makes no list of its own.  It brings those of the node or rule that it puts in, it writes to one
list, and it leaves all others as they are.  So after any mutations a list of the document is one that
was there or was brought, with some of the writes that the mutations after that are.

* `Item.HasList`, `Tree.HasList`: the lists of an item and of a document.
* `Action.Brings`: the lists of what an action puts in.
* `Action.write?`, `Mutation.writes`: the write that an action is, and those among mutations.
* `Item.hasList_of_act`: what one mutation does, and `Tree.hasList_of_patchAll`, what many do.
-/

namespace SynthDom

open PropertyList (Write)

/-! ## The lists of an item -/

namespace Item

variable {it it' sub : Item} {s : Segment} {l : PropertyList}

/-- The list that an item has apart from its parts: the attributes of an element, the declarations of a
rule. -/
def ownList? : Item → Option PropertyList
  | .element e => some e.attributes
  | .rule r => r.declarations?
  | _ => none

/-- A list of the item or of what is inside it. -/
def HasList (it : Item) (l : PropertyList) : Prop :=
  ∃ a x, it.descend a = .ok x ∧ x.ownList? = some l

/-- A list of an item is its own or that of a part. -/
theorem hasList_iff_step :
    it.HasList l ↔ it.ownList? = some l ∨ ∃ s sub, it.step s = .ok sub ∧ sub.HasList l := by
  constructor
  · rintro ⟨_ | ⟨s, a⟩, x, hx, hl⟩
    · cases hx
      exact .inl hl
    · obtain ⟨sub, hs, hx⟩ := descend_cons_eq_ok_iff.mp hx
      exact .inr ⟨s, sub, hs, a, x, hx, hl⟩
  · rintro (hl | ⟨s, sub, hs, a, x, hx, hl⟩)
    · exact ⟨[], it, rfl, hl⟩
    · exact ⟨s :: a, x, descend_cons_eq_ok_iff.mpr ⟨sub, hs, hx⟩, hl⟩

theorem HasList.of_step (hs : it.step s = .ok sub) (h : sub.HasList l) : it.HasList l :=
  hasList_iff_step.mpr (.inr ⟨s, sub, hs, h⟩)

/-- A rule with declarations has no other list. -/
theorem hasList_declarations_iff {r : Rule} {ds : PropertyList} (hr : r.declarations? = some ds) :
    (Item.rule r).HasList l ↔ ds = l := by
  have hown : (Item.rule r).ownList? = some l ↔ ds = l := by
    rw [ownList?, hr, Option.some.injEq]
  rw [hasList_iff_step, hown]
  refine or_iff_left ?_
  rintro ⟨s, sub, hs, h⟩
  have hnone {name v : String} : ¬(Item.declaration name v).HasList l := by
    rw [hasList_iff_step]
    rintro (⟨⟨⟩⟩ | ⟨s, sub, hs, -⟩)
    cases step_eq_ok_iff.mp hs
  cases step_eq_ok_iff.mp hs with
  | nested => cases hr
  | styleDeclaration | keyframeDeclaration => exact hnone h

end Item

/-! ## The lists after an action -/

/-- A list of what the action puts in. -/
def Action.Brings (a : Action) (l : PropertyList) : Prop :=
  ∃ i child clone, a = .insertChild i child clone ∧ child.item.HasList l

/-- The write that a step by name is. -/
def PropertyList.Edit.toWrite : PropertyList.Edit → Write
  | .remove name => .remove name
  | .overwrite name value => .insert name value
  | .insert index name value => .insertAt index name value

/-- The write to a list that an action is, if it is one on attributes or declarations. -/
def Action.write? (a : Action) : Option Write :=
  (a.attributeEdit?.or a.declarationEdit?).map PropertyList.Edit.toWrite

/-- The writes that mutations are, in their order. -/
def Mutation.writes (ms : List Mutation) : List Write := ms.filterMap fun m => m.action.write?

/-- A list that is there, is brought, or is one that is there after the write that the action is. -/
def Item.Yields (it : Item) (a : Action) (l : PropertyList) : Prop :=
  it.HasList l ∨ a.Brings l ∨ ∃ k w, a.write? = some w ∧ it.HasList k ∧ l = k.write w

theorem Mutation.writes_cons (m : Mutation) (ms : List Mutation) :
    writes (m :: ms) = m.action.write?.toList ++ writes ms := by
  rw [writes, List.filterMap_cons]
  cases m.action.write? <;> rfl

theorem Action.write?_of_attributeEdit {a : Action} {edit : PropertyList.Edit}
    (h : a.attributeEdit? = some edit) : a.write? = some edit.toWrite := by
  rw [write?, h]
  rfl

theorem Action.write?_of_declarationEdit {a : Action} {edit : PropertyList.Edit}
    (h : a.declarationEdit? = some edit) : a.write? = some edit.toWrite := by
  cases hattribute : a.attributeEdit? with
  | some _ => cases (declarationEdit?_eq_none hattribute).symm.trans h
  | none =>
    rw [write?, hattribute, h]
    rfl

/-- A step by name that is carried out writes to the list. -/
theorem PropertyList.eq_write_of_edit {l m : PropertyList} {edit : PropertyList.Edit}
    (h : l.edit edit = .ok m) : m = l.write edit.toWrite := by
  obtain ⟨hvalid, rfl⟩ := edit_eq_ok_iff.mp h
  cases edit with
  | overwrite name value => exact (insertAt_of_mem hvalid l.length value).symm
  | remove | insert => rfl

namespace Item

variable {it it' sub sub' : Item} {s : Segment} {l : PropertyList} {a : Action} {b : Address}

theorem Yields.of_step (hs : it.step s = .ok sub) (h : sub.Yields a l) : it.Yields a l := by
  rcases h with h | h | ⟨k, w, hw, h, hl⟩
  · exact .inl (h.of_step hs)
  · exact .inr (.inl h)
  · exact .inr (.inr ⟨k, w, hw, h.of_step hs, hl⟩)

/-- With other members an item has their lists, and no others than before. -/
theorem yields_of_members {ms : List Item} (h : it.WithMembers it' ms)
    (hown : it'.ownList? = it.ownList?) (hms : ∀ x ∈ ms, x.HasList l → x ∈ it.members ∨ a.Brings l)
    (hl : it'.HasList l) : it.Yields a l := by
  rcases hasList_iff_step.mp hl with hl | ⟨s, x, hx, hl⟩
  · exact .inl (hasList_iff_step.mpr (.inl (hown.symm.trans hl)))
  · by_cases hs : ∃ i, s = it.place i
    · obtain ⟨i, rfl⟩ := hs
      rw [← h.place, step_place_eq_ok_iff, h.members] at hx
      rcases hms x (List.mem_of_getElem? hx) hl with hmem | hbrings
      · obtain ⟨j, hj⟩ := List.getElem?_of_mem hmem
        exact .inl (hl.of_step (step_place_eq_ok_iff.mpr hj))
      · exact .inr (.inl hbrings)
    · rw [h.others s (not_exists.mp hs)] at hx
      exact .inl (hl.of_step hx)

theorem yields_of_done (h : a.Done it it') (hl : it'.HasList l) : it.Yields a l := by
  have hdone := h
  cases h with
  | setText =>
    obtain ⟨_ | ⟨s, b⟩, x, hx, hown⟩ := hl <;> cases hx
    cases hown
  | insertNode | insertRule | insertNested =>
    obtain ⟨-, hmembers⟩ := hdone.insertChild
    refine yields_of_members hmembers rfl (fun x hx hl => ?_) hl
    rcases mem_splice_iff.mp hx with rfl | hx
    · exact .inr ⟨_, _, _, rfl, hl⟩
    · exact .inl hx
  | removeNode | removeRule | removeNested =>
    obtain ⟨-, hmembers⟩ := hdone.removeChild
    exact yields_of_members hmembers rfl (fun x hx _ => .inl (List.mem_of_mem_eraseIdx hx)) hl
  | @attributes _ e edit k haction hedit =>
    have hsteps (s : Segment) :
        (Item.element { e with attributes := k }).step s = (Item.element e).step s := by
      cases s <;> rfl
    rcases hasList_iff_step.mp hl with ⟨⟨⟩⟩ | ⟨s, x, hx, hl⟩
    · have hthere : (Item.element e).HasList e.attributes := hasList_iff_step.mpr (.inl rfl)
      exact .inr (.inr ⟨e.attributes, edit.toWrite, Action.write?_of_attributeEdit haction, hthere,
        PropertyList.eq_write_of_edit hedit⟩)
    · exact .inl (hl.of_step ((hsteps s).symm.trans hx))
  | @declarations _ r edit ds es hds haction hedit =>
    have hes : (r.withDeclarations es).declarations? = some es := by
      cases r with
      | style | keyframeStep => rfl
      | condition => cases hds
    obtain rfl := (hasList_declarations_iff hes).mp hl
    exact .inr (.inr ⟨ds, edit.toWrite, Action.write?_of_declarationEdit haction,
      (hasList_declarations_iff hds).mpr rfl, PropertyList.eq_write_of_edit hedit⟩)

/-- An action on a part leaves the list of the whole. -/
theorem ownList?_put (h : sub.act a b = .ok sub') (it : Item) (s : Segment) :
    (it.put s sub').ownList? = it.ownList? := by
  unfold put
  split
  case h_6 | h_7 =>
    -- a declaration is one before the action too, and nothing can be done to it
    obtain ⟨f, hf⟩ := act_declaration a b
    cases sameHead_act h
    cases (hf _ _).symm.trans h
  all_goals rfl

/-- An action at an address yields the lists that are there afterwards. -/
theorem hasList_of_act (h : it.act a b = .ok it') (hl : it'.HasList l) : it.Yields a l := by
  induction b generalizing it it' with
  | nil => exact yields_of_done (Action.done_of_onItem h) hl
  | cons s b ih =>
    cases hs : it.step s with
    | error r => cases (act_cons_error hs).symm.trans h
    | ok sub =>
      rw [act_cons_ok hs] at h
      obtain ⟨sub', hsub, rfl⟩ := Except.map_eq_ok_iff.mp h
      have hfits : sub.Fits sub' := fits_act hsub
      rcases hasList_iff_step.mp hl with hown | ⟨s', x, hx, hl⟩
      · exact .inl (hasList_iff_step.mpr (.inl ((ownList?_put hsub it s).symm.trans hown)))
      · by_cases hss : s = s'
        · subst hss
          obtain rfl := Except.ok.inj ((step_put hs hfits).symm.trans hx)
          exact (ih hsub hl).of_step hs
        · rw [step_put_of_ne hs hfits hss] at hx
          exact .inl (hl.of_step hx)

end Item

/-! ## The lists of a document -/

namespace Tree

variable {t t' : Tree} {l : PropertyList}

/-- The attributes of an element or the declarations of a rule of the document. -/
def HasList (t : Tree) (l : PropertyList) : Prop :=
  (∃ a e, t.resolve a = .ok (.element e) ∧ e.attributes = l) ∨
    ∃ a r, t.resolve a = .ok (.rule r) ∧ r.declarations? = some l

theorem hasList_iff : t.HasList l ↔ (Item.element t.root).HasList l := by
  simp only [HasList, resolve_eq_ok_iff]
  constructor
  · rintro (⟨a, e, ha, hl⟩ | ⟨a, r, ha, hl⟩)
    · exact ⟨a, _, ha, congrArg some hl⟩
    · exact ⟨a, _, ha, hl⟩
  · rintro ⟨a, x, ha, hl⟩
    cases x with
    | element e => exact .inl ⟨a, e, ha, Option.some.inj hl⟩
    | rule r => exact .inr ⟨a, r, ha, hl⟩
    | text | stylesheet | declaration => cases hl

/-- A list of a patched document is there before, or brought, or one of those before with the write that
the mutation is. -/
theorem hasList_of_patch {m : Mutation} (h : t.patch m = .ok t') (hl : t'.HasList l) :
    t.HasList l ∨ m.action.Brings l ∨
      ∃ k w, m.action.write? = some w ∧ t.HasList k ∧ l = k.write w := by
  simp only [hasList_iff] at hl ⊢
  rcases act_root_cases t m with ⟨root, hact⟩ | ⟨f, hact⟩
  · obtain rfl := Except.ok.inj ((patch_of_act_ok hact).symm.trans h)
    exact Item.hasList_of_act hact hl
  · cases (patch_of_act_error hact).symm.trans h

/-- A list of a document that mutations were carried out on is one of those before, with some of the
writes that they are, or one that was brought, with some of those that the mutations behind it are. -/
theorem hasList_of_patchAll {ms : List Mutation} (h : t.patchAll ms = .ok t') (hl : t'.HasList l) :
    ∃ (k : PropertyList) (ws : List Write),
      (t.HasList k ∧ ws.Sublist (Mutation.writes ms) ∨
        ∃ m after, (m :: after) <:+ ms ∧ m.action.Brings k ∧ ws.Sublist (Mutation.writes after)) ∧
      l = ws.foldl PropertyList.write k := by
  induction ms generalizing t with
  | nil =>
    cases h
    exact ⟨l, [], .inl ⟨hl, .slnil⟩, rfl⟩
  | cons m ms ih =>
    cases hm : t.patch m with
    | error e => rw [patchAll_cons, hm] at h; cases h
    | ok u =>
      rw [patchAll_cons, hm] at h
      rw [Mutation.writes_cons]
      obtain ⟨k, ws, ⟨hk, hws⟩ | ⟨n, after, hafter, hk, hws⟩, rfl⟩ := ih h
      · rcases hasList_of_patch hm hk with hk | hk | ⟨k', w, hw, hk', rfl⟩
        · exact ⟨k, ws, .inl ⟨hk, hws.trans (List.sublist_append_right _ _)⟩, rfl⟩
        · exact ⟨k, ws, .inr ⟨m, ms, List.suffix_refl _, hk, hws⟩, rfl⟩
        · rw [hw]
          exact ⟨k', w :: ws, .inl ⟨hk', hws.cons_cons w⟩, rfl⟩
      · exact ⟨k, ws, .inr ⟨n, after, hafter.trans (List.suffix_cons m ms), hk, hws⟩, rfl⟩

end Tree

end SynthDom
