import SynthDom.Proofs.Mutation.Sync

/-!
# Patching respects equality

Two documents that are equal, though not the same, cannot be told apart by patching them: a list of
mutations leads to equal documents or is refused with the same error.  The proof runs the two side
by side.

* `Agree`: two results that are both errors, and the same one, or both values, and related ones.
* `Item.Twin`: the items that one address leads to in the two documents.  Declarations are left out:
  in the two documents they stand in different places, so that one address may lead to different
  ones.
* `Item.step_twin`, `Action.onItem_twin`, `Item.act_twin`: what a step, an action, and an action at
  an address do to twins.
* `Tree.patchAll_agree`: what a list of mutations does to documents that are alike.
-/

namespace SynthDom

/-! ## Results that agree -/

/-- The same error, or values that are related. -/
inductive Agree {ε α : Type} (R : α → α → Prop) : Except ε α → Except ε α → Prop
  /-- Both succeed. -/
  | ok {x y : α} : R x y → Agree R (.ok x) (.ok y)
  /-- Both fail, and in the same way. -/
  | error (e : ε) : Agree R (.error e) (.error e)

namespace Agree

variable {ε α β : Type} {R : α → α → Prop} {S : β → β → Prop} {x y : Except ε α}

theorem map {f g : α → β} (h : Agree R x y) (hfg : ∀ a b, R a b → S (f a) (g b)) :
    Agree S (x.map f) (y.map g) := by
  cases h with
  | ok h => exact .ok (hfg _ _ h)
  | error e => exact .error e

theorem bind {f g : α → Except ε β} (h : Agree R x y) (hfg : ∀ a b, R a b → Agree S (f a) (g b)) :
    Agree S (x.bind f) (y.bind g) := by
  cases h with
  | ok h => exact hfg _ _ h
  | error e => exact .error e

end Agree

/-! ## Lists -/

variable {α : Type} {R : α → α → Prop} {l m : List α}

theorem insertItem_agree (h : List.Forall₂ R l m) {x : α} (hx : R x x)
    (outOfRange : Nat → Nat → Reason) (i : Nat) :
    Agree (List.Forall₂ R) (insertItem outOfRange l i x) (insertItem outOfRange m i x) := by
  rw [insertItem, insertItem, h.length_eq]
  split
  · exact .ok (forall₂_splice h (.cons hx .nil) i i)
  · exact .error _

theorem removeItem_agree (h : List.Forall₂ R l m) (outOfRange : Nat → Nat → Reason) (i : Nat) :
    Agree (List.Forall₂ R) (removeItem outOfRange l i) (removeItem outOfRange m i) := by
  rw [removeItem, removeItem, h.length_eq]
  split
  · rw [List.eraseIdx_eq_take_drop_succ, List.eraseIdx_eq_take_drop_succ]
    exact .ok (forall₂_splice h .nil i (i + 1))
  · exact .error _

theorem editEntries_agree {l m : PropertyList} (h : l.Alike m) (what : EntryKind)
    (edit : PropertyList.Edit) :
    Agree PropertyList.Alike (editEntries what l edit) (editEntries what m edit) := by
  unfold editEntries
  cases edit with
  | remove name =>
    simp only [PropertyList.edit, h.contains_eq]
    cases m.contains name
    · exact .error _
    · exact .ok (h.remove name)
  | overwrite name value =>
    simp only [PropertyList.edit, h.contains_eq]
    cases m.contains name
    · exact .error _
    · exact .ok (h.overwrite name value)
  | insert index name value =>
    simp only [PropertyList.edit, h.contains_eq]
    cases m.contains name
    · exact .ok (h.insertAt index index name value)
    · exact .error _

/-! ## Twins -/

/-- Items that are alike, elements possibly but for their tags. -/
inductive Item.Twin : Item → Item → Prop
  | element {e f : Element} : e.SameContent f → Twin (.element e) (.element f)
  | text (value : String) : Twin (.text value) (.text value)
  | stylesheet {s t : Stylesheet} :
      List.Forall₂ Rule.Alike s.rules t.rules → Twin (.stylesheet s) (.stylesheet t)
  | rule {r q : Rule} : r.Alike q → Twin (.rule r) (.rule q)

/-- Nodes that are alike are twins. -/
theorem Node.Alike.twin {n k : Node} (h : n.Alike k) : n.item.Twin k.item := by
  cases h with
  | text value => exact .text value
  | element htag attributes children rules => exact .element ⟨attributes, children, rules⟩

/-- What is written in the place of two nodes that are alike are two nodes, and they are alike if
they are twins. -/
theorem Node.Alike.of_sameHead {n k : Node} (h : n.Alike k) {it jt : Item} (hn : n.item.SameHead it)
    (hk : k.item.SameHead jt) (htwin : it.Twin jt) :
    ∃ n' k' : Node, n'.item = it ∧ k'.item = jt ∧ n'.Alike k' := by
  cases h with
  | text value =>
    cases hn with
    | text _ v =>
      cases htwin
      exact ⟨.text v, .text v, rfl, rfl, .text v⟩
  | element htag =>
    cases hn with
    | @element _ e he =>
      cases hk with
      | @element _ f hf =>
        cases htwin with
        | element hsame =>
          refine ⟨.element e, .element f, rfl, rfl, Node.alike_element_iff.mpr ⟨?_, hsame⟩⟩
          rw [← he, ← hf, htag]

namespace Item

variable {it jt : Item}

/-- What a step from twins comes to. -/
inductive StepAlike (it jt : Item) (s : Segment) : Prop
  /-- It leads to twins, and twins put in their places make twins. -/
  | part {x y : Item} : it.step s = .ok x → jt.step s = .ok y → x.Twin y →
      (∀ x' y', x.SameHead x' → y.SameHead y' → x'.Twin y' → (it.put s x').Twin (jt.put s y')) →
        StepAlike it jt s
  /-- It leads to declarations, any two. -/
  | declaration {name v name' v' : String} : it.step s = .ok (.declaration name v) →
      jt.step s = .ok (.declaration name' v') → StepAlike it jt s
  /-- It cannot be taken, for the same reason. -/
  | refused {r : Reason} : it.step s = .error r → jt.step s = .error r → StepAlike it jt s

/-- A step to a rule, from whatever owns two lists of rules that are alike. -/
theorem step_twin_rules {rs qs : List Rule} (h : List.Forall₂ Rule.Alike rs qs) {i : Nat}
    (own : List Rule → Item) (hstep : ∀ rules, (own rules).step (.rule i) = ruleAt rules i)
    (hput : ∀ rules r, (own rules).put (.rule i) (.rule r) = own (rules.set i r))
    (htwin : ∀ rs qs, List.Forall₂ Rule.Alike rs qs → (own rs).Twin (own qs)) :
    StepAlike (own rs) (own qs) (.rule i) := by
  rcases forall₂_getElem? h i with ⟨r, q, hr, hq, hrq⟩ | ⟨hr, hq⟩
  · refine .part (x := .rule r) (y := .rule q) ?_ ?_ (.rule hrq) ?_
    · rw [hstep, ruleAt, hr]
    · rw [hstep, ruleAt, hq]
    · intro x y hx hy hxy
      cases hxy with
      | rule hrq' =>
        rw [hput, hput]
        exact htwin _ _ (forall₂_set h hrq' i)
      | element | text | stylesheet => cases hx
  · refine .refused (r := .ruleOutOfRange i rs.length) ?_ ?_
    · rw [hstep, ruleAt, hr]
    · rw [hstep, ruleAt, hq, h.length_eq]

/-- A step to a declaration, from two rules whose declarations are alike. -/
theorem step_twin_declarations {ds es : PropertyList} (h : ds.Alike es) {i : Nat}
    (own : PropertyList → Item)
    (hstep : ∀ ds, (own ds).step (.declaration i) = declarationAt ds i) :
    StepAlike (own ds) (own es) (.declaration i) := by
  have hlength : ds.entries.length = es.entries.length := h.length_eq
  by_cases hi : i < ds.entries.length
  · have hentry (ds : PropertyList) (hi : i < ds.entries.length) :
        (own ds).step (.declaration i) = .ok (.declaration ds.entries[i].1 ds.entries[i].2) := by
      rw [hstep, declarationAt, PropertyList.entryAt?, List.getElem?_eq_getElem hi]
    exact .declaration (hentry ds hi) (hentry es (hlength ▸ hi))
  · have hnone (ds : PropertyList) (hi : ¬ i < ds.entries.length) :
        (own ds).step (.declaration i) = .error (.declarationOutOfRange i ds.entries.length) := by
      rw [hstep, declarationAt, PropertyList.entryAt?, List.getElem?_eq_none (Nat.not_lt.mp hi)]
      rfl
    refine .refused (hnone ds hi) ?_
    rw [hlength] at hi ⊢
    exact hnone es hi

theorem step_twin (h : it.Twin jt) (s : Segment) : StepAlike it jt s := by
  cases h with
  | @element e f h =>
    cases s with
    | child i =>
      rcases forall₂_getElem? h.children i with ⟨n, k, hn, hk, hnk⟩ | ⟨hn, hk⟩
      · refine .part (step_eq_ok_iff.mpr (.child hn)) (step_eq_ok_iff.mpr (.child hk)) hnk.twin ?_
        intro x y hx hy hxy
        obtain ⟨n', k', rfl, rfl, hnk'⟩ := hnk.of_sameHead hx hy hxy
        rw [put_child, put_child]
        exact .element ⟨h.attributes, forall₂_set h.children hnk' i, h.rules⟩
      · refine .refused (r := .childOutOfRange i e.children.length) ?_ ?_
        · simp only [step, hn]
        · simp only [step, hk, h.children.length_eq]
    | shadow =>
      have hsheets : (Item.stylesheet e.sheet).Twin (.stylesheet f.sheet) := by
        refine .stylesheet ?_
        rw [Element.rules_sheet, Element.rules_sheet]
        exact h.rules
      refine .part rfl rfl hsheets ?_
      intro x y hx hy hxy
      cases hxy with
      | stylesheet hrules => exact .element ⟨h.attributes, h.children, hrules⟩
      | element | text | rule => cases hx
    | rule | declaration => exact .refused rfl rfl
  | text value => cases s <;> exact .refused rfl rfl
  | stylesheet h =>
    cases s with
    | rule i =>
      exact step_twin_rules h (fun rules => .stylesheet ⟨rules⟩) (fun _ => rfl) (fun _ _ => rfl)
        fun _ _ h => .stylesheet h
    | child | shadow | declaration => exact .refused rfl rfl
  | rule h =>
    cases h with
    | @style selector _ _ h =>
      cases s with
      | declaration i => exact step_twin_declarations h (fun ds => .rule (.style selector ds)) fun _ => rfl
      | child | shadow | rule => exact .refused rfl rfl
    | @condition kind condition _ _ h =>
      cases s with
      | rule i =>
        exact step_twin_rules h (fun rules => .rule (.condition kind condition rules)) (fun _ => rfl)
          (fun _ _ => rfl) fun _ _ h => .rule (.condition h)
      | child | shadow | declaration => exact .refused rfl rfl
    | @keyframeStep offset _ _ h =>
      cases s with
      | declaration i =>
        exact step_twin_declarations h (fun ds => .rule (.keyframeStep offset ds)) fun _ => rfl
      | child | shadow | rule => exact .refused rfl rfl

end Item

/-! ## Actions on twins -/

namespace Action

variable (a : Action)

theorem onElement_agree {e f : Element} (h : e.SameContent f) :
    Agree Element.SameContent (a.onElement e) (a.onElement f) := by
  have hattributes (edit : PropertyList.Edit) :
      Agree Element.SameContent
        ((editEntries .attribute e.attributes edit).map fun attributes => { e with attributes })
        ((editEntries .attribute f.attributes edit).map fun attributes => { f with attributes }) :=
    (editEntries_agree h.attributes .attribute edit).map fun _ _ h' => ⟨h', h.children, h.rules⟩
  cases a with
  | insertChild i child clone =>
    cases child with
    | node n =>
      exact (insertItem_agree h.children (.refl n) _ i).map fun _ _ h' =>
        ⟨h.attributes, h', h.rules⟩
    | rule r => exact .error _
  | removeChild i =>
    exact (removeItem_agree h.children _ i).map fun _ _ h' => ⟨h.attributes, h', h.rules⟩
  | setAttribute | insertAttribute | removeAttribute => exact hattributes _
  | setText | setProperty | removeProperty => exact .error _

theorem onRules_agree {rs qs : List Rule} (h : List.Forall₂ Rule.Alike rs qs) (found : ItemKind) :
    Agree (List.Forall₂ Rule.Alike) (a.onRules found rs) (a.onRules found qs) := by
  cases a with
  | insertChild i child clone =>
    cases child with
    | node n => exact .error _
    | rule r => exact insertItem_agree h (.refl r) _ i
  | removeChild i => exact removeItem_agree h _ i
  | setText | setAttribute | insertAttribute | removeAttribute | setProperty | removeProperty =>
    exact .error _

theorem onDeclarations_agree {ds es : PropertyList} (h : ds.Alike es) (found : ItemKind) :
    Agree PropertyList.Alike (a.onDeclarations found ds) (a.onDeclarations found es) := by
  unfold onDeclarations
  cases a.declarationEdit? with
  | none => exact .error _
  | some edit => exact editEntries_agree h .declaration edit

theorem onRule_agree {r q : Rule} (h : r.Alike q) :
    Agree Rule.Alike (a.onRule r) (a.onRule q) := by
  cases h with
  | style h => exact (a.onDeclarations_agree h .styleRule).map fun _ _ h' => .style h'
  | condition h => exact (a.onRules_agree h .conditionRule).map fun _ _ h' => .condition h'
  | keyframeStep h =>
    exact (a.onDeclarations_agree h .keyframeStep).map fun _ _ h' => .keyframeStep h'

theorem onItem_twin {it jt : Item} (h : it.Twin jt) : Agree Item.Twin (a.onItem it) (a.onItem jt) := by
  cases h with
  | element h => exact (a.onElement_agree h).map fun _ _ h' => .element h'
  | text value =>
    refine Agree.map (R := Eq) ?_ fun v _ h' => h' ▸ .text v
    cases a.onText value with
    | ok v => exact .ok rfl
    | error f => exact .error f
  | stylesheet h => exact (a.onRules_agree h .stylesheet).map fun _ _ h' => .stylesheet h'
  | rule h => exact (a.onRule_agree h).map fun _ _ h' => .rule h'

end Action

namespace Item

/-- Acting on twins leads to twins or is refused for the same reason. -/
theorem act_twin {it jt : Item} (h : it.Twin jt) (a : Action) (b : Address) :
    Agree Twin (it.act a b) (jt.act a b) := by
  induction b generalizing it jt with
  | nil => exact a.onItem_twin h
  | cons s b ih =>
    cases step_twin h s with
    | @part x y hx hy hxy hput =>
      rw [act_cons_ok hx, act_cons_ok hy]
      have hsub := ih hxy
      generalize hox : x.act a b = ox at hsub
      generalize hoy : y.act a b = oy at hsub
      cases hsub with
      | ok htwin => exact .ok (hput _ _ (sameHead_act hox) (sameHead_act hoy) htwin)
      | error f => exact .error f
    | declaration hx hy =>
      obtain ⟨f, hf⟩ := act_declaration a b
      rw [act_cons_ok hx, act_cons_ok hy, hf, hf]
      exact .error f
    | refused hx hy =>
      rw [act_cons_error hx, act_cons_error hy]
      exact .error _

end Item

/-! ## Patching documents -/

namespace Tree

variable {t u : Tree}

theorem patch_agree (h : t.Alike u) (m : Mutation) : Agree Alike (t.patch m) (u.patch m) := by
  have hact := Item.act_twin (.element h) m.action m.target
  rcases act_root_cases t m with ⟨root, ht⟩ | ⟨f, ht⟩ <;>
    rcases act_root_cases u m with ⟨root', hu⟩ | ⟨f', hu⟩ <;> rw [ht, hu] at hact <;> cases hact
  · rename_i htwin
    cases htwin with
    | element hsame =>
      rw [patch_of_act_ok ht, patch_of_act_ok hu]
      exact .ok hsame
  · rw [patch_of_act_error ht, patch_of_act_error hu]
    exact .error _

/-- Mutation after mutation the two documents stay alike, up to the first that both refuse. -/
theorem patchAll_agree (h : t.Alike u) (ms : List Mutation) :
    Agree Alike (t.patchAll ms) (u.patchAll ms) := by
  induction ms generalizing t u with
  | nil => exact .ok h
  | cons m ms ih => exact (patch_agree h m).bind fun _ _ h' => ih h'

/-- Patching equal documents gives equal documents, or fails with the same error.  So a diff can be
carried out on any document that is equal to the one it starts from. -/
theorem patchAll_congr (h : t.equiv u = true) :
    (∀ ms : List Mutation,
      (∃ t' u', t.patchAll ms = .ok t' ∧ u.patchAll ms = .ok u' ∧ t'.equiv u' = true) ∨
        ∃ e, t.patchAll ms = .error e ∧ u.patchAll ms = .error e) ∧
    ∀ new : Tree, ∃ u', u.patchAll (t.diff new) = .ok u' ∧ u'.equiv new = true := by
  have halike : t.Alike u := equiv_iff_alike.mp h
  constructor
  · intro ms
    have hagree := patchAll_agree halike ms
    generalize t.patchAll ms = x at hagree ⊢
    generalize u.patchAll ms = y at hagree ⊢
    cases hagree with
    | ok h' => exact .inl ⟨_, _, rfl, rfl, equiv_iff_alike.mpr h'⟩
    | error e => exact .inr ⟨e, rfl, rfl⟩
  · intro new
    have hagree := patchAll_agree halike (t.diff new)
    rw [patchAll_diff] at hagree
    generalize u.patchAll (t.diff new) = y at hagree ⊢
    cases hagree with
    | ok h' => exact ⟨_, rfl, equiv_iff_alike.mpr (h'.symm.trans (sync_alike t new))⟩

/-- Attributes in another order, another tag of the root, an empty stylesheet and a module. -/
theorem patchAll_congr_reordered : ∃ t u : Tree,
    t = ⟨((Element.bare "document").attr "id" "a").attr "class" "b", []⟩ ∧
    u = ⟨(((Element.bare "main").attr "class" "b").attr "id" "a").withStylesheet .empty, ["m"]⟩ ∧
    t.equiv u = true ∧
    (∀ ms : List Mutation,
      (∃ t' u', t.patchAll ms = .ok t' ∧ u.patchAll ms = .ok u' ∧ t'.equiv u' = true) ∨
        ∃ e, t.patchAll ms = .error e ∧ u.patchAll ms = .error e) ∧
    ∀ new : Tree, ∃ u', u.patchAll (t.diff new) = .ok u' ∧ u'.equiv new = true :=
  ⟨_, _, rfl, rfl, by decide, patchAll_congr (by decide)⟩

end Tree

end SynthDom
