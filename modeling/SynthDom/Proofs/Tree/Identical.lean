import SynthDom.Proofs.Address.PutAt
import SynthDom.Proofs.PropertyList.Placement
import SynthDom.Proofs.Tree.Alike
import SynthDom.Render.Html

/-!
# Documents with the same text

Documents that are alike can have different texts, because a text has the attributes and declarations
in their order.  Two documents are identical if not even this order tells them apart, but at most an
empty stylesheet where the other one has none, the tag of the root and the modules.  None of these
three is written.

* `Tree.Identical`: the relation, and `Tree.Identical.html_eq`, that the text respects it.
* `Item.InOrder`, `Tree.InOrder`: wherever an address leads to elements in both documents, or to rules
  with declarations, the names that the two lists share come in the same order.
* `Element.inOrder_iff`, `Rule.inOrder_iff_of_declarations`: what the relation says of the parts.
* `Rule.Alike.eq_of_inOrder`: rules that are alike and in the same order are one.
-/

namespace SynthDom

/-! ## Identical documents -/

/-- Identical but for empty stylesheets. -/
inductive Node.Identical : Node → Node → Prop
  /-- The same text. -/
  | text (value : String) : Node.Identical (.text value) (.text value)
  /-- The same tag, attributes and rules, and children that are identical one by one. -/
  | element {e f : Element} (tag : e.tag = f.tag) (attributes : e.attributes = f.attributes)
      (children : List.Forall₂ Node.Identical e.children f.children) (rules : e.rules = f.rules) :
      Node.Identical (.element e) (.element f)

/-- Elements that are identical, but possibly for their tags. -/
structure Element.IdenticalContent (e f : Element) : Prop where
  attributes : e.attributes = f.attributes
  children : List.Forall₂ Node.Identical e.children f.children
  rules : e.rules = f.rules

/-- Documents whose roots are identical, but possibly for their tags. -/
def Tree.Identical (t u : Tree) : Prop := t.root.IdenticalContent u.root

theorem Node.Identical.refl (n : Node) : n.Identical n := by
  induction n with
  | text value => exact .text value
  | element e ih => exact .element rfl rfl (List.forall₂_same.mpr ih) rfl

/-- A stylesheet without rules is written like none. -/
theorem styleHtml_eq (e : Element) :
    styleHtml e.stylesheet =
      if e.rules.isEmpty then "" else "<style>" ++ Rule.cssList 0 e.rules ++ "</style>" := by
  rcases e with ⟨_, _, _, _ | s⟩ <;> rfl

theorem Node.htmlList_eq_of_forall₂ {ns ms : List Node}
    (h : List.Forall₂ (fun n m => n.html = m.html) ns ms) :
    Node.htmlList ns = Node.htmlList ms := by
  induction h with
  | nil => rfl
  | cons hhead _ ih => rw [Node.htmlList, Node.htmlList, hhead, ih]

theorem Element.html_eq (e : Element) :
    e.html = "<" ++ e.tag ++ String.join (e.attributes.entries.map attributeHtml) ++ ">"
      ++ styleHtml e.stylesheet ++ Node.htmlList e.children ++ "</" ++ e.tag ++ ">" := by
  cases e
  rfl

theorem Node.Identical.html_eq {n m : Node} (h : n.Identical m) : n.html = m.html := by
  induction n generalizing m with
  | text value =>
    cases h
    rfl
  | element e ih =>
    cases h with
    | @element _ f tag attributes children rules =>
      have hchildren : Node.htmlList e.children = Node.htmlList f.children :=
        Node.htmlList_eq_of_forall₂ (forall₂_imp_of_mem (fun n hn _ => ih n hn) children)
      rw [Node.html, Node.html, Element.html_eq, Element.html_eq, styleHtml_eq, styleHtml_eq, tag,
        attributes, rules, hchildren]

/-- Identical documents have one text. -/
theorem Tree.Identical.html_eq {t u : Tree} (h : t.Identical u) : t.html = u.html := by
  have hchildren : Node.htmlList t.root.children = Node.htmlList u.root.children :=
    Node.htmlList_eq_of_forall₂ (h.children.imp fun _ _ hn => hn.html_eq)
  rw [Tree.html, Tree.html, Element.contentHtml, Element.contentHtml, styleHtml_eq, styleHtml_eq,
    h.rules, hchildren]

/-! ## Documents in the same order -/

/-- Wherever an address leads to two elements, or to two rules with declarations, the names of both
come in the same order. -/
structure Item.InOrder (x y : Item) : Prop where
  attributes : ∀ a e f, x.descend a = .ok (.element e) → y.descend a = .ok (.element f) →
    e.attributes.SameOrder f.attributes
  declarations : ∀ a r q ds es, x.descend a = .ok (.rule r) → y.descend a = .ok (.rule q) →
    r.declarations? = some ds → q.declarations? = some es → ds.SameOrder es

/-- Wherever an address resolves in both documents to an element, or to a rule with declarations, the
names of both come in the same order. -/
structure Tree.InOrder (t u : Tree) : Prop where
  attributes : ∀ a e f, t.resolve a = .ok (.element e) → u.resolve a = .ok (.element f) →
    e.attributes.SameOrder f.attributes
  declarations : ∀ a r q ds es, t.resolve a = .ok (.rule r) → u.resolve a = .ok (.rule q) →
    r.declarations? = some ds → q.declarations? = some es → ds.SameOrder es

theorem Tree.inOrder_iff {t u : Tree} :
    t.InOrder u ↔ (Item.element t.root).InOrder (.element u.root) := by
  constructor
  · rintro ⟨hattributes, hdeclarations⟩
    simp only [resolve_eq_ok_iff] at hattributes hdeclarations
    exact ⟨hattributes, hdeclarations⟩
  · rintro ⟨hattributes, hdeclarations⟩
    simp only [← resolve_eq_ok_iff] at hattributes hdeclarations
    exact ⟨hattributes, hdeclarations⟩

namespace Item

variable {x y x' y' : Item} {s : Segment}

/-- What holds of two items holds of the parts that a step leads to in both. -/
theorem InOrder.step (h : x.InOrder y) (hx : x.step s = .ok x') (hy : y.step s = .ok y') :
    x'.InOrder y' where
  attributes a e f he hf :=
    h.attributes (s :: a) e f (descend_cons_eq_ok_iff.mpr ⟨x', hx, he⟩)
      (descend_cons_eq_ok_iff.mpr ⟨y', hy, hf⟩)
  declarations a r q ds es hr hq :=
    h.declarations (s :: a) r q ds es (descend_cons_eq_ok_iff.mpr ⟨x', hx, hr⟩)
      (descend_cons_eq_ok_iff.mpr ⟨y', hy, hq⟩)

theorem InOrder.part (h : x.InOrder y) (hx : x.Part s x') (hy : y.Part s y') : x'.InOrder y' :=
  h.step (step_eq_ok_iff.mpr hx) (step_eq_ok_iff.mpr hy)

/-- Items are in order if their own names are, and all parts that a step leads to in both. -/
theorem inOrder_of_step
    (hattributes : ∀ e f, x = .element e → y = .element f → e.attributes.SameOrder f.attributes)
    (hdeclarations : ∀ r q ds es, x = .rule r → y = .rule q → r.declarations? = some ds →
      q.declarations? = some es → ds.SameOrder es)
    (hparts : ∀ s x' y', x.step s = .ok x' → y.step s = .ok y' → x'.InOrder y') : x.InOrder y where
  attributes a e f he hf := by
    cases a with
    | nil =>
      cases he
      cases hf
      exact hattributes e f rfl rfl
    | cons s a =>
      obtain ⟨x', hx, he⟩ := descend_cons_eq_ok_iff.mp he
      obtain ⟨y', hy, hf⟩ := descend_cons_eq_ok_iff.mp hf
      exact (hparts s x' y' hx hy).attributes a e f he hf
  declarations a r q ds es hr hq := by
    cases a with
    | nil =>
      cases hr
      cases hq
      exact hdeclarations r q ds es rfl rfl
    | cons s a =>
      obtain ⟨x', hx, hr⟩ := descend_cons_eq_ok_iff.mp hr
      obtain ⟨y', hy, hq⟩ := descend_cons_eq_ok_iff.mp hq
      exact (hparts s x' y' hx hy).declarations a r q ds es hr hq

end Item

/-- Elements are in order if their attributes are, and their children and rules by position. -/
theorem Element.inOrder_iff {e f : Element} :
    (Item.element e).InOrder (.element f) ↔
      e.attributes.SameOrder f.attributes ∧
      (∀ (i : Nat) n m, e.children[i]? = some n → f.children[i]? = some m → n.item.InOrder m.item) ∧
      ∀ (i : Nat) r q, e.rules[i]? = some r → f.rules[i]? = some q →
        (Item.rule r).InOrder (.rule q) := by
  rw [← rules_sheet e, ← rules_sheet f]
  constructor
  · intro h
    have hsheet : (Item.stylesheet e.sheet).InOrder (.stylesheet f.sheet) :=
      h.part (.shadow e) (.shadow f)
    exact ⟨h.attributes [] e f rfl rfl, fun i n m hn hm => h.part (.child hn) (.child hm),
      fun i r q hr hq => hsheet.part (.rule hr) (.rule hq)⟩
  · rintro ⟨hattributes, hchildren, hrules⟩
    have hsheet : (Item.stylesheet e.sheet).InOrder (.stylesheet f.sheet) := by
      refine Item.inOrder_of_step nofun nofun fun s x y hx hy => ?_
      cases Item.step_eq_ok_iff.mp hx with
      | @rule _ i r hr =>
        cases Item.step_eq_ok_iff.mp hy with
        | @rule _ _ q hq => exact hrules i r q hr hq
    refine Item.inOrder_of_step ?_ nofun fun s x y hx hy => ?_
    · rintro _ _ ⟨⟩ ⟨⟩
      exact hattributes
    · cases Item.step_eq_ok_iff.mp hx with
      | @child _ i n hn =>
        cases Item.step_eq_ok_iff.mp hy with
        | @child _ _ m hm => exact hchildren i n m hn hm
      | shadow =>
        cases Item.step_eq_ok_iff.mp hy
        exact hsheet

/-- Rules with declarations are in order if these are. -/
theorem Rule.inOrder_iff_of_declarations {r q : Rule} {ds es : PropertyList}
    (hr : r.declarations? = some ds) (hq : q.declarations? = some es) :
    (Item.rule r).InOrder (.rule q) ↔ ds.SameOrder es := by
  refine ⟨fun h => h.declarations [] r q ds es rfl rfl hr hq, fun h => ?_⟩
  refine Item.inOrder_of_step nofun ?_ fun s x y hx hy => ?_
  · rintro _ _ _ _ ⟨⟩ ⟨⟩ hr' hq'
    obtain rfl := Option.some.inj (hr.symm.trans hr')
    obtain rfl := Option.some.inj (hq.symm.trans hq')
    exact h
  · -- the parts of such a rule are declarations, which have no parts
    cases Item.step_eq_ok_iff.mp hx with
    | nested => cases hr
    | styleDeclaration | keyframeDeclaration =>
      refine Item.inOrder_of_step nofun nofun fun s x y hx _ => ?_
      cases Item.step_eq_ok_iff.mp hx

/-- Lists whose members are related are equal if related members are. -/
theorem eq_of_forall₂_getElem? {α : Type} {R : α → α → Prop} {l m : List α} (h : List.Forall₂ R l m)
    (heq : ∀ (i : Nat) x y, l[i]? = some x → m[i]? = some y → R x y → x = y) : l = m := by
  refine List.ext_getElem? fun i => ?_
  rcases forall₂_getElem? h i with ⟨x, y, hx, hy, hxy⟩ | ⟨hx, hy⟩
  · rw [hx, hy, heq i x y hx hy hxy]
  · rw [hx, hy]

/-- Nothing but the order of declarations tells rules that are alike apart. -/
theorem Rule.Alike.eq_of_inOrder {r q : Rule} (h : r.Alike q)
    (horder : (Item.rule r).InOrder (.rule q)) : r = q := by
  induction r generalizing q with
  | style s ds =>
    cases h with
    | style h => rw [h.eq_of_sameOrder ((Rule.inOrder_iff_of_declarations rfl rfl).mp horder)]
  | keyframeStep o ds =>
    cases h with
    | keyframeStep h => rw [h.eq_of_sameOrder ((Rule.inOrder_iff_of_declarations rfl rfl).mp horder)]
  | condition k c rules ih =>
    cases h with
    | @condition _ _ _ rules' h =>
      have hrules : rules = rules' := eq_of_forall₂_getElem? h fun i r q hr hq hrq =>
        ih r (List.mem_of_getElem? hr) hrq (horder.part (.nested hr) (.nested hq))
      rw [hrules]

end SynthDom
