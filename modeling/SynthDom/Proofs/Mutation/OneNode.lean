import SynthDom.Proofs.Address.PutAt
import SynthDom.Proofs.Mutation.ReplacedNodes

/-!
# Diffs of documents that differ in one node

Two documents that are the same but for one node differ as these nodes do.  The nodes beside it, and the
attributes and stylesheets on the way to it, are equal and call for nothing, and the mutations of the two
nodes are addressed from the root by putting the way to them in front.

* `Tree.setNode`: the document with another node at an address.
* `Element.diff_set`: the diff of two elements that differ in one child is that of the child.
* `Element.diff_putAt`: the diff of two elements that differ in one element further inside.
* `Tree.diff_setNode`: the diff of two documents that differ in one node, by the shapes of the nodes.
-/

namespace SynthDom

/-! ## Setting a node -/

/-- The document with another node at an address, in the place of the node that is there. -/
def Tree.setNode (t : Tree) (p : Address) (n : Node) : Tree :=
  { t with root := ((Item.element t.root).putAt p n.item).element?.getD t.root }

/-- What is put in the place of a part of a part changes the part in between. -/
theorem Item.putAt_append {it x : Item} {a : Address} (h : it.descend a = .ok x) (b : Address)
    (new : Item) : it.putAt (a ++ b) new = it.putAt a (x.putAt b new) := by
  induction a generalizing it with
  | nil =>
    cases h
    rfl
  | cons s a ih =>
    obtain ⟨sub, hs, hsub⟩ := descend_cons_eq_ok_iff.mp h
    rw [List.cons_append, putAt_cons hs, putAt_cons hs, ih hsub]

/-- A node is put in the place of a child by putting the parent with this child in the place of the
parent. -/
theorem Item.putAt_concat {it x : Item} {q : List Nat} {i : Nat}
    (h : it.descend (.ofChildren (q ++ [i])) = .ok x) :
    ∃ c : Element, it.descend (.ofChildren q) = .ok (.element c) ∧ i < c.children.length ∧
      ∀ n : Node, it.putAt (.ofChildren (q ++ [i])) n.item
        = it.putAt (.ofChildren q) (.element { c with children := c.children.set i n }) := by
  rw [Address.ofChildren_concat, descend_join_eq_ok_iff] at h
  obtain ⟨parent, hparent, hstep⟩ := h
  cases step_eq_ok_iff.mp hstep with
  | @child c _ _ hn =>
    refine ⟨c, hparent, (List.getElem?_eq_some_iff.mp hn).1, fun n => ?_⟩
    rw [Address.ofChildren_concat, Address.join, putAt_append hparent, putAt_cons hstep, putAt_nil,
      put_child]

/-- The node that is set is the one at the address from then on. -/
theorem Tree.resolve_setNode {t : Tree} {p : Address} {k : Node} (hp : p ≠ .root)
    (h : t.resolve p = .ok k.item) (n : Node) : (t.setNode p n).resolve p = .ok n.item := by
  obtain ⟨js, rfl⟩ := Tree.ofChildren_of_resolve (Tree.resolve_eq_ok_iff.mp h)
  rcases List.eq_nil_or_concat' js with rfl | ⟨q, i, rfl⟩
  · exact absurd rfl hp
  obtain ⟨c, hc, hi, hput⟩ := Item.putAt_concat (Tree.resolve_eq_ok_iff.mp h)
  let parent : Element := { c with children := c.children.set i n }
  have hfits : (Item.element c).Fits (.element parent) := .element c parent
  have hroot : Item.element (t.setNode (.ofChildren (q ++ [i])) n).root
      = (Item.element t.root).putAt (.ofChildren q) (.element parent) := by
    have hfits := Item.fits_putAt hfits hc
    rw [setNode, hput]
    generalize (Item.element t.root).putAt (.ofChildren q) (.element parent) = root at hfits ⊢
    cases hfits
    rfl
  have hstep : (Item.element parent).descend [.child i] = .ok n.item :=
    Item.descend_cons_eq_ok_iff.mpr
      ⟨n.item, Item.step_eq_ok_iff.mpr (.child (List.getElem?_set_self hi)), rfl⟩
  rw [resolve_eq_ok_iff, hroot, Address.ofChildren_concat, Address.join,
    Item.descend_putAt_append hfits hc, hstep]

/-! ## Diffs -/

/-- Mutations of a part of a part, seen from the whole. -/
theorem Mutation.map_under_under (a b : Address) (ms : List Mutation) :
    (ms.map (under b)).map (under a) = ms.map (under (a ++ b)) := by
  rw [List.map_map]
  exact List.map_congr_left fun m _ => (under_append a b m).symm

/-- Lists that are the same but for one member differ as the two members do. -/
theorem diffsInStep_set {α : Type} {payload : α → Payload} {diffAt : Nat → α → α → List Mutation}
    (hself : ∀ x index, diffAt index x x = []) {l : List α} {i : Nat} (hi : i < l.length) (x y : α)
    (index : Nat) :
    diffsInStep payload diffAt index (l.set i x) (l.set i y) = diffAt (index + i) x y := by
  induction l generalizing i index with
  | nil => cases hi
  | cons z l ih =>
    cases i with
    | zero =>
      have hrest : diffsInStep payload diffAt (index + 1) l l = [] :=
        diffsInStep_eq_nil (List.forall₂_same.mpr fun x _ => hself x) (index + 1)
      rw [List.set_cons_zero, List.set_cons_zero, diffsInStep, hrest, List.append_nil]
      rfl
    | succ i =>
      rw [List.set_cons_succ, List.set_cons_succ, diffsInStep, hself, List.nil_append,
        ih (Nat.lt_of_succ_lt_succ hi), Nat.add_right_comm, Nat.add_assoc]

/-- Elements that are the same but for one child differ as the two children do. -/
theorem Element.diff_set (e : Element) {i : Nat} (hi : i < e.children.length) (a b : Node) :
    Element.diff { e with children := e.children.set i a } { e with children := e.children.set i b }
      = Node.diffAt i a b := by
  have hattributes : attributeMutations e.attributes e.attributes = [] := by
    rw [attributeMutations, PropertyList.changes_eq_nil_of_alike (.refl e.attributes), List.map_nil]
  have hrules : Rule.diffList 0 e.rules e.rules = [] :=
    Rule.diffList_eq_nil_of_alike (Rule.Alike.refl_list e.rules) 0
  have hchildren : Node.diffList 0 (e.children.set i a) (e.children.set i b) = Node.diffAt i a b := by
    rw [Node.diffList_eq, diffsInStep_set (fun n => Node.diffAt_eq_nil_of_alike (.refl n)) hi,
      Nat.zero_add]
  calc
    Element.diff { e with children := e.children.set i a } { e with children := e.children.set i b }
      = attributeMutations e.attributes e.attributes
          ++ (Rule.diffList 0 e.rules e.rules).map (Mutation.under [.shadow])
          ++ Node.diffList 0 (e.children.set i a) (e.children.set i b) := Element.diff_eq _ _
    _ = Node.diffAt i a b := by
      rw [hattributes, hrules, hchildren, List.map_nil, List.nil_append, List.nil_append]

/-- A node that an address goes through is an element. -/
theorem Node.element_of_descend {n : Node} {q : List Nat} {c : Element}
    (h : n.item.descend (.ofChildren q) = .ok (.element c)) : ∃ e, n = .element e := by
  cases n with
  | text v => cases q <;> cases h
  | element e => exact ⟨e, rfl⟩

/-- Elements that are the same but for one element inside differ as the two elements there do, seen from the
element that holds them, if these have the tag of the one that they stand for. -/
theorem Element.diff_putAt {q : List Nat} {e c f g : Element}
    (h : (Item.element e).descend (.ofChildren q) = .ok (.element c)) (hf : f.tag = c.tag)
    (hg : g.tag = c.tag) :
    ∃ f' g' : Element, (Item.element e).putAt (.ofChildren q) (.element f) = .element f' ∧
      (Item.element e).putAt (.ofChildren q) (.element g) = .element g' ∧ f'.tag = g'.tag ∧
      f'.diff g' = (f.diff g).map (Mutation.under (.ofChildren q)) := by
  induction q generalizing e with
  | nil => exact ⟨f, g, rfl, rfl, hf.trans hg.symm, (List.map_id _).symm⟩
  | cons j q ih =>
    obtain ⟨sub, hstep, hsub⟩ := Item.descend_cons_eq_ok_iff.mp h
    cases Item.step_eq_ok_iff.mp hstep with
    | @child _ _ n hn =>
      have hj : j < e.children.length := (List.getElem?_eq_some_iff.mp hn).1
      obtain ⟨d, rfl⟩ := Node.element_of_descend hsub
      obtain ⟨f', g', hf', hg', htag, hdiff⟩ := ih hsub
      refine ⟨{ e with children := e.children.set j (.element f') },
        { e with children := e.children.set j (.element g') },
        (Item.putAt_cons hstep).trans (congrArg _ hf'),
        (Item.putAt_cons hstep).trans (congrArg _ hg'), rfl, ?_⟩
      have hmatch : (Node.element f').item.Matches (Node.element g').item := .element htag
      calc
        Element.diff { e with children := e.children.set j (.element f') }
            { e with children := e.children.set j (.element g') }
          = Node.diffAt j (.element f') (.element g') := Element.diff_set e hj _ _
        _ = (f'.diff g').map (Mutation.under [.child j]) := Node.policy.diffAt_of_matches j hmatch
        _ = (f.diff g).map (Mutation.under (.ofChildren (j :: q))) := by
          rw [hdiff, Mutation.map_under_under]
          rfl

/-- The diff of two documents that are the same but for one node is that of the two nodes, in their place
in the parent. -/
theorem Tree.diff_setNode_eq {t : Tree} {q : List Nat} {i : Nat} {k : Node}
    (h : t.resolve (.ofChildren (q ++ [i])) = .ok k.item) (a b : Node) :
    (t.setNode (.ofChildren (q ++ [i])) a).diff (t.setNode (.ofChildren (q ++ [i])) b)
      = (Node.diffAt i a b).map (Mutation.under (.ofChildren q)) := by
  obtain ⟨c, hc, hi, hput⟩ := Item.putAt_concat (Tree.resolve_eq_ok_iff.mp h)
  have htag (n : Node) : Element.tag { c with children := c.children.set i n } = c.tag := rfl
  obtain ⟨f, g, hf, hg, -, hdiff⟩ := Element.diff_putAt hc (htag a) (htag b)
  rw [setNode, setNode, hput, hput, hf, hg, ← Element.diff_set c hi]
  exact hdiff

/-- Between two documents that are the same but for the node at one address, which is not the root, the
diff is that of the two nodes.  Elements with one tag differ there as they do on their own, texts by their
values, and nodes of other shapes are replaced. -/
theorem Tree.diff_setNode {t : Tree} {p : Address} {k : Node} (hp : p ≠ .root)
    (h : t.resolve p = .ok k.item) (a b : Node) :
    (∀ e f, a = .element e → b = .element f → e.tag = f.tag →
      (t.setNode p a).diff (t.setNode p b) = (Tree.diff ⟨e, []⟩ ⟨f, []⟩).map (Mutation.under p)) ∧
    (∀ v w, a = .text v → b = .text w →
      (t.setNode p a).diff (t.setNode p b) = if v = w then [] else [⟨p, .setText w (some v)⟩]) ∧
    (a.sameShape b = false → ∃ q i, p = Address.join q (.child i) ∧
      (t.setNode p a).diff (t.setNode p b)
        = [⟨q, .removeChild i⟩, ⟨q, .insertChild i (.node b) true⟩]) := by
  obtain ⟨js, rfl⟩ := Tree.ofChildren_of_resolve (Tree.resolve_eq_ok_iff.mp h)
  rcases List.eq_nil_or_concat' js with rfl | ⟨q, i, rfl⟩
  · exact absurd rfl hp
  have hjoin := Address.ofChildren_concat q i
  have hdiff := Tree.diff_setNode_eq h a b
  refine ⟨?_, ?_, ?_⟩
  · rintro e f rfl rfl htag
    have hmatch : (Node.element e).item.Matches (Node.element f).item := .element htag
    rw [hdiff, Node.policy.diffAt_of_matches i hmatch, Mutation.map_under_under, hjoin]
    rfl
  · rintro v w rfl rfl
    rw [hdiff, hjoin, Node.diffAt]
    by_cases hvw : v = w
    · rw [if_pos (beq_iff_eq.mpr hvw), if_pos hvw, List.map_nil]
    · rw [if_neg (fun h => hvw (beq_iff_eq.mp h)), if_neg hvw]
      rfl
  · intro hshape
    refine ⟨.ofChildren q, i, hjoin, ?_⟩
    rw [hdiff, Node.policy.diffAt_of_replaced i hshape]
    simp [replacement, removal, insertion, Mutation.under]

/-- The first child of a paragraph, a text, is set to nodes of all shapes.  The text beside it, and the
attribute and the rule of the paragraph, stay out of the diffs. -/
theorem Tree.diff_setNode_paragraph :
    let page : Tree := .document [.text "a", .element ⟨"p", .ofPairs [("id", "i")],
      [.text "b", .text "c"], some ⟨[.style ".b" ∅]⟩⟩]
    let p : Address := [.child 1, .child 0]
    let link (target text : String) : Node :=
      .element ⟨"a", .ofPairs [("href", target)], [.text text], none⟩
    p ≠ .root ∧ page.resolve p = .ok (Node.text "b").item ∧
      (page.setNode p (link "x" "l")).diff (page.setNode p (link "y" "m"))
        = [⟨p, .setAttribute "href" "y" (some "x")⟩, ⟨p ++ [.child 0], .setText "m" (some "l")⟩] ∧
      (page.setNode p (.text "d")).diff (page.setNode p (.text "e"))
        = [⟨p, .setText "e" (some "d")⟩] ∧
      (page.setNode p (.text "d")).diff (page.setNode p (link "x" "l"))
        = [⟨[.child 1], .removeChild 0⟩, ⟨[.child 1], .insertChild 0 (.node (link "x" "l")) true⟩] := by
  intro page p link
  have hp : p ≠ .root := by decide
  have h : page.resolve p = .ok (Node.text "b").item := rfl
  refine ⟨hp, h, ?_, ?_, ?_⟩
  · exact (Tree.diff_setNode hp h _ _).1 _ _ rfl rfl rfl
  · exact (Tree.diff_setNode hp h _ _).2.1 "d" "e" rfl rfl
  · obtain ⟨q, i, hq, hdiff⟩ := (Tree.diff_setNode hp h (.text "d") (link "x" "l")).2.2 rfl
    have hq : [Segment.child 1] ++ [.child 0] = q ++ [.child i] := hq
    obtain ⟨rfl, hi⟩ := List.append_inj' hq rfl
    cases hi
    exact hdiff

end SynthDom
