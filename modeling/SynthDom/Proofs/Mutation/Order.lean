import SynthDom.Proofs.Mutation.Sync
import SynthDom.Proofs.Tree.Identical

/-!
# Diffs of documents in the same order

Carrying out a diff gives the new document up to the order of attributes and declarations.  If none of
them is reordered this is the new document as it is written: what the diff leaves alone is alike the
new part and in the same order, what it changes entry by entry takes the places of the new list, and
everything else is put in from the new document.

* `Rule.sync_eq_of_inOrder`: the outcome for a rule is the new rule.
* `Node.sync_identical`, `Tree.sync_identical`: the outcome for a node and a document.
* `Tree.patchAll_diff_identical`: the documents and their texts.
-/

namespace SynthDom

/-- Rules by position are brought up to date to the new ones if each two of them are. -/
theorem Rule.syncList_eq_of_getElem? {olds news : List Rule}
    (h : ∀ (i : Nat) old new, olds[i]? = some old → news[i]? = some new → Rule.sync old new = new) :
    Rule.syncList olds news = news := by
  rw [Rule.syncList_eq]
  exact List.forall₂_eq_eq_eq ▸ forall₂_inStep_of_getElem? (fun _ => rfl) h

/-- What the diff to a rule in the same order makes of a rule is that rule. -/
theorem Rule.sync_eq_of_inOrder {old new : Rule} (h : (Item.rule old).InOrder (.rule new)) :
    Rule.sync old new = new := by
  induction old using Rule.induct_nested generalizing new with
  | h old ih =>
    cases Rule.verdict old new with
    | kept halike _ hsync => exact hsync.trans (halike.eq_of_inOrder h)
    | edited hown _ _ hsync =>
      have horder :=
        (Rule.inOrder_iff_of_declarations (hown.declarations? _) (hown.declarations? _)).mp h
      rw [hsync, PropertyList.sync_eq_iff_sameOrder.mpr horder]
    | @entered k c rules news _ _ _ hsync =>
      have hrules : Rule.syncList rules news = news :=
        Rule.syncList_eq_of_getElem? fun i r q hr hq =>
          ih k c rules rfl r (List.mem_of_getElem? hr) (h.part (.nested hr) (.nested hq))
      rw [hsync, hrules]
    | replaced _ _ _ hsync => exact hsync

/-- What the diff to an element in the same order makes of an element, if it is so for the children. -/
theorem Element.sync_identical_of_children {e f : Element}
    (h : (Item.element e).InOrder (.element f))
    (hchildren : ∀ n ∈ e.children, ∀ m : Node, n.item.InOrder m.item →
      (Node.sync n m).Identical m) : (e.sync f).IdenticalContent f := by
  obtain ⟨hattributes, hnodes, hrules⟩ := Element.inOrder_iff.mp h
  constructor
  · rw [Element.sync_eq]
    exact PropertyList.sync_eq_iff_sameOrder.mpr hattributes
  · rw [Element.sync_eq, Node.syncList_eq]
    refine forall₂_inStep_of_getElem? Node.Identical.refl fun i n m hn hm => ?_
    exact hchildren n (List.mem_of_getElem? hn) m (hnodes i n m hn hm)
  · rw [Element.rules_sync]
    exact Rule.syncList_eq_of_getElem? fun i r q hr hq => Rule.sync_eq_of_inOrder (hrules i r q hr hq)

/-- What the diff to a node in the same order makes of a node is identical to that node. -/
theorem Node.sync_identical {old new : Node} (h : old.item.InOrder new.item) :
    (Node.sync old new).Identical new := by
  induction old using Node.induct_children generalizing new with
  | h old ih =>
    cases Node.verdict old new with
    | kept | rewritten => exact .refl _
    | @entered e f htag _ hsync =>
      have hcontent := Element.sync_identical_of_children h fun n hn _ => ih e rfl n hn
      have hsynced : (e.sync f).tag = f.tag := by
        rw [Element.sync_eq]
        exact htag
      rw [hsync]
      exact .element hsynced hcontent.attributes hcontent.children hcontent.rules
    | replaced _ _ hsync =>
      rw [hsync]
      exact .refl _

theorem Tree.sync_identical {t u : Tree} (h : t.InOrder u) : (t.sync u).Identical u :=
  Element.sync_identical_of_children (Tree.inOrder_iff.mp h) fun _ _ _ => Node.sync_identical

/-- Between documents in the same order, carrying out the diff gives the new document with the order of
its entries, all but for empty stylesheets, the tag of the root and the modules.  So it has the text of
the new document. -/
theorem Tree.patchAll_diff_identical {old new : Tree} (h : old.InOrder new) :
    ∃ t, old.patchAll (old.diff new) = .ok t ∧ t.Identical new ∧ t.html = new.html :=
  ⟨old.sync new, Tree.patchAll_diff old new, Tree.sync_identical h, (Tree.sync_identical h).html_eq⟩

/-- A paragraph takes an attribute between its two and a declaration before its two.  The new document
also has another tag at its root, an empty stylesheet there and a module. -/
theorem Tree.patchAll_diff_identical_paragraph :
    let page (attributes declarations : List (String × String)) : Tree :=
      .document [.element ⟨"p", .ofPairs attributes, [.text "a"],
        some ⟨[.style ".b" (.ofPairs declarations)]⟩⟩]
    let old := page [("id", "i"), ("title", "t")] [("color", "red"), ("margin", "0")]
    let body := page [("id", "j"), ("class", "c"), ("title", "t")]
      [("width", "1"), ("color", "red"), ("margin", "1")]
    let new : Tree := ⟨{ body.root.withStylesheet .empty with tag := "body" }, ["m"]⟩
    old.InOrder new ∧
      ∃ t, old.patchAll (old.diff new) = .ok t ∧ t.Identical new ∧ t.html = new.html := by
  intro page old body new
  have horder : old.InOrder new := by
    refine Tree.inOrder_iff.mpr (Element.inOrder_iff.mpr ⟨by decide, ?_, nofun⟩)
    rintro (_ | i) n m ⟨⟩ ⟨⟩
    refine Element.inOrder_iff.mpr ⟨by decide, ?_, ?_⟩
    · rintro (_ | i) n m ⟨⟩ ⟨⟩
      exact Item.inOrder_of_step nofun nofun nofun
    · rintro (_ | i) r q ⟨⟩ ⟨⟩
      exact (Rule.inOrder_iff_of_declarations rfl rfl).mpr (by decide)
  exact ⟨horder, Tree.patchAll_diff_identical horder⟩

end SynthDom
