import Mathlib.Data.Set.Card
import SynthDom.Proofs.Visit.Listing
import SynthDom.Query

/-!
# The index as a census

The index of a document is gathered by one walk through all of it, stylesheets and rules included, of
which only the nodes count.  So its numbers and lists are those of the addresses that resolve to nodes.

* `Tree.nodes`, `Tree.texts`, `Tree.tagged`: the addresses of nodes, of texts, and of elements with a
  tag.
* `Address.Lists`: a list of a set of addresses in document order, each of them once.
* `Tree.encard_nodes`, `Tree.encard_texts`, `Tree.lists_tagged`: what the index says of them.
-/

namespace SynthDom

/-! ## Nodes by address -/

namespace Tree

/-- The addresses of the elements and texts of a document. -/
def nodes (t : Tree) : Set Address := {a | ∃ n : Node, t.resolve a = .ok n.item}

/-- The addresses of the texts of a document. -/
def texts (t : Tree) : Set Address := {a | ∃ value, t.resolve a = .ok (.text value)}

/-- The addresses of the elements of a document with a tag. -/
def tagged (t : Tree) (tag : String) : Set Address :=
  {a | ∃ e, t.resolve a = .ok (.element e) ∧ e.tag = tag}

end Tree

/-- A list has the addresses of a set, each of them once, in document order. -/
structure Address.Lists (as : List Address) (S : Set Address) : Prop where
  mem_iff : ∀ a, a ∈ as ↔ a ∈ S
  nodup : as.Nodup
  ordered : as.Pairwise Address.Before

theorem Address.Lists.encard {as : List Address} {S : Set Address} (h : Lists as S) :
    S.encard = as.length := by
  have hS : S = (as.toFinset : Set Address) := by
    ext a
    rw [Finset.mem_coe, List.mem_toFinset, h.mem_iff]
  rw [hS, Set.encard_coe_eq_coe_finsetCard, List.toFinset_card_of_nodup h.nodup]

/-! ## Nodes in the listing -/

namespace Item

variable {it x : Item} {a : Address}

def isNode (it : Item) : Bool := it.element?.isSome || it.text?.isSome

/-- The item is an element with a tag. -/
def hasTag (tag : String) (it : Item) : Bool := it.element?.any fun e => e.tag == tag

theorem isNode_iff : it.isNode = true ↔ ∃ n : Node, it = n.item := by
  constructor
  · intro h
    cases it with
    | element e => exact ⟨.element e, rfl⟩
    | text v => exact ⟨.text v, rfl⟩
    | stylesheet | rule | declaration => cases h
  · rintro ⟨n, rfl⟩
    cases n <;> rfl

theorem hasTag_iff {tag : String} : it.hasTag tag = true ↔ ∃ e, it = .element e ∧ e.tag = tag := by
  cases it <;> simp [hasTag, element?]

theorem isText_iff : it.text?.isSome = true ↔ ∃ value, it = .text value := by
  cases it <;> simp [text?]

theorem kind_item_ne (n : Node) : n.item.kind ≠ .declaration := by
  cases n <;> exact nofun

/-- An address to a node starts from one. -/
theorem node_of_descend {n : Node} (h : it.descend a = .ok n.item) : ∃ m : Node, it = m.item := by
  induction a generalizing it with
  | nil =>
    cases h
    exact ⟨n, rfl⟩
  | cons s a ih =>
    obtain ⟨sub, hs, hsub⟩ := descend_cons_eq_ok_iff.mp h
    obtain ⟨m, rfl⟩ := ih hsub
    obtain ⟨e, -, rfl, -⟩ := (step_eq_ok_iff.mp hs).of_node
    exact ⟨.element e, rfl⟩

/-- All items that a walk comes by, if nothing stops it. -/
def allListed (it : Item) : List (Address × Item) := it.listing fun _ => false

/-- A node is listed with each address that leads to it. -/
theorem mem_allListed_of_node {n : Node} (h : it.descend a = .ok n.item) :
    (a, n.item) ∈ it.allListed := by
  have hit : it.kind ≠ .declaration := by
    obtain ⟨m, rfl⟩ := node_of_descend h
    exact kind_item_ne m
  refine (mem_listing_iff hit).mpr ⟨⟨h, kind_item_ne n, ?_⟩, fun _ _ _ _ _ => rfl⟩
  -- a node is no stylesheet
  rintro q e rfl he
  obtain ⟨x, hx, hshadow⟩ := descend_join_eq_ok_iff.mp h
  cases he.symm.trans hx
  cases n <;> cases hshadow

end Item

namespace Tree

variable {t : Tree} {sort : Item → Bool} {a : Address}

/-- The addresses of the items of a sort that the walk for an index meets. -/
def places (t : Tree) (sort : Item → Bool) : List Address :=
  ((Item.element t.root).allListed.filter fun e => sort e.2).map Prod.fst

/-- Nodes of a sort are met at the addresses that resolve to one. -/
theorem lists_places (hsort : ∀ it, sort it → it.isNode) :
    Address.Lists (t.places sort) {a | ∃ it, t.resolve a = .ok it ∧ sort it} where
  mem_iff a := by
    rw [places, List.mem_map]
    constructor
    · rintro ⟨⟨a, it⟩, hmem, rfl⟩
      obtain ⟨hmem, hit⟩ := List.mem_filter.mp hmem
      have hholds := ((Item.mem_listing_iff (Item.kind_item_ne (.element t.root))).mp hmem).1
      exact ⟨it, resolve_eq_ok_iff.mpr hholds.1, hit⟩
    · rintro ⟨it, ha, hit⟩
      obtain ⟨n, rfl⟩ := Item.isNode_iff.mp (hsort it hit)
      have hmem := Item.mem_allListed_of_node (resolve_eq_ok_iff.mp ha)
      exact ⟨(a, n.item), List.mem_filter.mpr ⟨hmem, hit⟩, rfl⟩
  nodup := Address.nodup_of_pairwise (List.pairwise_map.mpr ((Item.pairwise_listing _ _).filter _))
  ordered := List.pairwise_map.mpr ((Item.pairwise_listing _ _).filter _)

end Tree

/-! ## The index -/

namespace TreeIndex

/-- The walk for an index is not stopped. -/
theorem goes_on (a : Address) (it : Item) (x : TreeIndex) : (visitor.meet a it x).2 = true := by
  cases it <;> rfl

/-- The index after one more item is met. -/
def add (x : TreeIndex) (e : Address × Item) : TreeIndex := (visitor.meet e.1 e.2 x).1

theorem nodeCount_add (x : TreeIndex) (e : Address × Item) :
    (x.add e).nodeCount = x.nodeCount + if e.2.isNode then 1 else 0 := by
  obtain ⟨a, it⟩ := e
  cases it <;> rfl

theorem textCount_add (x : TreeIndex) (e : Address × Item) :
    (x.add e).textCount = x.textCount + if e.2.text?.isSome then 1 else 0 := by
  obtain ⟨a, it⟩ := e
  cases it <;> rfl

theorem findByTag_add (tag : String) (x : TreeIndex) (e : Address × Item) :
    (x.add e).findByTag tag = x.findByTag tag ++ if e.2.hasTag tag then [e.1] else [] := by
  obtain ⟨a, it⟩ := e
  cases it with
  | element f =>
    by_cases hf : f.tag = tag <;>
      simp [add, Visitor.meet, visitor, findByTag, Item.hasTag, Item.element?, hf]
  | text | stylesheet | rule | declaration => exact (List.append_nil _).symm

/-- What goes up by one at the items of a sort counts them. -/
theorem count_foldl_add (count : TreeIndex → Nat) (sort : Item → Bool)
    (hadd : ∀ x e, count (add x e) = count x + if sort e.2 then 1 else 0)
    (l : List (Address × Item)) (x : TreeIndex) :
    count (l.foldl add x) = count x + (l.filter fun e => sort e.2).length := by
  induction l generalizing x with
  | nil => rfl
  | cons e l ih =>
    rw [List.foldl_cons, ih, hadd, List.filter_cons, Nat.add_assoc]
    split <;> simp [Nat.add_comm]

theorem findByTag_foldl_add (tag : String) (l : List (Address × Item)) (x : TreeIndex) :
    (l.foldl add x).findByTag tag =
      x.findByTag tag ++ (l.filter fun e => e.2.hasTag tag).map Prod.fst := by
  induction l generalizing x with
  | nil => exact (List.append_nil _).symm
  | cons e l ih =>
    rw [List.foldl_cons, ih, findByTag_add, List.filter_cons, List.append_assoc]
    split <;> rfl

end TreeIndex

namespace Tree

variable (t : Tree)

/-- The index is that of the items that the walk meets, one after the other. -/
theorem index_eq_foldl :
    t.index = (Item.element t.root).allListed.foldl TreeIndex.add {} :=
  Item.walk_eq_foldl (fun a it x _ => TreeIndex.goes_on a it x) Address.root (.element t.root) {}

/-- The node count is the number of addresses that resolve to an element or a text. -/
theorem encard_nodes : t.nodes.encard = t.index.nodeCount := by
  have hnodes : t.nodes = {a | ∃ it, t.resolve a = .ok it ∧ it.isNode} := by
    ext a
    simp only [nodes, Set.mem_ofPred_eq, Item.isNode_iff]
    grind
  rw [hnodes, (lists_places fun _ h => h).encard, places, List.length_map, index_eq_foldl,
    TreeIndex.count_foldl_add _ Item.isNode TreeIndex.nodeCount_add]
  simp

/-- The text count is the number of addresses that resolve to a text. -/
theorem encard_texts : t.texts.encard = t.index.textCount := by
  have htexts : t.texts = {a | ∃ it, t.resolve a = .ok it ∧ it.text?.isSome} := by
    ext a
    simp only [texts, Set.mem_ofPred_eq, Item.isText_iff]
    grind
  have hsort (it : Item) (h : it.text?.isSome = true) : it.isNode = true := by
    simp [Item.isNode, h]
  rw [htexts, (lists_places hsort).encard, places, List.length_map, index_eq_foldl,
    TreeIndex.count_foldl_add _ (·.text?.isSome) TreeIndex.textCount_add]
  simp

/-- What is found by a tag are the addresses that resolve to an element with this tag. -/
theorem lists_tagged (tag : String) : Address.Lists (t.index.findByTag tag) (t.tagged tag) := by
  have htagged : t.tagged tag = {a | ∃ it, t.resolve a = .ok it ∧ it.hasTag tag} := by
    ext a
    simp only [tagged, Set.mem_ofPred_eq, Item.hasTag_iff]
    grind
  have hsort (it : Item) (h : it.hasTag tag = true) : it.isNode = true := by
    obtain ⟨e, rfl, -⟩ := Item.hasTag_iff.mp h
    rfl
  rw [htagged, index_eq_foldl, TreeIndex.findByTag_foldl_add]
  exact lists_places hsort

end Tree

end SynthDom
