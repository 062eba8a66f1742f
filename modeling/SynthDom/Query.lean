import SynthDom.Visit

/-!
# Queries

Counting the nodes of a document and finding its elements by tag, from an index that one walk
gathers.  A `QueryCache` keeps the index of the document asked about last, which it knows by the
identity of its root; it does not look at the document to find out whether it is the same.

* `TreeIndex`, `Tree.index`: the index of a document.
* `HeldTree`: a document with an identity.
* `QueryCache.indexFor`: the index of a document, kept or made anew.
-/

namespace SynthDom

/-- What the queries need to know about a document. -/
structure TreeIndex where
  nodeCount : Nat := 0
  textCount : Nat := 0
  /-- Tags and addresses of the elements, the last one first. -/
  elements : List (String × Address) := []

namespace TreeIndex

/-- The visitor that gathers an index.  It goes on into stylesheets, which change nothing of it. -/
def visitor : Visitor TreeIndex where
  element e a x :=
    ({ x with nodeCount := x.nodeCount + 1, elements := (e.tag, a) :: x.elements }, true)
  text _ _ x := { x with nodeCount := x.nodeCount + 1, textCount := x.textCount + 1 }

/-- The addresses of the elements with a tag, in document order. -/
def findByTag (x : TreeIndex) (tag : String) : List Address :=
  ((x.elements.filter fun e => e.1 == tag).map Prod.snd).reverse

end TreeIndex

/-- The index of a document. -/
def Tree.index (t : Tree) : TreeIndex := t.walk TreeIndex.visitor {}

/-- A document with the identity of its root.  Equal identities mean the same root, kept by copies
and given up by changes. -/
structure HeldTree where
  identity : Nat
  tree : Tree

/-- The index of the document asked about last, and how often it was of use. -/
structure QueryCache where
  generation : Nat := 0
  hits : Nat := 0
  misses : Nat := 0
  entry : Option (Nat × TreeIndex) := none

namespace QueryCache

/-- Forgets the index. -/
def invalidate (c : QueryCache) : QueryCache :=
  { c with generation := c.generation + 1, entry := none }

/-- The index made anew. -/
def refresh (c : QueryCache) (t : HeldTree) : TreeIndex × QueryCache :=
  let index := t.tree.index
  (index, { c with misses := c.misses + 1, entry := some (t.identity, index) })

/-- The index of a document: the kept one if it is of the same root. -/
def indexFor (c : QueryCache) (t : HeldTree) : TreeIndex × QueryCache :=
  match c.entry with
  | some (identity, index) =>
    if identity = t.identity then (index, { c with hits := c.hits + 1 }) else c.refresh t
  | none => c.refresh t

end QueryCache

end SynthDom
