import SynthDom.Mutation.Diff
import SynthDom.Mutation.Patch
import SynthDom.Query
import SynthDom.Render.Html

/-!
# Sessions

A session keeps documents under names, and one query cache for all of them.  Loading a document
gives it a new identity; copying it under another name keeps the identity; patching it gives a new
one, unless there was nothing to patch.

* `Session.Op`, `Session.Answer`: what can be asked, and what is answered.
* `Session.step`: one operation; it answers nothing if it names a document that is not there.
-/

namespace SynthDom

/-- Documents by name, and the cache of queries about them. -/
structure Session where
  trees : List (String × HeldTree) := []
  /-- No document has had this identity or a greater one. -/
  nextIdentity : Nat := 0
  cache : QueryCache := {}

namespace Session

/-- An operation of a session. -/
inductive Op where
  | load (name : String) (tree : Tree)
  | copy (source name : String)
  | drop (name : String)
  | diff (old new : String)
  | patch (source name : String) (mutations : List Mutation)
  | sync (old new source name : String)
  | equal (a b : String)
  | get (name : String)
  | nodeCount (name : String)
  | textCount (name : String)
  | findByTag (name tag : String)
  | invalidate

/-- The answer to an operation. -/
inductive Answer where
  | done
  | dropped (wasThere : Bool)
  | mutations (ms : List Mutation)
  | patched (html : String)
  | synced (ms : List Mutation) (html : String)
  | refused (e : PatchError)
  | compared (equal sameRoot : Bool)
  | tree (t : Tree)
  | count (n : Nat)
  | addresses (as : List Address)

/-- The document under a name. -/
def find? (s : Session) (name : String) : Option HeldTree :=
  (s.trees.find? fun e => e.1 == name).map Prod.snd

/-- Keeps a document under a name, in place of the one that was there. -/
def put (s : Session) (name : String) (t : HeldTree) : Session :=
  { s with trees := (name, t) :: s.trees.filter fun e => e.1 != name }

/-- Keeps a document with a new root under a name. -/
def putNew (s : Session) (name : String) (t : Tree) : Session :=
  { s.put name ⟨s.nextIdentity, t⟩ with nextIdentity := s.nextIdentity + 1 }

/-- Patches a document and keeps the result under a name. -/
def patchInto (s : Session) (source : HeldTree) (name : String) (ms : List Mutation) :
    Except PatchError (Tree × Session) :=
  (source.tree.patchAll ms).map fun t =>
    (t, if ms.isEmpty then s.put name ⟨source.identity, t⟩ else s.putNew name t)

/-- Asks about a document by its index. -/
def query (s : Session) (name : String) (answer : TreeIndex → Answer) :
    Option (Answer × Session) :=
  (s.find? name).map fun t =>
    let (index, cache) := s.cache.indexFor t
    (answer index, { s with cache })

/-- One operation. -/
def step (s : Session) : Op → Option (Answer × Session)
  | .load name t => some (.done, s.putNew name t)
  | .copy source name => (s.find? source).map fun t => (.done, s.put name t)
  | .drop name =>
    some (.dropped (s.find? name).isSome,
      { s with trees := s.trees.filter fun e => e.1 != name })
  | .diff old new => do
    let old ← s.find? old
    let new ← s.find? new
    return (.mutations (old.tree.diff new.tree), s)
  | .patch source name ms => do
    let source ← s.find? source
    match s.patchInto source name ms with
    | .ok (t, s) => return (.patched t.html, s)
    | .error e => return (.refused e, s)
  | .sync old new source name => do
    let old ← s.find? old
    let new ← s.find? new
    let source ← s.find? source
    let ms := old.tree.diff new.tree
    match s.patchInto source name ms with
    | .ok (t, s) => return (.synced ms t.html, s)
    | .error e => return (.refused e, s)
  | .equal a b => do
    let a ← s.find? a
    let b ← s.find? b
    return (.compared (a.tree.equiv b.tree) (a.identity == b.identity), s)
  | .get name => (s.find? name).map fun t => (.tree t.tree, s)
  | .nodeCount name => s.query name fun x => .count x.nodeCount
  | .textCount name => s.query name fun x => .count x.textCount
  | .findByTag name tag => s.query name fun x => .addresses (x.findByTag tag)
  | .invalidate => some (.done, { s with cache := s.cache.invalidate })

end Session

end SynthDom
