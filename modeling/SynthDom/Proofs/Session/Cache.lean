import SynthDom.Proofs.Run
import SynthDom.Proofs.Visit.Census
import SynthDom.Session

/-!
# The query cache is never stale

The cache knows the document it was asked about last by its identity only.  This is enough, because an
identity is never given to two documents.  Each identity given so far has one owner, and whatever is
held or kept under that identity, a document under any name or the index, is the owner or its index.

* `Session.Effect`: what an operation does to a session.
* `Session.Owned`: the invariant.
* `Session.AskedLast`: the document that a run asked about last, and `Session.askedLast_iff`: it is the
  one that the cache knows.
* `Session.query_current`: every query is answered from the document as it is, and which queries use
  the kept index.
-/

namespace SynthDom

/-! ## The cache -/

namespace QueryCache

variable {c : QueryCache} {t : HeldTree} {index : TreeIndex}

theorem indexFor_of_entry (h : c.entry = some (t.identity, index)) :
    c.indexFor t = (index, { c with hits := c.hits + 1 }) := by
  rw [indexFor, h]
  exact if_pos rfl

theorem indexFor_of_ne (h : ∀ index, c.entry ≠ some (t.identity, index)) :
    c.indexFor t = c.refresh t := by
  rw [indexFor]
  split
  · rename_i identity index hentry
    rw [if_neg]
    rintro rfl
    exact h index hentry
  · rfl

/-- The index that the cache gives is the one that it keeps. -/
theorem entry_indexFor (c : QueryCache) (t : HeldTree) :
    (c.indexFor t).2.entry = some (t.identity, (c.indexFor t).1) := by
  by_cases h : ∃ index, c.entry = some (t.identity, index)
  · obtain ⟨index, h⟩ := h
    rw [indexFor_of_entry h]
    exact h
  · rw [indexFor_of_ne fun index hindex => h ⟨index, hindex⟩]
    rfl

end QueryCache

namespace Session

variable {s s' : Session} {op : Op} {ops : List Op} {name : String} {h : HeldTree} {identity : Nat}

/-! ## What an operation does -/

/-- The name of the document that an operation asks the cache about, if it asks about one. -/
def Op.asks : Op → Option String
  | .nodeCount name => some name
  | .textCount name => some name
  | .findByTag name _ => some name
  | _ => none

/-- An operation that has nothing to do with the cache. -/
def Op.Quiet (op : Op) : Prop := op.asks = none ∧ op ≠ .invalidate

/-- What an operation may do to a session. -/
inductive Effect (s : Session) : Op → Session → Prop
  /-- Nothing. -/
  | none {op : Op} : op.Quiet → Effect s op s
  /-- It keeps a document under one more name. -/
  | copied {op : Op} {h : HeldTree} (name : String) :
      op.Quiet → (∃ source, s.find? source = some h) → Effect s op (s.put name h)
  /-- It keeps a document with a new root. -/
  | made {op : Op} (name : String) (t : Tree) : op.Quiet → Effect s op (s.putNew name t)
  /-- It gives up a document. -/
  | dropped (name : String) :
      Effect s (.drop name) { s with trees := s.trees.filter fun e => e.1 != name }
  /-- It asks the cache about a document. -/
  | asked {op : Op} {name : String} {h : HeldTree} :
      op.asks = some name → s.find? name = some h →
        Effect s op { s with cache := (s.cache.indexFor h).2 }
  /-- It empties the cache. -/
  | emptied : Effect s .invalidate { s with cache := s.cache.invalidate }

/-- An operation leads from one session to another, whatever it answers. -/
def Moves (op : Op) (s s' : Session) : Prop := ∃ answer, s.step op = some (answer, s')

theorem moves_unique (op : Op) (s x y : Session) (hx : Moves op s x) (hy : Moves op s y) : x = y := by
  obtain ⟨_, hx⟩ := hx
  obtain ⟨_, hy⟩ := hy
  cases hx.symm.trans hy
  rfl

/-- Patching a document keeps one with a new root, or, if there is nothing to patch, the same one. -/
theorem effect_of_patchInto {source : String} {ms : List Mutation} {t : Tree} (hop : op.Quiet)
    (hheld : s.find? source = some h) (hpatch : s.patchInto h name ms = .ok (t, s')) :
    s.Effect op s' := by
  rw [patchInto] at hpatch
  cases ms with
  | nil =>
    cases hpatch
    exact .copied name hop ⟨source, hheld⟩
  | cons m ms =>
    cases hall : h.tree.patchAll (m :: ms) with
    | error e => rw [hall] at hpatch; cases hpatch
    | ok u =>
      rw [hall] at hpatch
      cases hpatch
      exact .made name t hop

theorem Moves.effect (hmoves : Moves op s s') : s.Effect op s' := by
  obtain ⟨answer, hstep⟩ := hmoves
  cases op with
  | load name t =>
    cases hstep
    exact .made name t ⟨rfl, nofun⟩
  | copy source name =>
    obtain ⟨h, hheld, heq⟩ := Option.map_eq_some_iff.mp hstep
    cases heq
    exact .copied name ⟨rfl, nofun⟩ ⟨source, hheld⟩
  | drop name =>
    cases hstep
    exact .dropped name
  | diff old new =>
    obtain ⟨a, -, hstep⟩ := Option.bind_eq_some_iff.mp hstep
    obtain ⟨b, -, hstep⟩ := Option.bind_eq_some_iff.mp hstep
    cases hstep
    exact .none ⟨rfl, nofun⟩
  | patch source name ms =>
    obtain ⟨h, hheld, hstep⟩ := Option.bind_eq_some_iff.mp hstep
    cases hpatch : s.patchInto h name ms with
    | error e =>
      rw [hpatch] at hstep
      cases hstep
      exact .none ⟨rfl, nofun⟩
    | ok r =>
      rw [hpatch] at hstep
      cases hstep
      exact effect_of_patchInto ⟨rfl, nofun⟩ hheld hpatch
  | sync old new source name =>
    obtain ⟨a, -, hstep⟩ := Option.bind_eq_some_iff.mp hstep
    obtain ⟨b, -, hstep⟩ := Option.bind_eq_some_iff.mp hstep
    obtain ⟨h, hheld, hstep⟩ := Option.bind_eq_some_iff.mp hstep
    cases hpatch : s.patchInto h name (a.tree.diff b.tree) with
    | error e =>
      simp only [hpatch] at hstep
      cases hstep
      exact .none ⟨rfl, nofun⟩
    | ok r =>
      simp only [hpatch] at hstep
      cases hstep
      exact effect_of_patchInto ⟨rfl, nofun⟩ hheld hpatch
  | equal a b =>
    obtain ⟨a, -, hstep⟩ := Option.bind_eq_some_iff.mp hstep
    obtain ⟨b, -, hstep⟩ := Option.bind_eq_some_iff.mp hstep
    cases hstep
    exact .none ⟨rfl, nofun⟩
  | get name =>
    obtain ⟨h, -, heq⟩ := Option.map_eq_some_iff.mp hstep
    cases heq
    exact .none ⟨rfl, nofun⟩
  | nodeCount name | textCount name | findByTag name _ =>
    obtain ⟨h, hheld, heq⟩ := Option.map_eq_some_iff.mp hstep
    cases heq
    exact .asked rfl hheld
  | invalidate =>
    cases hstep
    exact .emptied

/-! ## Owners of identities -/

/-- The documents held and the kept index are those of the owners of their identities, which are among
the identities given so far. -/
structure Owned (s : Session) (owner : Nat → Tree) : Prop where
  held : ∀ e ∈ s.trees, e.2.identity < s.nextIdentity ∧ owner e.2.identity = e.2.tree
  kept : ∀ identity index, s.cache.entry = some (identity, index) →
    identity < s.nextIdentity ∧ (owner identity).index = index

variable {owner : Nat → Tree}

theorem mem_trees_of_find? (hheld : s.find? name = some h) : ∃ e ∈ s.trees, e.2 = h := by
  obtain ⟨e, he, rfl⟩ := Option.map_eq_some_iff.mp hheld
  exact ⟨e, List.mem_of_find?_eq_some he, rfl⟩

theorem Owned.of_find? (hs : s.Owned owner) (hheld : s.find? name = some h) :
    h.identity < s.nextIdentity ∧ owner h.identity = h.tree := by
  obtain ⟨e, he, rfl⟩ := mem_trees_of_find? hheld
  exact hs.held e he

/-- Whichever way the cache comes by it, the index that it gives is that of the document. -/
theorem Owned.indexFor_fst (hs : s.Owned owner) (hheld : s.find? name = some h) :
    (s.cache.indexFor h).1 = h.tree.index := by
  by_cases hentry : ∃ index, s.cache.entry = some (h.identity, index)
  · obtain ⟨index, hentry⟩ := hentry
    rw [QueryCache.indexFor_of_entry hentry, ← (hs.of_find? hheld).2]
    exact (hs.kept _ _ hentry).2.symm
  · rw [QueryCache.indexFor_of_ne fun index hindex => hentry ⟨index, hindex⟩]
    rfl

theorem Owned.put (hs : s.Owned owner) (name : String)
    (hh : h.identity < s.nextIdentity ∧ owner h.identity = h.tree) : (s.put name h).Owned owner where
  held e he := by
    rcases List.mem_cons.mp he with rfl | he
    · exact hh
    · exact hs.held e (List.mem_of_mem_filter he)
  kept := hs.kept

/-- A new identity gets an owner, and the others keep theirs. -/
theorem Owned.putNew (hs : s.Owned owner) (name : String) (t : Tree) :
    (s.putNew name t).Owned (Function.update owner s.nextIdentity t) where
  held e he := by
    rcases List.mem_cons.mp he with rfl | he
    · exact ⟨Nat.lt_succ_self _, Function.update_self ..⟩
    · obtain ⟨hlt, howner⟩ := hs.held e (List.mem_of_mem_filter he)
      exact ⟨Nat.lt_succ_of_lt hlt, by rw [Function.update_of_ne hlt.ne, howner]⟩
  kept identity index hentry := by
    obtain ⟨hlt, howner⟩ := hs.kept identity index hentry
    exact ⟨Nat.lt_succ_of_lt hlt, by rw [Function.update_of_ne hlt.ne, howner]⟩

/-- Whatever an operation does, every identity has an owner afterwards. -/
theorem Effect.owned (heffect : s.Effect op s') (hs : s.Owned owner) :
    ∃ owner', s'.Owned owner' := by
  cases heffect with
  | none _ => exact ⟨owner, hs⟩
  | copied name _ hheld =>
    obtain ⟨source, hheld⟩ := hheld
    exact ⟨owner, hs.put name (hs.of_find? hheld)⟩
  | made name t _ => exact ⟨_, hs.putNew name t⟩
  | dropped name => exact ⟨owner, fun e he => hs.held e (List.mem_of_mem_filter he), hs.kept⟩
  | @asked _ name h _ hheld =>
    refine ⟨owner, hs.held, fun identity index hentry => ?_⟩
    cases (s.cache.entry_indexFor h).symm.trans hentry
    obtain ⟨hlt, howner⟩ := hs.of_find? hheld
    exact ⟨hlt, by rw [howner, hs.indexFor_fst hheld]⟩
  | emptied => exact ⟨owner, hs.held, nofun⟩

theorem owned_empty (owner : Nat → Tree) : ({} : Session).Owned owner := ⟨nofun, nofun⟩

/-- In every session that a run leads to, every identity has an owner. -/
theorem owned_of_run (hrun : Run Moves ops s s') (hs : s.Owned owner) :
    ∃ owner', s'.Owned owner' := by
  induction hrun generalizing owner with
  | nil _ => exact ⟨owner, hs⟩
  | cons hmoves _ ih =>
    obtain ⟨_, hs⟩ := hmoves.effect.owned hs
    exact ih hs

/-! ## The document asked about last -/

/-- An operation of a session is a query about a document with an identity. -/
def AsksAbout (s : Session) (op : Op) (identity : Nat) : Prop :=
  ∃ name h, op.asks = some name ∧ s.find? name = some h ∧ h.identity = identity

/-- A run of operations from the empty session has queries after the cache was last emptied, and the
latest of them is about a document with an identity. -/
def AskedLast (ops : List Op) (identity : Nat) : Prop :=
  ∃ before op after s, ops = before ++ op :: after ∧ Run Moves before {} s ∧
    s.AsksAbout op identity ∧ ∀ op ∈ after, op.Quiet

/-- The last operation of a run is the query, or it has nothing to do with the cache. -/
theorem askedLast_concat_iff (hrun : Run Moves ops {} s) :
    AskedLast (ops ++ [op]) identity ↔
      s.AsksAbout op identity ∨ op.Quiet ∧ AskedLast ops identity := by
  constructor
  · rintro ⟨before, op', after, s', hops, hbefore, hasks, hafter⟩
    rcases List.eq_nil_or_concat after with rfl | ⟨after, last, rfl⟩
    · obtain ⟨rfl, hop⟩ := List.append_inj' hops rfl
      cases hop
      cases hbefore.unique moves_unique hrun
      exact .inl hasks
    · rw [List.concat_eq_append, ← List.cons_append, ← List.append_assoc] at hops
      obtain ⟨rfl, hlast⟩ := List.append_inj' hops rfl
      cases hlast
      simp only [List.concat_eq_append, List.mem_append, List.mem_singleton] at hafter
      exact .inr ⟨hafter _ (.inr rfl), before, op', after, s', rfl, hbefore, hasks,
        fun op hop => hafter op (.inl hop)⟩
  · rintro (hasks | ⟨hquiet, before, op', after, s', rfl, hbefore, hasks, hafter⟩)
    · exact ⟨ops, op, [], s, rfl, hrun, hasks, nofun⟩
    · refine ⟨before, op', after ++ [op], s', by simp, hbefore, hasks, fun last hlast => ?_⟩
      rcases List.mem_append.mp hlast with hlast | hlast
      · exact hafter last hlast
      · exact List.mem_singleton.mp hlast ▸ hquiet

/-- The cache knows the document that the operation asks about; if the operation has nothing to do with
the cache, the one that it knew. -/
theorem Effect.entry_iff (heffect : s.Effect op s') :
    (∃ index, s'.cache.entry = some (identity, index)) ↔ s.AsksAbout op identity ∨
      op.Quiet ∧ ∃ index, s.cache.entry = some (identity, index) := by
  by_cases hop : op.Quiet
  · -- it is not a query, and the cache is left as it was
    have hasks : ¬s.AsksAbout op identity := by
      rintro ⟨name, _, hasks, -⟩
      cases hop.1.symm.trans hasks
    have hcache : s'.cache = s.cache := by
      cases heffect with
      | none | copied | made | dropped => rfl
      | asked hasks => cases hop.1.symm.trans hasks
      | emptied => exact absurd rfl hop.2
    simp only [hcache, hasks, hop, false_or, true_and]
  · -- it is a query or empties the cache
    simp only [hop, false_and, or_false]
    cases heffect with
    | none hquiet | copied _ hquiet | made _ _ hquiet => exact absurd hquiet hop
    | dropped => exact absurd ⟨rfl, nofun⟩ hop
    | @asked _ name h hasks hheld =>
      rw [s.cache.entry_indexFor h]
      constructor
      · rintro ⟨index, heq⟩
        cases heq
        exact ⟨name, h, hasks, hheld, rfl⟩
      · rintro ⟨name', h', hasks', hheld', rfl⟩
        cases hasks.symm.trans hasks'
        cases hheld.symm.trans hheld'
        exact ⟨_, rfl⟩
    | emptied =>
      constructor
      · rintro ⟨index, heq⟩
        cases heq
      · rintro ⟨name, h, hasks, -⟩
        cases hasks

/-- The cache knows the document that the run asked about last. -/
theorem askedLast_iff (hrun : Run Moves ops {} s) :
    AskedLast ops identity ↔ ∃ index, s.cache.entry = some (identity, index) := by
  induction ops using List.reverseRecOn generalizing s with
  | nil =>
    cases hrun.eq_of_nil
    constructor
    · rintro ⟨before, op, after, _, hops, -⟩
      exact absurd hops (by simp)
    · rintro ⟨index, heq⟩
      cases heq
  | append_singleton ops op ih =>
    obtain ⟨s', s'', hbefore, hmoves, hafter⟩ := hrun.split
    cases hafter.eq_of_nil
    rw [askedLast_concat_iff hbefore, hmoves.effect.entry_iff, ih hbefore]

/-! ## Queries -/

/-- The answer that a query about a document is to get. -/
inductive Answered (t : Tree) : Op → Answer → Prop
  | nodeCount (name : String) {n : Nat} : t.nodes.encard = n → Answered t (.nodeCount name) (.count n)
  | textCount (name : String) {n : Nat} : t.texts.encard = n → Answered t (.textCount name) (.count n)
  | findByTag (name tag : String) {as : List Address} :
      Address.Lists as (t.tagged tag) → Answered t (.findByTag name tag) (.addresses as)

theorem query_eq (hheld : s.find? name = some h) (answer : TreeIndex → Answer) :
    s.query name answer =
      some (answer (s.cache.indexFor h).1, { s with cache := (s.cache.indexFor h).2 }) := by
  rw [query, hheld]
  rfl

/-- A query is answered from an index, and rightly if that is the one of the document. -/
theorem step_of_asks (hop : op.asks = some name) :
    ∃ answer : TreeIndex → Answer, s.step op = s.query name answer ∧
      ∀ t : Tree, Answered t op (answer t.index) := by
  cases op with
  | nodeCount name =>
    cases hop
    exact ⟨fun x => .count x.nodeCount, rfl, fun t => .nodeCount name t.encard_nodes⟩
  | textCount name =>
    cases hop
    exact ⟨fun x => .count x.textCount, rfl, fun t => .textCount name t.encard_texts⟩
  | findByTag name tag =>
    cases hop
    exact ⟨fun x => .addresses (x.findByTag tag), rfl, fun t => .findByTag name tag (t.lists_tagged tag)⟩
  | load | copy | drop | diff | patch | sync | equal | get | invalidate => cases hop

/-- After any run, a query about a document that is held is answered from the document as it is.  The
kept index is used if and only if the document that was asked about last, since the cache was last
emptied, has the same identity. -/
theorem query_current (hrun : Run Moves ops {} s) (hop : op.asks = some name)
    (hheld : s.find? name = some h) :
    ∃ answer s', s.step op = some (answer, s') ∧ Answered h.tree op answer ∧
      (AskedLast ops h.identity →
        s'.cache.hits = s.cache.hits + 1 ∧ s'.cache.misses = s.cache.misses) ∧
      (¬AskedLast ops h.identity →
        s'.cache.hits = s.cache.hits ∧ s'.cache.misses = s.cache.misses + 1) := by
  obtain ⟨owner, howned⟩ := owned_of_run hrun (owned_empty fun _ => h.tree)
  obtain ⟨answer, hstep, hanswer⟩ := step_of_asks hop (s := s)
  rw [query_eq hheld] at hstep
  refine ⟨_, _, hstep, ?_, fun hlast => ?_, fun hlast => ?_⟩
  · rw [howned.indexFor_fst hheld]
    exact hanswer h.tree
  · obtain ⟨index, hentry⟩ := (askedLast_iff hrun).mp hlast
    simp only [QueryCache.indexFor_of_entry hentry, and_self]
  · rw [askedLast_iff hrun, not_exists] at hlast
    simp only [QueryCache.indexFor_of_ne hlast, QueryCache.refresh, and_self]

/-- A copy is the document that was asked about, so the kept index is used for it. -/
theorem query_current_copy :
    let t : Tree := .document [.element (.bare "p")]
    let ops : List Op := [.load "a" t, .nodeCount "a", .copy "a" "b"]
    ∃ s answer s', Run Moves ops {} s ∧ s.step (.findByTag "b" "p") = some (answer, s') ∧
      Answered t (.findByTag "b" "p") answer ∧ s'.cache.hits = 1 ∧ s'.cache.misses = 1 := by
  intro t ops
  have hrun : Run Moves ops {} _ :=
    .cons ⟨_, rfl⟩ (.cons ⟨_, rfl⟩ (.cons ⟨_, rfl⟩ (.nil _)))
  have hlast : AskedLast ops 0 := by
    refine ⟨[.load "a" t], .nodeCount "a", [.copy "a" "b"], _, rfl, .single ⟨_, rfl⟩,
      ⟨"a", ⟨0, t⟩, rfl, rfl, rfl⟩, fun op hop => ?_⟩
    cases List.mem_singleton.mp hop
    exact ⟨rfl, nofun⟩
  have hop : (Op.findByTag "b" "p").asks = some "b" := rfl
  obtain ⟨answer, s', hstep, hanswer, hhit, -⟩ := query_current (h := ⟨0, t⟩) hrun hop rfl
  obtain ⟨hhits, hmisses⟩ := hhit hlast
  exact ⟨_, answer, s', hrun, hstep, hanswer, hhits, hmisses⟩

end Session

end SynthDom
