import SynthDom.Proofs.Mutation.ReplacedRules

/-!
# Diffs from equal documents

A diff looks up the entries of the old document by name, and its children and rules by position.  So
documents that are equal have the same diffs to a third one, in whatever order they list their attributes
and declarations.  There is one thing that the old order shows in: entries that are to go are dropped one
after the other in that order.

* `SameButDrops`: two lists of mutations that differ at most in the order in which they drop the entries of
  one list.
* `PropertyList.sameButDrops_changes`: the changes from two lists that are alike.
* `Policy.sameButDrops_diffAt`, `sameButDrops_diffsInStep`: what follows for the members of two lists, and
  for the lists.
* `Tree.diff_sameButDrops`: the diffs from two equal documents.
-/

namespace SynthDom

/-! ## Lists of mutations that differ in the order of what they drop -/

/-- Two mutations that drop an entry of one list: attributes of one element, or declarations of one
rule. -/
inductive Mutation.DropTogether : Mutation → Mutation → Prop
  | attributes (target : Address) (name name' : String) (oldValue oldValue' : Option String) :
      DropTogether ⟨target, .removeAttribute name oldValue⟩ ⟨target, .removeAttribute name' oldValue'⟩
  | declarations (target : Address) (name name' : String) (oldValue oldValue' : Option String) :
      DropTogether ⟨target, .removeProperty name oldValue⟩ ⟨target, .removeProperty name' oldValue'⟩

/-- The same mutations in the same order, but that mutations next to each other that drop entries of one
list may change places. -/
inductive SameButDrops : List Mutation → List Mutation → Prop
  | refl (ms : List Mutation) : SameButDrops ms ms
  | cons (m : Mutation) {ms ns : List Mutation} : SameButDrops ms ns → SameButDrops (m :: ms) (m :: ns)
  | swap {m n : Mutation} (ms : List Mutation) : m.DropTogether n →
      SameButDrops (m :: n :: ms) (n :: m :: ms)
  | trans {ms ns ls : List Mutation} : SameButDrops ms ns → SameButDrops ns ls → SameButDrops ms ls

namespace SameButDrops

variable {ms ms' ns ns' : List Mutation}

/-- No mutation is lost or done twice. -/
theorem perm (h : SameButDrops ms ns) : ms.Perm ns := by
  induction h with
  | refl ms => exact .refl ms
  | cons m _ ih => exact ih.cons m
  | swap ms _ => exact .swap _ _ ms
  | trans _ _ ih ih' => exact ih.trans ih'

theorem append_left (ls : List Mutation) (h : SameButDrops ms ns) :
    SameButDrops (ls ++ ms) (ls ++ ns) := by
  induction ls with
  | nil => exact h
  | cons m _ ih => exact .cons m ih

theorem append_right (ls : List Mutation) (h : SameButDrops ms ns) :
    SameButDrops (ms ++ ls) (ns ++ ls) := by
  induction h with
  | refl ms => exact .refl _
  | cons m _ ih => exact .cons m ih
  | swap ms hdrop => exact .swap _ hdrop
  | trans _ _ ih ih' => exact ih.trans ih'

theorem append (h : SameButDrops ms ms') (h' : SameButDrops ns ns') :
    SameButDrops (ms ++ ns) (ms' ++ ns') :=
  (h.append_right ns).trans (h'.append_left ms')

/-- The same holds of the mutations as those of a whole. -/
theorem under (a : Address) (h : SameButDrops ms ns) :
    SameButDrops (ms.map (Mutation.under a)) (ns.map (Mutation.under a)) := by
  induction h with
  | refl ms => exact .refl _
  | cons m _ ih => exact .cons _ ih
  | swap ms hdrop =>
    refine .swap _ ?_
    cases hdrop with
    | attributes => exact .attributes _ _ _ _ _
    | declarations => exact .declarations _ _ _ _ _
  | trans _ _ ih ih' => exact ih.trans ih'

/-- Mutations that drop entries of one list may come in any order. -/
theorem of_perm {α : Type} {f : α → Mutation} (hdrop : ∀ x y, (f x).DropTogether (f y)) {l m : List α}
    (h : l.Perm m) : SameButDrops (l.map f) (m.map f) := by
  induction h with
  | nil => exact .refl _
  | cons x _ ih => exact .cons _ ih
  | swap x y l => exact .swap _ (hdrop y x)
  | trans _ _ ih ih' => exact ih.trans ih'

end SameButDrops

/-! ## Property lists -/

namespace PropertyList

variable {old old' : PropertyList}

theorem Alike.overwrites_eq (h : old.Alike old') (new : PropertyList) :
    overwrites old new = overwrites old' new := by
  simp only [overwrites, h.get?_eq]

theorem Alike.insertions_eq (h : old.Alike old') (new : PropertyList) :
    insertions old new = insertions old' new := by
  simp only [insertions, h.contains_eq]

/-- Lists that are alike take the same changes, but for the order in which entries are dropped. -/
theorem sameButDrops_changes (h : old.Alike old') (new : PropertyList) {toAction : Change → Action}
    (hdrop : ∀ e d : String × String, Mutation.DropTogether ⟨[], toAction (.removed e.1 e.2)⟩
      ⟨[], toAction (.removed d.1 d.2)⟩) :
    SameButDrops ((changes old new).map fun c => ⟨[], toAction c⟩)
      ((changes old' new).map fun c => ⟨[], toAction c⟩) := by
  have hremovals : SameButDrops ((removals old new).map fun c => ⟨[], toAction c⟩)
      ((removals old' new).map fun c => ⟨[], toAction c⟩) := by
    rw [removals, removals, List.map_map, List.map_map]
    exact .of_perm hdrop (List.Perm.filter _ h)
  simp only [changes, List.map_append, h.overwrites_eq, h.insertions_eq]
  exact (hremovals.append_right _).append_right _

theorem sameButDrops_attributeMutations (h : old.Alike old') (new : PropertyList) :
    SameButDrops (attributeMutations old new) (attributeMutations old' new) :=
  sameButDrops_changes h new fun e d => .attributes [] e.1 d.1 (some e.2) (some d.2)

theorem sameButDrops_declarationMutations (h : old.Alike old') (new : PropertyList) :
    SameButDrops (declarationMutations old new) (declarationMutations old' new) :=
  sameButDrops_changes h new fun e d => .declarations [] e.1 d.1 (some e.2) (some d.2)

end PropertyList

/-! ## Lists by position -/

section

variable {α : Type} {segment : Nat → Segment} {member : α → Item} {payload : α → Payload}
  {diffAt : Nat → α → α → List Mutation} {replaced : α → α → Prop}

/-- The diffs from two members to a third one are the same if the same is done with both: they match it
or not, and have to be replaced by it or not. -/
theorem Policy.sameButDrops_diffAt (P : Policy segment member payload diffAt replaced) (i : Nat)
    {old old' new : α} (hmatches : (member old).Matches (member new) ↔ (member old').Matches (member new))
    (hreplaced : replaced old new ↔ replaced old' new)
    (hinside : SameButDrops ((member old).diff (member new)) ((member old').diff (member new))) :
    SameButDrops (diffAt i old new) (diffAt i old' new) := by
  by_cases hm : (member old).Matches (member new)
  · rw [P.diffAt_of_matches i hm, P.diffAt_of_matches i (hmatches.mp hm)]
    exact hinside.under [segment i]
  · by_cases hr : replaced old new
    · rw [P.diffAt_of_replaced i hr, P.diffAt_of_replaced i (hreplaced.mp hr)]
      exact .refl _
    · rw [P.diffAt_of_neither i hm hr,
        P.diffAt_of_neither i (fun h => hm (hmatches.mpr h)) (fun h => hr (hreplaced.mpr h))]
      exact .refl _

/-- The diffs from two lists to a third one are the same if those from their members are. -/
theorem sameButDrops_diffsInStep {olds olds' : List α}
    (h : List.Forall₂ (fun old old' => ∀ i new, SameButDrops (diffAt i old new) (diffAt i old' new))
      olds olds') (index : Nat) (news : List α) :
    SameButDrops (diffsInStep payload diffAt index olds news)
      (diffsInStep payload diffAt index olds' news) := by
  induction h generalizing index news with
  | nil => exact .refl _
  | cons hhead htail ih =>
    cases news with
    | nil =>
      rw [diffsInStep, diffsInStep, List.length_cons, List.length_cons, htail.length_eq]
      exact .refl _
    | cons new news =>
      rw [diffsInStep, diffsInStep]
      exact (hhead index new).append (ih (index + 1) news)

end

/-! ## Rules -/

namespace Rule

theorem Alike.matches {r r' q : Rule} (h : r.Alike r') (hmatch : (Item.rule r).Matches (.rule q)) :
    (Item.rule r').Matches (.rule q) := by
  cases hmatch with
  | rule hheader hopaque =>
    refine .rule (sameHeader_trans h.symm.sameHeader hheader) ?_
    rw [← isOpaque_eq_of_sameHeader h.sameHeader]
    exact hopaque

theorem Alike.replaced {r r' q : Rule} (h : r.Alike r') (hreplaced : r.Replaced q) : r'.Replaced q := by
  have hheader : r'.sameHeader q = r.sameHeader q := Bool.eq_iff_iff.mpr
    ⟨sameHeader_trans h.sameHeader, sameHeader_trans h.symm.sameHeader⟩
  have hequiv : r'.equiv q = r.equiv q := Bool.eq_iff_iff.mpr (by
    rw [equiv_iff_alike, equiv_iff_alike]
    exact ⟨h.trans, h.symm.trans⟩)
  rw [Replaced, hheader, hequiv, ← isOpaque_eq_of_sameHeader h.sameHeader]
  exact hreplaced

/-- The diffs from two rules that are alike to a third one in their place are the same if those inside
are. -/
theorem Alike.sameButDrops_diffAt {r r' : Rule} (h : r.Alike r')
    (hinside : ∀ q, SameButDrops ((Item.rule r).diff (.rule q)) ((Item.rule r').diff (.rule q)))
    (i : Nat) (q : Rule) : SameButDrops (diffAt i r q) (diffAt i r' q) :=
  policy.sameButDrops_diffAt i ⟨h.matches, h.symm.matches⟩ ⟨h.replaced, h.symm.replaced⟩ (hinside q)

theorem Alike.sameButDrops_diff {r r' : Rule} (h : r.Alike r') (q : Rule) :
    SameButDrops ((Item.rule r).diff (.rule q)) ((Item.rule r').diff (.rule q)) := by
  induction r generalizing r' q with
  | style s ds =>
    cases h with
    | style h =>
      cases q with
      | style t es => exact PropertyList.sameButDrops_declarationMutations h es
      | condition | keyframeStep => exact .refl _
  | keyframeStep o ds =>
    cases h with
    | keyframeStep h =>
      cases q with
      | keyframeStep p es => exact PropertyList.sameButDrops_declarationMutations h es
      | condition | style => exact .refl _
  | condition k c rs ih =>
    cases h with
    | condition h =>
      cases q with
      | condition l d qs =>
        rw [Item.diff, Item.diff, diffList_eq, diffList_eq]
        refine sameButDrops_diffsInStep ?_ 0 qs
        exact forall₂_imp_of_mem (fun r hr _ h => h.sameButDrops_diffAt (ih r hr h)) h
      | style | keyframeStep => exact .refl _

theorem sameButDrops_diffList {rs rs' : List Rule} (h : List.Forall₂ Alike rs rs') (qs : List Rule) :
    SameButDrops (diffList 0 rs qs) (diffList 0 rs' qs) := by
  rw [diffList_eq, diffList_eq]
  exact sameButDrops_diffsInStep (h.imp fun _ _ h => h.sameButDrops_diffAt h.sameButDrops_diff) 0 qs

end Rule

/-! ## Nodes and documents -/

theorem Node.Alike.sameShape_eq {n n' : Node} (h : n.Alike n') (m : Node) :
    n.sameShape m = n'.sameShape m := by
  cases h with
  | text => rfl
  | element htag =>
    cases m with
    | text => rfl
    | element f => rw [sameShape, sameShape, htag]

/-- The diffs from two nodes that are alike to a third one in their place are the same if those inside
are. -/
theorem Node.Alike.sameButDrops_diffAt {n n' : Node} (h : n.Alike n')
    (hinside : ∀ m : Node, SameButDrops (n.item.diff m.item) (n'.item.diff m.item)) (i : Nat) (m : Node) :
    SameButDrops (diffAt i n m) (diffAt i n' m) := by
  refine policy.sameButDrops_diffAt i ?_ ?_ (hinside m)
  · rw [matches_iff, matches_iff, h.sameShape_eq]
  · rw [Replaced, Replaced, h.sameShape_eq]

/-- The diffs from two elements with the same content are the same if those from their children are. -/
theorem Element.sameButDrops_diff_of_children {e e' : Element} (h : e.SameContent e')
    (hchildren : List.Forall₂ (fun n n' => ∀ i m, SameButDrops (Node.diffAt i n m) (Node.diffAt i n' m))
      e.children e'.children) (f : Element) : SameButDrops (e.diff f) (e'.diff f) := by
  rw [diff_eq, diff_eq, Node.diffList_eq, Node.diffList_eq]
  refine .append (.append ?_ ?_) ?_
  · exact PropertyList.sameButDrops_attributeMutations h.attributes f.attributes
  · exact (Rule.sameButDrops_diffList h.rules f.rules).under [.shadow]
  · exact sameButDrops_diffsInStep hchildren 0 f.children

theorem Node.Alike.sameButDrops_diff {n n' : Node} (h : n.Alike n') (m : Node) :
    SameButDrops (n.item.diff m.item) (n'.item.diff m.item) := by
  induction n generalizing n' m with
  | text v =>
    cases h
    exact .refl _
  | element e ih =>
    cases n' with
    | text w => cases h
    | element e' =>
      obtain ⟨-, hsame⟩ := Node.alike_element_iff.mp h
      cases m with
      | text w => exact .refl _
      | element f =>
        refine Element.sameButDrops_diff_of_children hsame ?_ f
        exact forall₂_imp_of_mem (fun n hn _ h => h.sameButDrops_diffAt (ih n hn h)) hsame.children

/-- Equal documents have the same diffs to a third one: the same mutations, each as many times, and in the
same order but for those next to each other that drop attributes of one element or declarations of one
rule. -/
theorem Tree.diff_sameButDrops {old old' : Tree} (h : old.equiv old' = true) (new : Tree) :
    (old'.diff new).Perm (old.diff new) ∧ SameButDrops (old'.diff new) (old.diff new) := by
  have hsame : old'.root.SameContent old.root := (Tree.equiv_iff_alike.mp h).symm
  have hdiff : SameButDrops (old'.diff new) (old.diff new) :=
    Element.sameButDrops_diff_of_children hsame
      (hsame.children.imp fun _ _ h => h.sameButDrops_diffAt h.sameButDrops_diff) new.root
  exact ⟨hdiff.perm, hdiff⟩

/-- Of a paragraph two attributes and two declarations go, and another attribute is changed.  The second
document has all of them the other way round, and another tag, an empty stylesheet and a module. -/
theorem Tree.diff_sameButDrops_paragraph :
    let page (attributes declarations : List (String × String)) : Tree :=
      .document [.element ⟨"p", .ofPairs attributes, [.text "a"],
        some ⟨[.style ".b" (.ofPairs declarations)]⟩⟩]
    let old := page [("id", "i"), ("title", "t"), ("class", "c")] [("color", "red"), ("margin", "0")]
    let body := page [("class", "c"), ("title", "t"), ("id", "i")] [("margin", "0"), ("color", "red")]
    let old' : Tree := ⟨{ body.root.withStylesheet .empty with tag := "body" }, ["m"]⟩
    let new := page [("title", "u")] []
    let p : Address := [.child 0]
    let r : Address := [.child 0, .shadow, .rule 0]
    let change : Mutation := ⟨p, .setAttribute "title" "u" (some "t")⟩
    old.equiv old' = true ∧
      old.diff new
        = [⟨p, .removeAttribute "id" (some "i")⟩, ⟨p, .removeAttribute "class" (some "c")⟩, change,
          ⟨r, .removeProperty "color" (some "red")⟩, ⟨r, .removeProperty "margin" (some "0")⟩] ∧
      old'.diff new
        = [⟨p, .removeAttribute "class" (some "c")⟩, ⟨p, .removeAttribute "id" (some "i")⟩, change,
          ⟨r, .removeProperty "margin" (some "0")⟩, ⟨r, .removeProperty "color" (some "red")⟩] ∧
      (old'.diff new).Perm (old.diff new) ∧ SameButDrops (old'.diff new) (old.diff new) := by
  intro page old body old' new p r change
  have hequal : old.equiv old' = true := rfl
  exact ⟨hequal, rfl, rfl, Tree.diff_sameButDrops hequal new⟩

end SynthDom
