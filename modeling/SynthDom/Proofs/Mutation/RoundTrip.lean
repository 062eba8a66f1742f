import SynthDom.Proofs.Mutation.Sync

/-!
# Diffs between documents

The two facts about a diff that a user of it relies on: carried out on the old document it gives the
new one, and it is empty exactly if there is nothing to do.  The first is read off the run of the
diff.  So is one half of the second, since an empty run leads nowhere; the other half says, part by
part, that no difference is reported between documents that are alike.
-/

namespace SynthDom

/-! ## Documents that are alike -/

/-- Lists whose members do not differ do not differ. -/
theorem diffsInStep_eq_nil {α : Type} {payload : α → Payload}
    {diffAt : Nat → α → α → List Mutation} {olds news : List α}
    (h : List.Forall₂ (fun old new => ∀ index, diffAt index old new = []) olds news)
    (index : Nat) : diffsInStep payload diffAt index olds news = [] := by
  induction h generalizing index with
  | nil => rfl
  | cons hhead _ ih => rw [diffsInStep, hhead, ih, List.nil_append]

theorem Rule.diffAt_eq_nil_of_alike {old new : Rule} (h : old.Alike new) (index : Nat) :
    Rule.diffAt index old new = [] := by
  have hequiv : Rule.equiv old new = true := Rule.equiv_iff_alike.mpr h
  cases old <;> simp only [Rule.diffAt, hequiv, if_pos]

theorem Rule.diffList_eq_nil_of_alike {olds news : List Rule}
    (h : List.Forall₂ Rule.Alike olds news) (index : Nat) : Rule.diffList index olds news = [] := by
  rw [Rule.diffList_eq]
  exact diffsInStep_eq_nil (h.imp fun _ _ h => Rule.diffAt_eq_nil_of_alike h) index

/-- Elements with the same content do not differ if their children do not. -/
theorem Element.diff_eq_nil_of_children {e f : Element} (h : e.SameContent f)
    (hchildren : List.Forall₂ (fun old new => ∀ index, Node.diffAt index old new = [])
      e.children f.children) : e.diff f = [] := by
  rw [Element.diff_eq, Rule.diffList_eq_nil_of_alike h.rules, Node.diffList_eq,
    diffsInStep_eq_nil hchildren, attributeMutations, PropertyList.changes_eq_nil_of_alike h.attributes]
  rfl

theorem Node.diffAt_eq_nil_of_alike {old : Node} :
    ∀ {new : Node}, old.Alike new → ∀ index, Node.diffAt index old new = [] := by
  induction old with
  | text v =>
    rintro _ ⟨⟩ index
    simp only [Node.diffAt, beq_self_eq_true, if_pos]
  | element e ih =>
    intro new h index
    cases new with
    | text w => cases h
    | element f =>
      obtain ⟨htag, hsame⟩ := Node.alike_element_iff.mp h
      have hchildren : List.Forall₂ (fun old new => ∀ index, Node.diffAt index old new = [])
          e.children f.children :=
        forall₂_imp_of_mem (fun n hn _ hnm => ih n hn hnm) hsame.children
      simp only [Node.diffAt, htag, beq_self_eq_true, if_pos,
        Element.diff_eq_nil_of_children hsame hchildren, List.map_nil]

theorem Element.diff_eq_nil_of_sameContent {e f : Element} (h : e.SameContent f) : e.diff f = [] :=
  Element.diff_eq_nil_of_children h (h.children.imp fun _ _ h => Node.diffAt_eq_nil_of_alike h)

/-! ## The diff of two documents -/

/-- A diff is a patch: it can be carried out on the document it starts from, and gives the one it
leads to. -/
theorem Tree.patchAll_diff_equiv (old new : Tree) :
    ∃ t, old.patchAll (old.diff new) = .ok t ∧ t.equiv new = true :=
  ⟨old.sync new, Tree.patchAll_diff old new, Tree.equiv_iff_alike.mpr (Tree.sync_alike old new)⟩

/-- A diff is empty exactly between equal documents, which are those that are alike.  So nothing
differs between a document and itself. -/
theorem Tree.diff_eq_nil_iff_equiv (old new : Tree) :
    (old.diff new = [] ↔ old.equiv new = true) ∧ (old.equiv new = true ↔ old.Alike new) ∧
      old.diff old = [] := by
  have hnil {new : Tree} (h : old.Alike new) : old.diff new = [] :=
    Element.diff_eq_nil_of_sameContent h
  have halike (h : old.diff new = []) : old.Alike new := by
    have hpatch := Tree.patchAll_diff old new
    rw [h, Tree.patchAll_nil] at hpatch
    injection hpatch with hsame
    have hsync := Tree.sync_alike old new
    rwa [← hsame] at hsync
  refine ⟨?_, Tree.equiv_iff_alike, hnil (.refl old)⟩
  rw [Tree.equiv_iff_alike]
  exact ⟨halike, hnil⟩

end SynthDom
