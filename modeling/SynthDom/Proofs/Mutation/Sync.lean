import SynthDom.Proofs.Mutation.Fit
import SynthDom.Proofs.Tree.Alike

/-!
# What a diff makes of a document

`Tree.sync old new` is the document that comes of carrying out `old.diff new` on `old`, given by the
recursion of the diff itself: what keeps its header or shape is brought up to date in place and
keeps the order of its entries, and everything else is the new document's.

* `Rule.sync`, `Node.sync`, `Element.sync`: the outcome for each kind of part, and `inStep` for
  lists.
* `Rule.Verdict`, `Node.Verdict`: the cases of what is done to a pair of rules or nodes, each with
  the mutations and the outcome.  Later proofs go by these cases and do not look at the definitions.
* `Element.run_diff`: a diff leads from the old element to the outcome, each mutation fitting what
  it meets, and its target reached past the heads that are on the way to it in the old element.
* `Element.sync_sameContent`: the outcome is alike the new element.

Each induction is over the old document.  For a list the statement is about any owner of it, and
about the state in which the members before a position are done and the others untouched.
-/

namespace SynthDom

/-! ## The outcome -/

/-- Brings the members of a list up to date one by one; behind the shorter list, the new one
decides. -/
def inStep {α : Type} (sync : α → α → α) : List α → List α → List α
  | old :: olds, new :: news => sync old new :: inStep sync olds news
  | _ :: _, [] => []
  | [], news => news

mutual

/-- What the diff to a rule makes of a rule. -/
def Rule.sync : Rule → Rule → Rule
  | .style s ds, new =>
    if Rule.equiv (.style s ds) new then .style s ds
    else match new with
      | .style t es => if s == t then .style s (ds.sync es) else new
      | _ => new
  | .keyframeStep o ds, new =>
    if Rule.equiv (.keyframeStep o ds) new then .keyframeStep o ds
    else match new with
      | .keyframeStep p es => if o == p then .keyframeStep o (ds.sync es) else new
      | _ => new
  | .condition k c rules, new =>
    if Rule.equiv (.condition k c rules) new then .condition k c rules
    else match new with
      | .condition l d news =>
        if k == l && c == d && !k.isOpaque then .condition k c (Rule.syncList rules news) else new
      | _ => new
termination_by structural old => old

/-- What the diff to some rules makes of some rules. -/
def Rule.syncList : List Rule → List Rule → List Rule
  | old :: olds, new :: news => Rule.sync old new :: Rule.syncList olds news
  | _ :: _, [] => []
  | [], news => news
termination_by structural olds => olds

end

mutual

/-- What the diff to a node makes of a node. -/
def Node.sync : Node → Node → Node
  | .element e, .element f =>
    if e.tag == f.tag then .element (Element.sync e f) else .element f
  | _, new => new
termination_by structural old => old

/-- What the diff to an element makes of an element.  If no rule is to change, a missing stylesheet
is not made. -/
def Element.sync : Element → Element → Element
  | ⟨tag, attributes, children, stylesheet⟩, new => {
      tag
      attributes := attributes.sync new.attributes
      children := Node.syncList children new.children
      stylesheet :=
        if (Rule.diffList 0 (stylesheet.getD .empty).rules new.rules).isEmpty then stylesheet
        else some ⟨Rule.syncList (stylesheet.getD .empty).rules new.rules⟩ }
termination_by structural old => old

/-- What the diff to some children makes of some children. -/
def Node.syncList : List Node → List Node → List Node
  | old :: olds, new :: news => Node.sync old new :: Node.syncList olds news
  | _ :: _, [] => []
  | [], news => news
termination_by structural olds => olds

end

/-- What the diff to a document makes of a document. -/
def Tree.sync (old new : Tree) : Tree := { old with root := old.root.sync new.root }

theorem Rule.syncList_eq (olds news : List Rule) :
    Rule.syncList olds news = inStep Rule.sync olds news := by
  induction olds generalizing news with
  | nil => rfl
  | cons old olds ih => cases news <;> simp [Rule.syncList, inStep, ih]

theorem Node.syncList_eq (olds news : List Node) :
    Node.syncList olds news = inStep Node.sync olds news := by
  induction olds generalizing news with
  | nil => rfl
  | cons old olds ih => cases news <;> simp [Node.syncList, inStep, ih]

/-! ## What is done to a pair -/

/-- A rule that holds declarations under a header text, as a function of the declarations. -/
inductive Rule.Block : (PropertyList → Rule) → Prop
  | style (selector : String) : Rule.Block (.style selector)
  | keyframeStep (offset : String) : Rule.Block (.keyframeStep offset)

namespace Rule.Block

variable {own : PropertyList → Rule}

theorem declarations? (h : Rule.Block own) (ds : PropertyList) : (own ds).declarations? = some ds := by
  cases h <;> rfl

theorem onRule (h : Rule.Block own) (a : Action) (ds : PropertyList) :
    a.onRule (own ds) = (a.onDeclarations (own ds).kind ds).map own := by
  cases h <;> rfl

theorem alike (h : Rule.Block own) {ds es : PropertyList} (hds : ds.Alike es) :
    (own ds).Alike (own es) := by
  cases h with
  | style s => exact .style hds
  | keyframeStep o => exact .keyframeStep hds

end Rule.Block

/-- What the diff of two rules is, and what it makes of the old one.  There are four cases. -/
inductive Rule.Verdict : Rule → Rule → Prop
  /-- Rules that are alike stay. -/
  | kept {old new : Rule} : old.Alike new → (∀ i, Rule.diffAt i old new = []) →
      Rule.sync old new = old → Rule.Verdict old new
  /-- Under the same header text, the declarations are changed. -/
  | edited {own : PropertyList → Rule} {ds es : PropertyList} : Rule.Block own →
      ¬(own ds).Alike (own es) →
      (∀ i, Rule.diffAt i (own ds) (own es)
        = (declarationMutations ds es).map (Mutation.under [.rule i])) →
      Rule.sync (own ds) (own es) = own (ds.sync es) → Rule.Verdict (own ds) (own es)
  /-- Under the same keyword and condition, the rules inside are changed. -/
  | entered {k : ConditionKind} {c : String} {rules news : List Rule} : k.isOpaque = false →
      ¬(Rule.condition k c rules).Alike (.condition k c news) →
      (∀ i, Rule.diffAt i (.condition k c rules) (.condition k c news)
        = (Rule.diffList 0 rules news).map (Mutation.under [.rule i])) →
      Rule.sync (.condition k c rules) (.condition k c news)
        = .condition k c (Rule.syncList rules news) →
      Rule.Verdict (.condition k c rules) (.condition k c news)
  /-- A rule with another header, or with an unknown keyword, is replaced. -/
  | replaced {old new : Rule} : ¬old.Alike new →
      (old.sameHeader new = true → ∃ k c rules, old = .condition k c rules ∧ k.isOpaque = true) →
      (∀ i, Rule.diffAt i old new = replacement i (.rule new)) → Rule.sync old new = new →
      Rule.Verdict old new

theorem Rule.verdict (old new : Rule) : Rule.Verdict old new := by
  by_cases heq : Rule.equiv old new = true
  · refine .kept (Rule.equiv_iff_alike.mp heq) (fun i => ?_) ?_
    · cases old <;> simp only [Rule.diffAt, heq, if_pos]
    · cases old <;> simp only [Rule.sync, heq, if_pos]
  have hnot : ¬old.Alike new := fun h => heq (Rule.equiv_iff_alike.mpr h)
  cases old with
  | style s ds =>
    cases new with
    | style t es =>
      by_cases hst : s = t
      · subst hst
        refine .edited (.style s) hnot (fun i => ?_) ?_
        · simp only [Rule.diffAt, heq, beq_self_eq_true, if_pos]
          rfl
        · simp only [Rule.sync, heq, beq_self_eq_true, if_pos]
          rfl
      · have hheader := beq_eq_false_iff_ne.mpr hst
        refine .replaced hnot (fun h => absurd (hheader.symm.trans h) nofun) (fun i => ?_) ?_
        · simp only [Rule.diffAt, heq, hheader]
          rfl
        · simp only [Rule.sync, heq, hheader]
          rfl
    | condition | keyframeStep => exact .replaced hnot nofun (fun _ => rfl) rfl
  | keyframeStep o ds =>
    cases new with
    | keyframeStep p es =>
      by_cases hop : o = p
      · subst hop
        refine .edited (.keyframeStep o) hnot (fun i => ?_) ?_
        · simp only [Rule.diffAt, heq, beq_self_eq_true, if_pos]
          rfl
        · simp only [Rule.sync, heq, beq_self_eq_true, if_pos]
          rfl
      · have hheader := beq_eq_false_iff_ne.mpr hop
        refine .replaced hnot (fun h => absurd (hheader.symm.trans h) nofun) (fun i => ?_) ?_
        · simp only [Rule.diffAt, heq, hheader]
          rfl
        · simp only [Rule.sync, heq, hheader]
          rfl
    | condition | style => exact .replaced hnot nofun (fun _ => rfl) rfl
  | condition k c rules =>
    cases new with
    | condition l d news =>
      by_cases hsame : (k == l && c == d && !k.isOpaque) = true
      · have hparts := hsame
        simp only [Bool.and_eq_true, beq_iff_eq, Bool.not_eq_true'] at hparts
        obtain ⟨⟨rfl, rfl⟩, hknown⟩ := hparts
        refine .entered hknown hnot (fun i => ?_) ?_
        · simp only [Rule.diffAt, heq, hsame, if_pos]
          rfl
        · simp only [Rule.sync, heq, hsame, if_pos]
          rfl
      · refine .replaced hnot (fun h => ⟨k, c, rules, rfl, ?_⟩) (fun i => ?_) ?_
        · simp only [Rule.sameHeader] at h
          simpa [h] using hsame
        · simp only [Rule.diffAt, heq, hsame]
          rfl
        · simp only [Rule.sync, heq, hsame]
          rfl
    | style | keyframeStep =>
      exact .replaced hnot (fun h => absurd h Bool.false_ne_true) (fun _ => rfl) rfl

/-- What the diff of two nodes is, and what it makes of the old one. -/
inductive Node.Verdict : Node → Node → Prop
  /-- A text stays. -/
  | kept (v : String) : (∀ i, Node.diffAt i (.text v) (.text v) = []) → Node.Verdict (.text v) (.text v)
  /-- A text takes another value. -/
  | rewritten {v w : String} : v ≠ w →
      (∀ i, Node.diffAt i (.text v) (.text w) = [⟨[.child i], .setText w (some v)⟩]) →
      Node.Verdict (.text v) (.text w)
  /-- An element with the same tag is changed inside. -/
  | entered {e f : Element} : e.tag = f.tag →
      (∀ i, Node.diffAt i (.element e) (.element f)
        = (Element.diff e f).map (Mutation.under [.child i])) →
      Node.sync (.element e) (.element f) = .element (e.sync f) →
      Node.Verdict (.element e) (.element f)
  /-- A node of another shape is replaced. -/
  | replaced {old new : Node} : old.sameShape new = false →
      (∀ i, Node.diffAt i old new = replacement i (.node new)) → Node.sync old new = new →
      Node.Verdict old new

theorem Node.verdict (old new : Node) : Node.Verdict old new := by
  cases old with
  | text v =>
    cases new with
    | text w =>
      by_cases hvw : v = w
      · subst hvw
        refine .kept v fun i => ?_
        simp only [Node.diffAt, beq_self_eq_true, if_pos]
      · refine .rewritten hvw fun i => ?_
        simp only [Node.diffAt, beq_eq_false_iff_ne.mpr hvw]
        rfl
    | element f => exact .replaced rfl (fun _ => rfl) rfl
  | element e =>
    cases new with
    | text w => exact .replaced rfl (fun _ => rfl) rfl
    | element f =>
      by_cases htag : e.tag = f.tag
      · refine .entered htag (fun i => ?_) ?_
        · simp only [Node.diffAt, htag, beq_self_eq_true, if_pos]
        · simp only [Node.sync, htag, beq_self_eq_true, if_pos]
      · have hshape := beq_eq_false_iff_ne.mpr htag
        refine .replaced hshape (fun i => ?_) ?_
        · simp only [Node.diffAt, hshape]
          rfl
        · simp only [Node.sync, hshape]
          rfl

/-! ## Diffs of lists by position -/

/-- The mutations that turn one list into another from an index on, given those of two members. -/
def diffsInStep {α : Type} (payload : α → Payload) (diffAt : Nat → α → α → List Mutation)
    (index : Nat) : List α → List α → List Mutation
  | old :: olds, new :: news =>
    diffAt index old new ++ diffsInStep payload diffAt (index + 1) olds news
  | olds@(_ :: _), [] => truncation index olds.length
  | [], news => extension index (news.map payload)

theorem Rule.diffList_eq (index : Nat) (olds news : List Rule) :
    Rule.diffList index olds news = diffsInStep .rule Rule.diffAt index olds news := by
  induction olds generalizing index news with
  | nil => cases news <;> rfl
  | cons old olds ih => cases news <;> simp [Rule.diffList, diffsInStep, ih]

theorem Node.diffList_eq (index : Nat) (olds news : List Node) :
    Node.diffList index olds news = diffsInStep .node Node.diffAt index olds news := by
  induction olds generalizing index news with
  | nil => cases news <;> rfl
  | cons old olds ih => cases news <;> simp [Node.diffList, diffsInStep, ih]

/-- The diff of two lists leads from the one to the other brought up to date, if the diffs of the
members do. -/
theorem Owner.run_diffsInStep {α : Type} {segment : Nat → Segment} {member : α → Item}
    {payload : α → Payload} (O : Owner segment member payload)
    {diffAt : Nat → α → α → List Mutation} {sync : α → α → α} {origin : Item} {olds : List α}
    (hhead : ∀ l, origin.SameHead (O.item l))
    (hmember : ∀ old ∈ olds, ∀ new done rest, origin.step (segment done.length) = .ok (member old) →
      Run (Mutation.StepFrom origin) (diffAt done.length old new) (O.item (done ++ old :: rest))
        (O.item (done ++ sync old new :: rest))) (news done : List α)
    (horigin : ∀ i x, olds[i]? = some x →
      origin.step (segment (done.length + i)) = .ok (member x)) :
    Run (Mutation.StepFrom origin) (diffsInStep payload diffAt done.length olds news)
      (O.item (done ++ olds)) (O.item (done ++ inStep sync olds news)) := by
  induction olds generalizing news done with
  | nil =>
    rw [diffsInStep, inStep, List.append_nil]
    exact (O.run_extension done news).here (fun _ => target_of_mem_extension) (hhead done)
  | cons old olds ih =>
    cases news with
    | nil =>
      rw [diffsInStep, inStep, List.append_nil]
      exact (O.run_truncation done (old :: olds)).here (fun _ => target_of_mem_truncation) (hhead _)
    | cons new news =>
      have hhere := hmember old List.mem_cons_self new done olds (horigin 0 old rfl)
      have hrest : ∀ i x, olds[i]? = some x →
          origin.step (segment ((done ++ [sync old new]).length + i)) = .ok (member x) := by
        intro i x hx
        rw [List.length_append, List.length_singleton, Nat.add_assoc, Nat.add_comm 1 i]
        exact horigin (i + 1) x hx
      have htail := ih (fun old' h => hmember old' (List.mem_cons_of_mem _ h)) news
        (done ++ [sync old new]) hrest
      simp only [List.length_append, List.length_singleton, List.append_assoc, List.singleton_append]
        at htail
      exact hhere.append htail

/-! ## Runs of diffs -/

/-- A change that fits a list is carried out on it. -/
theorem editEntries_of_step {what : EntryKind} {c : PropertyList.Change} {l m : PropertyList}
    (h : c.Step l m) : editEntries what l c.toEdit = .ok m := by
  rw [editEntries, h.2]

theorem Action.onElement_attributeAction (c : PropertyList.Change) (e : Element) :
    (attributeAction c).onElement e = (editEntries .attribute e.attributes c.toEdit).map
      fun attributes => { e with attributes } := by
  cases c <;> rfl

theorem Action.onDeclarations_declarationAction (c : PropertyList.Change) (found : ItemKind)
    (ds : PropertyList) :
    (declarationAction c).onDeclarations found ds = editEntries .declaration ds c.toEdit := by
  cases c <;> rfl

theorem target_of_mem_attributeMutations {old new : PropertyList} {m : Mutation}
    (h : m ∈ attributeMutations old new) : m.target = [] := by
  obtain ⟨c, -, rfl⟩ := List.mem_map.mp h
  rfl

theorem target_of_mem_declarationMutations {old new : PropertyList} {m : Mutation}
    (h : m ∈ declarationMutations old new) : m.target = [] := by
  obtain ⟨c, -, rfl⟩ := List.mem_map.mp h
  rfl

/-- The mutations of attributes lead to the synchronised attributes. -/
theorem Element.run_attributeMutations (e : Element) (new : PropertyList) :
    Run Mutation.Step (attributeMutations e.attributes new) (.element e)
      (.element { e with attributes := e.attributes.sync new }) := by
  obtain ⟨tag, attributes, children, stylesheet⟩ := e
  have hrun := PropertyList.run_changes attributes new
  have hstep : ∀ c l m, PropertyList.Change.Step c l m → Mutation.Step ⟨[], attributeAction c⟩
      (.element ⟨tag, l, children, stylesheet⟩) (.element ⟨tag, m, children, stylesheet⟩) :=
    fun c l m h => by
      refine Mutation.step_here (.attribute h.1) ?_
      rw [Action.onItem, Action.onElement_attributeAction, editEntries_of_step h]
      rfl
  exact hrun.map (g := fun l => Item.element ⟨tag, l, children, stylesheet⟩) hstep

/-- The mutations of declarations lead to the synchronised declarations. -/
theorem Rule.run_declarationMutations {own : PropertyList → Rule} (h : Rule.Block own)
    (old new : PropertyList) :
    Run Mutation.Step (declarationMutations old new) (.rule (own old))
      (.rule (own (old.sync new))) := by
  refine (PropertyList.run_changes old new).map (g := fun ds => Item.rule (own ds))
    fun c l m hstep => ?_
  refine Mutation.step_here (.declaration (h.declarations? l) hstep.1) ?_
  rw [Action.onItem, h.onRule, Action.onDeclarations_declarationAction, editEntries_of_step hstep]
  rfl

/-- The diff of two rules leads from the one to the other brought up to date. -/
theorem Rule.run_diffAt (old : Rule) : ∀ (O : RuleOwner) {origin : Item}
    (_ : ∀ l, origin.SameHead (O.item l)) (new : Rule) (done rest : List Rule)
    (_ : origin.step (.rule done.length) = .ok (.rule old)),
    Run (Mutation.StepFrom origin) (Rule.diffAt done.length old new) (O.item (done ++ old :: rest))
      (O.item (done ++ Rule.sync old new :: rest)) := by
  induction old using Rule.induct_nested with
  | h old ih =>
    intro O origin hhead new done rest horigin
    cases Rule.verdict old new with
    | kept _ hdiff hsync =>
      rw [hdiff, hsync]
      exact .nil _
    | edited hown _ hdiff hsync =>
      rw [hdiff, hsync]
      refine O.run_member done rest horigin hhead ?_
      exact (Rule.run_declarationMutations hown _ _).here (fun _ => target_of_mem_declarationMutations)
        (.refl _)
    | @entered k c rules news _ _ hdiff hsync =>
      rw [hdiff, hsync, Rule.diffList_eq, Rule.syncList_eq]
      refine O.run_member done rest horigin hhead ?_
      have hinner : ∀ l, (Item.rule (.condition k c rules)).SameHead
          ((RuleOwner.condition k c).item l) := fun l => .rule (by simp [sameHeader])
      refine (RuleOwner.condition k c).run_diffsInStep hinner
        (fun old h => ih k c rules rfl old h (RuleOwner.condition k c) hinner) news [] ?_
      intro i r hr
      rw [List.length_nil, Nat.zero_add]
      exact (RuleOwner.condition k c).part hr
    | replaced _ _ hdiff hsync =>
      rw [hdiff, hsync]
      exact (O.run_replacement done rest _ _).here (fun _ => target_of_mem_replacement) (hhead _)

/-- The diff of two stylesheets' rules. -/
theorem Rule.run_diffList (olds news : List Rule) :
    Run (Mutation.StepFrom (.stylesheet ⟨olds⟩)) (Rule.diffList 0 olds news) (.stylesheet ⟨olds⟩)
      (.stylesheet ⟨Rule.syncList olds news⟩) := by
  have hhead : ∀ l, (Item.stylesheet ⟨olds⟩).SameHead (RuleOwner.stylesheet.item l) :=
    fun l => .stylesheet _ _
  rw [Rule.diffList_eq, Rule.syncList_eq]
  refine RuleOwner.stylesheet.run_diffsInStep hhead
    (fun old _ => Rule.run_diffAt old RuleOwner.stylesheet hhead) news [] ?_
  intro i r hr
  rw [List.length_nil, Nat.zero_add]
  exact RuleOwner.stylesheet.part hr

theorem Element.diff_eq (e new : Element) :
    e.diff new = attributeMutations e.attributes new.attributes
      ++ (Rule.diffList 0 e.rules new.rules).map (Mutation.under [.shadow])
      ++ Node.diffList 0 e.children new.children := by
  obtain ⟨tag, attributes, children, stylesheet⟩ := e
  rw [← Element.rules_sheet]
  rfl

theorem Element.sync_eq (e new : Element) :
    e.sync new = {
      tag := e.tag
      attributes := e.attributes.sync new.attributes
      children := Node.syncList e.children new.children
      stylesheet :=
        if (Rule.diffList 0 e.rules new.rules).isEmpty then e.stylesheet
        else some ⟨Rule.syncList e.rules new.rules⟩ } := by
  obtain ⟨tag, attributes, children, stylesheet⟩ := e
  rw [← Element.rules_sheet]
  rfl

/-- The diff of two elements' rules makes a stylesheet only where there is something to change.  The
attributes are done by then. -/
theorem Element.run_ruleMutations (e : Element) (attributes : PropertyList) (news : List Rule) :
    Run (Mutation.StepFrom (.element e)) ((Rule.diffList 0 e.rules news).map (Mutation.under [.shadow]))
      (.element { e with attributes })
      (.element { e with
        attributes
        stylesheet :=
          if (Rule.diffList 0 e.rules news).isEmpty then e.stylesheet
          else some ⟨Rule.syncList e.rules news⟩ }) := by
  by_cases hnone : Rule.diffList 0 e.rules news = []
  · obtain ⟨tag, _, children, stylesheet⟩ := e
    simp only [hnone, List.map_nil, List.isEmpty_nil, if_pos]
    exact .nil _
  · have hempty : (Rule.diffList 0 e.rules news).isEmpty = false := List.isEmpty_eq_false_iff.mpr hnone
    have hsheet : (Item.element e).step .shadow = .ok (.stylesheet ⟨e.rules⟩) := by
      rw [← Element.rules_sheet e]
      rfl
    rw [hempty]
    refine (Rule.run_diffList e.rules news).under hsheet ?_ (.element rfl) fun h => absurd h hnone
    exact hsheet

/-- The diff of two elements leads from the one to the other brought up to date, if the diffs of its
children do in any owner of children. -/
theorem Element.run_diff_of_children (e new : Element)
    (hchildren : ∀ old ∈ e.children, ∀ (O : NodeOwner) {origin : Item}
      (_ : ∀ l, origin.SameHead (O.item l)) (new : Node) (done rest : List Node)
      (_ : origin.step (.child done.length) = .ok old.item),
      Run (Mutation.StepFrom origin) (Node.diffAt done.length old new) (O.item (done ++ old :: rest))
        (O.item (done ++ Node.sync old new :: rest))) :
    Run (Mutation.StepFrom (.element e)) (e.diff new) (.element e) (.element (e.sync new)) := by
  have hattributes := (Element.run_attributeMutations e new.attributes).here
    (fun _ => target_of_mem_attributeMutations) (.refl _)
  have hrules := Element.run_ruleMutations e (e.attributes.sync new.attributes) new.rules
  have hhead : ∀ l, (Item.element e).SameHead ((NodeOwner.element (e.sync new)).item l) := by
    intro l
    rw [Element.sync_eq]
    exact .element rfl
  have hnodes := (NodeOwner.element (e.sync new)).run_diffsInStep hhead
    (fun old h => hchildren old h (NodeOwner.element (e.sync new)) hhead) new.children [] (by
      intro i n hn
      rw [List.length_nil, Nat.zero_add]
      exact (NodeOwner.element e).part hn)
  rw [← Node.diffList_eq, ← Node.syncList_eq, List.nil_append, List.nil_append] at hnodes
  have hlast : (NodeOwner.element (e.sync new)).item (Node.syncList e.children new.children)
      = .element (e.sync new) := by
    rw [Element.sync_eq]
    rfl
  have hmiddle : (NodeOwner.element (e.sync new)).item e.children = .element { e with
      attributes := e.attributes.sync new.attributes
      stylesheet :=
        if (Rule.diffList 0 e.rules new.rules).isEmpty then e.stylesheet
        else some ⟨Rule.syncList e.rules new.rules⟩ } := by
    rw [Element.sync_eq]
    rfl
  rw [hlast, hmiddle] at hnodes
  rw [Element.diff_eq]
  exact (hattributes.append hrules).append hnodes

/-- The diff of two nodes leads from the one to the other brought up to date. -/
theorem Node.run_diffAt (old : Node) : ∀ (O : NodeOwner) {origin : Item}
    (_ : ∀ l, origin.SameHead (O.item l)) (new : Node) (done rest : List Node)
    (_ : origin.step (.child done.length) = .ok old.item),
    Run (Mutation.StepFrom origin) (Node.diffAt done.length old new) (O.item (done ++ old :: rest))
      (O.item (done ++ Node.sync old new :: rest)) := by
  induction old using Node.induct_children with
  | h old ih =>
    intro O origin hhead new done rest horigin
    cases Node.verdict old new with
    | kept v hdiff =>
      rw [hdiff]
      exact .nil _
    | @rewritten v w hvw hdiff =>
      rw [hdiff]
      have htext : Run (Mutation.StepFrom (.text v)) [⟨[], .setText w (some v)⟩] (Node.text v).item
          (Node.text w).item :=
        .single ⟨Mutation.step_here (.text hvw) rfl, .text v v⟩
      exact O.run_member done rest horigin hhead htext
    | @entered e f _ hdiff hsync =>
      rw [hdiff, hsync]
      exact O.run_member done rest horigin hhead (Element.run_diff_of_children e f (ih e rfl))
    | replaced _ hdiff hsync =>
      rw [hdiff, hsync]
      exact (O.run_replacement done rest _ _).here (fun _ => target_of_mem_replacement) (hhead _)

/-- The diff of two elements leads from the one to the other brought up to date, but for the tag. -/
theorem Element.run_diff (e new : Element) :
    Run (Mutation.StepFrom (.element e)) (e.diff new) (.element e) (.element (e.sync new)) :=
  Element.run_diff_of_children e new fun old _ => Node.run_diffAt old

/-! ## The outcome is alike the new document -/

/-- A list that is brought up to date is related to the new one if each of its members is that has one
to be brought up to. -/
theorem forall₂_inStep_of_getElem? {α : Type} {R : α → α → Prop} {sync : α → α → α}
    {olds news : List α} (hrefl : ∀ x, R x x)
    (hsync : ∀ (i : Nat) old new, olds[i]? = some old → news[i]? = some new → R (sync old new) new) :
    List.Forall₂ R (inStep sync olds news) news := by
  induction olds generalizing news with
  | nil => exact List.forall₂_same.mpr fun x _ => hrefl x
  | cons old olds ih =>
    cases news with
    | nil => exact .nil
    | cons new news =>
      exact .cons (hsync 0 old new rfl rfl) (ih fun i => hsync (i + 1))

/-- A list that is brought up to date is related to the new one if its members are. -/
theorem forall₂_inStep {α : Type} {R : α → α → Prop} {sync : α → α → α} {olds : List α}
    (hrefl : ∀ x, R x x) (hsync : ∀ old ∈ olds, ∀ new, R (sync old new) new) (news : List α) :
    List.Forall₂ R (inStep sync olds news) news :=
  forall₂_inStep_of_getElem? hrefl fun _ old new hold _ =>
    hsync old (List.mem_of_getElem? hold) new

theorem Rule.sync_alike (old new : Rule) : (Rule.sync old new).Alike new := by
  induction old using Rule.induct_nested generalizing new with
  | h old ih =>
    cases Rule.verdict old new with
    | kept halike _ hsync =>
      rw [hsync]
      exact halike
    | @edited own ds es hown _ _ hsync =>
      rw [hsync]
      exact hown.alike (PropertyList.sync_alike ds es)
    | @entered k c rules news _ _ _ hsync =>
      rw [hsync, Rule.syncList_eq]
      exact .condition (forall₂_inStep Rule.Alike.refl (ih k c rules rfl) news)
    | replaced _ _ _ hsync =>
      rw [hsync]
      exact .refl _

/-- Rules to which nothing is done are those that are wanted. -/
theorem Rule.syncList_eq_of_diffList_eq_nil {olds news : List Rule}
    (h : Rule.diffList 0 olds news = []) : Rule.syncList olds news = olds := by
  have hrun := Rule.run_diffList olds news
  rw [h] at hrun
  injection hrun.eq_of_nil with heq
  exact (congrArg Stylesheet.rules heq).symm

/-- The rules of an element that is brought up to date. -/
theorem Element.rules_sync (e new : Element) :
    (e.sync new).rules = Rule.syncList e.rules new.rules := by
  rw [Element.sync_eq]
  by_cases hnone : Rule.diffList 0 e.rules new.rules = []
  · rw [Rule.syncList_eq_of_diffList_eq_nil hnone, hnone]
    rfl
  · rw [List.isEmpty_eq_false_iff.mpr hnone]
    rfl

theorem Rule.syncList_alike (olds news : List Rule) :
    List.Forall₂ Rule.Alike (Rule.syncList olds news) news := by
  rw [Rule.syncList_eq]
  exact forall₂_inStep Rule.Alike.refl (fun old _ => Rule.sync_alike old) news

theorem Element.sync_sameContent_of_children (e new : Element)
    (hchildren : ∀ old ∈ e.children, ∀ new, (Node.sync old new).Alike new) :
    (e.sync new).SameContent new where
  attributes := by
    rw [Element.sync_eq]
    exact PropertyList.sync_alike _ _
  children := by
    rw [Element.sync_eq, Node.syncList_eq]
    exact forall₂_inStep Node.Alike.refl hchildren new.children
  rules := by
    rw [Element.rules_sync]
    exact Rule.syncList_alike e.rules new.rules

theorem Node.sync_alike (old new : Node) : (Node.sync old new).Alike new := by
  induction old using Node.induct_children generalizing new with
  | h old ih =>
    cases Node.verdict old new with
    | kept | rewritten => exact .refl _
    | @entered e f htag _ hsync =>
      rw [hsync]
      refine Node.alike_element_iff.mpr ⟨?_, Element.sync_sameContent_of_children e f (ih e rfl)⟩
      rw [Element.sync_eq, htag]
    | replaced _ _ hsync =>
      rw [hsync]
      exact .refl _

/-- The outcome of the diff to an element is alike that element, but for the tag. -/
theorem Element.sync_sameContent (e new : Element) : (e.sync new).SameContent new :=
  Element.sync_sameContent_of_children e new fun old _ => Node.sync_alike old

theorem Tree.sync_alike (old new : Tree) : (old.sync new).Alike new :=
  Element.sync_sameContent old.root new.root

/-- Carrying out a diff on the document it starts from gives its outcome. -/
theorem Tree.patchAll_diff (old new : Tree) : old.patchAll (old.diff new) = .ok (old.sync new) := by
  obtain ⟨root, hroot, hpatch⟩ := Tree.patchAll_of_run (Element.run_diff old.root new.root).steps
  cases hroot
  exact hpatch

/-- Every mutation of a diff is a step from the document that the ones before it lead to. -/
theorem Tree.step_of_diff_eq {old new : Tree} {before after : List Mutation} {m : Mutation}
    (h : old.diff new = before ++ m :: after) :
    ∃ (t : Tree) (root : Element), old.patchAll before = .ok t ∧
      t.patch m = .ok { t with root } ∧
      m.StepFrom (.element old.root) (.element t.root) (.element root) := by
  have hrun := Element.run_diff old.root new.root
  have hdiff : old.root.diff new.root = before ++ m :: after := h
  rw [hdiff] at hrun
  obtain ⟨it, it', hbefore, hstep, -⟩ := hrun.split
  obtain ⟨root, rfl, hpatch⟩ := Tree.patchAll_of_run hbefore.steps
  obtain ⟨root', rfl, hpatch'⟩ := hstep.1.patch (t := { old with root })
  exact ⟨{ old with root }, root', hpatch, hpatch', hstep⟩

end SynthDom
