import SynthDom.Proofs.Address.Replace

/-!
# Replacing the item at an address

`Item.putAt` puts an item at an address, in the place of the one that the address leads to, and leaves
the rest as it is.  What is then found at an address depends on how it lies to the one that was
written.

* `descend_putAt_append`: at and beyond it, what was put.
* `descend_putAt_before`: before it, the item that was there, with the new one further inside.
* `descend_putAt_of_incomparable`: anywhere else, what was there before.
* `putAt_putAt`: of two items put at one address the second counts.
* `putAt_comm`: of two items put at addresses that have nothing to do with each other, either may be put
  first.
* `Tree.Replaced`: a document in which the item at an address is another one.
-/

namespace SynthDom

theorem PropertyList.entryAt?_setAt_of_ne (l : PropertyList) {i j : Nat} (h : i ≠ j) (v : String) :
    (l.setAt i v).entryAt? j = l.entryAt? j := by
  simp [entryAt?, h]

theorem PropertyList.length_setAt (l : PropertyList) (i : Nat) (v : String) :
    (l.setAt i v).length = l.length := by
  rw [length, entries_setAt, List.length_modify, length]

theorem PropertyList.setAt_comm (l : PropertyList) {i j : Nat} (h : i ≠ j) (v w : String) :
    (l.setAt i v).setAt j w = (l.setAt j w).setAt i v := by
  refine ext_entries (List.ext_getElem? fun k => ?_)
  simp only [entries_setAt, List.getElem?_modify]
  by_cases hi : i = k
  · have hj : ¬j = k := fun hj => h (hi.trans hj.symm)
    simp [hi, hj]
  · simp [hi]

/-- Two addresses of which neither leads on to the other. -/
def Address.Incomparable (a b : Address) : Prop := ¬a <+: b ∧ ¬b <+: a

theorem Address.Incomparable.symm {a b : Address} (h : a.Incomparable b) : b.Incomparable a := And.symm h

theorem Address.incomparable_cons_iff {s : Segment} {a b : Address} :
    Incomparable (s :: a) (s :: b) ↔ a.Incomparable b := by
  simp only [Incomparable, List.prefix_cons_inj]

namespace Item

variable {it sub old new x : Item} {s s' : Segment} {a b : Address}

/-! ## Other steps -/

theorem ruleAt_set_of_ne (rules : List Rule) {i j : Nat} (h : i ≠ j) (r : Rule) :
    ruleAt (rules.set i r) j = ruleAt rules j := by
  rw [ruleAt, List.getElem?_set_ne h, List.length_set]
  rfl

theorem declarationAt_setAt_of_ne (ds : PropertyList) {i j : Nat} (h : i ≠ j) (v : String) :
    declarationAt (ds.setAt i v) j = declarationAt ds j := by
  rw [declarationAt, PropertyList.entryAt?_setAt_of_ne ds h, PropertyList.length_setAt]
  rfl

/-- What fits in the place of a node is a node. -/
theorem node_of_fits {n : Node} (h : n.item.Fits new) : ∃ k : Node, new = k.item := by
  cases n with
  | text v =>
    cases h with
    | text _ w => exact ⟨.text w, rfl⟩
  | element c =>
    cases h with
    | element _ d => exact ⟨.element d, rfl⟩

/-- With another part in one place, the steps to other places lead where they led. -/
theorem step_put_of_ne (h : it.step s = .ok sub) (hfits : sub.Fits new) (hne : s ≠ s') :
    (it.put s new).step s' = it.step s' := by
  rw [step_eq_ok_iff] at h
  cases h with
  | @child e i n hn =>
    obtain ⟨k, rfl⟩ := node_of_fits hfits
    rw [put_child]
    cases s' with
    | child j =>
      have hij : i ≠ j := fun h => hne (congrArg Segment.child h)
      simp only [step, List.getElem?_set_ne hij, List.length_set]
    | shadow | rule | declaration => rfl
  | shadow e =>
    cases hfits with
    | stylesheet _ t =>
      cases s' with
      | shadow => exact absurd rfl hne
      | child | rule | declaration => rfl
  | @rule t i r hr =>
    cases hfits with
    | rule _ q =>
      cases s' with
      | rule j => exact ruleAt_set_of_ne t.rules (fun h => hne (congrArg Segment.rule h)) q
      | child | shadow | declaration => rfl
  | @nested k c rules i r hr =>
    cases hfits with
    | rule _ q =>
      cases s' with
      | rule j => exact ruleAt_set_of_ne rules (fun h => hne (congrArg Segment.rule h)) q
      | child | shadow | declaration => rfl
  | @styleDeclaration t ds i name v hentry =>
    cases hfits with
    | declaration _ _ w =>
      cases s' with
      | declaration j =>
        exact declarationAt_setAt_of_ne ds (fun h => hne (congrArg Segment.declaration h)) w
      | child | shadow | rule => rfl
  | @keyframeDeclaration o ds i name v hentry =>
    cases hfits with
    | declaration _ _ w =>
      cases s' with
      | declaration j =>
        exact declarationAt_setAt_of_ne ds (fun h => hne (congrArg Segment.declaration h)) w
      | child | shadow | rule => rfl

/-- Parts put in two places do not get in each other's way. -/
theorem put_comm {sub' new' : Item} (hne : s ≠ s') (h : it.step s = .ok sub)
    (h' : it.step s' = .ok sub') (hfits : sub.Fits new) (hfits' : sub'.Fits new') :
    (it.put s new).put s' new' = (it.put s' new').put s new := by
  rw [step_eq_ok_iff] at h h'
  cases h with
  | @child e i n hn =>
    obtain ⟨k, rfl⟩ := node_of_fits hfits
    cases h' with
    | @child _ j n' hn' =>
      obtain ⟨k', rfl⟩ := node_of_fits hfits'
      have hij : i ≠ j := fun h => hne (congrArg Segment.child h)
      simp only [put_child, List.set_comm _ _ hij]
    | shadow =>
      cases hfits'
      cases k <;> rfl
  | shadow e =>
    cases hfits
    cases h' with
    | child hn' =>
      obtain ⟨k', rfl⟩ := node_of_fits hfits'
      cases k' <;> rfl
    | shadow => exact absurd rfl hne
  | @rule t i r hr =>
    cases hfits
    cases h' with
    | @rule _ j r' hr' =>
      cases hfits'
      have hij : i ≠ j := fun h => hne (congrArg Segment.rule h)
      simp only [put, List.set_comm _ _ hij]
  | @nested k c rules i r hr =>
    cases hfits
    cases h' with
    | @nested _ _ _ j r' hr' =>
      cases hfits'
      have hij : i ≠ j := fun h => hne (congrArg Segment.rule h)
      simp only [put, List.set_comm _ _ hij]
  | @styleDeclaration t ds i name v hentry =>
    cases hfits
    cases h' with
    | @styleDeclaration _ _ j =>
      cases hfits'
      have hij : i ≠ j := fun h => hne (congrArg Segment.declaration h)
      simp only [put, PropertyList.setAt_comm ds hij]
  | @keyframeDeclaration o ds i name v hentry =>
    cases hfits
    cases h' with
    | @keyframeDeclaration _ _ j =>
      cases hfits'
      have hij : i ≠ j := fun h => hne (congrArg Segment.declaration h)
      simp only [put, PropertyList.setAt_comm ds hij]

/-! ## Replacing at an address -/

/-- The item with another one at an address, in the place of the one that the address leads to. -/
def putAt : Address → Item → Item → Item
  | [], _, new => new
  | s :: a, it, new =>
    match it.step s with
    | .ok sub => it.put s (putAt a sub new)
    | .error _ => it

@[simp] theorem putAt_nil (it new : Item) : it.putAt [] new = new := rfl

theorem putAt_cons (h : it.step s = .ok sub) :
    it.putAt (s :: a) new = it.put s (sub.putAt a new) := by
  rw [putAt, h]

/-- An address that leads somewhere does so by its first step. -/
theorem descend_cons_eq_ok_iff :
    it.descend (s :: a) = .ok x ↔ ∃ sub, it.step s = .ok sub ∧ sub.descend a = .ok x := by
  rw [descend_cons]
  cases it.step s <;> simp [Except.bind]

/-- An address that leads somewhere does so past every place on the way. -/
theorem descend_append_eq_ok_iff :
    it.descend (a ++ b) = .ok x ↔ ∃ sub, it.descend a = .ok sub ∧ sub.descend b = .ok x := by
  rw [descend_append]
  cases it.descend a <;> simp [Except.bind]

/-- With an item further inside replaced, the whole keeps its own data. -/
theorem sameOwn_putAt_cons (it : Item) (s : Segment) (a : Address) (new : Item) :
    it.SameOwn (it.putAt (s :: a) new) := by
  rw [putAt]
  cases it.step s with
  | ok sub => exact sameOwn_put it s _
  | error r => exact .refl it

/-- With an item replaced by one with its head, the whole keeps its head. -/
theorem sameHead_putAt (hhead : old.SameHead new) (h : it.descend a = .ok old) :
    it.SameHead (it.putAt a new) := by
  cases a with
  | nil =>
    cases h
    exact hhead
  | cons s a => exact (sameOwn_putAt_cons it s a new).sameHead

/-- With an item replaced by one that fits, the whole fits where it was. -/
theorem fits_putAt (hfits : old.Fits new) (h : it.descend a = .ok old) :
    it.Fits (it.putAt a new) := by
  cases a with
  | nil =>
    cases h
    exact hfits
  | cons s a => exact (sameOwn_putAt_cons it s a new).sameHead.fits

/-- The step on the way to a replaced item leads to a part in which it is replaced. -/
theorem step_putAt (hfits : old.Fits new) (hs : it.step s = .ok sub)
    (h : sub.descend a = .ok old) : (it.putAt (s :: a) new).step s = .ok (sub.putAt a new) := by
  rw [putAt_cons hs]
  exact step_put hs (fits_putAt hfits h)

/-- On the way to a replaced item the items are those that were there, with the new one inside. -/
theorem descend_putAt_before (hfits : old.Fits new) (ha : it.descend a = .ok x)
    (hb : x.descend b = .ok old) : (it.putAt (a ++ b) new).descend a = .ok (x.putAt b new) := by
  induction a generalizing it with
  | nil =>
    cases ha
    rfl
  | cons s a ih =>
    obtain ⟨sub, hs, hsub⟩ := descend_cons_eq_ok_iff.mp ha
    have hold : sub.descend (a ++ b) = .ok old := descend_append_eq_ok_iff.mpr ⟨x, hsub, hb⟩
    rw [List.cons_append, descend_cons, step_putAt hfits hs hold]
    exact ih hsub

/-- From a replaced item on, addresses lead where they lead from the new one. -/
theorem descend_putAt_append (hfits : old.Fits new) (h : it.descend a = .ok old) (b : Address) :
    (it.putAt a new).descend (a ++ b) = new.descend b := by
  have hnew := descend_putAt_before (b := []) hfits h rfl
  rw [List.append_nil] at hnew
  rw [descend_append, hnew]
  rfl

theorem descend_putAt (hfits : old.Fits new) (h : it.descend a = .ok old) :
    (it.putAt a new).descend a = .ok new := by
  have hnew := descend_putAt_append hfits h []
  rwa [List.append_nil] at hnew

/-- An address that has nothing to do with that of a replaced item leads where it led, or to the same
failure. -/
theorem descend_putAt_of_incomparable (hfits : old.Fits new) (h : it.descend a = .ok old)
    (hab : a.Incomparable b) : (it.putAt a new).descend b = it.descend b := by
  induction a generalizing it b with
  | nil => exact absurd List.nil_prefix hab.1
  | cons s a ih =>
    cases b with
    | nil => exact absurd List.nil_prefix hab.2
    | cons s' b =>
      obtain ⟨sub, hs, hsub⟩ := descend_cons_eq_ok_iff.mp h
      by_cases hne : s = s'
      · subst hne
        rw [descend_cons, descend_cons, step_putAt hfits hs hsub, hs]
        exact ih hsub (Address.incomparable_cons_iff.mp hab)
      · -- the two part here, and the step to the other place leads where it led
        rw [descend_cons, descend_cons, putAt_cons hs,
          step_put_of_ne hs (fits_putAt hfits hsub) hne]

/-- Of two items put at one address the second counts. -/
theorem putAt_putAt {newer : Item} (hfits : old.Fits new) (hfits' : old.Fits newer)
    (h : it.descend a = .ok old) : (it.putAt a new).putAt a newer = it.putAt a newer := by
  induction a generalizing it with
  | nil => rfl
  | cons s a ih =>
    obtain ⟨sub, hs, hsub⟩ := descend_cons_eq_ok_iff.mp h
    have hpart : sub.Fits (sub.putAt a new) := fits_putAt hfits hsub
    have hpart' : sub.Fits (sub.putAt a newer) := fits_putAt hfits' hsub
    rw [putAt_cons hs, putAt_cons hs, putAt_cons (step_put hs hpart), ih hsub, put_put hs hpart hpart']

/-- Of two items put at addresses that have nothing to do with each other, either may be put first. -/
theorem putAt_comm {old' new' : Item} (hab : a.Incomparable b) (h : it.descend a = .ok old)
    (h' : it.descend b = .ok old') (hfits : old.Fits new) (hfits' : old'.Fits new') :
    (it.putAt a new).putAt b new' = (it.putAt b new').putAt a new := by
  induction a generalizing it b with
  | nil => exact absurd List.nil_prefix hab.1
  | cons s a ih =>
    cases b with
    | nil => exact absurd List.nil_prefix hab.2
    | cons s' b =>
      obtain ⟨x, hx, hxa⟩ := descend_cons_eq_ok_iff.mp h
      obtain ⟨y, hy, hyb⟩ := descend_cons_eq_ok_iff.mp h'
      have hxfits : x.Fits (x.putAt a new) := fits_putAt hfits hxa
      have hyfits : y.Fits (y.putAt b new') := fits_putAt hfits' hyb
      by_cases hne : s = s'
      · subst hne
        obtain rfl : x = y := Except.ok.inj (hx.symm.trans hy)
        have hab := Address.incomparable_cons_iff.mp hab
        have hb : (x.putAt a new).descend b = .ok old' :=
          (descend_putAt_of_incomparable hfits hxa hab).trans hyb
        have ha : (x.putAt b new').descend a = .ok old :=
          (descend_putAt_of_incomparable hfits' hyb hab.symm).trans hxa
        have hboth := ih hab hxa hyb
        calc
          (it.putAt (s :: a) new).putAt (s :: b) new'
              = it.put s ((x.putAt a new).putAt b new') := by
            rw [putAt_cons hx, putAt_cons (step_put hx hxfits),
              put_put hx hxfits (hxfits.trans (fits_putAt hfits' hb))]
          _ = it.put s ((x.putAt b new').putAt a new) := by rw [hboth]
          _ = (it.putAt (s :: b) new').putAt (s :: a) new := by
            rw [putAt_cons hx, putAt_cons (step_put hx hyfits),
              put_put hx hyfits (hyfits.trans (fits_putAt hfits ha))]
      · -- the two part here, and what is put in the one place leaves the step to the other
        have hy' := (step_put_of_ne hx hxfits hne).trans hy
        have hx' := (step_put_of_ne hy hyfits (Ne.symm hne)).trans hx
        rw [putAt_cons hx, putAt_cons hy, putAt_cons hy', putAt_cons hx',
          put_comm hne hx hy hxfits hyfits]

end Item

/-! ## Documents -/

namespace Tree

variable {t t' : Tree} {a : Address} {old new : Item}

/-- A document that is another one but for the item at an address: anything elsewhere is found as before,
and on the way to the address the items keep their own data. -/
structure Replaced (t t' : Tree) (a : Address) (new : Item) : Prop where
  here : t'.resolve a = .ok new
  elsewhere : ∀ b, a.Incomparable b → t'.resolve b = t.resolve b
  onTheWay : ∀ p, p <+: a → p ≠ a →
    ∃ x x', t.resolve p = .ok x ∧ t'.resolve p = .ok x' ∧ x.SameOwn x'
  modules : t'.modules = t.modules

/-- A document with an item that fits put in the place of another. -/
theorem replaced_of_putAt (h : t.resolve a = .ok old) (hfits : old.Fits new)
    (hput : (Item.element t.root).putAt a new = .element t'.root) (hmodules : t'.modules = t.modules) :
    t.Replaced t' a new := by
  have hold := resolve_eq_ok_iff.mp h
  refine ⟨?_, fun b hb => ?_, fun p hp hne => ?_, hmodules⟩
  · rw [resolve_eq_ok_iff, ← hput]
    exact Item.descend_putAt hfits hold
  · rw [resolve, resolve, ← hput, Item.descend_putAt_of_incomparable hfits hold hb]
  · obtain ⟨b, rfl⟩ := hp
    obtain ⟨x, hx, hxb⟩ := Item.descend_append_eq_ok_iff.mp hold
    have hx' := Item.descend_putAt_before hfits hx hxb
    rw [hput] at hx'
    refine ⟨x, x.putAt b new, resolve_eq_ok_iff.mpr hx, resolve_eq_ok_iff.mpr hx', ?_⟩
    cases b with
    | nil => exact absurd (List.append_nil p).symm hne
    | cons s b => exact Item.sameOwn_putAt_cons x s b new

end Tree

end SynthDom
