import SynthDom.Address.Write

/-!
# Writing as replacing

A step from an item leads to a part of it, and `Item.put` puts another item in the place of that
part.  With it, writing at an address has one description for items of all kinds: follow the first
step, write at the rest of the address, and put the outcome where the step led.

* `Item.put`, `Item.Fits`: another item in the place of a part, and which items may stand there.
* `Item.SameHead`, `Item.SameOwn`: the same name of its own, and the same data apart from the parts, which
  no change of the parts takes from an item.
* `step_put`, `put_put`: what is put is what the step finds, and the last one put counts.
* `Item.writeAt`: writing by replacing.
* `Element.writeAt_eq`: writing to an element's parts, by the functions for each kind of part, is
  that.
-/

namespace SynthDom

/-! ## Replacing a part -/

namespace Item

/-- The item with another one in the place that a step leads to. -/
def put : Item → Segment → Item → Item
  | .element e, .child i, .element c =>
    .element { e with children := e.children.set i (.element c) }
  | .element e, .child i, .text v => .element { e with children := e.children.set i (.text v) }
  | .element e, .shadow, .stylesheet s => .element { e with stylesheet := some s }
  | .stylesheet s, .rule i, .rule r => .stylesheet ⟨s.rules.set i r⟩
  | .rule (.condition k c rules), .rule i, .rule r => .rule (.condition k c (rules.set i r))
  | .rule (.style s ds), .declaration i, .declaration _ v => .rule (.style s (ds.setAt i v))
  | .rule (.keyframeStep o ds), .declaration i, .declaration _ v =>
    .rule (.keyframeStep o (ds.setAt i v))
  | it, _, _ => it

/-- A node in the place of a child. -/
theorem put_child (e : Element) (i : Nat) (n : Node) :
    (Item.element e).put (.child i) n.item = .element { e with children := e.children.set i n } := by
  cases n <;> rfl

/-- An item that may be written in the place of another: any element, text, stylesheet or rule for
one, and a declaration with its name. -/
inductive Fits : Item → Item → Prop
  | element (e f : Element) : Fits (.element e) (.element f)
  | text (v w : String) : Fits (.text v) (.text w)
  | stylesheet (s t : Stylesheet) : Fits (.stylesheet s) (.stylesheet t)
  | rule (r s : Rule) : Fits (.rule r) (.rule s)
  | declaration (name v w : String) : Fits (.declaration name v) (.declaration name w)

theorem Fits.refl (it : Item) : it.Fits it := by
  cases it <;> constructor

theorem Fits.symm {it it' : Item} (h : it.Fits it') : it'.Fits it := by
  cases h <;> constructor

theorem Fits.trans {it it' it'' : Item} (h : it.Fits it') (h' : it'.Fits it'') :
    it.Fits it'' := by
  cases h <;> cases h' <;> constructor

/-- The same kind of item under the same name of its own: elements with one tag, rules with one
header, declarations with one name. -/
inductive SameHead : Item → Item → Prop
  | element {e f : Element} : e.tag = f.tag → SameHead (.element e) (.element f)
  | text (v w : String) : SameHead (.text v) (.text w)
  | stylesheet (s t : Stylesheet) : SameHead (.stylesheet s) (.stylesheet t)
  | rule {r s : Rule} : r.sameHeader s = true → SameHead (.rule r) (.rule s)
  | declaration (name v w : String) : SameHead (.declaration name v) (.declaration name w)

theorem SameHead.fits {it it' : Item} (h : it.SameHead it') : it.Fits it' := by
  cases h <;> constructor

end Item

theorem Rule.sameHeader_refl (r : Rule) : r.sameHeader r = true := by
  cases r <;> simp [sameHeader]

theorem Rule.sameHeader_trans {r s q : Rule} (h : r.sameHeader s = true)
    (h' : s.sameHeader q = true) : r.sameHeader q = true := by
  cases r <;> cases s <;> cases q <;> simp_all [sameHeader]

theorem Item.SameHead.refl (it : Item) : it.SameHead it := by
  cases it with
  | element e => exact .element rfl
  | rule r => exact .rule r.sameHeader_refl
  | text | stylesheet | declaration => constructor

theorem Item.SameHead.trans {it it' it'' : Item} (h : it.SameHead it') (h' : it'.SameHead it'') :
    it.SameHead it'' := by
  cases h with
  | element htag =>
    cases h' with
    | element htag' => exact .element (htag.trans htag')
  | rule hheader =>
    cases h' with
    | rule hheader' => exact .rule (Rule.sameHeader_trans hheader hheader')
  | text | stylesheet | declaration => cases h'; constructor

namespace Item

/-- The same data, apart from what is inside: tag and attributes of an element, header of a rule. -/
inductive SameOwn : Item → Item → Prop
  | element {e f : Element} : e.tag = f.tag → e.attributes = f.attributes →
      SameOwn (.element e) (.element f)
  | text (v : String) : SameOwn (.text v) (.text v)
  | stylesheet (s t : Stylesheet) : SameOwn (.stylesheet s) (.stylesheet t)
  | rule {r q : Rule} : r.sameHeader q = true → SameOwn (.rule r) (.rule q)
  | declaration (name v : String) : SameOwn (.declaration name v) (.declaration name v)

theorem SameOwn.refl (it : Item) : it.SameOwn it := by
  cases it with
  | element e => exact .element rfl rfl
  | rule r => exact .rule r.sameHeader_refl
  | text | stylesheet | declaration => constructor

theorem SameOwn.sameHead {it it' : Item} (h : it.SameOwn it') : it.SameHead it' := by
  cases h with
  | element htag => exact .element htag
  | rule hheader => exact .rule hheader
  | text | stylesheet | declaration => constructor

end Item

theorem PropertyList.entryAt?_setAt {l : PropertyList} {i : Nat} {name v : String}
    (h : l.entryAt? i = some (name, v)) (w : String) :
    (l.setAt i w).entryAt? i = some (name, w) := by
  have h : l.entries[i]? = some (name, v) := h
  simp [entryAt?, h]

theorem PropertyList.setAt_self {l : PropertyList} {i : Nat} {name v : String}
    (h : l.entryAt? i = some (name, v)) : l.setAt i v = l := by
  have h : l.entries[i]? = some (name, v) := h
  refine ext_entries (List.ext_getElem? fun j => ?_)
  rw [entries_setAt, List.getElem?_modify]
  by_cases hj : i = j
  · subst hj
    simp [h]
  · simp [hj]

theorem PropertyList.setAt_setAt (l : PropertyList) (i : Nat) (v w : String) :
    (l.setAt i v).setAt i w = l.setAt i w := by
  refine ext_entries (List.ext_getElem? fun j => ?_)
  simp only [entries_setAt, List.getElem?_modify]
  by_cases hj : i = j <;> simp [hj, Function.comp_def]

namespace Item

variable {it sub sub' : Item} {s : Segment}

/-- The part of an item that a step leads to. -/
inductive Part : Item → Segment → Item → Prop
  /-- A child of an element. -/
  | child {e : Element} {i : Nat} {n : Node} :
      e.children[i]? = some n → Part (.element e) (.child i) n.item
  /-- The stylesheet of an element, or an empty one. -/
  | shadow (e : Element) : Part (.element e) .shadow (.stylesheet e.sheet)
  /-- A rule of a stylesheet. -/
  | rule {t : Stylesheet} {i : Nat} {r : Rule} :
      t.rules[i]? = some r → Part (.stylesheet t) (.rule i) (.rule r)
  /-- A rule of a condition rule. -/
  | nested {k : ConditionKind} {c : String} {rules : List Rule} {i : Nat} {r : Rule} :
      rules[i]? = some r → Part (.rule (.condition k c rules)) (.rule i) (.rule r)
  /-- A declaration of a style rule. -/
  | styleDeclaration {t : String} {ds : PropertyList} {i : Nat} {name v : String} :
      ds.entryAt? i = some (name, v) →
        Part (.rule (.style t ds)) (.declaration i) (.declaration name v)
  /-- A declaration of a keyframe step. -/
  | keyframeDeclaration {o : String} {ds : PropertyList} {i : Nat} {name v : String} :
      ds.entryAt? i = some (name, v) →
        Part (.rule (.keyframeStep o ds)) (.declaration i) (.declaration name v)

/-- The steps that can be taken are those that lead to a part. -/
theorem step_eq_ok_iff : it.step s = .ok sub ↔ it.Part s sub := by
  constructor
  · intro h
    unfold step ruleAt declarationAt at h
    split at h <;> try split at h
    all_goals cases h
    · exact .child ‹_›
    · exact .shadow _
    · exact .rule ‹_›
    · exact .nested ‹_›
    · exact .styleDeclaration ‹_›
    · exact .keyframeDeclaration ‹_›
  · rintro (h | h | h | h | h | h) <;> simp [step, ruleAt, declarationAt, *]

/-- A step to a node is one from an element to a child. -/
theorem Part.of_node {n : Node} (h : it.Part s n.item) :
    ∃ (e : Element) (i : Nat), it = .element e ∧ s = .child i ∧ e.children[i]? = some n := by
  generalize hz : n.item = z at h
  cases h with
  | @child e i k hk =>
    refine ⟨e, i, rfl, rfl, ?_⟩
    cases n <;> cases k <;> cases hz <;> exact hk
  | shadow | rule | nested | styleDeclaration | keyframeDeclaration => cases n <;> cases hz

/-- What is put in the place of a part that it fits is the part from then on. -/
theorem step_put (h : it.step s = .ok sub) (hfits : sub.Fits sub') :
    (it.put s sub').step s = .ok sub' := by
  rw [step_eq_ok_iff] at h ⊢
  cases h with
  | @child e i n h =>
    have hi : i < e.children.length := (List.getElem?_eq_some_iff.mp h).1
    cases n <;> cases hfits
    · exact .child (n := .text _) (List.getElem?_set_self hi)
    · exact .child (n := .element _) (List.getElem?_set_self hi)
  | shadow e =>
    cases hfits with
    | stylesheet _ t => exact .shadow { e with stylesheet := some t }
  | rule h =>
    cases hfits
    exact .rule (List.getElem?_set_self (List.getElem?_eq_some_iff.mp h).1)
  | nested h =>
    cases hfits
    exact .nested (List.getElem?_set_self (List.getElem?_eq_some_iff.mp h).1)
  | styleDeclaration h =>
    cases hfits
    exact .styleDeclaration (PropertyList.entryAt?_setAt h _)
  | keyframeDeclaration h =>
    cases hfits
    exact .keyframeDeclaration (PropertyList.entryAt?_setAt h _)

/-- Of two items put in the place of a part the second counts. -/
theorem put_put {x y : Item} (h : it.step s = .ok sub) (hx : sub.Fits x) (hy : sub.Fits y) :
    (it.put s x).put s y = it.put s y := by
  rw [step_eq_ok_iff] at h
  cases h with
  | @child e i n h =>
    cases n <;> cases hx <;> cases hy <;> simp only [put, List.set_set]
  | shadow e => cases hx; cases hy; rfl
  | rule h => cases hx; cases hy; simp only [put, List.set_set]
  | nested h => cases hx; cases hy; simp only [put, List.set_set]
  | styleDeclaration h => cases hx; cases hy; simp only [put, PropertyList.setAt_setAt]
  | keyframeDeclaration h => cases hx; cases hy; simp only [put, PropertyList.setAt_setAt]

/-- A whole with another part in it keeps its own data. -/
theorem sameOwn_put (it : Item) (s : Segment) (x : Item) : it.SameOwn (it.put s x) := by
  unfold put
  split
  case h_1 | h_2 | h_3 => exact .element rfl rfl
  case h_4 => exact .stylesheet _ _
  case h_8 => exact .refl it
  all_goals exact .rule (by simp [Rule.sameHeader])

/-- A whole with another part in it keeps its head. -/
theorem sameHead_put (it : Item) (s : Segment) (x : Item) : it.SameHead (it.put s x) :=
  (sameOwn_put it s x).sameHead

end Item

/-! ## Writing by replacing -/

variable {α : Type}

/-- What a writer does with an item of any kind. -/
def Writer.onItem (w : Writer α) : Item → α × Item
  | .element e => ((w.element e).1, .element (w.element e).2)
  | .text v => ((w.text v).1, .text (w.text v).2)
  | .stylesheet s => ((w.stylesheet s).1, .stylesheet (w.stylesheet s).2)
  | .rule r => ((w.rule r).1, .rule (w.rule r).2)
  | .declaration name v => ((w.declaration name v).1, .declaration name (w.declaration name v).2)

/-- Writes at an address that starts from an item: at the rest of the address from the part that the
first step leads to, and the outcome in the place of that part. -/
def Item.writeAt (w : Writer α) : Address → Item → Written α Item
  | [], it => .found (w.onItem it)
  | s :: a, it =>
    match it.step s with
    | .ok sub => (Item.writeAt w a sub).inside (it.put s)
    | .error r => (.error r, it)

theorem Item.writeAt_cons_ok {w : Writer α} {s : Segment} {a : Address} {it sub : Item}
    (h : it.step s = .ok sub) :
    it.writeAt w (s :: a) = (sub.writeAt w a).inside (it.put s) := by
  rw [Item.writeAt, h]

theorem Item.writeAt_cons_error {w : Writer α} {s : Segment} {a : Address} {it : Item} {r : Reason}
    (h : it.step s = .error r) : it.writeAt w (s :: a) = (.error r, it) := by
  rw [Item.writeAt, h]

theorem writeTextAt_eq (w : Writer α) (a : Address) (v : String) :
    (writeTextAt w a v).inside Item.text = (Item.text v).writeAt w a := by
  cases a with
  | nil => rfl
  | cons s a => exact (Item.writeAt_cons_error (r := .notAContainer s .text) (by cases s <;> rfl)).symm

/-- Writing to a declaration of a rule, whichever way the rule holds it. -/
theorem PropertyList.writeAt_eq (w : Writer α) (i : Nat) (a : Address) (ds : PropertyList)
    (own : PropertyList → Item) (hstep : ∀ ds, (own ds).step (.declaration i) = Item.declarationAt ds i)
    (hput : ∀ ds name v, (own ds).put (.declaration i) (.declaration name v) = own (ds.setAt i v)) :
    (ds.writeAt w i a).inside own = (own ds).writeAt w (.declaration i :: a) := by
  cases h : ds.entryAt? i with
  | none =>
    have hfail : (own ds).step (.declaration i) = .error (.declarationOutOfRange i ds.length) := by
      simp only [hstep, Item.declarationAt, h]
    rw [Item.writeAt_cons_error hfail]
    cases a <;> simp only [PropertyList.writeAt, h] <;> rfl
  | some e =>
    obtain ⟨name, v⟩ := e
    have hok : (own ds).step (.declaration i) = .ok (.declaration name v) := by
      simp only [hstep, Item.declarationAt, h]
    rw [Item.writeAt_cons_ok hok]
    cases a with
    | nil =>
      simp only [PropertyList.writeAt, h, Item.writeAt, Writer.onItem, Written.found, Written.inside,
        hput]
    | cons s a =>
      have htrail : (Item.declaration name v).step s = .error .trailingSegment := by
        cases s <;> rfl
      rw [Item.writeAt_cons_error htrail]
      simp only [PropertyList.writeAt, h, Written.inside, hput, PropertyList.setAt_self h]

theorem Rule.writeAt_eq (w : Writer α) (a : Address) (r : Rule) :
    (r.writeAt w a).inside Item.rule = (Item.rule r).writeAt w a := by
  induction a generalizing r with
  | nil => cases r <;> rfl
  | cons s a ih =>
    have hfail (h : (Item.rule r).step s = .error (.notAContainer s r.kind))
        (h' : r.writeAt w (s :: a) = (.error (.notAContainer s r.kind), r)) :
        (r.writeAt w (s :: a)).inside Item.rule = (Item.rule r).writeAt w (s :: a) := by
      rw [Item.writeAt_cons_error h, h']
      rfl
    cases r with
    | style t ds =>
      cases s with
      | declaration i =>
        rw [← PropertyList.writeAt_eq w i a ds (fun ds => .rule (.style t ds)) (fun _ => rfl)
          fun _ _ _ => rfl]
        rfl
      | child | shadow | rule => exact hfail rfl rfl
    | keyframeStep o ds =>
      cases s with
      | declaration i =>
        rw [← PropertyList.writeAt_eq w i a ds (fun ds => .rule (.keyframeStep o ds)) (fun _ => rfl)
          fun _ _ _ => rfl]
        rfl
      | child | shadow | rule => exact hfail rfl rfl
    | condition k c rules =>
      cases s with
      | rule i =>
        rw [Rule.writeAt]
        cases h : rules[i]? with
        | none => simp [Item.writeAt, Item.step, Item.ruleAt, h, Written.inside]
        | some r =>
          have hok : (Item.rule (.condition k c rules)).step (.rule i) = .ok (.rule r) :=
            Item.step_eq_ok_iff.mpr (.nested h)
          rw [Item.writeAt_cons_ok hok, ← ih r]
          rfl
      | child | shadow | declaration => exact hfail rfl rfl

theorem Stylesheet.writeAt_eq (w : Writer α) (a : Address) (t : Stylesheet) :
    (t.writeAt w a).inside Item.stylesheet = (Item.stylesheet t).writeAt w a := by
  cases a with
  | nil => rfl
  | cons s a =>
    cases s with
    | rule i =>
      rw [Stylesheet.writeAt]
      cases h : t.rules[i]? with
      | none => simp [Item.writeAt, Item.step, Item.ruleAt, h, Written.inside]
      | some r =>
        rw [Item.writeAt_cons_ok (Item.step_eq_ok_iff.mpr (.rule h)), ← Rule.writeAt_eq]
        rfl
    | child | shadow | declaration => rfl

/-- Writing from an element on, by the functions for each kind of part, is writing by replacing. -/
theorem Element.writeAt_eq (w : Writer α) (a : Address) (e : Element) :
    (e.writeAt w a).inside Item.element = (Item.element e).writeAt w a := by
  induction a generalizing e with
  | nil => rfl
  | cons s a ih =>
    cases s with
    | child i =>
      rw [Element.writeAt]
      cases h : e.children[i]? with
      | none => simp [Item.writeAt, Item.step, h, Written.inside]
      | some n =>
        rw [Item.writeAt_cons_ok (Item.step_eq_ok_iff.mpr (.child h))]
        cases n with
        | text v =>
          rw [Node.item, ← writeTextAt_eq]
          rfl
        | element c =>
          rw [Node.item, ← ih c]
          rfl
    | shadow =>
      rw [Element.writeAt, Item.writeAt_cons_ok (Item.step_eq_ok_iff.mpr (.shadow e)),
        ← Stylesheet.writeAt_eq]
      rfl
    | rule | declaration => rfl

end SynthDom
