import Mathlib.Data.List.Basic
import SynthDom.Proofs.Address.PutAt
import SynthDom.Visit

/-!
# What a visitor meets

A visitor whose callbacks go on or stop by looking at the item alone meets the same items with any
state, so the walk is a fold over a list of items with their addresses.  The list has one equation for
items of all kinds: the item itself, and unless it is a stop what is met from each of its parts.

* `Address.Before`: document order.
* `Item.parts`: the parts of an item that are visited, and `Item.walk_eq`, the walk from part to part.
* `Item.listing`: what is met, and `Item.walk_eq_foldl`, the walk along it.
* `Item.mem_listing_iff`: it is what addresses lead to without passing a stop.
* `Item.pairwise_listing`: it is in document order.
-/

namespace SynthDom

/-! ## Document order -/

/-- One step comes before another from the same place: a stylesheet before the children, and children
and rules by index. -/
inductive Segment.Before : Segment → Segment → Prop
  | child {i j : Nat} : i < j → Before (.child i) (.child j)
  | rule {i j : Nat} : i < j → Before (.rule i) (.rule j)
  | shadow (i : Nat) : Before .shadow (.child i)

theorem Segment.Before.irrefl {s : Segment} : ¬s.Before s := by
  rintro (h | h) <;> exact Nat.lt_irrefl _ h

/-- Document order: a place comes before those inside it, and of two places that part, the one whose
step from there comes first. -/
def Address.Before : Address → Address → Prop := List.Lex Segment.Before

theorem Address.Before.irrefl {a : Address} : ¬a.Before a :=
  List.lex_irrefl (fun _ => Segment.Before.irrefl) a

/-- Addresses in document order are without repetition. -/
theorem Address.nodup_of_pairwise {as : List Address} (h : as.Pairwise Address.Before) :
    as.Nodup := by
  refine h.imp ?_
  rintro a _ hab rfl
  exact hab.irrefl

namespace Item

variable {σ α : Type} {it sub x : Item} {s : Segment} {a : Address} {stop : Item → Bool}

/-! ## Parts -/

/-- A list of parts of one sort, with the steps to them by index. -/
def indexed (step : Nat → Segment) (part : α → Item) (l : List α) : List (Segment × Item) :=
  l.mapIdx fun i y => (step i, part y)

/-- The parts of an item that are visited, with the steps that lead to them, in document order: not the
declarations, and no stylesheet where there is none. -/
def parts : Item → List (Segment × Item)
  | .element e =>
    e.stylesheet.toList.map (fun s => (.shadow, .stylesheet s)) ++
      indexed .child Node.item e.children
  | .stylesheet s => indexed .rule .rule s.rules
  | .rule (.condition _ _ rules) => indexed .rule .rule rules
  | _ => []

theorem mem_indexed_iff {step : Nat → Segment} {part : α → Item} {l : List α} :
    (s, sub) ∈ indexed step part l ↔ ∃ i y, l[i]? = some y ∧ step i = s ∧ part y = sub := by
  rw [indexed, List.mem_mapIdx]
  constructor
  · rintro ⟨i, hi, heq⟩
    obtain ⟨hs, hsub⟩ := Prod.ext_iff.mp heq
    exact ⟨i, l[i], List.getElem?_eq_getElem hi, hs, hsub⟩
  · rintro ⟨i, y, hy, rfl, rfl⟩
    obtain ⟨hi, rfl⟩ := List.getElem?_eq_some_iff.mp hy
    exact ⟨i, hi, rfl⟩

theorem mem_parts_element_iff {e : Element} : (s, sub) ∈ (Item.element e).parts ↔
    (∃ t, e.stylesheet = some t ∧ .shadow = s ∧ .stylesheet t = sub) ∨
      ∃ i n, e.children[i]? = some n ∧ .child i = s ∧ Node.item n = sub := by
  simp only [parts, List.mem_append, mem_indexed_iff, List.mem_map, Option.mem_toList,
    Prod.mk.injEq]

/-- The visited parts are what the steps lead to, but for declarations and missing stylesheets. -/
theorem mem_parts_iff : (s, sub) ∈ it.parts ↔ it.step s = .ok sub ∧ sub.kind ≠ .declaration ∧
    ∀ e, it = .element e → s = .shadow → e.stylesheet.isSome := by
  rw [step_eq_ok_iff]
  constructor
  · intro h
    cases it with
    | element e =>
      rcases mem_parts_element_iff.mp h with ⟨t, ht, rfl, rfl⟩ | ⟨i, n, hn, rfl, rfl⟩
      · have hpart := Part.shadow e
        rw [Element.sheet, ht] at hpart
        refine ⟨hpart, nofun, ?_⟩
        rintro _ ⟨⟩ -
        rw [ht]
        rfl
      · exact ⟨.child hn, by cases n <;> exact nofun, by rintro _ - ⟨⟩⟩
    | stylesheet t =>
      obtain ⟨i, r, hr, rfl, rfl⟩ := mem_indexed_iff.mp h
      exact ⟨.rule hr, by cases r <;> exact nofun, by rintro _ - ⟨⟩⟩
    | rule r =>
      cases r with
      | condition k c rules =>
        obtain ⟨i, r, hr, rfl, rfl⟩ := mem_indexed_iff.mp h
        exact ⟨.nested hr, by cases r <;> exact nofun, by rintro _ - ⟨⟩⟩
      | style | keyframeStep => cases h
    | text | declaration => cases h
  · rintro ⟨h, hkind, hpresent⟩
    cases h with
    | @child e i n hn => exact mem_parts_element_iff.mpr (.inr ⟨i, n, hn, rfl, rfl⟩)
    | shadow e =>
      obtain ⟨t, ht⟩ := Option.isSome_iff_exists.mp (hpresent e rfl rfl)
      exact mem_parts_element_iff.mpr (.inl ⟨t, ht, rfl, by rw [Element.sheet, ht]; rfl⟩)
    | @rule t i r hr => exact mem_indexed_iff.mpr ⟨i, r, hr, rfl, rfl⟩
    | @nested k c rules i r hr => exact mem_indexed_iff.mpr ⟨i, r, hr, rfl, rfl⟩
    | styleDeclaration | keyframeDeclaration => exact absurd rfl hkind

theorem pairwise_indexed {step : Nat → Segment} (hstep : ∀ i j, i < j → (step i).Before (step j))
    (part : α → Item) (l : List α) :
    (indexed step part l).Pairwise fun p q => p.1.Before q.1 := by
  refine List.pairwise_iff_getElem.mpr fun i j hi hj hij => ?_
  simp only [indexed, List.getElem_mapIdx]
  exact hstep i j hij

/-- The parts are in document order. -/
theorem pairwise_parts (it : Item) : it.parts.Pairwise fun p q => p.1.Before q.1 := by
  have hrules (rules : List Rule) := pairwise_indexed (fun _ _ => Segment.Before.rule) .rule rules
  cases it with
  | element e =>
    refine List.pairwise_append.mpr ⟨?_, pairwise_indexed (fun _ _ => .child) _ _, ?_⟩
    · cases e.stylesheet <;> simp
    · rintro ⟨s, x⟩ hs ⟨s', y⟩ hs'
      obtain ⟨t, -, heq⟩ := List.mem_map.mp hs
      obtain ⟨i, n, -, rfl, rfl⟩ := mem_indexed_iff.mp hs'
      cases heq
      exact .shadow i
  | stylesheet t => exact hrules t.rules
  | rule r =>
    cases r with
    | condition k c rules => exact hrules rules
    | style | keyframeStep => exact .nil
  | text | declaration => exact .nil

theorem sizeOf_item (n : Node) : sizeOf n.item = sizeOf n := by
  cases n <;> rfl

/-- The parts of an item are smaller than it. -/
theorem sizeOf_lt_of_mem_parts (h : (s, sub) ∈ it.parts) : sizeOf sub < sizeOf it := by
  have hrules {rules : List Rule} (h : (s, sub) ∈ indexed .rule .rule rules) :
      sizeOf sub < 1 + sizeOf rules := by
    obtain ⟨i, r, hr, -, rfl⟩ := mem_indexed_iff.mp h
    have := List.sizeOf_lt_of_mem (List.mem_of_getElem? hr)
    simp only [rule.sizeOf_spec]
    omega
  cases it with
  | element e =>
    obtain ⟨tag, attributes, children, stylesheet⟩ := e
    simp only [element.sizeOf_spec, Element.mk.sizeOf_spec]
    rcases mem_parts_element_iff.mp h with ⟨t, rfl, -, rfl⟩ | ⟨i, n, hn, -, rfl⟩
    · simp only [stylesheet.sizeOf_spec, Option.some.sizeOf_spec]
      omega
    · have := List.sizeOf_lt_of_mem (show n ∈ children from List.mem_of_getElem? hn)
      rw [sizeOf_item]
      omega
  | stylesheet t =>
    obtain ⟨rules⟩ := t
    have : sizeOf sub < 1 + sizeOf rules := hrules h
    simp only [stylesheet.sizeOf_spec, Stylesheet.mk.sizeOf_spec]
    omega
  | rule r =>
    cases r with
    | condition k c rules =>
      have := hrules h
      simp only [rule.sizeOf_spec, Rule.condition.sizeOf_spec]
      omega
    | style | keyframeStep => cases h
  | text | declaration => cases h

/-- What an item has if all its parts have it, every item has. -/
theorem parts_induction {P : Item → Prop} (h : ∀ it, (∀ s sub, (s, sub) ∈ it.parts → P sub) → P it)
    (it : Item) : P it :=
  h it fun _ sub hmem =>
    have := sizeOf_lt_of_mem_parts hmem
    parts_induction h sub
termination_by sizeOf it

end Item

/-! ## The walk from part to part -/

/-- What a visitor does on meeting an item of any kind. -/
def Visitor.meet {σ : Type} (v : Visitor σ) (a : Address) : Item → σ → σ × Bool
  | .element e, y => v.element e a y
  | .text value, y => (v.text value a y, true)
  | .stylesheet s, y => v.stylesheet s a y
  | .rule r, y => v.rule r a y
  | .declaration .., y => (y, true)

namespace Item

variable {σ α : Type} {it sub x : Item} {s : Segment} {a : Address} {stop : Item → Bool}

/-- Visits an item and what is inside it. -/
def walk (v : Visitor σ) (a : Address) : Item → σ → σ
  | .element e => e.walk v a
  | .text value => v.text value a
  | .stylesheet s => s.walk v a
  | .rule r => r.walk v a
  | .declaration .. => id

/-- Visits parts one after the other. -/
def walkParts (v : Visitor σ) (a : Address) (ps : List (Segment × Item)) (y : σ) : σ :=
  ps.foldl (fun y p => p.2.walk v (a.join p.1) y) y

theorem indexed_cons (step : Nat → Segment) (part : α → Item) (i : Nat) (y : α) (l : List α) :
    indexed (fun j => step (i + j)) part (y :: l) =
      (step i, part y) :: indexed (fun j => step (i + 1 + j)) part l := by
  simp only [indexed, List.mapIdx_cons, Nat.add_zero, Nat.add_assoc, Nat.add_comm 1]

theorem walkList_rules_eq (v : Visitor σ) (a : Address) (i : Nat) (rules : List Rule) (y : σ) :
    Rule.walkList v a i rules y = walkParts v a (indexed (fun j => .rule (i + j)) .rule rules) y := by
  induction rules generalizing i y with
  | nil => rfl
  | cons r rules ih =>
    rw [Rule.walkList, ih, indexed_cons]
    rfl

theorem walkList_children_eq (v : Visitor σ) (a : Address) (i : Nat) (children : List Node) (y : σ) :
    Node.walkList v a i children y =
      walkParts v a (indexed (fun j => .child (i + j)) Node.item children) y := by
  induction children generalizing i y with
  | nil => rfl
  | cons n children ih =>
    rw [Node.walkList, ih, indexed_cons]
    cases n <;> rfl

/-- A visitor meets an item and, if it goes on, visits the parts in order. -/
theorem walk_eq (v : Visitor σ) (a : Address) (it : Item) (y : σ) :
    it.walk v a y = goOn (v.meet a it y) (walkParts v a it.parts) := by
  have hrules (rules : List Rule) :
      Rule.walkList v a 0 rules = walkParts v a (indexed .rule .rule rules) := by
    funext y
    simpa only [Nat.zero_add] using walkList_rules_eq v a 0 rules y
  cases it with
  | element e =>
    obtain ⟨tag, attributes, children, stylesheet⟩ := e
    rw [walk, Element.walk]
    refine congrArg _ (funext fun y => ?_)
    have hchildren := walkList_children_eq v a 0 children
    simp only [Nat.zero_add] at hchildren
    rw [hchildren, parts, walkParts, walkParts, List.foldl_append]
    cases stylesheet <;> rfl
  | stylesheet s => rw [walk, Stylesheet.walk, hrules]; rfl
  | rule r =>
    cases r with
    | condition k c rules => rw [walk, Rule.walk, hrules]; rfl
    | style | keyframeStep =>
      rw [walk, Rule.walk, goOn]
      split <;> rfl
  | text | declaration => rfl

/-! ## The listing -/

/-- What is met from a part on, with its addresses from the whole. -/
def throughStep (s : Segment) (l : List (Address × Item)) : List (Address × Item) :=
  l.map fun e => (s :: e.1, e.2)

/-- The items that are met from an item on, each with its address from there: the item itself, and
unless it is a stop those met from its parts on. -/
def listing (stop : Item → Bool) (it : Item) : List (Address × Item) :=
  ([], it) :: if stop it then [] else
    it.parts.attach.flatMap fun p => throughStep p.1.1 (listing stop p.1.2)
termination_by sizeOf it
decreasing_by exact sizeOf_lt_of_mem_parts p.2

theorem listing_eq (stop : Item → Bool) (it : Item) : it.listing stop =
    ([], it) :: if stop it then [] else
      it.parts.flatMap fun p => throughStep p.1 (p.2.listing stop) := by
  rw [listing]
  conv => rhs; rw [← List.attach_map_subtype_val it.parts, List.flatMap_map]

/-- With a visitor that goes on or stops by the item alone, where there is something to go on into, the
walk meets what is listed, in this order. -/
theorem walk_eq_foldl {v : Visitor σ}
    (hstop : ∀ a it y, it.parts ≠ [] → (v.meet a it y).2 = !stop it) (a : Address)
    (it : Item) (y : σ) :
    it.walk v a y = (it.listing stop).foldl (fun y e => (v.meet (a ++ e.1) e.2 y).1) y := by
  induction it using parts_induction generalizing a y with
  | h it ih =>
    rw [walk_eq, goOn, listing_eq, List.foldl_cons, List.append_nil]
    by_cases hparts : it.parts = []
    · rw [hparts, List.flatMap_nil, ite_self]
      exact ite_self _
    · rw [hstop a it y hparts]
      by_cases hit : stop it
      · rw [if_pos hit, hit]
        rfl
      · rw [if_neg hit, if_pos (by simpa using hit), List.foldl_flatMap, walkParts]
        refine List.foldl_ext _ _ _ fun y p hp => ?_
        rw [ih p.1 p.2 hp, throughStep, List.foldl_map]
        simp only [Address.join, List.append_assoc, List.singleton_append]

/-! ## What is listed -/

/-- An address leads to an item that can be met there: not a declaration, and not a stylesheet that is
missing. -/
def Holds (it : Item) (a : Address) (x : Item) : Prop :=
  it.descend a = .ok x ∧ x.kind ≠ .declaration ∧
    ∀ q e, a = q.join .shadow → it.descend q = .ok (.element e) → e.stylesheet.isSome

/-- No place on the way to an address has an item that stops the walk. -/
def Unstopped (stop : Item → Bool) (it : Item) (a : Address) : Prop :=
  ∀ q y, q <+: a → q ≠ a → it.descend q = .ok y → stop y = false

theorem holds_nil_iff : it.Holds [] x ↔ it = x ∧ x.kind ≠ .declaration := by
  constructor
  · rintro ⟨⟨⟩, hkind, -⟩
    exact ⟨rfl, hkind⟩
  · rintro ⟨rfl, hkind⟩
    exact ⟨rfl, hkind, fun q e h => absurd h (by simp [Address.join])⟩

/-- The part that a step leads to is one that is visited if something can be met at it or inside it. -/
theorem mem_parts_of_holds (h : it.Holds (s :: a) x) (hs : it.step s = .ok sub) :
    (s, sub) ∈ it.parts := by
  obtain ⟨hx, hkind, hpresent⟩ := h
  have hsub : sub.descend a = .ok x := by rwa [descend_cons, hs] at hx
  refine mem_parts_iff.mpr ⟨hs, fun hdeclaration => ?_, ?_⟩
  · -- nothing is inside a declaration
    cases sub with
    | declaration name v =>
      cases a with
      | nil =>
        cases hsub
        exact hkind rfl
      | cons s' a => cases hsub
    | rule r => cases r <;> cases hdeclaration
    | element | text | stylesheet => cases hdeclaration
  · rintro e rfl rfl
    cases a with
    | nil => exact hpresent [] e rfl rfl
    | cons s' a =>
      -- nothing is inside a missing stylesheet
      refine Option.isSome_iff_ne_none.mpr fun hmissing => ?_
      have hsheet : e.sheet = .empty := by rw [Element.sheet, hmissing]; rfl
      cases hs
      rw [hsheet] at hsub
      cases s' <;> cases hsub

/-- What can be met inside an item is what can be met from its visited parts on. -/
theorem holds_cons_iff : it.Holds (s :: a) x ↔ ∃ sub, (s, sub) ∈ it.parts ∧ sub.Holds a x := by
  constructor
  · intro h
    obtain ⟨sub, hs, hsub⟩ := descend_cons_eq_ok_iff.mp h.1
    refine ⟨sub, mem_parts_of_holds h hs, hsub, h.2.1, fun q e hq he => ?_⟩
    exact h.2.2 (s :: q) e (congrArg (s :: ·) hq) (descend_cons_eq_ok_iff.mpr ⟨sub, hs, he⟩)
  · rintro ⟨sub, hmem, hsub, hkind, hpresent⟩
    obtain ⟨hs, -, hsheet⟩ := mem_parts_iff.mp hmem
    refine ⟨descend_cons_eq_ok_iff.mpr ⟨sub, hs, hsub⟩, hkind, fun q e hq he => ?_⟩
    cases q with
    | nil =>
      cases he
      exact hsheet e rfl (List.cons.inj hq).1
    | cons s' q =>
      obtain ⟨rfl, rfl⟩ := List.cons.inj hq
      obtain ⟨sub', hs', he⟩ := descend_cons_eq_ok_iff.mp he
      cases hs.symm.trans hs'
      exact hpresent q e rfl he

theorem unstopped_nil : it.Unstopped stop [] :=
  fun _ _ hq hne => absurd (List.prefix_nil.mp hq) hne

theorem unstopped_cons_iff (hs : it.step s = .ok sub) :
    it.Unstopped stop (s :: a) ↔ stop it = false ∧ sub.Unstopped stop a := by
  constructor
  · intro h
    refine ⟨h [] it List.nil_prefix nofun rfl, fun q y hq hne hy => ?_⟩
    exact h (s :: q) y ((List.prefix_cons_inj s).mpr hq) (fun heq => hne (List.cons.inj heq).2)
      (descend_cons_eq_ok_iff.mpr ⟨sub, hs, hy⟩)
  · rintro ⟨hit, hsub⟩ q y hq hne hy
    cases q with
    | nil =>
      cases hy
      exact hit
    | cons s' q =>
      obtain ⟨rfl, hqa⟩ := List.cons_prefix_cons.mp hq
      obtain ⟨sub', hs', hy⟩ := descend_cons_eq_ok_iff.mp hy
      cases hs.symm.trans hs'
      exact hsub q y hqa (fun heq => hne (congrArg (s' :: ·) heq)) hy

theorem mem_throughStep_iff {s' : Segment} {l : List (Address × Item)} :
    (s :: a, x) ∈ throughStep s' l ↔ s' = s ∧ (a, x) ∈ l := by
  simp [throughStep, and_left_comm]

theorem nil_mem_listing_iff : ([], x) ∈ it.listing stop ↔ it = x := by
  rw [listing_eq, List.mem_cons]
  have hinside : ([], x) ∉ it.parts.flatMap fun p => throughStep p.1 (p.2.listing stop) := by
    simp [throughStep]
  split <;> simp [hinside, eq_comm]

theorem cons_mem_listing_iff : (s :: a, x) ∈ it.listing stop ↔
    stop it = false ∧ ∃ sub, (s, sub) ∈ it.parts ∧ (a, x) ∈ sub.listing stop := by
  rw [listing_eq, List.mem_cons]
  by_cases hit : stop it
  · simp [hit]
  · simp [hit, mem_throughStep_iff]

/-- What is met from an item on is what addresses lead to without passing a stop. -/
theorem mem_listing_iff (hit : it.kind ≠ .declaration) :
    (a, x) ∈ it.listing stop ↔ it.Holds a x ∧ it.Unstopped stop a := by
  induction a generalizing it with
  | nil =>
    rw [nil_mem_listing_iff, holds_nil_iff]
    constructor
    · rintro rfl
      exact ⟨⟨rfl, hit⟩, unstopped_nil⟩
    · exact fun h => h.1.1
  | cons s a ih =>
    rw [cons_mem_listing_iff, holds_cons_iff]
    constructor
    · rintro ⟨hgo, sub, hmem, hx⟩
      obtain ⟨hs, hsub, -⟩ := mem_parts_iff.mp hmem
      obtain ⟨hholds, hunstopped⟩ := (ih hsub).mp hx
      exact ⟨⟨sub, hmem, hholds⟩, (unstopped_cons_iff hs).mpr ⟨hgo, hunstopped⟩⟩
    · rintro ⟨⟨sub, hmem, hholds⟩, hunstopped⟩
      obtain ⟨hs, hsub, -⟩ := mem_parts_iff.mp hmem
      obtain ⟨hgo, hunstopped⟩ := (unstopped_cons_iff hs).mp hunstopped
      exact ⟨hgo, sub, hmem, (ih hsub).mpr ⟨hholds, hunstopped⟩⟩

/-- What is met from an item on is met in document order. -/
theorem pairwise_listing (stop : Item → Bool) (it : Item) :
    (it.listing stop).Pairwise fun p q => p.1.Before q.1 := by
  induction it using parts_induction with
  | h it ih =>
    rw [listing_eq]
    split
    · exact List.pairwise_singleton _ _
    · refine .cons ?_ (List.pairwise_flatMap.mpr ⟨fun p hp => ?_, ?_⟩)
      · -- the item itself comes before what is inside it
        rintro ⟨b, x⟩ hx
        obtain ⟨p, -, hx⟩ := List.mem_flatMap.mp hx
        obtain ⟨⟨c, y⟩, -, heq⟩ := List.mem_map.mp hx
        cases heq
        exact .nil
      · -- inside one part the order is that of the part
        exact List.pairwise_map.mpr ((ih p.1 p.2 hp).imp .cons)
      · -- and the parts come in their own order
        refine it.pairwise_parts.imp fun {p q} hpq x hx y hy => ?_
        obtain ⟨b, -, rfl⟩ := List.mem_map.mp hx
        obtain ⟨c, -, rfl⟩ := List.mem_map.mp hy
        exact .rel hpq

end Item

end SynthDom
