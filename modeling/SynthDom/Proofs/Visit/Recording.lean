import Mathlib.Data.List.Induction
import SynthDom.Proofs.Visit.Listing

/-!
# What a visitor records

A visitor that keeps a record of what it is handed, and goes on into an item unless a predicate stops
it there, has a record of what addresses resolve to.  Leaving callbacks out of it takes the items of
their kinds out of the record, and lets the walk go on into all of them.

* `Visitor.recorder`, `Visitor.only`: the recording visitor, and a visitor with callbacks left out.
* `Tree.Has`: what is at an address to be visited.
* `Tree.walk_only_recorder`: the record is a part of the listing.
* `Tree.walk_recorder`: it has what is at the addresses that no stop comes before, each of them once,
  in document order.
-/

namespace SynthDom

/-! ## Callbacks -/

/-- The callbacks of a visitor. -/
inductive Callback where
  | element
  | text
  | stylesheet
  | rule
deriving DecidableEq

namespace Item

/-- The callback that an item is handed to, if there is one for its kind. -/
def callback? : Item → Option Callback
  | .element _ => some .element
  | .text _ => some .text
  | .stylesheet _ => some .stylesheet
  | .rule _ => some .rule
  | .declaration .. => none

/-- The item is handed to one of the callbacks. -/
def handedTo (kept : Callback → Bool) (it : Item) : Bool := it.callback?.any kept

theorem handedTo_all {it : Item} : it.handedTo (fun _ => true) = true ↔ it.kind ≠ .declaration := by
  cases it with
  | declaration => simp [handedTo, callback?, kind]
  | rule r => cases r <;> simp [handedTo, callback?, kind, Rule.kind]
  | element | text | stylesheet => simp [handedTo, callback?, kind]

end Item

namespace Visitor

variable {σ : Type}

/-- A visitor with only some of its callbacks: in the place of the others are those that every visitor
has. -/
def only (v : Visitor σ) (kept : Callback → Bool) : Visitor σ where
  element := if kept .element then v.element else ({} : Visitor σ).element
  text := if kept .text then v.text else ({} : Visitor σ).text
  stylesheet := if kept .stylesheet then v.stylesheet else ({} : Visitor σ).stylesheet
  rule := if kept .rule then v.rule else ({} : Visitor σ).rule

/-- Records what it is handed, with the addresses, and goes on into it unless a predicate stops it. -/
def recorder (stop : Item → Bool) : Visitor (List (Address × Item)) where
  element e a seen := (seen ++ [(a, .element e)], !stop (.element e))
  text value a seen := seen ++ [(a, .text value)]
  stylesheet s a seen := (seen ++ [(a, .stylesheet s)], !stop (.stylesheet s))
  rule r a seen := (seen ++ [(a, .rule r)], !stop (.rule r))

theorem only_all (v : Visitor σ) : v.only (fun _ => true) = v := rfl

variable (stop : Item → Bool) (kept : Callback → Bool) (a : Address) (it : Item)
  (seen : List (Address × Item))

/-- What a callback is handed it records, and what is for one that is left out goes unrecorded. -/
theorem record_only : (((recorder stop).only kept).meet a it seen).1 =
    if it.handedTo kept then seen ++ [(a, it)] else seen := by
  cases it with
  | declaration => rfl
  | element | text | stylesheet | rule =>
    simp only [meet, only, Item.handedTo, Item.callback?, Option.any_some]
    split <;> simp [recorder, *]

/-- Where there is something to go on into, only an item that is handed to a callback stops the walk,
if the predicate says so. -/
theorem goes_on_only (hparts : it.parts ≠ []) : (((recorder stop).only kept).meet a it seen).2 =
    !(it.handedTo kept && stop it) := by
  cases it with
  | text | declaration => exact absurd rfl hparts
  | element | stylesheet | rule =>
    simp only [meet, only, Item.handedTo, Item.callback?, Option.any_some]
    split <;> simp [recorder, *]

end Visitor

/-! ## What there is to be visited -/

namespace Tree

variable {t : Tree} {a : Address} {it : Item}

/-- An address resolves to an item that is there to be visited: an element, a text, a rule, or a
stylesheet that its element has. -/
def Has (t : Tree) (a : Address) (it : Item) : Prop :=
  t.resolve a = .ok it ∧
    match it with
    | .element _ | .text _ | .rule _ => True
    | .stylesheet s =>
      ∃ q e, a = q.join .shadow ∧ t.resolve q = .ok (.element e) ∧ e.stylesheet = some s
    | .declaration .. => False

/-- An address that leads from an element to a stylesheet ends with the step from the element it
belongs to. -/
theorem shadow_of_resolve {s : Stylesheet} (h : t.resolve a = .ok (.stylesheet s)) :
    ∃ q e, a = q.join .shadow ∧ t.resolve q = .ok (.element e) ∧ e.sheet = s := by
  rw [resolve_eq_ok_iff] at h
  cases a using List.reverseRecOn with
  | nil => cases h
  | append_singleton q step =>
    obtain ⟨x, hx, hstep⟩ := Item.descend_join_eq_ok_iff.mp h
    generalize hsub : Item.stylesheet s = sub at hstep
    cases Item.step_eq_ok_iff.mp hstep with
    | shadow e =>
      cases hsub
      exact ⟨q, e, rfl, resolve_eq_ok_iff.mpr hx, rfl⟩
    | @child e i n hn => cases n <;> cases hsub
    | rule | nested | styleDeclaration | keyframeDeclaration => cases hsub

theorem has_iff_holds : t.Has a it ↔ (Item.element t.root).Holds a it := by
  simp only [Has, Item.Holds, ← resolve_eq_ok_iff]
  refine and_congr_right fun h => ?_
  -- for items of the other kinds there is no last step from an element to its stylesheet
  have hother (hit : ∀ s, it ≠ .stylesheet s) (q : Address) (e : Element) (ha : a = q.join .shadow)
      (he : t.resolve q = .ok (.element e)) : e.stylesheet.isSome := by
    subst ha
    obtain ⟨x, hx, hshadow⟩ := Item.descend_join_eq_ok_iff.mp (resolve_eq_ok_iff.mp h)
    cases (resolve_eq_ok_iff.mp he).symm.trans hx
    cases hshadow
    exact absurd rfl (hit _)
  cases it with
  | element | text => exact iff_of_true trivial ⟨nofun, hother nofun⟩
  | rule r => exact iff_of_true trivial ⟨by cases r <;> exact nofun, hother nofun⟩
  | declaration => exact iff_of_false id fun hkind => hkind.1 rfl
  | stylesheet s =>
    obtain ⟨q, e, rfl, he, hs⟩ := shadow_of_resolve h
    constructor
    · rintro ⟨q', e', hq, he', hsheet⟩
      refine ⟨nofun, fun p f hp hf => ?_⟩
      cases List.append_inj_left' (hq.symm.trans hp) rfl
      cases he'.symm.trans hf
      rw [hsheet]
      rfl
    · rintro ⟨-, hpresent⟩
      obtain ⟨s', hs'⟩ := Option.isSome_iff_exists.mp (hpresent q e rfl he)
      refine ⟨q, e, rfl, he, ?_⟩
      rw [← hs, Element.sheet, hs']
      rfl

/-! ## The record -/

/-- The record of a visitor with some of its callbacks is what is listed of their kinds, where what stops
the walk are items of these kinds. -/
theorem walk_only_recorder {stop halt : Item → Bool} {kept : Callback → Bool}
    (hhalt : ∀ it : Item, it.parts ≠ [] → (it.handedTo kept && stop it) = halt it) (t : Tree) :
    t.walk ((Visitor.recorder stop).only kept) [] =
      ((Item.element t.root).listing halt).filter fun p => p.2.handedTo kept := by
  have hrecord (l seen : List (Address × Item)) :
      l.foldl (fun seen p => (((Visitor.recorder stop).only kept).meet ([] ++ p.1) p.2 seen).1) seen =
        seen ++ l.filter fun p => p.2.handedTo kept := by
    induction l generalizing seen with
    | nil => exact (List.append_nil _).symm
    | cons p l ih =>
      rw [List.foldl_cons, ih, Visitor.record_only, List.filter_cons]
      split <;> simp
  have hstop (a : Address) (it : Item) (seen : List (Address × Item)) (hparts : it.parts ≠ []) :
      (((Visitor.recorder stop).only kept).meet a it seen).2 = !halt it := by
    rw [Visitor.goes_on_only stop kept a it seen hparts, hhalt it hparts]
  exact (Item.walk_eq_foldl hstop Address.root (.element t.root) []).trans (hrecord _ [])

/-- The record of a visitor with all its callbacks is what is listed, but for declarations. -/
theorem walk_recorder_eq (t : Tree) (stop : Item → Bool) :
    t.walk (.recorder stop) [] = ((Item.element t.root).listing stop).filter
      fun p => p.2.handedTo fun _ => true := by
  rw [← Visitor.only_all (.recorder stop)]
  refine walk_only_recorder ?_ t
  intro it hparts
  cases it with
  | text | declaration => exact absurd rfl hparts
  | element | stylesheet | rule => rfl

/-- Nothing that stops the walk is on the way to an address. -/
def Unstopped (t : Tree) (stop : Item → Bool) (a : Address) : Prop :=
  ∀ b x, b <+: a → b ≠ a → t.resolve b = .ok x → stop x = false

theorem mem_walk_recorder_iff {stop : Item → Bool} :
    (a, it) ∈ t.walk (.recorder stop) [] ↔ t.Has a it ∧ t.Unstopped stop a := by
  have hroot : (Item.element t.root).kind ≠ .declaration := nofun
  simp only [walk_recorder_eq, List.mem_filter, Item.mem_listing_iff hroot, Item.handedTo_all,
    has_iff_holds, Unstopped, Item.Unstopped, resolve_eq_ok_iff]
  exact and_iff_left_of_imp fun h => h.1.2.1

/-- The record is of what is there at the addresses that no stop comes before, each of them once and in
document order.  With some of the callbacks it is the part for the items of their kinds, of the record
with all of them that is stopped by these items only. -/
theorem walk_recorder (t : Tree) (stop : Item → Bool) :
    (∀ a it, (a, it) ∈ t.walk (.recorder stop) [] ↔ t.Has a it ∧ t.Unstopped stop a) ∧
      ((t.walk (.recorder stop) []).map Prod.fst).Nodup ∧
      ((t.walk (.recorder stop) []).map Prod.fst).Pairwise Address.Before ∧
      ∀ kept : Callback → Bool, t.walk ((Visitor.recorder stop).only kept) [] =
        (t.walk (.recorder fun it => it.handedTo kept && stop it) []).filter
          fun p => p.2.handedTo kept := by
  have hordered : ((t.walk (.recorder stop) []).map Prod.fst).Pairwise Address.Before := by
    rw [walk_recorder_eq]
    exact List.pairwise_map.mpr ((Item.pairwise_listing stop _).filter _)
  refine ⟨fun a it => mem_walk_recorder_iff, Address.nodup_of_pairwise hordered, hordered,
    fun kept => ?_⟩
  rw [walk_only_recorder (fun _ _ => rfl), walk_recorder_eq, List.filter_filter]
  refine List.filter_congr fun p _ => ?_
  rcases p with ⟨a, it⟩
  cases it <;> simp [Item.handedTo, Item.callback?]

end Tree

end SynthDom
