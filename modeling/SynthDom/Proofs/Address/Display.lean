import SynthDom.Mutation.Basic
import SynthDom.Address.Error
import SynthDom.Proofs.Text.Parts

/-!
# Addresses can be told by their texts

The text of an address goes to the first character that is no letter, digit or slash, and a step in it
to the next slash.  The first character of a step says of which sort it is: a letter for a stylesheet, a
rule or a declaration, and a digit for a child.  So no two addresses have one text, neither on their own
nor in a message about them.

* `Segment.ofChars`, `Segment.ofChars_display`: the step that a text is of.
* `Address.display_inj`: addresses with one text are the same.
* `Address.eq_of_display_append`: an address that is followed by something else.
* `Address.display_identifies`: texts of addresses, and texts that mention one.
-/

namespace SynthDom

/-! ## Steps -/

namespace Segment

/-- The step that a text is of. -/
def ofChars : List Char → Segment
  | 's' :: _ => .shadow
  | 'r' :: ds => .rule (Nat.ofDigitChars 10 ds 0)
  | 'd' :: ds => .declaration (Nat.ofDigitChars 10 ds 0)
  | ds => .child (Nat.ofDigitChars 10 ds 0)

theorem toList_display_child (i : Nat) : (Segment.child i).display.toList = Nat.toDigits 10 i :=
  Nat.toList_repr

theorem toList_display_rule (i : Nat) : (Segment.rule i).display.toList = 'r' :: Nat.toDigits 10 i := by
  rw [display, String.toList_append, Nat.toString_eq_repr, Nat.toList_repr]
  rfl

theorem toList_display_declaration (i : Nat) :
    (Segment.declaration i).display.toList = 'd' :: Nat.toDigits 10 i := by
  rw [display, String.toList_append, Nat.toString_eq_repr, Nat.toList_repr]
  rfl

theorem ofChars_toDigits (i : Nat) : ofChars (Nat.toDigits 10 i) = .child i := by
  have hdigit : ∀ c ∈ Nat.toDigits 10 i, c.isDigit = true := fun _ =>
    Nat.isDigit_of_mem_toDigits (by decide) (by decide)
  unfold ofChars
  split
  case h_4 => rw [Nat.ofDigitChars_ten_toDigits]
  -- a numeral does not begin with a letter
  all_goals
    next hletter => exact absurd (hdigit _ (hletter ▸ List.mem_cons_self)) (by decide)

/-- A step is the one that its text is of. -/
theorem ofChars_display (s : Segment) : ofChars s.display.toList = s := by
  cases s with
  | child i => rw [toList_display_child, ofChars_toDigits]
  | shadow => rfl
  | rule i => rw [toList_display_rule, ofChars, Nat.ofDigitChars_ten_toDigits]
  | declaration i => rw [toList_display_declaration, ofChars, Nat.ofDigitChars_ten_toDigits]

theorem eq_of_toList_display {s s' : Segment} (h : s.display.toList = s'.display.toList) : s = s' := by
  rw [← ofChars_display s, h, ofChars_display]

theorem toList_display_ne_nil (s : Segment) : s.display.toList ≠ [] := by
  cases s with
  | child i => rw [toList_display_child]; exact Nat.toDigits_ne_nil
  | shadow => decide
  | rule i => rw [toList_display_rule]; exact List.cons_ne_nil _ _
  | declaration i => rw [toList_display_declaration]; exact List.cons_ne_nil _ _

/-- The text of a step has letters and digits. -/
theorem isAlphanum_of_mem_display {s : Segment} {c : Char} (h : c ∈ s.display.toList) :
    c.isAlphanum = true := by
  have hdigits {i : Nat} (h : c ∈ Nat.toDigits 10 i) : c.isAlphanum = true := by
    have hdigit : c.isDigit = true := Nat.isDigit_of_mem_toDigits (by decide) (by decide) h
    rw [Char.isAlphanum, hdigit, Bool.or_true]
  cases s with
  | child i => exact hdigits (toList_display_child i ▸ h)
  | shadow =>
    have hall : "shadow".toList.all Char.isAlphanum = true := rfl
    exact List.all_eq_true.mp hall c h
  | rule i =>
    rcases List.mem_cons.mp (toList_display_rule i ▸ h) with rfl | h
    · rfl
    · exact hdigits h
  | declaration i =>
    rcases List.mem_cons.mp (toList_display_declaration i ▸ h) with rfl | h
    · rfl
    · exact hdigits h

end Segment

/-! ## Addresses -/

namespace Address

/-- The text of a step in an address. -/
def stepText (s : Segment) : List Char := '/' :: s.display.toList

theorem toList_display_cons (s : Segment) (a : Address) :
    (display (s :: a)).toList = (s :: a).flatMap stepText := by
  have hstep : (fun s : Segment => ("/" ++ s.display).toList) = stepText := by
    funext s
    rw [String.toList_append]
    rfl
  rw [display, List.isEmpty_cons, if_neg Bool.false_ne_true, toList_join_map, hstep]

/-- A step in an address ends where the next one begins. -/
theorem stepParts : Parts stepText (fun _ => True) (fun x => x = [])
    (fun _ x => Stops (fun c => c != '/') x) where
  tail _ := trivial
  ends_ne := by
    rintro s a _ y - rfl
    exact (List.cons_ne_nil _ _).symm
  follows := by
    rintro s (_ | ⟨s', a⟩) _ - rfl
    · exact stops_nil _
    · exact stops_cons rfl _

theorem eq_of_flatMap_stepText {a b : Address} (h : a.flatMap stepText = b.flatMap stepText) :
    a = b := by
  have hplain (s : Segment) : ∀ c ∈ s.display.toList, (c != '/') = true := by
    intro c hc
    refine bne_iff_ne.mpr ?_
    rintro rfl
    exact absurd (Segment.isAlphanum_of_mem_display hc) (by decide)
  have hsame : List.Forall₂ Eq a b := by
    refine (stepParts.forall₂_of_flatMap (fun s _ s' _ x y hx hy h => ?_) trivial trivial rfl rfl
      (congrArg (· ++ []) h)).1
    obtain ⟨htext, hrest⟩ := eq_of_stops (hplain s) (hplain s') hx hy (List.cons.inj h).2
    exact ⟨Segment.eq_of_toList_display htext, hrest⟩
  exact List.forall₂_eq_eq_eq ▸ hsame

theorem flatMap_stepText_ne_root (s : Segment) (a : Address) : (s :: a).flatMap stepText ≠ ['/'] := by
  intro h
  have htext : s.display.toList ++ a.flatMap stepText = [] := (List.cons.inj h).2
  exact s.toList_display_ne_nil (List.append_eq_nil_iff.mp htext).1

/-- Addresses with one text are the same. -/
theorem display_inj {a b : Address} (h : a.display = b.display) : a = b := by
  have h := congrArg String.toList h
  cases a with
  | nil =>
    cases b with
    | nil => rfl
    | cons s b =>
      exact absurd ((toList_display_cons s b).symm.trans h.symm) (flatMap_stepText_ne_root s b)
  | cons s a =>
    cases b with
    | nil => exact absurd ((toList_display_cons s a).symm.trans h) (flatMap_stepText_ne_root s a)
    | cons s' b =>
      rw [toList_display_cons, toList_display_cons] at h
      exact eq_of_flatMap_stepText h

/-- The characters of addresses: letters, digits and slashes. -/
def isPathChar (c : Char) : Bool := c.isAlphanum || c == '/'

theorem isPathChar_of_mem_display (a : Address) : ∀ c ∈ a.display.toList, isPathChar c = true := by
  intro c hc
  cases a with
  | nil =>
    rw [List.mem_singleton.mp hc]
    rfl
  | cons s a =>
    rw [toList_display_cons] at hc
    obtain ⟨s', -, hs'⟩ := List.mem_flatMap.mp hc
    rcases List.mem_cons.mp hs' with rfl | hc
    · rfl
    · rw [isPathChar, Segment.isAlphanum_of_mem_display hc, Bool.true_or]

/-- An address ends where a character follows that is none of an address. -/
theorem eq_of_display_append {a b : Address} {x y : List Char} (hx : Stops isPathChar x)
    (hy : Stops isPathChar y) (h : a.display.toList ++ x = b.display.toList ++ y) : a = b ∧ x = y := by
  obtain ⟨htext, hrest⟩ :=
    eq_of_stops a.isPathChar_of_mem_display b.isPathChar_of_mem_display hx hy h
  exact ⟨display_inj (String.toList_inj.mp htext), hrest⟩

end Address

/-! ## Messages -/

/-- Mutations with one text have one target. -/
theorem Mutation.target_of_display {m n : Mutation} (h : m.display = n.display) :
    m.target = n.target := by
  have hkind (k : ActionKind) : ' ' ∉ k.name.toList := by cases k <;> decide
  have h : m.kind.name.toList ++ ' ' :: (m.target.display.toList ++ ' ' :: m.action.detail.toList)
      = n.kind.name.toList ++ ' ' :: (n.target.display.toList ++ ' ' :: n.action.detail.toList) := by
    simpa [display] using congrArg String.toList h
  obtain ⟨-, hbehind⟩ := eq_of_not_mem (hkind m.kind) (hkind n.kind) h
  exact (Address.eq_of_display_append (stops_cons rfl _) (stops_cons rfl _) hbehind).1

theorem AddressError.toList_message (e : AddressError) :
    e.message.toList = "Address ".toList ++ (e.address.display.toList
      ++ (" does not resolve: ".toList ++ e.reason.message.toList)) := by
  unfold message
  simp only [String.toList_append, List.append_assoc]

theorem ShapeMismatch.toList_message (e : ShapeMismatch) :
    e.message.toList = "Shape mismatch at ".toList ++ (e.address.display.toList
      ++ (": expected ".toList ++ (e.expected.name.toList
        ++ (", found ".toList ++ e.found.name.toList)))) := by
  unfold message
  simp only [String.toList_append, List.append_assoc]

/-- The two sorts of errors begin with words of their own. -/
theorem AddressError.message_ne (e : AddressError) (f : ShapeMismatch) : e.message ≠ f.message := by
  intro h
  have h := congrArg String.toList h
  rw [e.toList_message, f.toList_message] at h
  exact absurd (List.cons.inj h).1 (by decide)

theorem AddressError.address_of_message {e f : AddressError} (h : e.message = f.message) :
    e.address = f.address := by
  have h := congrArg String.toList h
  rw [e.toList_message, f.toList_message] at h
  have hbehind := List.append_cancel_left h
  exact (Address.eq_of_display_append (stops_cons rfl _) (stops_cons rfl _) hbehind).1

theorem ShapeMismatch.address_of_message {e f : ShapeMismatch} (h : e.message = f.message) :
    e.address = f.address := by
  have h := congrArg String.toList h
  rw [e.toList_message, f.toList_message] at h
  have hbehind := List.append_cancel_left h
  exact (Address.eq_of_display_append (stops_cons rfl _) (stops_cons rfl _) hbehind).1

/-- Errors with one text are about one address. -/
theorem PatchError.target_of_message {e f : PatchError} (h : e.message = f.message) :
    e.target = f.target := by
  cases e with
  | address e =>
    cases f with
    | address f => exact AddressError.address_of_message h
    | shape f => exact absurd h (e.message_ne f)
  | shape e =>
    cases f with
    | address f => exact absurd h.symm (f.message_ne e)
    | shape f => exact ShapeMismatch.address_of_message h

/-- The text of an address tells it from all others, and so do the texts of a list of addresses, a line
that begins with an address and a blank, and the texts of mutations and errors. -/
theorem Address.display_identifies :
    (∀ a b : Address, a.display = b.display ↔ a = b) ∧
    (∀ as bs : List Address, as.map display = bs.map display ↔ as = bs) ∧
    (∀ (a b : Address) (x y : String),
      a.display ++ " " ++ x = b.display ++ " " ++ y ↔ a = b ∧ x = y) ∧
    (∀ m n : Mutation, m.display = n.display → m.target = n.target) ∧
    ∀ e f : PatchError, e.message = f.message → e.target = f.target := by
  have hinjective : Function.Injective display := fun _ _ => display_inj
  refine ⟨fun a b => hinjective.eq_iff, fun as bs => (List.map_injective_iff.mpr hinjective).eq_iff,
    fun a b x y => ⟨fun h => ?_, ?_⟩, fun _ _ => Mutation.target_of_display,
    fun _ _ => PatchError.target_of_message⟩
  · have h : a.display.toList ++ ' ' :: x.toList = b.display.toList ++ ' ' :: y.toList := by
      simpa using congrArg String.toList h
    obtain ⟨hsame, hrest⟩ := eq_of_display_append (stops_cons rfl _) (stops_cons rfl _) h
    exact ⟨hsame, String.toList_inj.mp (List.cons.inj hrest).2⟩
  · rintro ⟨rfl, rfl⟩
    rfl

/-- Addresses of the same characters but for letters and slashes, and two mutations of which the texts do
not tell the values that they record. -/
theorem Address.display_identifies_ones :
    let m (recorded : Option String) : Mutation := ⟨[.child 1, .child 1], .setAttribute "a" "1" recorded⟩
    let e : PatchError := .shape ⟨[.child 1, .shadow, .rule 1], .element, .styleRule⟩
    display [.child 1, .child 1] ≠ display [.child 11] ∧ display [.child 1] ≠ display [.rule 1] ∧
      (m none).display = (m (some "0")).display ∧ (m none).target = (m (some "0")).target ∧
      e.message = "Shape mismatch at /1/shadow/r1: expected element, found style rule" ∧
      ∀ f : PatchError, e.message = f.message → f.target = [.child 1, .shadow, .rule 1] := by
  intro m e
  obtain ⟨hsame, -, -, hmutation, herror⟩ := display_identifies
  refine ⟨mt (hsame _ _).mp (by decide), mt (hsame _ _).mp (by decide), rfl, hmutation _ _ rfl, rfl, ?_⟩
  exact fun f hf => (herror e f hf).symm

end SynthDom
