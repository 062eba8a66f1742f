import Mathlib.Data.List.Forall2

/-!
# Parts of texts

A text that is put together from parts says what the parts are if each of them can be told from what
follows it.  Every statement about a text that another one follows is about two such texts with any two
texts behind them: if the whole is the same, both parts are.

* `eq_of_stops`, `eq_of_not_mem`: where a part of a text ends.
* `Parts`, `Parts.forall₂_of_flatMap`: where a list of parts ends.
-/

namespace SynthDom

/-! ## Where a part of a text ends -/

section

variable {α : Type} {p : α → Bool} {l m x y : List α} {c : α}

/-- A text that is over, or goes on with a character that is no `p`. -/
def Stops (p : α → Bool) (x : List α) : Prop := ∀ c ∈ x.head?, p c = false

theorem stops_nil (p : α → Bool) : Stops p [] := nofun

theorem stops_cons (h : p c = false) (x : List α) : Stops p (c :: x) := by
  rintro _ ⟨⟩
  exact h

/-- Where a part with a character `p` stands, no text stops. -/
theorem ne_of_stops (hx : Stops p x) (hl : ∀ c ∈ l, p c = true) (hne : l ≠ []) : x ≠ l ++ y := by
  rintro rfl
  cases l with
  | nil => exact hne rfl
  | cons c l => exact Bool.false_ne_true ((hx c rfl).symm.trans (hl c List.mem_cons_self))

/-- A part of which all characters are `p` ends where one stands that is not. -/
theorem eq_of_stops (hl : ∀ c ∈ l, p c = true) (hm : ∀ c ∈ m, p c = true) (hx : Stops p x)
    (hy : Stops p y) (h : l ++ x = m ++ y) : l = m ∧ x = y := by
  induction l generalizing m with
  | nil =>
    cases m with
    | nil => exact ⟨rfl, h⟩
    | cons d m => exact absurd h (ne_of_stops hx hm (List.cons_ne_nil d m))
  | cons c l ih =>
    cases m with
    | nil => exact absurd h.symm (ne_of_stops hy hl (List.cons_ne_nil c l))
    | cons d m =>
      obtain ⟨rfl, htail⟩ := List.cons.inj h
      obtain ⟨rfl, hrest⟩ := ih (List.forall_mem_cons.mp hl).2 (List.forall_mem_cons.mp hm).2 htail
      exact ⟨rfl, hrest⟩

/-- A part that does not contain a character ends where it stands. -/
theorem eq_of_not_mem [DecidableEq α] (hl : c ∉ l) (hm : c ∉ m) (h : l ++ c :: x = m ++ c :: y) :
    l = m ∧ x = y := by
  have hnot {k : List α} (hk : c ∉ k) : ∀ d ∈ k, (d != c) = true := fun d hd =>
    bne_iff_ne.mpr fun he => hk (he ▸ hd)
  have hstops (z : List α) : Stops (fun d => d != c) (c :: z) := by
    refine stops_cons ?_ z
    exact bne_self_eq_false c
  obtain ⟨hlm, hxy⟩ := eq_of_stops (hnot hl) (hnot hm) (hstops x) (hstops y) h
  exact ⟨hlm, (List.cons.inj hxy).2⟩

end

/-! ## Lists of parts -/

section

variable {α β : Type} {write : β → List α} {plain : List β → Prop} {ends : List α → Prop}
  {behind : β → List α → Prop}

/-- How lists of parts are told from what ends them.  What ends a list does not begin like a part, and what
follows a part in a list does not go on with it. -/
structure Parts (write : β → List α) (plain : List β → Prop) (ends : List α → Prop)
    (behind : β → List α → Prop) : Prop where
  tail {b : β} {bs : List β} : plain (b :: bs) → plain bs
  ends_ne {b : β} {bs : List β} {x y : List α} : plain (b :: bs) → ends x → x ≠ write b ++ y
  follows {b : β} {bs : List β} {x : List α} : plain (b :: bs) → ends x →
    behind b (bs.flatMap write ++ x)

/-- Lists of parts go to what ends them, if each part can be told from what follows it. -/
theorem Parts.forall₂_of_flatMap (P : Parts write plain ends behind) {R : β → β → Prop}
    {bs cs : List β} {x y : List α}
    (htold : ∀ b ∈ bs, ∀ c ∈ cs, ∀ ⦃x y : List α⦄, behind b x → behind c y →
      write b ++ x = write c ++ y → R b c ∧ x = y)
    (hbs : plain bs) (hcs : plain cs) (hx : ends x) (hy : ends y)
    (h : bs.flatMap write ++ x = cs.flatMap write ++ y) : List.Forall₂ R bs cs ∧ x = y := by
  induction bs generalizing cs with
  | nil =>
    cases cs with
    | nil => exact ⟨.nil, h⟩
    | cons c cs =>
      rw [List.flatMap_cons, List.append_assoc] at h
      exact absurd h (P.ends_ne hcs hx)
  | cons b bs ih =>
    cases cs with
    | nil =>
      rw [List.flatMap_cons, List.append_assoc] at h
      exact absurd h.symm (P.ends_ne hbs hy)
    | cons c cs =>
      rw [List.flatMap_cons, List.flatMap_cons, List.append_assoc, List.append_assoc] at h
      obtain ⟨hhead, htail⟩ := htold b List.mem_cons_self c List.mem_cons_self
        (P.follows hbs hx) (P.follows hcs hy) h
      obtain ⟨hothers, hrest⟩ := ih
        (fun b hb c hc => htold b (List.mem_cons_of_mem _ hb) c (List.mem_cons_of_mem _ hc))
        (P.tail hbs) (P.tail hcs) htail
      exact ⟨.cons hhead hothers, hrest⟩

theorem toList_join_map (f : β → String) (bs : List β) :
    (String.join (bs.map f)).toList = bs.flatMap fun b => (f b).toList := by
  rw [String.toList_join, List.flatMap_map]

end

end SynthDom
