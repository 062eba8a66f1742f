import SynthDom.Proofs.PropertyList.Sync

/-!
# Where entries end up

Equality of property lists overlooks order, but texts do not.  This file says where the changes between
two lists put the entries: a name that only the new list has stands where it stands there, and the names
of both lists fill the places between, in their old order.  So nothing but the order of the names that
the two lists share tells the outcome from the new list.

* `SameOrder`: the names that two lists share come in the same order in both.
* `survivors`: the entries that the changes leave in the list, with their new values.
* `getElem?_weave_iff`, `filter_weave`: the places of the new names, and what is between them.
* `sync_eq_iff_sameOrder`, `Alike.eq_of_sameOrder`: when the outcome is the new list itself, and when
  lists that are alike are one.
* `changes_placed`: the outcome of carrying out the changes.
-/

namespace SynthDom.PropertyList

variable {old new l : PropertyList} {name : String}

/-- The names that two lists share come in the same order in both. -/
def SameOrder (l m : PropertyList) : Prop :=
  l.names.filter m.contains = m.names.filter l.contains

instance (l m : PropertyList) : Decidable (l.SameOrder m) :=
  inferInstanceAs (Decidable (l.names.filter m.contains = m.names.filter l.contains))

theorem filter_names (l : PropertyList) (p : String → Bool) :
    l.names.filter p = (l.entries.filter fun e => p e.1).map Prod.fst := by
  rw [names, List.filter_map]
  rfl

/-! ## Weaving -/

section Weave

variable {isKept : String → Bool} {es kept : List (String × String)}

/-- The entries that are not laid in stand where they stand in the list they are woven into. -/
theorem getElem?_weave_iff (hkept : ∀ d ∈ kept, isKept d.1 = true)
    (hlength : kept.length = (es.filter fun e => isKept e.1).length) {e : String × String}
    (he : isKept e.1 = false) (i : Nat) :
    (weave isKept es kept)[i]? = some e ↔ es[i]? = some e := by
  induction es generalizing kept i with
  | nil =>
    obtain rfl : kept = [] := List.eq_nil_of_length_eq_zero hlength
    rfl
  | cons d es ih =>
    by_cases hd : isKept d.1 = true
    · -- neither list has the entry at the first place, which is for one that is laid in
      rw [List.filter_cons_of_pos (by simpa using hd), List.length_cons] at hlength
      obtain ⟨k, kept, rfl⟩ := List.exists_cons_of_length_eq_add_one hlength
      obtain ⟨hk, hkept⟩ := List.forall_mem_cons.mp hkept
      rw [weave, if_pos hd]
      cases i with
      | zero =>
        have hne {x : String × String} (hx : isKept x.1 = true) : ¬some x = some e := by
          rintro ⟨⟩
          exact Bool.false_ne_true (he.symm.trans hx)
        exact iff_of_false (hne hk) (hne hd)
      | succ i => exact ih hkept (Nat.succ.inj hlength) i
    · rw [List.filter_cons_of_neg (by simpa using hd)] at hlength
      rw [weave, if_neg hd]
      cases i with
      | zero => rfl
      | succ i => exact ih hkept hlength i

/-- What is laid in is found again, in its order. -/
theorem filter_weave (hkept : ∀ d ∈ kept, isKept d.1 = true)
    (hlength : kept.length = (es.filter fun e => isKept e.1).length) :
    (weave isKept es kept).filter (fun e => isKept e.1) = kept := by
  induction es generalizing kept with
  | nil =>
    obtain rfl : kept = [] := List.eq_nil_of_length_eq_zero hlength
    rfl
  | cons d es ih =>
    by_cases hd : isKept d.1 = true
    · rw [List.filter_cons_of_pos (by simpa using hd), List.length_cons] at hlength
      obtain ⟨k, kept, rfl⟩ := List.exists_cons_of_length_eq_add_one hlength
      obtain ⟨hk, hkept⟩ := List.forall_mem_cons.mp hkept
      have hrest := ih hkept (Nat.succ.inj hlength)
      rw [weave, if_pos hd]
      simpa [hk] using hrest
    · rw [List.filter_cons_of_neg (by simpa using hd)] at hlength
      rw [weave, if_neg hd, List.filter_cons_of_neg (by simpa using hd)]
      exact ih hkept hlength

/-- Laying in what is there changes nothing. -/
theorem weave_self (isKept : String → Bool) (es : List (String × String)) :
    weave isKept es (es.filter fun e => isKept e.1) = es := by
  induction es with
  | nil => rfl
  | cons e es ih =>
    by_cases he : isKept e.1 = true
    · rw [List.filter_cons_of_pos (by simpa using he), weave, if_pos he]
      exact congrArg (e :: ·) ih
    · rw [List.filter_cons_of_neg (by simpa using he), weave, if_neg he, ih]

end Weave

/-! ## What the changes leave -/

/-- The entries whose names the new list has as well, in the old order and with the new values. -/
def survivors (old new : PropertyList) : PropertyList := (old.keep new.contains).revalue new.get?

theorem entries_sync (old new : PropertyList) :
    (sync old new).entries = weave old.contains new.entries (survivors old new).entries := rfl

theorem names_survivors (old new : PropertyList) :
    (survivors old new).names = old.names.filter new.contains := by
  rw [survivors, names_revalue, filter_names]
  rfl

theorem contains_of_mem_survivors {d : String × String} (hd : d ∈ (survivors old new).entries) :
    old.contains d.1 = true :=
  (List.mem_filter.mp ((kept_perm old new).mem_iff.mp hd)).2

theorem length_survivors (old new : PropertyList) :
    (survivors old new).entries.length = (new.entries.filter fun e => old.contains e.1).length :=
  (kept_perm old new).length_eq

/-- Entries of a list are made of their names. -/
theorem eq_map_names {es : List (String × String)} (h : ∀ e ∈ es, l.get? e.1 = some e.2) :
    es = (es.map Prod.fst).map fun name => (name, (l.get? name).getD "") := by
  rw [List.map_map]
  refine (List.map_id es).symm.trans (List.map_congr_left fun e he => ?_)
  simp [h e he]

/-- The survivors are those of the new list, in its order, if that is also the old one. -/
theorem survivors_eq_iff_sameOrder :
    (survivors old new).entries = new.entries.filter (fun e => old.contains e.1) ↔
      old.SameOrder new := by
  have hnames := filter_names new old.contains
  constructor
  · intro h
    rw [SameOrder, ← names_survivors, hnames, names, h]
  · intro h
    have hmem : ∀ e ∈ (survivors old new).entries, new.get? e.1 = some e.2 := fun e he =>
      get?_of_mem (List.mem_filter.mp ((kept_perm old new).mem_iff.mp he)).1
    have hmem' : ∀ e ∈ new.entries.filter fun e => old.contains e.1, new.get? e.1 = some e.2 :=
      fun e he => get?_of_mem (List.mem_filter.mp he).1
    have hsame : (survivors old new).entries.map Prod.fst
        = (new.entries.filter fun e => old.contains e.1).map Prod.fst :=
      (names_survivors old new).trans (h.trans hnames)
    rw [eq_map_names hmem, eq_map_names hmem', hsame]

/-! ## The outcome -/

/-- A new name stands where it stands in the new list. -/
theorem position?_sync (h : name ∉ old.names) :
    (sync old new).position? name = new.position? name := by
  have hkept : ∀ d ∈ (survivors old new).entries, old.contains d.1 = true :=
    fun _ => contains_of_mem_survivors
  have hat (i : Nat) (value : String) :
      (sync old new).entryAt? i = some (name, value) ↔ new.entryAt? i = some (name, value) :=
    getElem?_weave_iff hkept (length_survivors old new) (contains_eq_false_iff.mpr h) i
  refine Option.ext fun i => ?_
  simp only [position?_eq_some_iff, Option.map_eq_some_iff, Prod.exists]
  constructor
  · rintro ⟨_, value, hi, rfl⟩
    exact ⟨_, value, (hat i value).mp hi, rfl⟩
  · rintro ⟨_, value, hi, rfl⟩
    exact ⟨_, value, (hat i value).mpr hi, rfl⟩

/-- The names of both lists come in the old order. -/
theorem filter_names_sync (old new : PropertyList) :
    (sync old new).names.filter old.contains = old.names.filter new.contains := by
  have hfilter := filter_weave (fun _ => contains_of_mem_survivors) (length_survivors old new)
  rw [filter_names, entries_sync, hfilter, ← names_survivors]
  rfl

/-- The outcome is the new list itself exactly if the names that the two share come in the same
order. -/
theorem sync_eq_iff_sameOrder : sync old new = new ↔ old.SameOrder new := by
  constructor
  · intro h
    rw [SameOrder, ← filter_names_sync, h]
  · intro h
    refine ext_entries ?_
    rw [entries_sync, survivors_eq_iff_sameOrder.mpr h]
    exact weave_self old.contains new.entries

/-- Nothing but the order tells lists that are alike apart. -/
theorem Alike.eq_of_sameOrder {m : PropertyList} (h : l.Alike m) (horder : l.SameOrder m) : l = m := by
  have hrun := run_changes l m
  rw [changes_eq_nil_of_alike h] at hrun
  exact hrun.eq_of_nil.trans (sync_eq_iff_sameOrder.mpr horder)

/-- The changes between two lists can be carried out one after the other.  They make a list as long as
the new one, with the new values, in which the new names stand where they stand in the new list and the
other ones keep their old order.  So it is equal to the new list, and identical to it exactly if the
names that the two lists share come in the same order. -/
theorem changes_placed (old new : PropertyList) :
    ∃ l, (changes old new).foldlM (fun l c => l.edit c.toEdit) old = .ok l ∧
      l.length = new.length ∧
      (∀ name, name ∉ old.names → l.position? name = new.position? name) ∧
      l.names.filter old.contains = old.names.filter new.contains ∧
      (∀ name, l.get? name = new.get? name) ∧
      l.equiv new = true ∧
      (l = new ↔ old.SameOrder new) := by
  have halike := sync_alike old new
  refine ⟨sync old new, ?_, halike.length_eq, fun _ => position?_sync, filter_names_sync old new,
    halike.get?_eq, equiv_iff_alike.mpr halike, sync_eq_iff_sameOrder⟩
  exact (run_changes old new).foldlM_eq_ok fun _ _ _ hstep => hstep.2

/-- Between `a, b, c` and `c, x, a`, where the shared names change places, the new name `x` comes to
stand in the middle all the same, and the outcome is `a, x, c`. -/
theorem changes_placed_swapped :
    ∃ old new l : PropertyList, old.names = ["a", "b", "c"] ∧ new.names = ["c", "x", "a"] ∧
      (changes old new).foldlM (fun l c => l.edit c.toEdit) old = .ok l ∧
      "x" ∉ old.names ∧ l.position? "x" = new.position? "x" ∧
      l.names.filter old.contains = ["a", "c"] ∧ l.get? "c" = some "7" ∧ l ≠ new := by
  let old := ofPairs [("a", "1"), ("b", "2"), ("c", "3")]
  let new := ofPairs [("c", "7"), ("x", "8"), ("a", "1")]
  obtain ⟨l, hrun, _, hplace, horder, hget, _, hsame⟩ := changes_placed old new
  have hx : "x" ∉ old.names := by decide
  have hswapped : ¬old.SameOrder new := by decide
  refine ⟨old, new, l, by decide, by decide, hrun, hx, hplace "x" hx, ?_, ?_, ?_⟩
  · exact horder.trans (by decide)
  · exact (hget "c").trans (by decide)
  · exact fun h => hswapped (hsame.mp h)

end SynthDom.PropertyList
