import SynthDom.Proofs.PropertyList.Lookup

/-!
# Property lists as bare lists of pairs

A property list is kept as a bare list of pairs, which by itself can hold a name twice.  This file gives
the ways of writing as they act on bare lists, by position: a name is looked up, and the pair at the
position found is changed or taken out, or a new pair is put in.  Lists without a repeated name are
written to as property lists are, so each way of writing keeps them so.

* `Pairs.insertAt`, `Pairs.remove`, `Pairs.setAt`, `Pairs.collect`: writing to a bare list.
* `Write`: one such step, on bare lists and on property lists.
* `overwrite_eq_setAt`, `entries_remove_eq_eraseP`: what is done to a name is done at its position.
* `entries_writeAll`: a property list holds what the steps make of the bare one.
-/

namespace SynthDom

/-! ## Bare lists -/

namespace Pairs

/-- The position of the first pair with a name. -/
def position? (es : List (String × String)) (name : String) : Option Nat :=
  es.findIdx? fun e => e.1 == name

/-- Gives a new value to the pair at a position. -/
def setAt (es : List (String × String)) (index : Nat) (value : String) : List (String × String) :=
  es.modify index fun e => (e.1, value)

/-- Gives a new value to the first pair with a name, or puts a new pair at an index, but not beyond the
end. -/
def insertAt (es : List (String × String)) (index : Nat) (name value : String) :
    List (String × String) :=
  match position? es name with
  | some i => setAt es i value
  | none => es.insertIdx (min index es.length) (name, value)

/-- Gives a new value to the first pair with a name, or puts a new pair at the end. -/
def insert (es : List (String × String)) (name value : String) : List (String × String) :=
  insertAt es es.length name value

/-- Takes out the first pair with a name. -/
def remove (es : List (String × String)) (name : String) : List (String × String) :=
  match position? es name with
  | some i => es.eraseIdx i
  | none => es

/-- Inserts pairs one by one into an empty list. -/
def collect (pairs : List (String × String)) : List (String × String) :=
  pairs.foldl (fun es e => insert es e.1 e.2) []

end Pairs

namespace PropertyList

/-- A way of writing to a list. -/
inductive Write where
  | insert (name value : String)
  | insertAt (index : Nat) (name value : String)
  | remove (name : String)
  | setAt (index : Nat) (value : String)
deriving DecidableEq

end PropertyList

/-- Writes to a bare list. -/
def Pairs.write (es : List (String × String)) : PropertyList.Write → List (String × String)
  | .insert name value => insert es name value
  | .insertAt index name value => insertAt es index name value
  | .remove name => remove es name
  | .setAt index value => setAt es index value

namespace PropertyList

/-- Writes to a property list. -/
def write (l : PropertyList) : Write → PropertyList
  | .insert name value => l.insert name value
  | .insertAt index name value => l.insertAt index name value
  | .remove name => l.remove name
  | .setAt index value => l.setAt index value

variable {l : PropertyList} {name : String} {i : Nat}

/-! ## Positions -/

theorem position?_eq (l : PropertyList) (name : String) :
    l.position? name = Pairs.position? l.entries name := List.findIdx?_map

theorem position?_eq_none_iff : l.position? name = none ↔ name ∉ l.names := List.idxOf?_eq_none_iff

theorem mem_names_of_position? (h : l.position? name = some i) : name ∈ l.names := by
  by_contra hmem
  rw [position?_eq_none_iff.mpr hmem] at h
  cases h

/-- A name is overwritten at its position, which is the only one. -/
theorem overwrite_eq_setAt (h : l.position? name = some i) (value : String) :
    l.overwrite name value = l.setAt i value := by
  refine ext_entries (List.ext_getElem? fun j => ?_)
  rw [entries_overwrite, entries_setAt, List.getElem?_map, List.getElem?_modify]
  cases hj : l.entries[j]? with
  | none => rfl
  | some e =>
    have hentry : (l.entryAt? j).map Prod.fst = some e.1 := congrArg (Option.map Prod.fst) hj
    have hiff : e.1 = name ↔ i = j := by
      constructor
      · intro he
        rw [he, ← position?_eq_some_iff] at hentry
        exact Option.some.inj (h.symm.trans hentry)
      · rintro rfl
        exact Option.some.inj (hentry.symm.trans (position?_eq_some_iff.mp h))
    by_cases he : e.1 = name
    · simp [he, hiff.mp he]
    · simp [he, mt hiff.mpr he]

/-- A value is set where a name is, or nowhere. -/
theorem setAt_eq_overwrite {e : String × String} (h : l.entryAt? i = some e) (value : String) :
    l.setAt i value = l.overwrite e.1 value :=
  (overwrite_eq_setAt (position?_eq_some_iff.mpr (congrArg (Option.map Prod.fst) h)) value).symm

theorem setAt_eq_self (h : l.entryAt? i = none) (value : String) : l.setAt i value = l :=
  ext_entries (List.modify_eq_self (List.getElem?_eq_none_iff.mp h))

/-- A name is taken out at its position. -/
theorem entries_remove_eq_eraseP (l : PropertyList) (name : String) :
    (l.remove name).entries = l.entries.eraseP fun e => e.1 == name := by
  obtain ⟨es, hes⟩ := l
  rw [entries_remove]
  simp only
  induction es with
  | nil => rfl
  | cons e es ih =>
    obtain ⟨hnew, hes⟩ := List.nodup_cons.mp hes
    by_cases he : e.1 = name
    · have hrest : ∀ d ∈ es, (d.1 != name) = true := fun d hd =>
        bne_iff_ne.mpr fun hname => hnew (he.trans hname.symm ▸ List.mem_map_of_mem hd)
      rw [List.filter_cons_of_neg (by simp [he]), List.eraseP_cons_of_pos (by simp [he]),
        List.filter_eq_self.mpr hrest]
    · rw [List.filter_cons_of_pos (by simp [he]), List.eraseP_cons_of_neg (by simp [he]), ih hes]

theorem entries_remove_of_position? (h : l.position? name = some i) :
    (l.remove name).entries = l.entries.eraseIdx i := by
  rw [entries_remove_eq_eraseP, List.eraseP_eq_eraseIdx, ← Pairs.position?, ← position?_eq, h]

theorem remove_eq_self (h : name ∉ l.names) : l.remove name = l := by
  refine ext_entries ?_
  rw [entries_remove_eq_eraseP, List.eraseP_eq_eraseIdx, ← Pairs.position?, ← position?_eq,
    position?_eq_none_iff.mpr h]

end PropertyList

theorem insertIdx_eq_take_append_cons_drop {α : Type} (x : α) {l : List α} {i : Nat}
    (hi : i ≤ l.length) : l.insertIdx i x = l.take i ++ x :: l.drop i := by
  induction l generalizing i with
  | nil =>
    obtain rfl := Nat.le_zero.mp hi
    rfl
  | cons y l ih =>
    cases i with
    | zero => rfl
    | succ i => rw [List.insertIdx_succ_cons, ih (Nat.le_of_succ_le_succ hi)]; rfl

namespace PropertyList

variable {l : PropertyList} {name : String} {i : Nat}

/-- A new name is placed at the index, or at the end. -/
theorem entries_insertAt_of_not_mem (h : name ∉ l.names) (index : Nat) (value : String) :
    (l.insertAt index name value).entries
      = l.entries.insertIdx (min index l.length) (name, value) := by
  have hmin : min index l.length ≤ l.entries.length := Nat.min_le_right _ _
  rw [insertAt_of_not_mem h, entries_place, insertIdx_eq_take_append_cons_drop _ hmin]
  rcases Nat.le_total index l.length with hle | hle
  · rw [Nat.min_eq_left hle]
  · have hlength : l.entries.length ≤ index := hle
    rw [Nat.min_eq_right hle, List.take_of_length_le hlength, List.drop_eq_nil_of_le hlength, length,
      List.take_length, List.drop_length]

theorem insertAt_of_position? (h : l.position? name = some i) (index : Nat) (value : String) :
    l.insertAt index name value = l.setAt i value := by
  rw [insertAt_of_mem (mem_names_of_position? h), overwrite_eq_setAt h]

/-! ## Writing by position -/

theorem entries_insertAt (l : PropertyList) (index : Nat) (name value : String) :
    (l.insertAt index name value).entries = Pairs.insertAt l.entries index name value := by
  rw [Pairs.insertAt, ← position?_eq]
  cases h : l.position? name with
  | none => exact entries_insertAt_of_not_mem (position?_eq_none_iff.mp h) index value
  | some i => exact congrArg entries (insertAt_of_position? h index value)

theorem entries_insert (l : PropertyList) (name value : String) :
    (l.insert name value).entries = Pairs.insert l.entries name value :=
  entries_insertAt l l.length name value

theorem entries_remove_eq (l : PropertyList) (name : String) :
    (l.remove name).entries = Pairs.remove l.entries name := by
  rw [Pairs.remove, ← position?_eq]
  cases h : l.position? name with
  | none => rw [remove_eq_self (position?_eq_none_iff.mp h)]
  | some i => exact entries_remove_of_position? h

/-- Writing to a property list is writing to its bare list. -/
theorem entries_write (l : PropertyList) (w : Write) :
    (l.write w).entries = Pairs.write l.entries w := by
  cases w with
  | insert name value => exact entries_insert l name value
  | insertAt index name value => exact entries_insertAt l index name value
  | remove name => exact entries_remove_eq l name
  | setAt index value => rfl

theorem entries_writeAll (l : PropertyList) (ws : List Write) :
    (ws.foldl write l).entries = ws.foldl Pairs.write l.entries := by
  induction ws generalizing l with
  | nil => rfl
  | cons w ws ih => rw [List.foldl_cons, List.foldl_cons, ih, entries_write]

theorem entries_ofPairs (pairs : List (String × String)) :
    (ofPairs pairs).entries = Pairs.collect pairs := by
  have hfold (l : PropertyList) : (pairs.foldl (fun l e => l.insert e.1 e.2) l).entries
      = pairs.foldl (fun es e => Pairs.insert es e.1 e.2) l.entries := by
    induction pairs generalizing l with
    | nil => rfl
    | cons e pairs ih => rw [List.foldl_cons, List.foldl_cons, ih, entries_insert]
  exact hfold ∅

end PropertyList

end SynthDom
