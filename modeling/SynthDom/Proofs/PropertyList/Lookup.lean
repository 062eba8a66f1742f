import Mathlib.Data.List.Nodup
import Mathlib.Data.List.Perm.Subperm
import SynthDom.PropertyList.Change

/-!
# Property lists as finite maps

A property list is read by name, so what a list says is its function `get?`.  This file states every
way of writing to a list by what it does to that function, and with it the equality that overlooks
order.

* `get?_overwrite`, `get?_remove`, `get?_insertAt`: reading after writing.
* `PropertyList.Alike`: the same entries in any order.
* `ofPairs_entries`: a list is read back from its entries.
* `equiv_iff_alike`, `alike_iff_get?`: the test `equiv` decides it, and it is equality of `get?`.
  The test looks in one direction only; that it suffices is due to the names being distinct.
-/

namespace SynthDom

/-- The members of a list with one more put in. -/
theorem mem_splice_iff {α : Type} {xs : List α} {i : Nat} {x y : α} :
    y ∈ xs.take i ++ x :: xs.drop i ↔ y = x ∨ y ∈ xs := by
  rw [List.mem_append, List.mem_cons, or_left_comm, ← List.mem_append, List.take_append_drop]

namespace PropertyList

variable {l m : PropertyList} {name : String}

/-! ## Reading -/

theorem nodup_entries (l : PropertyList) : l.entries.Nodup := List.Nodup.of_map _ l.nodup

theorem mem_names_of_mem {e : String × String} (h : e ∈ l.entries) : e.1 ∈ l.names :=
  List.mem_map_of_mem h

/-- An entry is the value of its name. -/
theorem get?_of_mem {e : String × String} (h : e ∈ l.entries) : l.get? e.1 = some e.2 :=
  get?_eq_some_iff.mpr h

theorem get?_eq_none_iff : l.get? name = none ↔ name ∉ l.names := by
  rw [Option.eq_none_iff_forall_ne_some, mem_names_iff, not_exists]
  exact forall_congr' fun value => not_congr get?_eq_some_iff

/-- A name with a value occurs. -/
theorem mem_names_of_get? {value : String} (h : l.get? name = some value) : name ∈ l.names :=
  mem_names_of_mem (get?_eq_some_iff.mp h)

theorem names_getElem? (l : PropertyList) (i : Nat) :
    l.names[i]? = (l.entryAt? i).map Prod.fst := List.getElem?_map

/-- A name is found at the place of its entry, which is the only one. -/
theorem position?_eq_some_iff {i : Nat} :
    l.position? name = some i ↔ (l.entryAt? i).map Prod.fst = some name := by
  rw [position?, List.idxOf?_eq_some_iff, ← names_getElem?, List.getElem?_eq_some_iff]
  refine exists_congr fun hi => and_iff_left_of_imp ?_
  rintro rfl j hj heq
  have hji : j = i := l.nodup_names.getElem_inj_iff.mp heq
  exact Nat.ne_of_lt hj hji

/-- Lists that read alike have the same entries. -/
theorem mem_entries_iff_of_get?_eq (h : ∀ name, l.get? name = m.get? name)
    (e : String × String) : e ∈ l.entries ↔ e ∈ m.entries := by
  obtain ⟨name, value⟩ := e
  rw [← get?_eq_some_iff, ← get?_eq_some_iff, h name]

/-! ## Reading after writing -/

theorem get?_overwrite (l : PropertyList) (name value other : String) :
    (l.overwrite name value).get? other =
      if name = other ∧ name ∈ l.names then some value else l.get? other := by
  by_cases hn : name = other
  · subst hn
    by_cases hm : name ∈ l.names
    · rw [if_pos ⟨rfl, hm⟩, get?_eq_some_iff, entries_overwrite]
      obtain ⟨old, hold⟩ := mem_names_iff.mp hm
      exact List.mem_map.mpr ⟨_, hold, if_pos rfl⟩
    · rw [if_neg fun h => hm h.2, get?_eq_none_iff.mpr hm, get?_eq_none_iff, names_overwrite]
      exact hm
  · rw [if_neg fun h => hn h.1]
    refine Option.ext fun v => ?_
    rw [get?_eq_some_iff, get?_eq_some_iff, entries_overwrite, List.mem_map]
    constructor
    · rintro ⟨e, he, heq⟩
      split at heq
      · next h => exact absurd (h.symm.trans (Prod.mk.inj heq).1) hn
      · exact heq ▸ he
    · exact fun h => ⟨_, h, if_neg fun he => hn he.symm⟩

theorem get?_remove (l : PropertyList) (name other : String) :
    (l.remove name).get? other = if name = other then none else l.get? other := by
  by_cases hn : name = other
  · subst hn
    rw [if_pos rfl, get?_eq_none_iff, names_remove]
    simp
  · rw [if_neg hn]
    refine Option.ext fun v => ?_
    rw [get?_eq_some_iff, get?_eq_some_iff, entries_remove, List.mem_filter]
    exact ⟨And.left, fun h => ⟨h, bne_iff_ne.mpr fun he => hn he.symm⟩⟩

/-- The entries of a list with a new one placed into it. -/
theorem mem_entries_place {index : Nat} {value : String} {h : name ∉ l.names}
    {e : String × String} :
    e ∈ (l.place index name value h).entries ↔ e = (name, value) ∨ e ∈ l.entries :=
  mem_splice_iff

theorem get?_insertAt (l : PropertyList) (index : Nat) (name value other : String) :
    (l.insertAt index name value).get? other =
      if name = other then some value else l.get? other := by
  by_cases hm : name ∈ l.names
  · rw [insertAt_of_mem hm, get?_overwrite]
    by_cases hn : name = other <;> simp [hn, hm]
    exact fun h => absurd (hn ▸ hm) h
  · rw [insertAt_of_not_mem hm]
    by_cases hn : name = other
    · subst hn
      rw [if_pos rfl, get?_eq_some_iff, mem_entries_place]
      exact .inl rfl
    · rw [if_neg hn]
      refine Option.ext fun v => ?_
      rw [get?_eq_some_iff, get?_eq_some_iff, mem_entries_place]
      exact ⟨fun h => h.resolve_left fun he => hn (congrArg Prod.fst he).symm, .inr⟩

/-! ## Equality up to order -/

/-- The same entries, in any order. -/
def Alike (l m : PropertyList) : Prop := l.entries.Perm m.entries

namespace Alike

theorem refl (l : PropertyList) : l.Alike l := List.Perm.refl _

theorem symm (h : l.Alike m) : m.Alike l := List.Perm.symm h

theorem trans {k : PropertyList} (h : k.Alike l) (h' : l.Alike m) : k.Alike m :=
  List.Perm.trans h h'

theorem length_eq (h : l.Alike m) : l.length = m.length := List.Perm.length_eq h

theorem mem_names_iff (h : l.Alike m) : name ∈ l.names ↔ name ∈ m.names :=
  (List.Perm.map Prod.fst h).mem_iff

theorem contains_eq (h : l.Alike m) (name : String) : l.contains name = m.contains name := by
  rw [Bool.eq_iff_iff, contains_iff, contains_iff, h.mem_names_iff]

theorem get?_eq (h : l.Alike m) (name : String) : l.get? name = m.get? name := by
  refine Option.ext fun value => ?_
  rw [get?_eq_some_iff, get?_eq_some_iff]
  exact List.Perm.mem_iff h

end Alike

/-- Lists are alike exactly when they read alike. -/
theorem alike_iff_get? : l.Alike m ↔ ∀ name, l.get? name = m.get? name := by
  refine ⟨Alike.get?_eq, fun h => ?_⟩
  exact (List.perm_ext_iff_of_nodup l.nodup_entries m.nodup_entries).mpr
    (mem_entries_iff_of_get?_eq h)

namespace Alike

/-- Writing respects the equality: what is read afterwards does not depend on the order, and neither
does an index, at which only a new entry is placed. -/
theorem overwrite (h : l.Alike m) (name value : String) :
    (l.overwrite name value).Alike (m.overwrite name value) := by
  rw [alike_iff_get?]
  intro other
  simp only [get?_overwrite, h.mem_names_iff, h.get?_eq]

theorem remove (h : l.Alike m) (name : String) : (l.remove name).Alike (m.remove name) := by
  rw [alike_iff_get?]
  intro other
  simp only [get?_remove, h.get?_eq]

theorem insertAt (h : l.Alike m) (i j : Nat) (name value : String) :
    (l.insertAt i name value).Alike (m.insertAt j name value) := by
  rw [alike_iff_get?]
  intro other
  simp only [get?_insertAt, h.get?_eq]

end Alike

/-- The test for equality up to order decides it. -/
theorem equiv_iff_alike : l.equiv m = true ↔ l.Alike m := by
  have htest : l.equiv m = true ↔ l.length = m.length ∧ ∀ e ∈ l.entries, e ∈ m.entries := by
    simp only [equiv, Bool.and_eq_true, beq_iff_eq, List.all_eq_true, get?_eq_some_iff]
  rw [htest]
  constructor
  · rintro ⟨hlength, hsub⟩
    exact (List.subperm_of_subset l.nodup_entries hsub).perm_of_length_le (Nat.le_of_eq hlength.symm)
  · exact fun h => ⟨h.length_eq, fun e he => List.Perm.mem_iff h |>.mp he⟩

/-! ## Lists of pairs -/

/-- A new name goes to the end. -/
theorem entries_insert_of_not_mem (h : name ∉ l.names) (value : String) :
    (l.insert name value).entries = l.entries ++ [(name, value)] := by
  rw [insert, insertAt_of_not_mem h, entries_place, length, List.take_length, List.drop_length]

theorem length_insert_le (l : PropertyList) (name value : String) :
    (l.insert name value).length ≤ l.length + 1 := by
  by_cases h : name ∈ l.names
  · rw [insert, insertAt_of_mem h, length, entries_overwrite, List.length_map]
    exact Nat.le_succ _
  · rw [length, entries_insert_of_not_mem h, List.length_append]
    exact Nat.le_refl _

/-- Pairs whose names are all new are added as they stand. -/
theorem entries_foldl_insert {es : List (String × String)}
    (h : ((l.entries ++ es).map Prod.fst).Nodup) :
    (es.foldl (fun l e => l.insert e.1 e.2) l).entries = l.entries ++ es := by
  induction es generalizing l with
  | nil => exact (List.append_nil _).symm
  | cons e es ih =>
    have hnew : e.1 ∉ l.names := by
      rw [List.map_append, List.map_cons] at h
      intro hmem
      exact List.disjoint_of_nodup_append h hmem List.mem_cons_self
    have hentries := entries_insert_of_not_mem hnew e.2
    have hsplit : l.entries ++ e :: es = (l.insert e.1 e.2).entries ++ es := by
      rw [hentries, List.append_assoc]
      rfl
    rw [hsplit] at h ⊢
    exact ih h

/-- A list is made of its entries. -/
theorem ofPairs_entries (l : PropertyList) : ofPairs l.entries = l :=
  ext_entries (entries_foldl_insert l.nodup)

theorem length_ofPairs_le (pairs : List (String × String)) :
    (ofPairs pairs).length ≤ pairs.length := by
  have hfold (es : List (String × String)) (l : PropertyList) :
      (es.foldl (fun l e => l.insert e.1 e.2) l).length ≤ l.length + es.length := by
    induction es generalizing l with
    | nil => exact Nat.le_refl _
    | cons e es ih =>
      have hinsert := length_insert_le l e.1 e.2
      have hrest := ih (l.insert e.1 e.2)
      rw [List.length_cons, List.foldl_cons]
      omega
  exact Nat.le_trans (hfold pairs ∅) (Nat.le_of_eq (Nat.zero_add _))

end PropertyList

end SynthDom
