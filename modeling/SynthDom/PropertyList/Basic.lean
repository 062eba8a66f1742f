/-!
# Property lists

Attributes of an element and declarations of a rule are an ordered finite map from names to values.
A name occurs once; writing to a name that is there keeps its place.

* `PropertyList`: the list of entries, with the names distinct.
* `get?`, `position?`, `contains`: reading.
* `insert`, `insertAt`, `remove`, `setAt`, `ofPairs`: writing.
* `equiv`: the two lists hold the same entries, in any order.
-/

namespace SynthDom

/-- Entries in order, no name twice. -/
structure PropertyList where
  entries : List (String × String)
  nodup : (entries.map Prod.fst).Nodup
deriving DecidableEq

namespace PropertyList

theorem ext_entries {l m : PropertyList} (h : l.entries = m.entries) : l = m := by
  cases l; cases m; cases h; rfl

/-- No entries. -/
def empty : PropertyList := ⟨[], .nil⟩

instance : EmptyCollection PropertyList := ⟨empty⟩
instance : Inhabited PropertyList := ⟨empty⟩

@[simp] theorem entries_empty : (∅ : PropertyList).entries = [] := rfl

/-! ## Reading -/

/-- The names in order. -/
def names (l : PropertyList) : List String := l.entries.map Prod.fst

/-- The number of entries. -/
def length (l : PropertyList) : Nat := l.entries.length

def isEmpty (l : PropertyList) : Bool := l.entries.isEmpty

/-- The value of a name. -/
def get? (l : PropertyList) (name : String) : Option String :=
  (l.entries.find? fun e => e.1 == name).map Prod.snd

def contains (l : PropertyList) (name : String) : Bool := l.names.contains name

/-- The index of a name's entry. -/
def position? (l : PropertyList) (name : String) : Option Nat := l.names.idxOf? name

/-- The entry at an index. -/
def entryAt? (l : PropertyList) (index : Nat) : Option (String × String) := l.entries[index]?

theorem nodup_names (l : PropertyList) : l.names.Nodup := l.nodup

theorem contains_iff {l : PropertyList} {name : String} :
    l.contains name = true ↔ name ∈ l.names := by
  simp [contains]

theorem contains_eq_false_iff {l : PropertyList} {name : String} :
    l.contains name = false ↔ name ∉ l.names := by
  simp [contains]

theorem mem_names_iff {l : PropertyList} {name : String} :
    name ∈ l.names ↔ ∃ value, (name, value) ∈ l.entries := by
  simp [names]

/-- A name has the value of its entry, which is the only one. -/
theorem get?_eq_some_iff {l : PropertyList} {name value : String} :
    l.get? name = some value ↔ (name, value) ∈ l.entries := by
  obtain ⟨entries, nodup⟩ := l
  simp only [get?]
  induction entries with
  | nil => simp
  | cons e es ih =>
    obtain ⟨n, v⟩ := e
    obtain ⟨hn, hes⟩ := List.nodup_cons.1 nodup
    by_cases h : n = name
    · subst h
      have hv : (n, value) ∉ es := fun hv => hn (List.mem_map.2 ⟨_, hv, rfl⟩)
      simp [hv, eq_comm]
    · have hne : ¬(name = n ∧ value = v) := fun ⟨hn', _⟩ => h hn'.symm
      simp only [List.find?_cons, beq_eq_false_iff_ne.2 h]
      simpa [hne] using ih hes

/-! ## Writing -/

/-- Gives a new value to the entry of a name, which keeps its place. -/
def overwrite (l : PropertyList) (name value : String) : PropertyList where
  entries := l.entries.map fun e => if e.1 = name then (e.1, value) else e
  nodup := by
    have h : (l.entries.map fun e => if e.1 = name then (e.1, value) else e).map Prod.fst
        = l.entries.map Prod.fst := by
      rw [List.map_map]
      exact List.map_congr_left fun e _ => by simp only [Function.comp]; split <;> rfl
    rw [h]; exact l.nodup

/-- Puts a new entry at an index, or at the end if the index lies beyond it. -/
def place (l : PropertyList) (index : Nat) (name value : String) (new : name ∉ l.names) :
    PropertyList where
  entries := l.entries.take index ++ (name, value) :: l.entries.drop index
  nodup := by
    have h : ((l.entries.take index ++ (name, value) :: l.entries.drop index).map Prod.fst).Perm
        (name :: l.names) := by
      have p : (l.entries.take index ++ (name, value) :: l.entries.drop index).Perm
          ((name, value) :: l.entries) := by
        have q : (l.entries.take index ++ (name, value) :: l.entries.drop index).Perm
            ((name, value) :: (l.entries.take index ++ l.entries.drop index)) := List.perm_middle
        rwa [List.take_append_drop] at q
      exact p.map Prod.fst
    exact h.nodup_iff.2 (List.nodup_cons.2 ⟨new, l.nodup⟩)

/-- Writes a value to a name: over the value it has, or as a new entry at the index. -/
def insertAt (l : PropertyList) (index : Nat) (name value : String) : PropertyList :=
  if h : name ∈ l.names then l.overwrite name value else l.place index name value h

/-- Writes a value to a name: over the value it has, or as a new last entry. -/
def insert (l : PropertyList) (name value : String) : PropertyList :=
  l.insertAt l.length name value

/-- Drops the entry of a name. -/
def remove (l : PropertyList) (name : String) : PropertyList where
  entries := l.entries.filter fun e => e.1 != name
  nodup := List.Nodup.sublist (List.filter_sublist.map Prod.fst) l.nodup

/-- Gives a new value to the entry at an index. -/
def setAt (l : PropertyList) (index : Nat) (value : String) : PropertyList where
  entries := l.entries.modify index fun e => (e.1, value)
  nodup := by
    have h : (l.entries.modify index fun e => (e.1, value)).map Prod.fst
        = l.entries.map Prod.fst := by
      apply List.ext_getElem?
      intro i
      simp only [List.getElem?_map, List.getElem?_modify]
      cases l.entries[i]? with
      | none => rfl
      | some e => by_cases hi : index = i <;> simp [hi]
    rw [h]; exact l.nodup

/-- The list of some pairs, written from the first to the last: a repeated name keeps its first
place and takes its last value. -/
def ofPairs (pairs : List (String × String)) : PropertyList :=
  pairs.foldl (fun l e => l.insert e.1 e.2) ∅

@[simp] theorem entries_overwrite (l : PropertyList) (name value : String) :
    (l.overwrite name value).entries
      = l.entries.map fun e => if e.1 = name then (e.1, value) else e := rfl

@[simp] theorem entries_place (l : PropertyList) (index : Nat) (name value : String)
    (h : name ∉ l.names) :
    (l.place index name value h).entries
      = l.entries.take index ++ (name, value) :: l.entries.drop index := rfl

@[simp] theorem entries_remove (l : PropertyList) (name : String) :
    (l.remove name).entries = l.entries.filter fun e => e.1 != name := rfl

@[simp] theorem entries_setAt (l : PropertyList) (index : Nat) (value : String) :
    (l.setAt index value).entries = l.entries.modify index fun e => (e.1, value) := rfl

theorem insertAt_of_mem {l : PropertyList} {name : String} (h : name ∈ l.names) (index : Nat)
    (value : String) : l.insertAt index name value = l.overwrite name value := dif_pos h

theorem insertAt_of_not_mem {l : PropertyList} {name : String} (h : name ∉ l.names) (index : Nat)
    (value : String) : l.insertAt index name value = l.place index name value h := dif_neg h

@[simp] theorem names_overwrite (l : PropertyList) (name value : String) :
    (l.overwrite name value).names = l.names := by
  simp only [names, entries_overwrite, List.map_map]
  exact List.map_congr_left fun e _ => by simp only [Function.comp]; split <;> rfl

@[simp] theorem names_remove (l : PropertyList) (name : String) :
    (l.remove name).names = l.names.filter (· != name) := by
  simp only [names, entries_remove, List.filter_map]
  rfl

/-! ## Equality up to order -/

/-- The same number of entries, and every entry of the one is an entry of the other. -/
def equiv (l m : PropertyList) : Bool :=
  l.length == m.length && l.entries.all fun e => m.get? e.1 == some e.2

end PropertyList

/-- The value that marks an attribute as a bare flag. -/
def flagValue : String := "true"

end SynthDom
