import Mathlib.Data.List.Induction
import SynthDom.Proofs.Mutation.Lists
import SynthDom.Proofs.Tree.Indistinguishable
import SynthDom.Proofs.Wire.Extent
import SynthDom.Proofs.Wire.Text

/-!
# Property lists as ordered maps

A list that is built from pairs and then written to is an ordered map, whatever the pairs and writes.
Its names are distinct, a name has the value that was written to it last, and writing moves no entry
that it is not about.

* `effects`: what writes do to the values of names, and `lastValue`, what a name has after them.
* `get?_foldl_write`: reading after any writes.
* `names_ofPairs`, `get?_ofPairs`: which of some pairs with one name counts for the place, and which for
  the value.
* `IsOrderedMap`: where entries are, and where writing leaves them.
* `ordered_map`: lists that are built and written to, decoded lists, their equality, and the lists of
  documents that are decoded and patched.
-/

namespace SynthDom.PropertyList

variable {l : PropertyList} {name : String}

/-! ## Effects -/

/-- The name that is written to, with its new value, or with none if it is taken out.  To set a value
beyond the end is to do nothing. -/
def Write.effect? (l : PropertyList) : Write → Option (String × Option String)
  | .insert name value | .insertAt _ name value => some (name, some value)
  | .remove name => some (name, none)
  | .setAt index value => (l.entryAt? index).map fun e => (e.1, some value)

/-- The effects of writes that follow each other. -/
def effects : PropertyList → List Write → List (String × Option String)
  | _, [] => []
  | l, w :: ws => (w.effect? l).toList ++ effects (l.write w) ws

/-- The value that a name has after some effects on a list without it. -/
def lastValue (log : List (String × Option String)) (name : String) : Option String :=
  (log.findRev? fun e => e.1 == name).bind Prod.snd

theorem findRev?_append {α : Type} (p : α → Bool) (xs ys : List α) :
    (xs ++ ys).findRev? p = (ys.findRev? p).or (xs.findRev? p) := by
  simp only [List.findRev?_eq_find?_reverse, List.reverse_append, List.find?_append]

/-- A write has its effect on one name. -/
theorem get?_write (l : PropertyList) (w : Write) (name : String) :
    (l.write w).get? name =
      ((w.effect? l).toList.findRev? fun e => e.1 == name).elim (l.get? name) Prod.snd := by
  cases w with
  | insert n value =>
    refine (get?_insertAt l l.length n value name).trans ?_
    by_cases h : n = name <;> simp [Write.effect?, h]
  | insertAt index n value =>
    refine (get?_insertAt l index n value name).trans ?_
    by_cases h : n = name <;> simp [Write.effect?, h]
  | remove n =>
    refine (get?_remove l n name).trans ?_
    by_cases h : n = name <;> simp [Write.effect?, h]
  | setAt index value =>
    rw [write]
    cases hentry : l.entryAt? index with
    | none => simp [setAt_eq_self hentry, Write.effect?, hentry]
    | some e =>
      have hmem : e.1 ∈ l.names := mem_names_of_mem (List.mem_of_getElem? hentry)
      rw [setAt_eq_overwrite hentry, get?_overwrite]
      by_cases h : e.1 = name
      · simp [Write.effect?, hentry, h, h ▸ hmem]
      · simp [Write.effect?, hentry, h]

/-- After writes a name has the value of the last effect on it, or the one from before if there is
none. -/
theorem get?_foldl_write (l : PropertyList) (ws : List Write) (name : String) :
    (ws.foldl write l).get? name =
      ((effects l ws).findRev? fun e => e.1 == name).elim (l.get? name) Prod.snd := by
  induction ws generalizing l with
  | nil => rfl
  | cons w ws ih =>
    rw [List.foldl_cons, ih, effects, findRev?_append, get?_write]
    cases (effects (l.write w) ws).findRev? fun e => e.1 == name <;> rfl

/-! ## Lists of pairs -/

theorem ofPairs_concat (pairs : List (String × String)) (e : String × String) :
    ofPairs (pairs ++ [e]) = (ofPairs pairs).insert e.1 e.2 := List.foldl_concat ..

theorem names_insert (l : PropertyList) (name value : String) :
    (l.insert name value).names = if name ∈ l.names then l.names else l.names ++ [name] := by
  split
  · next h => rw [insert, insertAt_of_mem h, names_overwrite]
  · next h => rw [names, entries_insert_of_not_mem h, List.map_append]; rfl

/-- A name has the place of the first pair with it. -/
theorem names_ofPairs (pairs : List (String × String)) :
    (ofPairs pairs).names = (pairs.map Prod.fst).eraseDups := by
  induction pairs using List.reverseRecOn with
  | nil => rfl
  | append_singleton pairs e ih =>
    rw [ofPairs_concat, names_insert, ih, List.map_append, List.eraseDups_append]
    by_cases h : e.1 ∈ pairs.map Prod.fst
    · simp [List.removeAll, h]
    · simp [List.removeAll, h, List.eraseDups_cons]

/-- A name has the value of the last pair with it. -/
theorem get?_ofPairs (pairs : List (String × String)) (name : String) :
    (ofPairs pairs).get? name = (pairs.findRev? fun e => e.1 == name).map Prod.snd := by
  induction pairs using List.reverseRecOn with
  | nil => rfl
  | append_singleton pairs e ih =>
    rw [ofPairs_concat, insert, get?_insertAt, ih, findRev?_append]
    by_cases h : e.1 = name <;> simp [h]

/-- The pairs that a list is built from count as its first effects. -/
theorem get?_foldl_write_ofPairs (pairs : List (String × String)) (ws : List Write) (name : String) :
    (ws.foldl write (ofPairs pairs)).get? name =
      lastValue (pairs.map (fun e => (e.1, some e.2)) ++ effects (ofPairs pairs) ws) name := by
  have hpairs : (pairs.map fun e => (e.1, some e.2)).findRev? (fun e => e.1 == name)
      = (pairs.findRev? fun e => e.1 == name).map fun e => (e.1, some e.2) := by
    simp only [List.findRev?_eq_find?_reverse, ← List.map_reverse, List.find?_map]
    rfl
  rw [get?_foldl_write, get?_ofPairs, lastValue, findRev?_append, hpairs]
  cases (effects (ofPairs pairs) ws).findRev? fun e => e.1 == name with
  | some e => rfl
  | none => cases pairs.findRev? fun e => e.1 == name <;> rfl

/-- The items of an array of pairs. -/
theorem mapM_pairOfJson?_eq_some_iff {items : List Json} {pairs : List (String × String)} :
    items.mapM pairOfJson? = some pairs ↔
      items = pairs.map fun e => .array [.string e.1, .string e.2] := by
  rw [mapM_eq_some_iff, ← List.forall₂_eq_eq_eq, List.forall₂_map_right_iff]
  constructor
  · exact List.Forall₂.imp fun _ _ h => pairOfJson?_eq_some h
  · refine List.Forall₂.imp fun _ _ h => ?_
    rw [h]
    rfl

/-- A decoded list is built from the pairs in an array, and any array of pairs can be decoded. -/
theorem ofJson?_eq_some_iff {j : Json} : ofJson? j = some l ↔
    ∃ pairs, j = .array (pairs.map fun e => .array [.string e.1, .string e.2]) ∧ l = ofPairs pairs := by
  rw [ofJson?, Option.map_eq_some_iff]
  refine exists_congr fun pairs => and_congr ?_ eq_comm
  rw [Json.items?, Option.bind_eq_some_iff]
  constructor
  · rintro ⟨items, hitems, hpairs⟩
    rw [mapM_pairOfJson?_eq_some_iff] at hpairs
    cases j <;> cases hitems
    rw [hpairs]
  · rintro rfl
    exact ⟨_, rfl, mapM_pairOfJson?_eq_some_iff.mpr rfl⟩

/-! ## Places -/

/-- No name occurs twice, each is found at its entry, and writing moves no entry but those behind one
that is put in or taken out. -/
structure IsOrderedMap (l : PropertyList) : Prop where
  /-- Names are distinct. -/
  nodup : l.names.Nodup
  /-- A name is found at the entry that has it. -/
  position : ∀ name i, l.position? name = some i ↔ (l.entryAt? i).map Prod.fst = some name
  /-- What is written to a name that is there stands where the name is. -/
  overwrite : ∀ name i index value, l.position? name = some i →
    (l.insertAt index name value).entries = l.entries.set i (name, value) ∧
      (l.insert name value).entries = l.entries.set i (name, value)
  /-- What is set by its position stays there. -/
  setAt : ∀ i e value, l.entryAt? i = some e →
    (l.setAt i value).entries = l.entries.set i (e.1, value)
  /-- A new name goes to the index, or to the end if the index lies beyond it. -/
  insert : ∀ name index value, name ∉ l.names →
    (l.insertAt index name value).entries
        = l.entries.insertIdx (min index l.length) (name, value) ∧
      (l.insert name value).entries = l.entries ++ [(name, value)]
  /-- A name that is taken out leaves the others in their order. -/
  remove : ∀ name,
    (∀ i, l.position? name = some i → (l.remove name).entries = l.entries.eraseIdx i) ∧
      (name ∉ l.names → l.remove name = l)

theorem entries_setAt_of_entryAt? {i : Nat} {e : String × String} (h : l.entryAt? i = some e)
    (value : String) : (l.setAt i value).entries = l.entries.set i (e.1, value) := by
  have hentry : l.entries[i]? = some e := h
  rw [entries_setAt, List.modify_eq_set_getElem?, hentry]
  rfl

theorem isOrderedMap (l : PropertyList) : l.IsOrderedMap where
  nodup := l.nodup_names
  position _ _ := position?_eq_some_iff
  overwrite name i index value h := by
    obtain ⟨e, hentry, hname⟩ := Option.map_eq_some_iff.mp (position?_eq_some_iff.mp h)
    have hset := entries_setAt_of_entryAt? hentry value
    rw [hname] at hset
    rw [insert, insertAt_of_position? h, insertAt_of_position? h]
    exact ⟨hset, hset⟩
  setAt _ _ value h := entries_setAt_of_entryAt? h value
  insert name index value h :=
    ⟨entries_insertAt_of_not_mem h index value, entries_insert_of_not_mem h value⟩
  remove name := ⟨fun _ => entries_remove_of_position?, remove_eq_self⟩

/-- A list that is built from pairs and then written to is an ordered map: it holds what the same writes
make of a bare list of pairs, its names are distinct, each with the value that was written to it last,
and entries keep their places.  A list of pairs keeps each name at its first place and with its last
value, and it is what a decoded list is built from.  Lists are equal exactly if they read alike, so this
is an equivalence.  A list of a document that is decoded and patched has distinct names too: it is one of
the decoded document, with some of the writes that the mutations are, or one of what a mutation puts in,
with some of those that the mutations behind it are. -/
theorem ordered_map :
    (∀ (pairs : List (String × String)) (ws : List Write),
      let l := ws.foldl write (ofPairs pairs)
      l.entries = ws.foldl Pairs.write (Pairs.collect pairs) ∧
      l.IsOrderedMap ∧
      ∀ name, l.get? name =
        lastValue (pairs.map (fun e => (e.1, some e.2)) ++ effects (ofPairs pairs) ws) name) ∧
    (∀ pairs : List (String × String), (ofPairs pairs).names = (pairs.map Prod.fst).eraseDups ∧
      ∀ name, (ofPairs pairs).get? name
        = (pairs.findRev? fun e => e.1 == name).map Prod.snd) ∧
    (∀ (j : Json) (l : PropertyList), ofJson? j = some l ↔
      ∃ pairs, j = .array (pairs.map fun e => .array [.string e.1, .string e.2]) ∧ l = ofPairs pairs) ∧
    (∀ l m : PropertyList, l.equiv m = true ↔ ∀ name, l.get? name = m.get? name) ∧
    (Equivalence fun l m : PropertyList => l.equiv m = true) ∧
    ∀ (text : String) (t t' : Tree) (ms : List Mutation),
      decodeText (orMalformed Tree.ofJson?) text = .ok t → t.patchAll ms = .ok t' →
      ∀ l, t'.HasList l → l.names.Nodup ∧
        ∃ (k : PropertyList) (ws : List Write),
          (t.HasList k ∧ ws.Sublist (Mutation.writes ms) ∨ ∃ m after, (m :: after) <:+ ms ∧
            m.action.Brings k ∧ ws.Sublist (Mutation.writes after)) ∧ l = ws.foldl write k := by
  have hequiv (l m : PropertyList) : l.equiv m = true ↔ ∀ name, l.get? name = m.get? name :=
    equiv_iff_alike.trans alike_iff_get?
  refine ⟨fun pairs ws => ⟨?_, isOrderedMap _, get?_foldl_write_ofPairs pairs ws⟩,
    fun pairs => ⟨names_ofPairs pairs, get?_ofPairs pairs⟩, fun _ _ => ofJson?_eq_some_iff, hequiv, ?_,
    fun _ _ _ _ _ hpatch l hl => ⟨l.nodup_names, Tree.hasList_of_patchAll hpatch hl⟩⟩
  · rw [entries_writeAll, entries_ofPairs]
  · have hsame : Equivalence fun l m : PropertyList => ∀ name, l.get? name = m.get? name :=
      ⟨fun _ _ => rfl, fun h name => (h name).symm, fun h h' name => (h name).trans (h' name)⟩
    exact equivalence_of_iff hequiv hsame

/-- Of two pairs with the name `a` the list has the place of the first.  It is written to in each way,
stands in a document that is decoded, and is written to there. -/
theorem ordered_map_paragraph :
    let pairs := [("a", "1"), ("b", "2"), ("a", "3")]
    let ws : List Write := [.insertAt 0 "c" "4", .setAt 1 "5", .insert "d" "6", .remove "b"]
    let l := ws.foldl write (ofPairs pairs)
    let page (l : PropertyList) : Tree := .document [.element ⟨"p", l, [], none⟩]
    let m : Mutation := ⟨[.child 0], .setAttribute "a" "7" none⟩
    l.entries = [("c", "4"), ("a", "5"), ("d", "6")] ∧
      l.get? "a" = some "5" ∧ l.get? "b" = none ∧ (ofPairs pairs).names = ["a", "b"] ∧
      (l.insertAt 1 "e" "8").names = ["c", "e", "a", "d"] ∧
      decodeText (orMalformed Tree.ofJson?) ((page l).toJson.print Json.compact) = .ok (page l) ∧
      (page l).patchAll [m] = .ok (page (l.overwrite "a" "7")) ∧
      (page (l.overwrite "a" "7")).HasList (l.overwrite "a" "7") ∧
      (l.overwrite "a" "7").names.Nodup := by
  intro pairs ws l page m
  obtain ⟨hbuilt, hpairs, -, -, -, hdocument⟩ := ordered_map
  obtain ⟨hentries, hmap, hget⟩ := hbuilt pairs ws
  have hdecode : decodeText (orMalformed Tree.ofJson?) ((page l).toJson.print Json.compact)
      = .ok (page l) := (Survives.of_read (page l).plain_toJson (page l).ofJson?_toJson).compact (by decide)
  have hpatch : (page l).patchAll [m] = .ok (page (l.overwrite "a" "7")) := rfl
  have hhas : (page (l.overwrite "a" "7")).HasList (l.overwrite "a" "7") := .inl ⟨[.child 0], _, rfl, rfl⟩
  have hinsert := (hmap.insert "e" 1 "8" (by decide)).1
  refine ⟨hentries.trans (by decide), (hget "a").trans (by decide), (hget "b").trans (by decide),
    (hpairs pairs).1.trans (by decide), ?_, hdecode, hpatch, hhas,
    (hdocument _ _ _ _ hdecode hpatch _ hhas).1⟩
  exact (congrArg (List.map Prod.fst) hinsert).trans (by decide)

end SynthDom.PropertyList
