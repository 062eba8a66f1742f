import SynthDom.Proofs.PropertyList.Lookup
import SynthDom.Proofs.Run

/-!
# What the changes between two lists make of the old one

`sync old new` is the list that comes of carrying out `changes old new` on `old`, entry by entry:
the names that only `new` has stand where they stand in `new`, and the places between them are
filled by the names of both lists, in their old order and with their new values.

Every change is `Apt` for the list it meets: what is removed or overwritten is there with the old
value that the change records, and what is inserted is not, at an index within the list.  The run
goes through two lists in between, `old` without the names that are dropped and then with the new
values.

* `run_changes`: the changes lead from `old` to `sync old new`, each apt where it is carried out.
* `sync_alike`: the outcome is `new` up to order.
* `Change.between_of_mem`: what a change says of the two lists.
* `changes_eq_nil_iff`: nothing is to change exactly between lists that are alike.
-/

namespace SynthDom.PropertyList

/-! ## Apt changes -/

/-- A change fits a list: it records the value it does away with, and inserts within the list. -/
def Change.Apt (l : PropertyList) : Change → Prop
  | .removed name oldValue => l.get? name = some oldValue
  | .changed name _ newValue oldValue => l.get? name = some oldValue ∧ oldValue ≠ newValue
  | .inserted name index _ => name ∉ l.names ∧ index ≤ l.length

/-- A change that fits a list, and the list it makes of it. -/
def Change.Step (c : Change) (l m : PropertyList) : Prop := c.Apt l ∧ l.edit c.toEdit = .ok m

theorem Change.step_removed {l : PropertyList} {name value : String}
    (h : l.get? name = some value) : Change.Step (.removed name value) l (l.remove name) :=
  ⟨h, if_pos (contains_iff.mpr (mem_names_of_get? h))⟩

theorem Change.step_changed {l : PropertyList} {name old new : String} {index : Nat}
    (h : l.get? name = some old) (hne : old ≠ new) :
    Change.Step (.changed name index new old) l (l.overwrite name new) :=
  ⟨⟨h, hne⟩, if_pos (contains_iff.mpr (mem_names_of_get? h))⟩

theorem Change.step_inserted {l : PropertyList} {name value : String} {index : Nat}
    (h : name ∉ l.names) (hindex : index ≤ l.length) :
    Change.Step (.inserted name index value) l (l.place index name value h) := by
  refine ⟨⟨h, hindex⟩, ?_⟩
  rw [← insertAt_of_not_mem h]
  exact if_neg fun hc => h (contains_iff.mp hc)

/-! ## The lists in between -/

/-- The entries with certain names. -/
def keep (l : PropertyList) (p : String → Bool) : PropertyList where
  entries := l.entries.filter fun e => p e.1
  nodup := List.Nodup.sublist (List.filter_sublist.map Prod.fst) l.nodup

/-- The list with other values for some names. -/
def revalue (l : PropertyList) (f : String → Option String) : PropertyList where
  entries := l.entries.map fun e => (e.1, (f e.1).getD e.2)
  nodup := by simpa only [List.map_map, Function.comp_def] using l.nodup

@[simp] theorem entries_keep (l : PropertyList) (p : String → Bool) :
    (l.keep p).entries = l.entries.filter fun e => p e.1 := rfl

@[simp] theorem entries_revalue (l : PropertyList) (f : String → Option String) :
    (l.revalue f).entries = l.entries.map fun e => (e.1, (f e.1).getD e.2) := rfl

@[simp] theorem names_revalue (l : PropertyList) (f : String → Option String) :
    (l.revalue f).names = l.names := by
  simp only [names, entries_revalue, List.map_map, Function.comp_def]

theorem mem_names_keep {l : PropertyList} {p : String → Bool} {name : String} :
    name ∈ (l.keep p).names ↔ name ∈ l.names ∧ p name = true := by
  simp only [mem_names_iff, entries_keep, List.mem_filter, exists_and_right]

theorem get?_keep {l : PropertyList} {p : String → Bool} {name : String} (h : p name = true) :
    (l.keep p).get? name = l.get? name := by
  refine Option.ext fun value => ?_
  simp [get?_eq_some_iff, h]

/-- Keeping what is kept already changes nothing. -/
theorem keep_eq_self {l : PropertyList} {p : String → Bool} (h : ∀ name ∈ l.names, p name = true) :
    l.keep p = l :=
  ext_entries (List.filter_eq_self.mpr fun _ he => h _ (mem_names_of_mem he))

theorem keep_congr {l : PropertyList} {p q : String → Bool} (h : ∀ name ∈ l.names, p name = q name) :
    l.keep p = l.keep q :=
  ext_entries (List.filter_congr fun _ he => h _ (mem_names_of_mem he))

theorem keep_remove (l : PropertyList) (name : String) (p : String → Bool) :
    (l.remove name).keep p = l.keep fun n => p n && n != name :=
  ext_entries List.filter_filter

/-- New values that are the old ones change nothing. -/
theorem revalue_eq_self {l : PropertyList} {f : String → Option String}
    (h : ∀ e ∈ l.entries, (f e.1).getD e.2 = e.2) : l.revalue f = l := by
  refine ext_entries ?_
  rw [entries_revalue]
  calc
    l.entries.map (fun e => (e.1, (f e.1).getD e.2)) = l.entries.map id :=
      List.map_congr_left fun e he => Prod.ext rfl (h e he)
    _ = l.entries := List.map_id _

/-! ## Removals and overwrites -/

/-- Dropping entries one by one. -/
theorem run_removals {l : PropertyList} {es : List (String × String)}
    (hnodup : (es.map Prod.fst).Nodup) (hes : ∀ e ∈ es, l.get? e.1 = some e.2) :
    Run Change.Step (es.map fun e => .removed e.1 e.2) l
      (l.keep fun name => !(es.map Prod.fst).contains name) := by
  induction es generalizing l with
  | nil =>
    have hkeep : (l.keep fun _ => true) = l := keep_eq_self fun _ _ => rfl
    have hrun : Run Change.Step [] l l := .nil l
    simpa [hkeep] using hrun
  | cons e es ih =>
    obtain ⟨hnew, hnodup⟩ := List.nodup_cons.mp hnodup
    refine .cons (Change.step_removed (hes e List.mem_cons_self)) ?_
    have hrest : ∀ e' ∈ es, (l.remove e.1).get? e'.1 = some e'.2 := fun e' he' => by
      have hne : e.1 ≠ e'.1 := fun he => hnew (he ▸ List.mem_map_of_mem he')
      rw [get?_remove, if_neg hne]
      exact hes e' (List.mem_cons_of_mem _ he')
    have hkeep : (l.keep fun name => !((e :: es).map Prod.fst).contains name)
        = (l.remove e.1).keep fun name => !(es.map Prod.fst).contains name := by
      rw [keep_remove]
      refine keep_congr fun name _ => ?_
      simp only [List.map_cons, List.contains_cons, Bool.not_or, bne, Bool.and_comm]
    rw [hkeep]
    exact ih hnodup hrest

/-- The removals leave the names of the new list. -/
theorem run_removals_changes (old new : PropertyList) :
    Run Change.Step (removals old new) old (old.keep new.contains) := by
  have hkeep : old.keep new.contains = old.keep fun name =>
      !((old.entries.filter fun e => !new.contains e.1).map Prod.fst).contains name := by
    refine keep_congr fun name hname => ?_
    obtain ⟨value, hvalue⟩ := mem_names_iff.mp hname
    rw [Bool.eq_iff_iff]
    simp
    exact ⟨fun h _ _ => h, fun h => h value hvalue⟩
  rw [hkeep]
  refine run_removals (List.Nodup.sublist (List.filter_sublist.map Prod.fst) old.nodup) ?_
  exact fun e he => get?_of_mem (List.mem_of_mem_filter he)

/-- The value that some entries give a name. -/
def valueIn (es : List (String × String)) (name : String) : Option String :=
  (es.find? fun e => e.1 == name).map Prod.snd

theorem valueIn_cons (e : String × String) (es : List (String × String)) (name : String) :
    valueIn (e :: es) name = if e.1 = name then some e.2 else valueIn es name := by
  by_cases h : e.1 = name
  · simp [valueIn, h]
  · simp [valueIn, h]

theorem valueIn_eq_none {es : List (String × String)} {name : String}
    (h : name ∉ es.map Prod.fst) : valueIn es name = none := by
  rw [valueIn, Option.map_eq_none_iff, List.find?_eq_none]
  exact fun e he hname => h (List.mem_map.mpr ⟨e, he, beq_iff_eq.mp hname⟩)

theorem overwrite_eq_revalue (l : PropertyList) (name value : String) :
    l.overwrite name value = l.revalue (valueIn [(name, value)]) := by
  refine ext_entries (List.map_congr_left fun e _ => ?_)
  rw [valueIn_cons]
  by_cases h : e.1 = name
  · simp [h]
  · simp [h, Ne.symm h, valueIn]

/-- Overwriting the first name, which does not occur again, and then the others. -/
theorem revalue_overwrite {l : PropertyList} {e : String × String} {es : List (String × String)}
    (h : e.1 ∉ es.map Prod.fst) :
    (l.overwrite e.1 e.2).revalue (valueIn es) = l.revalue (valueIn (e :: es)) := by
  refine ext_entries ?_
  simp only [entries_revalue, entries_overwrite, List.map_map]
  refine List.map_congr_left fun d _ => ?_
  simp only [Function.comp, valueIn_cons]
  by_cases hd : d.1 = e.1
  · simp [hd, valueIn_eq_none h]
  · simp [hd, Ne.symm hd]

/-- The overwrite of an entry of the new list, if the old one has another value for its name. -/
def overwriteOf (old : PropertyList) (e : (String × String) × Nat) : Option Change :=
  match old.get? e.1.1 with
  | some oldValue =>
    if oldValue = e.1.2 then none else some (.changed e.1.1 e.2 e.1.2 oldValue)
  | none => none

theorem overwrites_eq (old new : PropertyList) :
    overwrites old new = new.entries.zipIdx.filterMap (overwriteOf old) := rfl

/-- The overwrites of some entries of the new list, from a place on.  The list they meet still has
the values of the old one. -/
theorem run_overwrites {old l : PropertyList} {es : List (String × String)} (start : Nat)
    (hnodup : (es.map Prod.fst).Nodup) (hes : ∀ e ∈ es, l.get? e.1 = old.get? e.1) :
    Run Change.Step ((es.zipIdx start).filterMap (overwriteOf old)) l
      (l.revalue (valueIn es)) := by
  induction es generalizing l start with
  | nil =>
    have hsame : l.revalue (valueIn []) = l := revalue_eq_self fun _ _ => rfl
    rw [hsame]
    exact .nil l
  | cons e es ih =>
    obtain ⟨hnew, hnodup⟩ := List.nodup_cons.mp hnodup
    have he := hes e List.mem_cons_self
    have hrest : ∀ e' ∈ es, l.get? e'.1 = old.get? e'.1 := fun e' he' =>
      hes e' (List.mem_cons_of_mem _ he')
    rw [List.zipIdx_cons, ← revalue_overwrite hnew]
    -- an entry that keeps its value is overwritten in the outcome, but not by a change
    have hskip (h : ∀ d ∈ l.entries, d.1 = e.1 → d.2 = e.2) : l.overwrite e.1 e.2 = l := by
      rw [overwrite_eq_revalue]
      refine revalue_eq_self fun d hd => ?_
      rw [valueIn_cons]
      split
      · next hname => exact (h d hd hname.symm).symm
      · rfl
    cases hold : old.get? e.1 with
    | none =>
      have hnone : e.1 ∉ l.names := get?_eq_none_iff.mp (he.trans hold)
      have hof : overwriteOf old (e, start) = none := by simp only [overwriteOf, hold]
      rw [hskip fun d hd hname => absurd (hname ▸ mem_names_of_mem hd) hnone,
        List.filterMap_cons_none hof]
      exact ih (start + 1) hnodup hrest
    | some oldValue =>
      by_cases hvalue : oldValue = e.2
      · have hof : overwriteOf old (e, start) = none := by
          simp only [overwriteOf, hold, if_pos hvalue]
        have hsame : ∀ d ∈ l.entries, d.1 = e.1 → d.2 = e.2 := fun d hd hname => by
          have hget : some d.2 = some oldValue := by
            rw [← get?_of_mem hd, hname, he, hold]
          exact (Option.some.inj hget).trans hvalue
        rw [hskip hsame, List.filterMap_cons_none hof]
        exact ih (start + 1) hnodup hrest
      · have hof : overwriteOf old (e, start) = some (.changed e.1 start e.2 oldValue) := by
          simp only [overwriteOf, hold, if_neg hvalue]
        have hrest' : ∀ e' ∈ es, (l.overwrite e.1 e.2).get? e'.1 = old.get? e'.1 :=
          fun e' he' => by
            have hne : e.1 ≠ e'.1 := fun h => hnew (h ▸ List.mem_map_of_mem he')
            rw [get?_overwrite, if_neg fun h => hne h.1]
            exact hrest e' he'
        rw [List.filterMap_cons_some hof]
        exact .cons (Change.step_changed (he.trans hold) hvalue) (ih (start + 1) hnodup hrest')

/-- The overwrites give the remaining names their new values. -/
theorem run_overwrites_changes (old new : PropertyList) :
    Run Change.Step (overwrites old new) (old.keep new.contains)
      ((old.keep new.contains).revalue new.get?) := by
  have hget : new.get? = valueIn new.entries := rfl
  rw [hget]
  exact run_overwrites 0 new.nodup fun e he =>
    get?_keep (contains_iff.mpr (mem_names_of_mem he))

/-! ## Insertions -/

/-- Lays entries one by one into the places of `new` whose names `isKept` holds of; the other places
take what `new` has there. -/
def weave (isKept : String → Bool) :
    List (String × String) → List (String × String) → List (String × String)
  | [], kept => kept
  | e :: new, kept =>
    if isKept e.1 then kept.take 1 ++ weave isKept new (kept.drop 1)
    else e :: weave isKept new kept

/-- What is woven is what is laid in and what has no kept name. -/
theorem weave_perm (isKept : String → Bool) (new kept : List (String × String)) :
    (weave isKept new kept).Perm ((new.filter fun e => !isKept e.1) ++ kept) := by
  induction new generalizing kept with
  | nil => exact List.Perm.refl _
  | cons e new ih =>
    by_cases he : isKept e.1 = true
    · have hrest := (ih (kept.drop 1)).append_left (kept.take 1)
      rw [weave, if_pos he, List.filter_cons_of_neg (by simp [he])]
      calc
        (kept.take 1 ++ weave isKept new (kept.drop 1)).Perm
            (kept.take 1 ++ ((new.filter fun e => !isKept e.1) ++ kept.drop 1)) := hrest
        List.Perm _ ((new.filter fun e => !isKept e.1) ++ (kept.take 1 ++ kept.drop 1)) :=
          List.perm_append_comm_assoc _ _ _
        _ = ((new.filter fun e => !isKept e.1) ++ kept) := by rw [List.take_append_drop]
    · rw [weave, if_neg he, List.filter_cons_of_pos (by simpa using he), List.cons_append]
      exact (ih kept).cons e

/-- The insertion of an entry of the new list, if the old one lacks its name. -/
def insertionOf (old : PropertyList) (e : (String × String) × Nat) : Option Change :=
  if old.contains e.1.1 then none else some (.inserted e.1.1 e.2 e.1.2)

theorem insertions_eq (old new : PropertyList) :
    insertions old new = new.entries.zipIdx.filterMap (insertionOf old) := rfl

/-- The insertions of the entries from a place on.  Before that place the list is finished; behind
it stand the entries that are still to be passed, as many as there are places left for them. -/
theorem run_insertions {old l : PropertyList} {es done kept : List (String × String)}
    (hnodup : (es.map Prod.fst).Nodup) (hl : l.entries = done ++ kept)
    (hkept : kept.length = (es.filter fun e => old.contains e.1).length)
    (hnew : ∀ e ∈ es, old.contains e.1 = false → e.1 ∉ l.names) :
    ∃ m : PropertyList, m.entries = done ++ weave old.contains es kept ∧
      Run Change.Step ((es.zipIdx done.length).filterMap (insertionOf old)) l m := by
  induction es generalizing l done kept with
  | nil => exact ⟨l, hl, .nil l⟩
  | cons e es ih =>
    obtain ⟨hfresh, hnodup⟩ := List.nodup_cons.mp hnodup
    have hrest : ∀ e' ∈ es, old.contains e'.1 = false → e'.1 ∉ l.names := fun e' he' =>
      hnew e' (List.mem_cons_of_mem _ he')
    rw [List.zipIdx_cons]
    by_cases he : old.contains e.1 = true
    · -- the place belongs to the next entry that was kept
      have hfilter := List.filter_cons_of_pos (p := fun e => old.contains e.1) (l := es) he
      rw [hfilter, List.length_cons] at hkept
      obtain ⟨d, kept, rfl⟩ := List.exists_cons_of_length_eq_add_one hkept
      have hl' : l.entries = (done ++ [d]) ++ kept := by rw [hl, List.append_assoc]; rfl
      obtain ⟨m, hm, hrun⟩ := ih hnodup hl' (Nat.succ.inj hkept) hrest
      have hof : insertionOf old (e, done.length) = none := if_pos he
      refine ⟨m, ?_, ?_⟩
      · rw [hm, weave, if_pos he, List.append_assoc]
        rfl
      · rw [List.filterMap_cons_none hof]
        simpa only [List.length_append, List.length_singleton] using hrun
    · have hname : e.1 ∉ l.names := hnew e List.mem_cons_self (Bool.eq_false_iff.mpr he)
      have hindex : done.length ≤ l.length := by
        rw [length, hl, List.length_append]
        exact Nat.le_add_right _ _
      have hl' : (l.place done.length e.1 e.2 hname).entries = (done ++ [e]) ++ kept := by
        rw [entries_place, hl, List.take_left, List.drop_left, List.append_assoc]
        rfl
      have hfilter := List.filter_cons_of_neg (p := fun e => old.contains e.1) (l := es) he
      rw [hfilter] at hkept
      have hrest' : ∀ e' ∈ es, old.contains e'.1 = false →
          e'.1 ∉ (l.place done.length e.1 e.2 hname).names := fun e' he' hold hmem => by
        obtain ⟨value, hvalue⟩ := mem_names_iff.mp hmem
        rcases mem_entries_place.mp hvalue with h | h
        · exact hfresh ((Prod.mk.inj h).1 ▸ List.mem_map_of_mem he')
        · exact hrest e' he' hold (mem_names_iff.mpr ⟨value, h⟩)
      obtain ⟨m, hm, hrun⟩ := ih hnodup hl' hkept hrest'
      have hof : insertionOf old (e, done.length) = some (.inserted e.1 done.length e.2) :=
        if_neg he
      refine ⟨m, ?_, ?_⟩
      · rw [hm, weave, if_neg he, List.append_assoc]
        rfl
      · rw [List.filterMap_cons_some hof]
        refine .cons (Change.step_inserted hname hindex) ?_
        simpa only [List.length_append, List.length_singleton] using hrun

/-! ## The outcome -/

/-- The entries of both lists, in the old order and with their new values, have the names that the
new list shares with the old one. -/
theorem kept_perm (old new : PropertyList) :
    ((old.keep new.contains).revalue new.get?).entries.Perm
      (new.entries.filter fun e => old.contains e.1) := by
  refine (List.perm_ext_iff_of_nodup (nodup_entries _) (new.nodup_entries.filter _)).mpr ?_
  rintro ⟨name, value⟩
  simp only [entries_revalue, entries_keep, List.mem_map, List.mem_filter, contains_iff]
  constructor
  · rintro ⟨⟨n, v⟩, ⟨hold, hnew⟩, heq⟩
    obtain ⟨w, hw⟩ := mem_names_iff.mp hnew
    rw [get?_eq_some_iff.mpr hw, Option.getD_some] at heq
    obtain ⟨rfl, rfl⟩ := Prod.mk.inj heq
    exact ⟨hw, mem_names_of_mem hold⟩
  · rintro ⟨hnew, hold⟩
    obtain ⟨v, hv⟩ := mem_names_iff.mp hold
    refine ⟨(name, v), ⟨hv, mem_names_iff.mpr ⟨value, hnew⟩⟩, ?_⟩
    rw [get?_eq_some_iff.mpr hnew, Option.getD_some]

/-- The woven entries are those of the new list. -/
theorem woven_perm (old new : PropertyList) :
    (weave old.contains new.entries
      ((old.keep new.contains).revalue new.get?).entries).Perm new.entries :=
  calc
    List.Perm _ ((new.entries.filter fun e => !old.contains e.1)
        ++ ((old.keep new.contains).revalue new.get?).entries) := weave_perm _ _ _
    List.Perm _ ((new.entries.filter fun e => !old.contains e.1)
        ++ new.entries.filter fun e => old.contains e.1) := (kept_perm old new).append_left _
    List.Perm _ ((new.entries.filter fun e => old.contains e.1)
        ++ new.entries.filter fun e => !old.contains e.1) := List.perm_append_comm
    List.Perm _ new.entries := List.filter_append_perm _ _

/-- What the changes to `new` make of `old`. -/
def sync (old new : PropertyList) : PropertyList where
  entries := weave old.contains new.entries ((old.keep new.contains).revalue new.get?).entries
  nodup := ((woven_perm old new).map Prod.fst).nodup_iff.mpr new.nodup

/-- The outcome is the new list up to order. -/
theorem sync_alike (old new : PropertyList) : (sync old new).Alike new := woven_perm old new

/-- The changes between two lists lead from the one to their synchronisation. -/
theorem run_changes (old new : PropertyList) :
    Run Change.Step (changes old new) old (sync old new) := by
  have hnew : ∀ e ∈ new.entries, old.contains e.1 = false →
      e.1 ∉ ((old.keep new.contains).revalue new.get?).names := fun e _ hold hmem => by
    rw [names_revalue] at hmem
    exact contains_eq_false_iff.mp hold (mem_names_keep.mp hmem).1
  have hkept := (List.nil_append ((old.keep new.contains).revalue new.get?).entries).symm
  obtain ⟨m, hm, hrun⟩ := run_insertions new.nodup hkept (kept_perm old new).length_eq hnew
  obtain rfl : m = sync old new := ext_entries hm
  exact ((run_removals_changes old new).append (run_overwrites_changes old new)).append hrun

/-! ## What is among the changes -/

/-- What a change says of the two lists it is a difference of. -/
def Change.Between (old new : PropertyList) : Change → Prop
  | .removed name oldValue => old.get? name = some oldValue ∧ name ∉ new.names
  | .changed name index newValue oldValue =>
    new.entryAt? index = some (name, newValue) ∧ old.get? name = some oldValue ∧ oldValue ≠ newValue
  | .inserted name index newValue => new.entryAt? index = some (name, newValue) ∧ name ∉ old.names

/-- Each change between two lists tells a difference between them. -/
theorem Change.between_of_mem {old new : PropertyList} {c : Change} (h : c ∈ changes old new) :
    c.Between old new := by
  rcases List.mem_append.mp h with h | h
  · rcases List.mem_append.mp h with h | h
    · obtain ⟨e, he, rfl⟩ := List.mem_map.mp h
      obtain ⟨hold, hnew⟩ := List.mem_filter.mp he
      rw [Bool.not_eq_true'] at hnew
      exact ⟨get?_of_mem hold, contains_eq_false_iff.mp hnew⟩
    · obtain ⟨⟨e, i⟩, hmem, hsome⟩ := List.mem_filterMap.mp h
      have hentry : new.entryAt? i = some e := List.mk_mem_zipIdx_iff_getElem?.mp hmem
      simp only at hsome
      split at hsome
      · next hold =>
        split at hsome
        · cases hsome
        · next hne =>
          cases hsome
          exact ⟨hentry, hold, hne⟩
      · cases hsome
  · obtain ⟨⟨e, i⟩, hmem, hsome⟩ := List.mem_filterMap.mp h
    have hentry : new.entryAt? i = some e := List.mk_mem_zipIdx_iff_getElem?.mp hmem
    simp only at hsome
    split at hsome
    · cases hsome
    · next hold =>
      cases hsome
      exact ⟨hentry, fun hname => hold (contains_iff.mpr hname)⟩

/-! ## Nothing to change -/

/-- Between lists that are alike there is nothing to change. -/
theorem changes_eq_nil_of_alike {old new : PropertyList} (h : old.Alike new) :
    changes old new = [] := by
  have hremovals : removals old new = [] := by
    rw [removals, List.map_eq_nil_iff, List.filter_eq_nil_iff]
    intro e he
    rw [← h.contains_eq, contains_iff.mpr (mem_names_of_mem he)]
    simp
  have hoverwrites : overwrites old new = [] := by
    rw [overwrites_eq, List.filterMap_eq_nil_iff]
    rintro ⟨e, index⟩ he
    have hget : old.get? e.1 = some e.2 :=
      (h.get?_eq e.1).trans (get?_of_mem (List.fst_mem_of_mem_zipIdx he))
    simp only [overwriteOf, hget, if_pos]
  have hinsertions : insertions old new = [] := by
    rw [insertions_eq, List.filterMap_eq_nil_iff]
    rintro ⟨e, index⟩ he
    have hmem : e.1 ∈ old.names :=
      h.mem_names_iff.mpr (mem_names_of_mem (List.fst_mem_of_mem_zipIdx he))
    exact if_pos (contains_iff.mpr hmem)
  rw [changes, hremovals, hoverwrites, hinsertions]
  rfl

/-- Nothing is to change exactly between lists that are alike. -/
theorem changes_eq_nil_iff {old new : PropertyList} : changes old new = [] ↔ old.Alike new := by
  refine ⟨fun h => ?_, changes_eq_nil_of_alike⟩
  have hrun := run_changes old new
  rw [h] at hrun
  exact hrun.eq_of_nil ▸ sync_alike old new

end SynthDom.PropertyList
