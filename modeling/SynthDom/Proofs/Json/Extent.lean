import SynthDom.Json.Reader

/-!
# How deep and how wide values are

A value that is read from a text is no deeper than the reader has room for, and its arrays are no
longer than the text.  Both are kept in one relation, `Json.Within`.

* `Json.induct`: what holds of an array or object when it holds of all parts holds of every value.
* `Json.Within`: the arrays and objects of a value that are open at one place, and the items of one
  array, are no more than so many.
* `readValue_keeps`, `read_within`: values that are read are within the room and the text.
-/

namespace SynthDom

/-! ## Induction over values -/

/-- What holds of an array or object when it holds of all items or fields holds of every value. -/
@[induction_eliminator]
theorem Json.induct {P : Json → Prop} (null : P .null) (bool : ∀ b, P (.bool b))
    (natural : ∀ n, P (.natural n)) (real : ∀ literal, P (.real literal))
    (string : ∀ s, P (.string s)) (array : ∀ items, (∀ j ∈ items, P j) → P (.array items))
    (object : ∀ fields, (∀ f ∈ fields, P f.2) → P (.object fields)) (unreadable : P .unreadable)
    (j : Json) : P j :=
  @Json.rec P (fun items => ∀ j ∈ items, P j) (fun fields => ∀ f ∈ fields, P f.2) (fun f => P f.2)
    null bool natural real string array object unreadable
    (fun _ h => absurd h List.not_mem_nil)
    (fun _ _ hhead htail _ h => (List.mem_cons.mp h).elim (fun he => he ▸ hhead) (htail _))
    (fun _ h => absurd h List.not_mem_nil)
    (fun _ _ hhead htail _ h => (List.mem_cons.mp h).elim (fun he => he ▸ hhead) (htail _))
    (fun _ _ h => h) j

namespace Json

/-! ## Depth and width -/

/-- No more arrays and objects are open at one place than there is room for, and no array has more
items than the width. -/
inductive Within (width : Nat) : Nat → Json → Prop
  /-- What has no parts. -/
  | leaf {room : Nat} {j : Json} : j.depth = 0 → Within width room j
  /-- An array takes one place. -/
  | array {room : Nat} {items : List Json} :
      items.length ≤ width → (∀ j ∈ items, Within width room j) →
        Within width (room + 1) (.array items)
  /-- So does an object. -/
  | object {room : Nat} {fields : List (String × Json)} :
      (∀ f ∈ fields, Within width room f.2) → Within width (room + 1) (.object fields)

theorem depthItems_le_iff {items : List Json} {d : Nat} :
    depthItems items ≤ d ↔ ∀ j ∈ items, depth j ≤ d := by
  induction items with
  | nil => simp [depthItems]
  | cons j js ih => rw [depthItems, Nat.max_le, ih, List.forall_mem_cons]

theorem depthFields_le_iff {fields : List (String × Json)} {d : Nat} :
    depthFields fields ≤ d ↔ ∀ f ∈ fields, depth f.2 ≤ d := by
  induction fields with
  | nil => simp [depthFields]
  | cons f fields ih =>
    obtain ⟨name, j⟩ := f
    rw [depthFields, Nat.max_le, ih, List.forall_mem_cons]

/-- A list is written one level deeper than its members are. -/
theorem depth_map_le {α : Type} {write : α → Json} {l : List α} {d : Nat}
    (h : ∀ x ∈ l, (write x).depth ≤ d) : (Json.array (l.map write)).depth ≤ d + 1 := by
  refine Nat.succ_le_succ (depthItems_le_iff.mpr fun j hj => ?_)
  obtain ⟨x, hx, rfl⟩ := List.mem_map.mp hj
  exact h x hx

namespace Within

variable {width width' room room' : Nat} {j : Json}

theorem mono (h : Within width room j) (hwidth : width ≤ width') (hroom : room ≤ room') :
    Within width' room' j := by
  induction h generalizing room' with
  | leaf h => exact .leaf h
  | array hlength _ ih =>
    obtain ⟨room', rfl⟩ := Nat.exists_eq_add_of_le' (Nat.one_le_of_lt hroom)
    exact .array (Nat.le_trans hlength hwidth) fun j hj => ih j hj (Nat.le_of_succ_le_succ hroom)
  | object _ ih =>
    obtain ⟨room', rfl⟩ := Nat.exists_eq_add_of_le' (Nat.one_le_of_lt hroom)
    exact .object fun f hf => ih f hf (Nat.le_of_succ_le_succ hroom)

/-- The room bounds the depth. -/
theorem depth_le (h : Within width room j) : j.depth ≤ room := by
  induction h with
  | leaf h => exact h ▸ Nat.zero_le _
  | array _ _ ih => exact Nat.succ_le_succ (depthItems_le_iff.mpr ih)
  | object _ ih => exact Nat.succ_le_succ (depthFields_le_iff.mpr ih)

/-- A value needs no more room than it is deep. -/
theorem of_depth_le (h : Within width room j) (hdepth : j.depth ≤ room') : Within width room' j := by
  induction h generalizing room' with
  | leaf h => exact .leaf h
  | array hlength _ ih =>
    obtain ⟨room', rfl⟩ := Nat.exists_eq_add_of_le' (Nat.one_le_of_lt hdepth)
    have hitems := depthItems_le_iff.mp (Nat.le_of_succ_le_succ hdepth)
    exact .array hlength fun j hj => ih j hj (hitems j hj)
  | object _ ih =>
    obtain ⟨room', rfl⟩ := Nat.exists_eq_add_of_le' (Nat.one_le_of_lt hdepth)
    have hfields := depthFields_le_iff.mp (Nat.le_of_succ_le_succ hdepth)
    exact .object fun f hf => ih f hf (hfields f hf)

end Within

/-! ## What a reader leaves -/

/-- What is left of a text, if anything, is shorter than it. -/
def Shorter (cs : List Char) (rest : Option (List Char)) : Prop := ∀ r ∈ rest, r.length < cs.length

theorem length_skipBlanks_le (cs : List Char) : (skipBlanks cs).length ≤ cs.length :=
  (List.dropWhile_sublist _).length_le

theorem map_piece_eq_some {p : Piece} {x : Option (List Piece × List Char)} {ps : List Piece}
    {rest : List Char} (h : x.map (fun r => (p :: r.1, r.2)) = some (ps, rest)) :
    ∃ ps', x = some (ps', rest) := by
  obtain ⟨⟨ps', _⟩, hx, heq⟩ := Option.map_eq_some_iff.mp h
  cases heq
  exact ⟨ps', hx⟩

theorem length_readPieces {cs rest : List Char} {ps : List Piece}
    (h : readPieces cs = some (ps, rest)) : rest.length < cs.length := by
  fun_induction readPieces cs generalizing ps with
  | case1 | case4 | case6 | case7 => cases h
  | case2 cs =>
    cases h
    exact Nat.lt_succ_self _
  | case3 _ _ _ _ cs _ _ ih =>
    obtain ⟨ps', hps⟩ := map_piece_eq_some h
    have hlt := ih hps
    simp only [List.length_cons]
    omega
  | case5 _ cs _ _ _ ih =>
    obtain ⟨ps', hps⟩ := map_piece_eq_some h
    have hlt := ih hps
    simp only [List.length_cons]
    omega
  | case8 _ cs _ _ _ _ ih =>
    obtain ⟨ps', hps⟩ := map_piece_eq_some h
    exact Nat.lt_succ_of_lt (ih hps)

theorem length_readDigits_lt {cs : List Char} (h : (readDigits cs).1.isEmpty = false) :
    (readDigits cs).2.length < cs.length := by
  have hsplit := congrArg List.length (List.takeWhile_append_dropWhile (p := Char.isDigit) (l := cs))
  have hpos : 0 < (readDigits cs).1.length := List.length_pos_iff.mpr (List.isEmpty_eq_false_iff.mp h)
  rw [List.length_append] at hsplit
  simp only [readDigits] at hpos ⊢
  omega

/-- Digits are required of a numeral in several places. -/
theorem length_of_readDigits {α : Type} {cs rest : List Char} {f : List Char → α} {x : α}
    (h : (if (readDigits cs).1.isEmpty then none else some (f (readDigits cs).1, (readDigits cs).2))
      = some (x, rest)) : rest.length < cs.length := by
  split at h
  · cases h
  · next hne =>
    cases h
    exact length_readDigits_lt (Bool.eq_false_iff.mpr hne)

theorem length_readWhole {cs ds rest : List Char} (h : Numeral.readWhole cs = some (ds, rest)) :
    rest.length < cs.length := by
  unfold Numeral.readWhole at h
  split at h
  · cases h
    exact Nat.lt_succ_self _
  · exact length_of_readDigits (f := id) h

theorem length_readFraction {cs rest : List Char} {fraction : Option (List Char)}
    (h : Numeral.readFraction cs = some (fraction, rest)) : rest.length ≤ cs.length := by
  unfold Numeral.readFraction at h
  split at h
  · exact Nat.le_of_lt (Nat.lt_succ_of_lt (length_of_readDigits h))
  · cases h
    exact Nat.le_refl _

theorem length_readSign_le (cs : List Char) : (Numeral.readSign cs).2.length ≤ cs.length := by
  unfold Numeral.readSign
  split
  · exact Nat.le_succ _
  · exact Nat.le_succ _
  · exact Nat.le_refl _

theorem length_readExponent {cs rest : List Char} {exponent : Option (List Char × List Char)}
    (h : Numeral.readExponent cs = some (exponent, rest)) : rest.length ≤ cs.length := by
  unfold Numeral.readExponent at h
  split at h
  · next c cs =>
    split at h
    · have hlt := length_of_readDigits (f := fun ds => some ((Numeral.readSign cs).1, ds)) h
      exact Nat.le_of_lt (Nat.lt_succ_of_lt (Nat.lt_of_lt_of_le hlt (length_readSign_le cs)))
    · cases h
      exact Nat.le_refl _
  · cases h
    exact Nat.le_refl _

theorem length_readNumeral {cs rest : List Char} {x : Numeral}
    (h : Numeral.read cs = some (x, rest)) : rest.length < cs.length := by
  unfold Numeral.read at h
  simp only [Option.bind_eq_bind, Option.bind_eq_some_iff] at h
  obtain ⟨⟨whole, cs₁⟩, hwhole, ⟨fraction, cs₂⟩, hfraction, ⟨exponent, cs₃⟩, hexponent, heq⟩ := h
  cases heq
  have h₁ := length_readWhole hwhole
  have h₂ := length_readFraction hfraction
  have h₃ := length_readExponent hexponent
  split at h₁ <;> simp only [List.length_cons] at * <;> omega

/-! ## What is left after a value -/

theorem Shorter.of_le {cs cs' : List Char} {rest : Option (List Char)} (h : Shorter cs' rest)
    (hle : cs'.length ≤ cs.length) : Shorter cs rest := fun r hr =>
  Nat.lt_of_lt_of_le (h r hr) hle

theorem shorter_none (cs : List Char) : Shorter cs none := nofun

theorem shorter_some {cs r : List Char} (h : r.length < cs.length) : Shorter cs (some r) := by
  rintro _ ⟨⟩
  exact h

theorem shorter_readWord (word : List Char) (value : Json) (c : Char) (cs : List Char) :
    Shorter (c :: cs) (readWord word value cs).2 := by
  unfold readWord
  split
  · exact shorter_some (Nat.lt_succ_of_le (List.drop_sublist _ _).length_le)
  · exact shorter_none _

theorem shorter_readText (cs : List Char) : Shorter cs (readText cs).2 := by
  unfold readText
  split
  · exact shorter_some (length_readPieces ‹_›)
  · exact shorter_none _

theorem shorter_readNumber (cs : List Char) : Shorter cs (readNumber cs).2 := by
  unfold readNumber
  split
  · exact shorter_some (length_readNumeral ‹_›)
  · exact shorter_none _

/-! ## What is read -/

theorem depth_readWord {word : List Char} {value : Json} (h : value.depth = 0) (cs : List Char) :
    (readWord word value cs).1.depth = 0 := by
  unfold readWord
  split
  · exact h
  · rfl

theorem depth_readText (cs : List Char) : (readText cs).1.depth = 0 := by
  unfold readText
  split
  · simp only
    split <;> rfl
  · rfl

theorem depth_readNumber (cs : List Char) : (readNumber cs).1.depth = 0 := by
  unfold readNumber
  split
  · simp only [Numeral.value]
    split
    · rfl
    · split <;> rfl
  · rfl

/-- A value that is read is no deeper than there is room for, its arrays are no longer than the
text, and what is left is shorter. -/
structure KeepsValue (room : Nat) (cs : List Char) (p : Progress Json) : Prop where
  shorter : Shorter cs p.2
  within : Within cs.length room p.1

/-- The same of items, of which there are no more than the text has characters and one. -/
structure KeepsItems (room : Nat) (cs : List Char) (p : Progress (List Json)) : Prop where
  shorter : Shorter cs p.2
  length_le : p.1.length ≤ cs.length + 1
  within : ∀ j ∈ p.1, Within cs.length room j

/-- The same of fields, if there are any. -/
structure KeepsFields (room : Nat) (cs : List Char)
    (p : Progress (Option (List (String × Json)))) : Prop where
  shorter : Shorter cs p.2
  within : ∀ fields ∈ p.1, ∀ f ∈ fields, Within cs.length room f.2

section

variable {room : Nat} {cs cs' : List Char}

theorem KeepsValue.of_le {p : Progress Json} (h : KeepsValue room cs' p)
    (hle : cs'.length ≤ cs.length) : KeepsValue room cs p where
  shorter := h.shorter.of_le hle
  within := h.within.mono hle (Nat.le_refl room)

theorem KeepsItems.of_le {p : Progress (List Json)} (h : KeepsItems room cs' p)
    (hle : cs'.length ≤ cs.length) : KeepsItems room cs p where
  shorter := h.shorter.of_le hle
  length_le := Nat.le_trans h.length_le (Nat.succ_le_succ hle)
  within j hj := (h.within j hj).mono hle (Nat.le_refl room)

theorem KeepsFields.of_le {p : Progress (Option (List (String × Json)))} (h : KeepsFields room cs' p)
    (hle : cs'.length ≤ cs.length) : KeepsFields room cs p where
  shorter := h.shorter.of_le hle
  within fields hfields f hf := (h.within fields hfields f hf).mono hle (Nat.le_refl room)

/-- An array, from its items behind the bracket. -/
theorem KeepsItems.array {p : Progress (List Json)} (c : Char) (h : KeepsItems (room - 1) cs p) :
    KeepsValue room (c :: cs) (if room = 0 then .unreadable else .array p.1, p.2) where
  shorter := h.shorter.of_le (Nat.le_succ _)
  within := by
    cases room with
    | zero => exact .leaf rfl
    | succ room =>
      exact .array h.length_le fun j hj => (h.within j hj).mono (Nat.le_succ _) (Nat.le_refl room)

/-- An object, from its fields behind the brace. -/
theorem KeepsFields.object {p : Progress (Option (List (String × Json)))} (c : Char) :
    KeepsFields (room - 1) cs p → KeepsValue room (c :: cs) (match room, p.1 with
      | _ + 1, some fields => .object fields
      | _, _ => .unreadable, p.2) := by
  intro h
  refine ⟨h.shorter.of_le (Nat.le_succ _), ?_⟩
  obtain ⟨fields?, rest⟩ := p
  cases room with
  | zero => exact .leaf rfl
  | succ room =>
    cases fields? with
    | none => exact .leaf rfl
    | some fields =>
      refine .object fun f hf => ?_
      exact (h.within fields rfl f hf).mono (Nat.le_succ _) (Nat.le_refl room)

/-- No more than one item. -/
theorem KeepsItems.single {j : Json} {rest : Option (List Char)} (hj : Within cs.length room j)
    (hrest : Shorter cs rest) : KeepsItems room cs ([j], rest) where
  shorter := hrest
  length_le := Nat.succ_le_succ (Nat.zero_le _)
  within k hk := by
    rw [List.mem_singleton.mp hk]
    exact hj

theorem KeepsItems.cons {j : Json} {p : Progress (List Json)} (hj : Within cs.length room j)
    (h : KeepsItems room cs' p) (hlt : cs'.length < cs.length) :
    KeepsItems room cs (j :: p.1, p.2) where
  shorter := h.shorter.of_le (Nat.le_of_lt hlt)
  length_le := Nat.succ_le_succ (Nat.le_trans h.length_le hlt)
  within k hk := by
    rcases List.mem_cons.mp hk with rfl | hk
    · exact hj
    · exact (h.within k hk).mono (Nat.le_of_lt hlt) (Nat.le_refl room)

/-- No fields. -/
theorem KeepsFields.none {rest : Option (List Char)} (hrest : Shorter cs rest) :
    KeepsFields room cs (none, rest) where
  shorter := hrest
  within := nofun

theorem KeepsFields.single {field : Option (String × Json)} {rest : Option (List Char)}
    (hfield : ∀ f ∈ field, Within cs.length room f.2) (hrest : Shorter cs rest) :
    KeepsFields room cs (do return [← field], rest) where
  shorter := hrest
  within fields hfields f hf := by
    cases field with
    | none => cases hfields
    | some g =>
      cases hfields
      rw [List.mem_singleton.mp hf]
      exact hfield g rfl

theorem KeepsFields.cons {field : Option (String × Json)}
    {p : Progress (Option (List (String × Json)))} (hfield : ∀ f ∈ field, Within cs.length room f.2)
    (h : KeepsFields room cs' p) (hlt : cs'.length < cs.length) :
    KeepsFields room cs (do return (← field) :: (← p.1), p.2) where
  shorter := h.shorter.of_le (Nat.le_of_lt hlt)
  within fields hfields f hf := by
    obtain ⟨rest?, rest⟩ := p
    cases field with
    | none => cases hfields
    | some g =>
      cases rest? with
      | none => cases hfields
      | some others =>
        cases hfields
        rcases List.mem_cons.mp hf with rfl | hf
        · exact hfield f rfl
        · exact (h.within others rfl f hf).mono (Nat.le_of_lt hlt) (Nat.le_refl room)

end

mutual

theorem readValue_keeps : ∀ (fuel room : Nat) (cs : List Char),
    KeepsValue room cs (readValue fuel room cs)
  | 0, _, cs => ⟨shorter_none cs, .leaf rfl⟩
  | fuel + 1, room, cs => by
    have hskip := length_skipBlanks_le cs
    rw [readValue]
    split
    · exact ⟨shorter_none cs, .leaf rfl⟩
    next c cs' hs =>
    rw [hs] at hskip
    refine KeepsValue.of_le ?_ hskip
    have hskip' := length_skipBlanks_le cs'
    split
    · exact ⟨(shorter_readText cs').of_le (Nat.le_succ _), .leaf (depth_readText cs')⟩
    split
    · have hitems : KeepsItems (room - 1) cs' (match skipBlanks cs' with
          | ']' :: cs => ([], some cs)
          | cs => readItems fuel (room - 1) cs) := by
        split
        · next r hr =>
          rw [hr] at hskip'
          exact ⟨shorter_some hskip', Nat.zero_le _, nofun⟩
        · exact (readItems_keeps fuel (room - 1) _).of_le hskip'
      exact KeepsItems.array c hitems
    split
    · have hfields : KeepsFields (room - 1) cs' (match skipBlanks cs' with
          | '\x7d' :: cs => (some [], some cs)
          | cs => readFields fuel (room - 1) cs) := by
        split
        · next r hr =>
          rw [hr] at hskip'
          refine ⟨shorter_some hskip', ?_⟩
          rintro _ ⟨⟩
          exact nofun
        · exact (readFields_keeps fuel (room - 1) _).of_le hskip'
      exact KeepsFields.object c hfields
    split
    · exact ⟨shorter_readWord _ _ c cs', .leaf (depth_readWord rfl cs')⟩
    split
    · exact ⟨shorter_readWord _ _ c cs', .leaf (depth_readWord rfl cs')⟩
    split
    · exact ⟨shorter_readWord _ _ c cs', .leaf (depth_readWord rfl cs')⟩
    · exact ⟨shorter_readNumber _, .leaf (depth_readNumber _)⟩

theorem readItems_keeps : ∀ (fuel room : Nat) (cs : List Char),
    KeepsItems room cs (readItems fuel room cs)
  | 0, _, cs => .single (.leaf rfl) (shorter_none cs)
  | fuel + 1, room, cs => by
    obtain ⟨hshorter, hvalue⟩ := readValue_keeps fuel room cs
    rw [readItems]
    generalize readValue fuel room cs = value at hvalue hshorter ⊢
    obtain ⟨j, rest⟩ := value
    cases rest with
    | none => exact .single hvalue (shorter_none cs)
    | some r =>
      have hr : r.length < cs.length := hshorter r rfl
      have hskip := length_skipBlanks_le r
      simp only [Option.map_some]
      split
      · next cs' heq =>
        rw [Option.some.inj heq, List.length_cons] at hskip
        exact .cons hvalue (readItems_keeps fuel room cs') (by omega)
      · next cs' heq =>
        rw [Option.some.inj heq, List.length_cons] at hskip
        exact .single hvalue (shorter_some (by omega))
      · have hlast : KeepsItems room [] ([.unreadable], none) := .single (.leaf rfl) (shorter_none _)
        exact .cons hvalue hlast (Nat.lt_of_le_of_lt (Nat.zero_le _) hr)
      · exact .single hvalue (shorter_none cs)

theorem readFields_keeps : ∀ (fuel room : Nat) (cs : List Char),
    KeepsFields room cs (readFields fuel room cs)
  | 0, _, cs => .none (shorter_none cs)
  | fuel + 1, room, cs => by
    have hskip := length_skipBlanks_le cs
    rw [readFields]
    split
    · next cs₁ hname =>
      rw [hname, List.length_cons] at hskip
      split
      · exact .none (shorter_none cs)
      · next ps cs₂ hpieces =>
        have hname' := length_readPieces hpieces
        have hskip' := length_skipBlanks_le cs₂
        split
        · next cs₃ hcolon =>
          rw [hcolon, List.length_cons] at hskip'
          obtain ⟨hshorter, hvalue⟩ := readValue_keeps fuel room cs₃
          generalize readValue fuel room cs₃ = value at hvalue hshorter ⊢
          obtain ⟨j, rest⟩ := value
          have hfield : ∀ f ∈ (pieceString? ps).map fun name => (name, j),
              Within cs.length room f.2 := by
            intro f hf
            obtain ⟨name, -, rfl⟩ := Option.map_eq_some_iff.mp hf
            exact hvalue.mono (by omega) (Nat.le_refl room)
          cases rest with
          | none => exact .none (shorter_none cs)
          | some r =>
            have hr : r.length < cs₃.length := hshorter r rfl
            have hskip'' := length_skipBlanks_le r
            simp only [Option.map_some]
            split
            · next cs' heq =>
              rw [Option.some.inj heq, List.length_cons] at hskip''
              exact .cons hfield (readFields_keeps fuel room cs') (by omega)
            · next cs' heq =>
              rw [Option.some.inj heq, List.length_cons] at hskip''
              exact .single hfield (shorter_some (by omega))
            · exact .none (shorter_none cs)
        · exact .none (shorter_none cs)
    · exact .none (shorter_none cs)

end

/-- What is read from a text is no deeper than there is room for, and its arrays are no longer than
the text. -/
theorem read_within (room : Nat) (text : String) :
    Within text.length room (read room text).value := by
  have h := (readValue_keeps (2 * text.toList.length + 2) room text.toList).within
  rw [String.length_toList] at h
  exact h

end Json

end SynthDom
