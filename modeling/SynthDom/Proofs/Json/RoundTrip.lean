import SynthDom.Json.Printer
import SynthDom.Json.Record
import SynthDom.Proofs.Json.Extent

/-!
# Reading what is printed

A value that is made of texts, index numbers, arrays and objects is printed as a text that reads
back as it, in every layout that puts only blanks between the tokens.  The one limit is the
reader's: what is nested deeper than the reader has room for is cut off.

* `readPieces_printed`: a text between quotes.
* `readNumber_toDigits`: a number.
* `Json.Plain`: the values that are written without loss.
* `Json.cut`: what there is room for of a value, and `cut_eq_self`: all of it, if it is not too deep.
* `readValue_chars`, `read_print_cut`: a value, and a whole text with blanks behind it.

The printer takes what follows as an argument, so each statement is about a printed part and any
continuation.  What follows a number matters, as it must not go on with it: `EndsNumber`.
-/

namespace SynthDom.Json

/-! ## Blanks -/

theorem skipBlanks_append {bs : List Char} (h : ∀ c ∈ bs, isBlank c = true) (cs : List Char) :
    skipBlanks (bs ++ cs) = skipBlanks cs :=
  List.dropWhile_append_of_pos h

theorem skipBlanks_cons {c : Char} (h : isBlank c = false) (cs : List Char) :
    skipBlanks (c :: cs) = c :: cs :=
  List.dropWhile_cons_of_neg (by simp [h])

/-- A layout that puts a colon after a name and otherwise only blanks between the tokens. -/
structure Layout.Spaced (l : Layout) : Prop where
  lineBreak : ∀ n, ∀ c ∈ l.lineBreak n, isBlank c = true
  colon : ∃ bs, l.colon = ':' :: bs ∧ ∀ c ∈ bs, isBlank c = true

theorem compact_spaced : compact.Spaced where
  lineBreak := by simp [compact]
  colon := ⟨[], rfl, by simp⟩

theorem pretty_spaced : pretty.Spaced where
  lineBreak n c hc := by
    rcases List.mem_cons.mp hc with rfl | hc
    · rfl
    · rw [List.eq_of_mem_replicate hc]
      rfl
  colon := ⟨[' '], rfl, by simp [isBlank]⟩

/-! ## Texts -/

/-- The hexadecimal digits of a control character. -/
theorem hexUnit?_control {n : Nat} (h : n < 0x20) :
    hexUnit? '0' '0' (Nat.digitChar (n / 16)) (Nat.digitChar (n % 16)) = some n := by
  have hall : ∀ m < 0x20,
      hexUnit? '0' '0' (Nat.digitChar (m / 16)) (Nat.digitChar (m % 16)) = some m := by decide
  exact hall n h

/-- A printed character is read as one piece, which stands for it. -/
theorem readPieces_escapeChar (c : Char) (cs : List Char) :
    ∃ p, readPieces (escapeChar c ++ cs) = (readPieces cs).map (fun r => (p :: r.1, r.2)) ∧
      ∀ ps, joinPieces (p :: ps) = (joinPieces ps).map (c :: ·) := by
  unfold escapeChar
  split
  · subst_vars; exact ⟨.char '"', by simp [readPieces, escaped?], fun _ => rfl⟩
  split
  · subst_vars; exact ⟨.char '\\', by simp [readPieces, escaped?], fun _ => rfl⟩
  split
  · subst_vars; exact ⟨.char '\x08', by simp [readPieces, escaped?], fun _ => rfl⟩
  split
  · subst_vars; exact ⟨.char '\x0c', by simp [readPieces, escaped?], fun _ => rfl⟩
  split
  · subst_vars; exact ⟨.char '\n', by simp [readPieces, escaped?], fun _ => rfl⟩
  split
  · subst_vars; exact ⟨.char '\r', by simp [readPieces, escaped?], fun _ => rfl⟩
  split
  · subst_vars; exact ⟨.char '\t', by simp [readPieces, escaped?], fun _ => rfl⟩
  split
  · next hcontrol =>
    refine ⟨.unit c.toNat, ?_, fun ps => ?_⟩
    · simp only [List.cons_append, List.nil_append, readPieces, hexUnit?_control hcontrol]
    · have hhigh : isHighSurrogate c.toNat = false := by simp [isHighSurrogate]; omega
      have hlow : isLowSurrogate c.toNat = false := by simp [isLowSurrogate]; omega
      rw [joinPieces.eq_def]
      simp [hhigh, hlow, Char.ofNat_toNat]
  · next hquote hbackslash _ _ _ _ _ hcontrol =>
    refine ⟨.char c, ?_, fun _ => rfl⟩
    rw [List.singleton_append, readPieces, if_neg hcontrol]
    · exact hquote
    · exact fun _ _ _ _ _ h => absurd h hbackslash
    · exact fun _ _ h => absurd h hbackslash

/-- A printed text is read, up to its closing quote, as pieces that stand for it. -/
theorem readPieces_flatMap_escapeChar (cs rest : List Char) :
    ∃ ps, readPieces (cs.flatMap escapeChar ++ '"' :: rest) = some (ps, rest) ∧
      joinPieces ps = some cs := by
  induction cs with
  | nil => exact ⟨[], by simp [readPieces], rfl⟩
  | cons c cs ih =>
    obtain ⟨ps, hread, hjoin⟩ := ih
    obtain ⟨p, hp, hpjoin⟩ := readPieces_escapeChar c (cs.flatMap escapeChar ++ '"' :: rest)
    refine ⟨p :: ps, ?_, ?_⟩
    · rw [List.flatMap_cons, List.append_assoc, hp, hread]
      rfl
    · rw [hpjoin, hjoin]
      rfl

theorem readPieces_printed (s : String) (rest : List Char) :
    ∃ ps, readPieces (s.toList.flatMap escapeChar ++ '"' :: rest) = some (ps, rest) ∧
      pieceString? ps = some s := by
  obtain ⟨ps, hread, hjoin⟩ := readPieces_flatMap_escapeChar s.toList rest
  refine ⟨ps, hread, ?_⟩
  rw [pieceString?, hjoin, Option.map_some, String.ofList_toList]

theorem suffix_printString (s : String) (rest : List Char) : rest <:+ printString s rest :=
  ((List.suffix_cons _ _).trans (List.suffix_append _ _)).trans (List.suffix_cons _ _)

theorem readText_printed (s : String) (rest : List Char) :
    readText (s.toList.flatMap escapeChar ++ '"' :: rest) = (.string s, some rest) := by
  obtain ⟨ps, hread, hs⟩ := readPieces_printed s rest
  simp only [readText, hread, hs]

/-! ## Numbers -/

/-- A text that does not go on with a number before it. -/
def EndsNumber (cs : List Char) : Prop :=
  ∀ c ∈ cs.head?, c.isDigit = false ∧ c ≠ '.' ∧ c ≠ 'e' ∧ c ≠ 'E'

theorem endsNumber_nil : EndsNumber [] := by
  intro c hc
  cases hc

theorem endsNumber_of_blank {c : Char} (h : isBlank c = true) (cs : List Char) :
    EndsNumber (c :: cs) := by
  rintro _ ⟨⟩
  simp only [isBlank, Bool.or_eq_true, decide_eq_true_eq] at h
  rcases h with ((rfl | rfl) | rfl) | rfl <;> decide

/-- Blanks end a number, and so does what follows if there are none. -/
theorem endsNumber_append {bs cs : List Char} (h : ∀ c ∈ bs, isBlank c = true)
    (hcs : EndsNumber cs) : EndsNumber (bs ++ cs) := by
  cases bs with
  | nil => exact hcs
  | cons b bs => exact endsNumber_of_blank (h b List.mem_cons_self) _

theorem readDigits_append {ds rest : List Char} (hds : ∀ c ∈ ds, c.isDigit = true)
    (hrest : EndsNumber rest) : readDigits (ds ++ rest) = (ds, rest) := by
  rw [readDigits, List.takeWhile_append_of_pos hds, List.dropWhile_append_of_pos hds]
  cases rest with
  | nil => simp
  | cons c rest =>
    have hc : c.isDigit = false := (hrest c rfl).1
    simp [hc]

theorem isDigit_toDigits (k : Nat) : ∀ c ∈ Nat.toDigits 10 k, c.isDigit = true := fun _ hc =>
  Nat.isDigit_of_mem_toDigits (by decide) (by decide) hc

/-- A number other than zero is not written with a zero in front. -/
theorem head?_toDigits_ne_zero {k : Nat} (h : 0 < k) : (Nat.toDigits 10 k).head? ≠ some '0' := by
  induction k using Nat.base_induction 10 (by decide) with
  | single m hm =>
    have hall : ∀ m < 10, 0 < m → Nat.digitChar m ≠ '0' := by decide
    rw [Nat.toDigits_of_lt_base hm]
    exact fun he => hall m hm h (Option.some.inj he)
  | digit m k hk hm ih =>
    have hne : Nat.toDigits 10 m ≠ [] := Nat.toDigits_ne_nil
    obtain ⟨c, hc⟩ := Option.isSome_iff_exists.mp (List.isSome_head?.mpr hne)
    rw [← Nat.toDigits_append_toDigits (by decide) hm hk, List.head?_append, hc, Option.some_or, ← hc]
    exact ih hm

theorem readWhole_toDigits (k : Nat) {rest : List Char} (h : EndsNumber rest) :
    Numeral.readWhole (Nat.toDigits 10 k ++ rest) = some (Nat.toDigits 10 k, rest) := by
  have hread := readDigits_append (isDigit_toDigits k) h
  rcases Nat.eq_zero_or_pos k with rfl | hk
  · rfl
  · have hhead := head?_toDigits_ne_zero hk
    have hne : Nat.toDigits 10 k ≠ [] := Nat.toDigits_ne_nil
    rw [Numeral.readWhole.eq_def]
    generalize Nat.toDigits 10 k = ds at *
    split
    · next heq =>
      cases ds with
      | nil => exact absurd rfl hne
      | cons d ds =>
        injection heq with hd
        exact absurd (congrArg some hd) hhead
    · simp [hread, hne]

/-- Digits of a number that the significand has room for are taken in as they are. -/
theorem addWhole_of_le {ds : List Char} {x : Decimal}
    (h : Nat.ofDigitChars 10 ds x.significand ≤ Decimal.maxSignificand) :
    x.addWhole ds = ⟨Nat.ofDigitChars 10 ds x.significand, x.exponent⟩ := by
  induction ds generalizing x with
  | nil => rfl
  | cons c ds ih =>
    have hextend : x.extend c = 10 * x.significand + (c.toNat - '0'.toNat) := by
      rw [Decimal.extend, digitsValue, Nat.ofDigitChars_cons, Nat.ofDigitChars_nil]
      omega
    rw [Nat.ofDigitChars_cons, ← hextend] at h ⊢
    have hle : x.extend c ≤ Nat.ofDigitChars 10 ds (x.extend c) := by
      rw [Nat.ofDigitChars_eq_ofDigitChars_zero]
      have hpow : 1 ≤ 10 ^ ds.length := Nat.one_le_pow _ _ (by decide)
      exact Nat.le_add_right_of_le (Nat.le_mul_of_pos_left _ hpow)
    rw [Decimal.addWhole, if_neg (Nat.not_lt.mpr (Nat.le_trans hle h))]
    exact ih h

/-- A printed index number is read as that number. -/
theorem readNumber_toDigits {k : Nat} (hk : k < indexLimit) {rest : List Char}
    (h : EndsNumber rest) :
    readNumber (Nat.toDigits 10 k ++ rest) = (.natural k, some rest) := by
  have hsign : ∀ cs, Nat.toDigits 10 k ++ rest = '-' :: cs → False := fun cs heq => by
    obtain ⟨d, ds, hds⟩ := List.exists_cons_of_ne_nil (Nat.toDigits_ne_nil (n := k) (b := 10))
    have hd : d.isDigit = true := isDigit_toDigits k d (hds ▸ List.mem_cons_self)
    rw [hds] at heq
    injection heq with hminus
    subst hminus
    exact absurd hd (by decide)
  have hfraction : Numeral.readFraction rest = some (none, rest) := by
    unfold Numeral.readFraction
    split
    · exact absurd rfl (h '.' rfl).2.1
    · rfl
  have hexponent : Numeral.readExponent rest = some (none, rest) := by
    cases rest with
    | nil => rfl
    | cons c rest =>
      obtain ⟨-, -, he, hE⟩ := h c rfl
      simp [Numeral.readExponent, he, hE]
  have hread : Numeral.read (Nat.toDigits 10 k ++ rest)
      = some (⟨false, Nat.toDigits 10 k, none, none⟩, rest) := by
    rw [Numeral.read]
    · simp [readWhole_toDigits k h, hfraction, hexponent]
    · exact hsign
  have hdecimal : (Numeral.mk false (Nat.toDigits 10 k) none none).decimal = ⟨k, 0⟩ := by
    have hfits : Nat.ofDigitChars 10 (Nat.toDigits 10 k) 0 ≤ Decimal.maxSignificand := by
      rw [Nat.ofDigitChars_ten_toDigits]
      exact Nat.le_sub_one_of_lt hk
    have hwhole := addWhole_of_le (x := ⟨0, 0⟩) hfits
    rw [Nat.ofDigitChars_ten_toDigits] at hwhole
    simp [Numeral.decimal, hwhole, Numeral.power, Decimal.addFraction]
  have hvalue : (Numeral.mk false (Nat.toDigits 10 k) none none).value = .natural k := by
    simp [Numeral.value, hdecimal, Decimal.isTooLarge, digitsValue]
  simp only [readNumber, hread, hvalue]

/-! ## Values -/

/-- A value that is written without loss: made of texts, index numbers, truth values, nulls, arrays
and objects. -/
inductive Plain : Json → Prop
  | null : Plain .null
  | bool (b : Bool) : Plain (.bool b)
  | natural {n : Nat} : n < indexLimit → Plain (.natural n)
  | string (s : String) : Plain (.string s)
  | array {items : List Json} : (∀ j ∈ items, Plain j) → Plain (.array items)
  | object {fields : List (String × Json)} : (∀ f ∈ fields, Plain f.2) → Plain (.object fields)

/-- A printed value starts with a character that neither is blank nor closes an array. -/
theorem chars_eq_cons (l : Layout) (n : Nat) {j : Json} (h : Plain j) (rest : List Char) :
    ∃ c cs, chars l n j rest = c :: cs ∧ isBlank c = false ∧ c ≠ ']' := by
  cases h with
  | null => exact ⟨'n', _, rfl, rfl, by decide⟩
  | bool b => cases b <;> exact ⟨_, _, rfl, rfl, by decide⟩
  | @natural k _ =>
    obtain ⟨d, ds, hds⟩ := List.exists_cons_of_ne_nil (Nat.toDigits_ne_nil (n := k) (b := 10))
    have hd : d.isDigit = true := isDigit_toDigits k d (hds ▸ List.mem_cons_self)
    refine ⟨d, ds ++ rest, ?_, ?_, ?_⟩
    · rw [chars, hds]
      rfl
    · rw [Bool.eq_false_iff]
      exact fun hblank => absurd ((endsNumber_of_blank hblank [] d rfl).1) (by simp [hd])
    · rintro rfl
      exact absurd hd (by decide)
  | string s => exact ⟨'"', _, rfl, rfl, by decide⟩
  | @array items _ => cases items <;> exact ⟨'[', _, rfl, rfl, by decide⟩
  | @object fields _ => cases fields <;> exact ⟨'\x7b', _, rfl, rfl, by decide⟩

theorem printString_append (s : String) (as bs : List Char) :
    printString s (as ++ bs) = printString s as ++ bs := by
  simp [printString]

mutual

/-- What follows a printed value is only passed on. -/
theorem chars_append (l : Layout) : ∀ (j : Json) (n : Nat) (as bs : List Char),
    chars l n j (as ++ bs) = chars l n j as ++ bs
  | .null, _, _, _ | .bool true, _, _, _ | .bool false, _, _, _ | .natural _, _, _, _
  | .real _, _, _, _ | .unreadable, _, _, _ => (List.append_assoc _ _ _).symm
  | .string s, _, as, bs => printString_append s as bs
  | .array [], _, _, _ | .object [], _, _, _ => rfl
  | .array (j :: js), n, as, bs => by
    have hclose : l.lineBreak n ++ ']' :: (as ++ bs) = (l.lineBreak n ++ ']' :: as) ++ bs := by simp
    rw [chars, chars, hclose, charsItems_append l js, chars_append l j]
    simp
  | .object ((name, j) :: fields), n, as, bs => by
    have hclose : l.lineBreak n ++ '\x7d' :: (as ++ bs) = (l.lineBreak n ++ '\x7d' :: as) ++ bs := by
      simp
    rw [chars, chars, hclose, charsFields_append l fields, chars_append l j, ← List.append_assoc l.colon,
      printString_append]
    simp

theorem charsItems_append (l : Layout) : ∀ (js : List Json) (n : Nat) (as bs : List Char),
    charsItems l n js (as ++ bs) = charsItems l n js as ++ bs
  | [], _, _, _ => rfl
  | j :: js, n, as, bs => by
    rw [charsItems, charsItems, charsItems_append l js, chars_append l j]
    simp

theorem charsFields_append (l : Layout) : ∀ (fields : List (String × Json)) (n : Nat)
    (as bs : List Char), charsFields l n fields (as ++ bs) = charsFields l n fields as ++ bs
  | [], _, _, _ => rfl
  | (name, j) :: fields, n, as, bs => by
    rw [charsFields, charsFields, charsFields_append l fields, chars_append l j,
      ← List.append_assoc l.colon, printString_append]
    simp

end

theorem suffix_chars (l : Layout) (n : Nat) (j : Json) (rest : List Char) :
    rest <:+ chars l n j rest :=
  ⟨chars l n j [], (chars_append l j n [] rest).symm⟩

/-! ## Room -/

/-- A value with `unreadable` in the place of arrays and objects that there is no room for. -/
def cut : Nat → Json → Json
  | room + 1, .array items => .array (items.map (cut room))
  | room + 1, .object fields => .object (fields.map fun f => (f.1, cut room f.2))
  | 0, .array _ | 0, .object _ => .unreadable
  | _, j => j
termination_by structural room => room

/-- Nothing is cut off where there is room enough. -/
theorem cut_eq_self {j : Json} {room : Nat} (h : j.depth ≤ room) : j.cut room = j := by
  induction j generalizing room with
  | null | bool | natural | real | string | unreadable => cases room <;> rfl
  | array items ih =>
    obtain ⟨room, rfl⟩ := Nat.exists_eq_add_of_le' (Nat.one_le_of_lt h)
    have hitems := depthItems_le_iff.mp (Nat.le_of_succ_le_succ h)
    have hcut : items.map (cut room) = items.map id :=
      List.map_congr_left fun j hj => ih j hj (hitems j hj)
    rw [cut, hcut, List.map_id]
  | object fields ih =>
    obtain ⟨room, rfl⟩ := Nat.exists_eq_add_of_le' (Nat.one_le_of_lt h)
    have hfields := depthFields_le_iff.mp (Nat.le_of_succ_le_succ h)
    have hcut : fields.map (fun f => (f.1, cut room f.2)) = fields.map id :=
      List.map_congr_left fun f hf => by rw [ih f hf (hfields f hf), id]
    rw [cut, hcut, List.map_id]

/-- A value is read from where it is printed, with enough steps, up to what follows, as far as there is
room for it. -/
def ReadsBack (l : Layout) (j : Json) : Prop :=
  ∀ (n : Nat) (rest : List Char) (fuel room : Nat), EndsNumber rest →
    2 * (chars l n j rest).length < fuel →
      readValue fuel room (chars l n j rest) = (j.cut room, some rest)

section

variable {l : Layout} {bs : List Char}

theorem readValue_append (hbs : ∀ c ∈ bs, isBlank c = true) (fuel room : Nat) (cs : List Char) :
    readValue fuel room (bs ++ cs) = readValue fuel room cs := by
  cases fuel with
  | zero => rfl
  | succ fuel => rw [readValue, readValue, skipBlanks_append hbs]

theorem readItems_append (hbs : ∀ c ∈ bs, isBlank c = true) (fuel room : Nat) (cs : List Char) :
    readItems fuel room (bs ++ cs) = readItems fuel room cs := by
  cases fuel with
  | zero => rfl
  | succ fuel => rw [readItems, readItems, readValue_append hbs]

theorem readFields_append (hbs : ∀ c ∈ bs, isBlank c = true) (fuel room : Nat) (cs : List Char) :
    readFields fuel room (bs ++ cs) = readFields fuel room cs := by
  cases fuel with
  | zero => rfl
  | succ fuel => rw [readFields, readFields, skipBlanks_append hbs]

/-- Printed items are read one by one, up to the bracket that closes their array. -/
theorem readItems_chars (hl : l.Spaced) {js : List Json} (hjs : ∀ k ∈ js, ReadsBack l k) {j : Json}
    (hj : ReadsBack l j) (n m : Nat) (rest : List Char) (room : Nat) {fuel : Nat}
    (hfuel : 2 * (chars l n j (charsItems l n js (l.lineBreak m ++ ']' :: rest))).length + 1 < fuel) :
    readItems fuel room (chars l n j (charsItems l n js (l.lineBreak m ++ ']' :: rest)))
      = ((j :: js).map (cut room), some rest) := by
  induction js generalizing j fuel with
  | nil =>
    obtain ⟨fuel, rfl⟩ := Nat.exists_eq_add_of_le' (Nat.one_le_of_lt hfuel)
    have hends : EndsNumber (l.lineBreak m ++ ']' :: rest) := by
      refine endsNumber_append (hl.lineBreak m) ?_
      rintro _ ⟨⟩
      decide
    have hvalue := hj n (l.lineBreak m ++ ']' :: rest) fuel room hends
      (Nat.lt_of_succ_lt_succ hfuel)
    rw [charsItems, readItems, hvalue]
    simp only [Option.map_some, skipBlanks_append (hl.lineBreak m)]
    rw [skipBlanks_cons (by decide)]
    rfl
  | cons k js ih =>
    obtain ⟨fuel, rfl⟩ := Nat.exists_eq_add_of_le' (Nat.one_le_of_lt hfuel)
    have hends : EndsNumber (charsItems l n (k :: js) (l.lineBreak m ++ ']' :: rest)) := by
      rintro _ ⟨⟩
      decide
    have hvalue := hj n _ fuel room hends (Nat.lt_of_succ_lt_succ hfuel)
    have hlength := (suffix_chars l n j
      (charsItems l n (k :: js) (l.lineBreak m ++ ']' :: rest))).length_le
    have hfuel' : 2 * (chars l n k (charsItems l n js (l.lineBreak m ++ ']' :: rest))).length + 1
        < fuel := by
      rw [charsItems, List.length_cons, List.length_append] at hlength
      rw [charsItems] at hfuel
      omega
    have hrest := ih (fun k' h => hjs k' (List.mem_cons_of_mem _ h)) (hjs k List.mem_cons_self) hfuel'
    rw [readItems, hvalue]
    simp only [Option.map_some, charsItems]
    rw [skipBlanks_cons (by decide)]
    simp only [readItems_append (hl.lineBreak n), hrest, List.map_cons]

/-- What is printed for a field ends with what is printed for its value. -/
theorem suffix_field (l : Layout) (name : String) (cs : List Char) :
    cs <:+ printString name (l.colon ++ cs) :=
  (List.suffix_append l.colon cs).trans (suffix_printString name _)

/-- The last printed field: its name, a colon, its value and the closing bracket. -/
theorem readFields_last (hl : l.Spaced) {name : String} {j : Json} {cs rest rest' : List Char}
    {fuel room : Nat} (hvalue : readValue fuel room cs = (j, some rest))
    (hrest : skipBlanks rest = '\x7d' :: rest') :
    readFields (fuel + 1) room (printString name (l.colon ++ cs)) = (some [(name, j)], some rest') := by
  obtain ⟨bs, hcolon, hbs⟩ := hl.colon
  obtain ⟨ps, hread, hname⟩ := readPieces_printed name (l.colon ++ cs)
  rw [readFields, printString, skipBlanks_cons (by decide)]
  simp only [hread]
  rw [hcolon, List.cons_append, skipBlanks_cons (by decide)]
  simp only [readValue_append hbs, hvalue, hname, hrest, Option.map_some]
  rfl

/-- A printed field before others: its name, a colon, its value and a comma. -/
theorem readFields_next (hl : l.Spaced) {name : String} {j : Json} {cs rest rest' : List Char}
    {fuel room : Nat} {fields : List (String × Json)} {rest'' : Option (List Char)}
    (hvalue : readValue fuel room cs = (j, some rest)) (hrest : skipBlanks rest = ',' :: rest')
    (hfields : readFields fuel room rest' = (some fields, rest'')) :
    readFields (fuel + 1) room (printString name (l.colon ++ cs))
      = (some ((name, j) :: fields), rest'') := by
  obtain ⟨bs, hcolon, hbs⟩ := hl.colon
  obtain ⟨ps, hread, hname⟩ := readPieces_printed name (l.colon ++ cs)
  rw [readFields, printString, skipBlanks_cons (by decide)]
  simp only [hread]
  rw [hcolon, List.cons_append, skipBlanks_cons (by decide)]
  simp only [readValue_append hbs, hvalue, hname, hrest, hfields, Option.map_some]
  rfl

/-- Printed fields are read one by one, up to the bracket that closes their object. -/
theorem readFields_chars (hl : l.Spaced) {fields : List (String × Json)}
    (hfields : ∀ f ∈ fields, ReadsBack l f.2) (name : String) {j : Json}
    (hj : ReadsBack l j) (n m : Nat) (rest : List Char) (room : Nat) {fuel : Nat}
    (hfuel : 2 * (printString name (l.colon ++ chars l n j
      (charsFields l n fields (l.lineBreak m ++ '\x7d' :: rest)))).length + 1 < fuel) :
    readFields fuel room (printString name (l.colon ++ chars l n j
        (charsFields l n fields (l.lineBreak m ++ '\x7d' :: rest))))
      = (some (((name, j) :: fields).map fun f => (f.1, cut room f.2)), some rest) := by
  induction fields generalizing name j fuel with
  | nil =>
    obtain ⟨fuel, rfl⟩ := Nat.exists_eq_add_of_le' (Nat.one_le_of_lt hfuel)
    have hends : EndsNumber (l.lineBreak m ++ '\x7d' :: rest) := by
      refine endsNumber_append (hl.lineBreak m) ?_
      rintro _ ⟨⟩
      decide
    have hclose : skipBlanks (l.lineBreak m ++ '\x7d' :: rest) = '\x7d' :: rest := by
      rw [skipBlanks_append (hl.lineBreak m), skipBlanks_cons (by decide)]
    have hlength := (suffix_field l name (chars l n j (l.lineBreak m ++ '\x7d' :: rest))).length_le
    rw [charsFields] at hfuel ⊢
    have hvalue := hj n (l.lineBreak m ++ '\x7d' :: rest) fuel room hends (by omega)
    exact readFields_last hl hvalue hclose
  | cons f fields ih =>
    obtain ⟨name', k⟩ := f
    obtain ⟨fuel, rfl⟩ := Nat.exists_eq_add_of_le' (Nat.one_le_of_lt hfuel)
    have hends : EndsNumber (charsFields l n ((name', k) :: fields) (l.lineBreak m ++ '\x7d' :: rest)) := by
      rintro _ ⟨⟩
      decide
    have hlength := (suffix_field l name (chars l n j
      (charsFields l n ((name', k) :: fields) (l.lineBreak m ++ '\x7d' :: rest)))).length_le
    have hvalue := hj n _ fuel room hends (by omega)
    have hlength' := (suffix_chars l n j
      (charsFields l n ((name', k) :: fields) (l.lineBreak m ++ '\x7d' :: rest))).length_le
    have hfuel' : 2 * (printString name' (l.colon ++ chars l n k
        (charsFields l n fields (l.lineBreak m ++ '\x7d' :: rest)))).length + 1 < fuel := by
      rw [charsFields, List.length_cons, List.length_append] at hlength'
      rw [charsFields] at hlength hfuel
      omega
    have hk : ReadsBack l k := hfields (name', k) List.mem_cons_self
    have hrest := ih (fun f h => hfields f (List.mem_cons_of_mem _ h)) name' hk hfuel'
    rw [← readFields_append (hl.lineBreak n)] at hrest
    exact readFields_next hl hvalue (skipBlanks_cons (by decide) _) hrest

/-- A value that starts with a digit is a number. -/
theorem readValue_digit {d : Char} (hd : d.isDigit = true) (fuel room : Nat) (cs : List Char) :
    readValue (fuel + 1) room (d :: cs) = readNumber (d :: cs) := by
  have hne (c : Char) (hc : c.isDigit = false) : d ≠ c := by
    rintro rfl
    rw [hd] at hc
    cases hc
  have hblank : isBlank d = false := by
    simp [isBlank, hne ' ' rfl, hne '\n' rfl, hne '\t' rfl, hne '\r' rfl]
  rw [readValue, skipBlanks_cons hblank]
  simp [hne '"' rfl, hne '[' rfl, hne '\x7b' rfl, hne 'n' rfl, hne 't' rfl, hne 'f' rfl]

/-- An array with items, from what its items are read as. -/
theorem readValue_array {fuel room : Nat} {c : Char} {cs cs' : List Char} {items : List Json}
    {rest : Option (List Char)} (hcs : skipBlanks cs = c :: cs') (hc : c ≠ ']')
    (hitems : readItems fuel (room - 1) (c :: cs') = (items.map (cut (room - 1)), rest)) :
    readValue (fuel + 1) room ('[' :: cs) = ((Json.array items).cut room, rest) := by
  rw [readValue, skipBlanks_cons (by decide)]
  cases room with
  | zero =>
    rw [Nat.zero_sub] at hitems
    simp [hcs, hc, hitems, cut]
  | succ room =>
    rw [Nat.add_sub_cancel] at hitems
    simp [hcs, hc, hitems, cut]

/-- An object with fields, from what its fields are read as. -/
theorem readValue_object {fuel room : Nat} {cs cs' : List Char} {fields : List (String × Json)}
    {rest : Option (List Char)} (hcs : skipBlanks cs = '"' :: cs')
    (hfields : readFields fuel (room - 1) ('"' :: cs')
      = (some (fields.map fun f => (f.1, cut (room - 1) f.2)), rest)) :
    readValue (fuel + 1) room ('\x7b' :: cs) = ((Json.object fields).cut room, rest) := by
  rw [readValue, skipBlanks_cons (by decide)]
  cases room with
  | zero =>
    rw [Nat.zero_sub] at hfields
    simp [hcs, hfields, cut]
  | succ room =>
    rw [Nat.add_sub_cancel] at hfields
    simp [hcs, hfields, cut]

/-- A value that is written without loss is read back from where it is printed. -/
theorem readValue_chars (hl : l.Spaced) {j : Json} (h : Plain j) : ReadsBack l j := by
  induction h with
  | null =>
    intro n rest fuel room _ hfuel
    obtain ⟨fuel, rfl⟩ := Nat.exists_eq_add_of_le' (Nat.one_le_of_lt hfuel)
    rw [cut_eq_self (Nat.zero_le room)]
    rfl
  | bool b =>
    intro n rest fuel room _ hfuel
    obtain ⟨fuel, rfl⟩ := Nat.exists_eq_add_of_le' (Nat.one_le_of_lt hfuel)
    rw [cut_eq_self (Nat.zero_le room)]
    cases b <;> rfl
  | @natural k hk =>
    intro n rest fuel room hrest hfuel
    obtain ⟨fuel, rfl⟩ := Nat.exists_eq_add_of_le' (Nat.one_le_of_lt hfuel)
    obtain ⟨d, ds, hds⟩ := List.exists_cons_of_ne_nil (Nat.toDigits_ne_nil (n := k) (b := 10))
    have hd : d.isDigit = true := isDigit_toDigits k d (hds ▸ List.mem_cons_self)
    have hnumber := readNumber_toDigits hk hrest
    rw [chars]
    rw [hds, List.cons_append] at hnumber ⊢
    rw [readValue_digit hd, hnumber, cut_eq_self (Nat.zero_le room)]
  | string s =>
    intro n rest fuel room _ hfuel
    obtain ⟨fuel, rfl⟩ := Nat.exists_eq_add_of_le' (Nat.one_le_of_lt hfuel)
    rw [cut_eq_self (Nat.zero_le room)]
    exact readText_printed s rest
  | @array items hplain ih =>
    intro n rest fuel room _ hfuel
    obtain ⟨fuel, rfl⟩ := Nat.exists_eq_add_of_le' (Nat.one_le_of_lt hfuel)
    cases items with
    | nil => cases room <;> rfl
    | cons j js =>
      obtain ⟨c, cs, hcs, hblank, hclose⟩ := chars_eq_cons l (n + 1) (hplain j List.mem_cons_self)
        (charsItems l (n + 1) js (l.lineBreak n ++ ']' :: rest))
      rw [chars, List.length_cons, List.length_append] at hfuel
      have hitems := readItems_chars hl (fun k hk => ih k (List.mem_cons_of_mem _ hk))
        (ih j List.mem_cons_self) (n + 1) n rest (room - 1) (by omega : _ < fuel)
      rw [hcs] at hitems
      refine readValue_array ?_ hclose hitems
      rw [skipBlanks_append (hl.lineBreak (n + 1)), hcs, skipBlanks_cons hblank]
  | @object fields _ ih =>
    intro n rest fuel room _ hfuel
    obtain ⟨fuel, rfl⟩ := Nat.exists_eq_add_of_le' (Nat.one_le_of_lt hfuel)
    cases fields with
    | nil => cases room <;> rfl
    | cons f fields =>
      obtain ⟨name, j⟩ := f
      rw [chars, List.length_cons, List.length_append] at hfuel
      have hj : ReadsBack l j := ih (name, j) List.mem_cons_self
      have hfields := readFields_chars hl (fun f hf => ih f (List.mem_cons_of_mem _ hf)) name hj (n + 1)
        n rest (room - 1) (by omega : _ < fuel)
      refine readValue_object ?_ hfields
      rw [skipBlanks_append (hl.lineBreak (n + 1)), printString, skipBlanks_cons (by decide)]

end

/-- A text that is a printed value and blanks behind it is read as that value, as far as there is
room. -/
theorem read_print_cut {l : Layout} (hl : l.Spaced) {j : Json} (h : Plain j) (room : Nat)
    {blanks : String} (hblanks : ∀ c ∈ blanks.toList, isBlank c = true) :
    read room (j.print l ++ blanks) = ⟨j.cut room, true⟩ := by
  have hends : EndsNumber blanks.toList := by
    rw [← List.append_nil blanks.toList]
    exact endsNumber_append hblanks endsNumber_nil
  have htext : (j.print l ++ blanks).toList = chars l 0 j blanks.toList := by
    rw [String.toList_append, toList_print, ← chars_append, List.nil_append]
  have hvalue := readValue_chars hl h 0 blanks.toList (2 * (chars l 0 j blanks.toList).length + 2) room
    hends (by omega)
  have hblank : skipBlanks blanks.toList = [] := by
    rw [← List.append_nil blanks.toList, skipBlanks_append hblanks]
    rfl
  simp [read, htext, hvalue, hblank]

/-- With room enough it is read as the whole value. -/
theorem read_print {l : Layout} (hl : l.Spaced) {j : Json} (h : Plain j) {room : Nat}
    (hdepth : j.depth ≤ room) {blanks : String} (hblanks : ∀ c ∈ blanks.toList, isBlank c = true) :
    read room (j.print l ++ blanks) = ⟨j, true⟩ := by
  rw [read_print_cut hl h room hblanks, cut_eq_self hdepth]

end SynthDom.Json
