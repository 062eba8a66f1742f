import SynthDom.Proofs.Wire.RoundTrip

/-!
# From values to texts and back

What is written for a value, be it a document, a part of one, an address or mutations, is decoded as
this value; and so is the text that it is printed as, in each layout, unless it is nested deeper than
a text may be.

* `decode_of_decodeText`: a text is decoded from the value that it is read as.
* `decodeText_print_iff`: a printed value is decoded from what there is room for of it.
* `Survives`: a value is not changed by being written, printed, read and decoded.
* `survives_wire`: nothing that goes over the wire is.
-/

namespace SynthDom

section

variable {α : Type} {read : Json → Option α} {decode : Json → Except DecodeError α} {j : Json} {x : α}

/-! ## Texts -/

/-- A text that is decoded is decoded from the value that it is read as. -/
theorem decode_of_decodeText {text : String} (h : decodeText decode text = .ok x) :
    decode (Json.read Json.maxDepth text).value = .ok x := by
  simp only [decodeText] at h
  split at h
  · next hdecode =>
    split at h
    · cases h
      exact hdecode
    · cases h
  · cases h

theorem orMalformed_eq_ok_iff : orMalformed read j = .ok x ↔ read j = some x := by
  unfold orMalformed
  cases read j <;> simp

/-- A value that is printed with no more than blanks behind it is decoded from what there is room for
of it. -/
theorem decodeText_print_iff {l : Json.Layout} (hl : l.Spaced) (hplain : Json.Plain j)
    (blanks : String) (hblanks : ∀ c ∈ blanks.toList, Json.isBlank c = true) :
    decodeText decode (j.print l ++ blanks) = .ok x ↔ decode (j.cut Json.maxDepth) = .ok x := by
  have hread := Json.read_print_cut hl hplain Json.maxDepth hblanks
  simp only [decodeText, hread, if_pos]
  cases decode (j.cut Json.maxDepth) <;> simp

/-- It is decoded as it stands if it is not too deep. -/
theorem decodeText_print {l : Json.Layout} (hl : l.Spaced) (hplain : Json.Plain j)
    (hdepth : j.depth ≤ Json.maxDepth) (hdecode : decode j = .ok x) (blanks : String)
    (hblanks : ∀ c ∈ blanks.toList, Json.isBlank c = true) :
    decodeText decode (j.print l ++ blanks) = .ok x := by
  have hread := Json.read_print hl hplain hdepth hblanks
  simp only [decodeText, hread, hdecode, if_pos]

/-- So is the text that is the printed value alone. -/
theorem decodeText_printed {l : Json.Layout} (hl : l.Spaced) (hplain : Json.Plain j)
    (hdepth : j.depth ≤ Json.maxDepth) (hdecode : decode j = .ok x) :
    decodeText decode (j.print l) = .ok x := by
  have hprinted := decodeText_print hl hplain hdepth hdecode "" (by simp)
  rwa [String.append_empty] at hprinted

/-- A decoder that gives no reason refuses a text with none. -/
theorem decodeText_orMalformed {text : String} (h : ∀ x, decodeText (orMalformed read) text ≠ .ok x) :
    decodeText (orMalformed read) text = .error .malformed := by
  simp only [decodeText, orMalformed] at h ⊢
  cases hread : read (Json.read Json.maxDepth text).value with
  | none => rfl
  | some x =>
    simp only [hread] at h ⊢
    split
    · next hcomplete => exact absurd (if_pos hcomplete) (h x)
    · rfl

/-! ## Survival -/

/-- A value is decoded from what is written for it and, unless that is nested too deep for a text, from
the text that it is printed as, in each layout. -/
structure Survives (write : α → Json) (decode : Json → Except DecodeError α) (x : α) : Prop where
  value : decode (write x) = .ok x
  compact : (write x).depth ≤ Json.maxDepth → decodeText decode ((write x).print Json.compact) = .ok x
  pretty : (write x).depth ≤ Json.maxDepth → decodeText decode ((write x).print Json.pretty) = .ok x

variable {write : α → Json}

/-- What is written without loss and decoded again is read from texts as well. -/
theorem Survives.of_plain (hplain : Json.Plain (write x)) (hdecode : decode (write x) = .ok x) :
    Survives write decode x where
  value := hdecode
  compact hdepth := decodeText_printed Json.compact_spaced hplain hdepth hdecode
  pretty hdepth := decodeText_printed Json.pretty_spaced hplain hdepth hdecode

theorem Survives.of_read (hplain : Json.Plain (write x)) (hread : read (write x) = some x) :
    Survives write (orMalformed read) x :=
  .of_plain hplain (orMalformed_eq_ok_iff.mpr hread)

end

/-- All values that go over the wire survive: documents and their parts, what is inserted, and with
indexes of 64 bits addresses and mutations. -/
theorem survives_wire :
    (∀ t, Survives Tree.toJson (orMalformed Tree.ofJson?) t) ∧
    (∀ e, Survives Element.toJson (orMalformed Element.ofJson?) e) ∧
    (∀ n, Survives Node.toJson (orMalformed (Node.ofJson? false)) n) ∧
    (∀ s, Survives Stylesheet.toJson (orMalformed (Stylesheet.ofJson? false)) s) ∧
    (∀ r, Survives Rule.toJson (orMalformed (Rule.ofJson? false)) r) ∧
    (∀ k, Survives ConditionKind.toJson (orMalformed (ConditionKind.ofJson? false)) k) ∧
    (∀ l, Survives PropertyList.toJson (orMalformed PropertyList.ofJson?) l) ∧
    (∀ p, Survives Payload.toJson (orMalformed Payload.ofJson?) p) ∧
    (∀ a : Address, (∀ s ∈ a, s.Below Json.indexLimit) →
      Survives Address.toJson (orMalformed Address.ofJson?) a) ∧
    (∀ m : Mutation, m.Below Json.indexLimit → Survives Mutation.toJson Mutation.ofJson m) ∧
    ∀ ms : List Mutation, (∀ m ∈ ms, m.Below Json.indexLimit) →
      Survives Mutation.listToJson Mutation.listOfJson ms := by
  refine ⟨?_, ?_, ?_, ?_, ?_, ?_, ?_, ?_, ?_, ?_, ?_⟩
  · exact fun t => .of_read t.plain_toJson t.ofJson?_toJson
  · exact fun e => .of_read e.plain_toJson e.ofJson?_toJson
  · exact fun n => .of_read n.plain_toJson (n.ofJson?_toJson false)
  · exact fun s => .of_read s.plain_toJson (s.ofJson?_toJson false)
  · exact fun r => .of_read r.plain_toJson (r.ofJson?_toJson false)
  · exact fun k => .of_read k.plain_toJson (k.ofJson?_toJson false)
  · exact fun l => .of_read l.plain_toJson l.ofJson?_toJson
  · exact fun p => .of_read p.plain_toJson p.ofJson?_toJson
  · exact fun a h => .of_read (Address.plain_toJson h) (Address.ofJson?_toJson h)
  · exact fun m h => .of_plain (Mutation.plain_toJson h) (Mutation.ofJson_toJson h)
  · exact fun ms h => .of_plain (Mutation.plain_listToJson h) (Mutation.listOfJson_listToJson h)

/-- The largest index, no old value, and an at-keyword that is only called like a known one. -/
theorem survives_wire_extremes :
    Survives Address.toJson (orMalformed Address.ofJson?) [.child (Json.indexLimit - 1), .shadow] ∧
    Survives Mutation.toJson Mutation.ofJson ⟨[.child 0], .removeChild (Json.indexLimit - 1)⟩ ∧
    Survives Mutation.listToJson Mutation.listOfJson [⟨[.child 0], .setText "é" none⟩,
      ⟨[.shadow], .insertChild 0 (.rule (.condition (.unknown "media") "print" [])) true⟩] ∧
    decodeText (orMalformed (ConditionKind.ofJson? false))
      ((ConditionKind.unknown "media").toJson.print Json.pretty) = .ok (.unknown "media") := by
  obtain ⟨-, -, -, -, -, hkind, -, -, haddress, hmutation, hlist⟩ := survives_wire
  refine ⟨haddress _ ?_, hmutation _ ⟨?_, ?_⟩, hlist _ ?_, (hkind _).pretty (by decide)⟩
  · simp [Segment.Below, Json.indexLimit]
  · simp [Segment.Below, Json.indexLimit]
  · simp [Action.index?, Json.indexLimit]
  · simp only [List.forall_mem_cons]
    refine ⟨⟨?_, nofun⟩, ⟨?_, ?_⟩, nofun⟩
    · simp [Segment.Below, Json.indexLimit]
    · simp [Segment.Below]
    · simp [Action.index?, Json.indexLimit]

end SynthDom
