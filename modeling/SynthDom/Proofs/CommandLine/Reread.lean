import SynthDom.Proofs.CommandLine.Pipeline
import SynthDom.Proofs.Wire.Limit

/-!
# What is printed for a document is read again

With no mutations `patch` prints the document that it reads, in its full form.  That form may be
nested one level deeper than what is taken in of the text, where the text leaves out declarations or
rules of a rule.  What is taken in may be nested 127 deep; what stands in fields that are passed over
may be nested deeper and does not count.  So what is printed for a text is read again, as the same
document, unless something is taken in at the last level: then the print may be 128 deep, and is
refused.

* `reread`: what `patch` prints for a text without mutations, and what that is decoded as.
* `shortDocument`, `nestedDocument`: documents of any depth, in a short form and as they are.
* `not_reread_at_limit`: one that is read and whose printed form is refused.
-/

namespace SynthDom.CommandLine

/-- For any text of a document:

* with no mutations, `patch` prints the document's compact text;
* that text, with the line end behind it or without, is decoded as the same document if the document
  is written no more than 127 levels deep, and is refused otherwise;
* if the document is decoded from so many levels of the text, whatever is nested deeper being left
  unread, then it is written one level deeper than these, at most;
* so if all levels but the last one suffice, what is printed is decoded as the same document. -/
theorem reread {text : String} {t : Tree}
    (h : decodeText (orMalformed Tree.ofJson?) text = .ok t) :
    (∀ files arguments config tree mutations,
      Invokes files arguments (.patch tree mutations false false) config → config.pretty = false →
      files tree = .ok text → readFile files Mutation.listOfJson mutations = .ok [] →
      run files arguments = .done { output := printJson false t.toJson ++ "\n" }) ∧
    (decodeText (orMalformed Tree.ofJson?) (printJson false t.toJson) =
      if t.toJson.depth ≤ Json.maxDepth then .ok t else .error .malformed) ∧
    (decodeText (orMalformed Tree.ofJson?) (printJson false t.toJson ++ "\n") =
      if t.toJson.depth ≤ Json.maxDepth then .ok t else .error .malformed) ∧
    (∀ levels, Tree.ofJson? (Json.read levels text).value = some t →
      t.toJson.depth ≤ levels + 1) ∧
    (Tree.ofJson? (Json.read (Json.maxDepth - 1) text).value = some t →
      decodeText (orMalformed Tree.ofJson?) (printJson false t.toJson) = .ok t) := by
  have hprinted := t.decodeText_printed Json.compact_spaced
  refine ⟨?_, hprinted, ?_, fun _ => Tree.depth_toJson_le_of_read, fun ht => ?_⟩
  · intro files arguments config tree mutations hinvokes hpretty htree hmutations
    have hrun := run_patch hinvokes (readFile_of_decodeText htree h) hmutations (Tree.patchAll_nil t)
    rwa [hpretty] at hrun
  · exact t.decodeText_print Json.compact_spaced "\n" (by simp [Json.isBlank])
  · exact hprinted.trans (if_pos (Tree.depth_toJson_le_of_read ht))

/-- With no mutations `patch` prints the full form of a document that was read from a short one, and
that is read again. -/
theorem reread_short_forms :
    let t : Tree := ⟨⟨"document", ∅, [], some ⟨[.style "p" ∅]⟩⟩, []⟩
    run (shortForms "[]") ["patch", "new.json", "diff.json"]
        = .done { output := printJson false t.toJson ++ "\n" } ∧
      decodeText (orMalformed Tree.ofJson?) (printJson false t.toJson) = .ok t := by
  have ht : decodeText (orMalformed Tree.ofJson?)
      "\x7b\"root\":[\"document\",[],[],[[[\"style\",\"p\"]]]]\x7d"
      = .ok ⟨⟨"document", ∅, [], some ⟨[.style "p" ∅]⟩⟩, []⟩ := by cbv
  have hnone : readFile (shortForms "[]") Mutation.listOfJson "diff.json" = .ok [] := by cbv
  obtain ⟨hrun, hprinted, -⟩ := reread ht
  refine ⟨hrun _ _ {} _ _ ⟨by cbv, rfl⟩ rfl rfl hnone, hprinted.trans (if_pos ?_)⟩
  decide

/-- Two levels of a text suffice where the others are those of a field that is passed over. -/
example : Tree.ofJson? (Json.read 2 "\x7b\"root\":[\"a\"],\"x\":[[[]]]\x7d").value
    = some ⟨.bare "a", []⟩ := by cbv

/-! ## At the limit -/

/-- A rule inside so many others, with its declarations left out. -/
def shortRule : Nat → Json
  | 0 => .array [.string "style", .string "p"]
  | n + 1 => .array [.string "condition", .string "media", .string "", .array [shortRule n]]

/-- The rule that this stands for. -/
def nestedRule : Nat → Rule
  | 0 => .style "p" ∅
  | n + 1 => .condition .media "" [nestedRule n]

/-- A document with such a rule. -/
def shortDocument (n : Nat) : Json :=
  .array [.array [.string "a", .array [], .array [], .array [.array [shortRule n]]]]

def nestedDocument (n : Nat) : Tree := ⟨⟨"a", ∅, [], some ⟨[nestedRule n]⟩⟩, []⟩

theorem plain_shortRule (n : Nat) : Json.Plain (shortRule n) := by
  induction n with
  | zero => exact .items ⟨.string _, .string _⟩
  | succ n ih =>
    have hrules : Json.Plain (.array [shortRule n]) := .items ih
    exact .items ⟨.string _, .string _, .string _, hrules⟩

theorem ofJson?_shortRule (n : Nat) (inside : Bool) :
    Rule.ofJson? inside (shortRule n) = some (nestedRule n) := by
  have hreadable := (plain_shortRule n).isReadable
  induction n generalizing inside with
  | zero =>
    rw [shortRule] at hreadable ⊢
    rw [Rule.ofJson?, hreadable, Bool.not_true, Bool.and_false]
    rfl
  | succ n ih =>
    have hrules : rulesItem? [.string "media", .string "", .array [shortRule n]]
        = some [nestedRule n] := by
      rw [rulesItem?, rulesValue?, rulesOfItems?, ih true (plain_shortRule n).isReadable]
      rfl
    rw [shortRule] at hreadable ⊢
    rw [Rule.ofJson?, hreadable, Bool.not_true, Bool.and_false]
    have hkind : tagOfJson? RuleTag.names inside (.string "condition") = some .condition := rfl
    simp only [Bool.false_eq_true, if_false, hkind, hrules, Option.bind_some]
    rfl

theorem depth_shortRule (n : Nat) : (shortRule n).depth = 2 * n + 1 := by
  induction n with
  | zero => rfl
  | succ n ih =>
    simp only [shortRule, Json.depth, Json.depthItems, ih]
    omega

theorem depth_nestedRule (n : Nat) : (nestedRule n).toJson.depth = 2 * n + 2 := by
  induction n with
  | zero => rfl
  | succ n ih =>
    simp only [nestedRule, Rule.toJson, Rule.toJsonList, ConditionKind.toJson, Json.depth,
      Json.depthItems, Json.depthFields, ih]
    omega

theorem plain_shortDocument (n : Nat) : Json.Plain (shortDocument n) := by
  have hnone : Json.Plain (.array []) := .array nofun
  have hrules : Json.Plain (.array [shortRule n]) := .items (plain_shortRule n)
  have hsheet : Json.Plain (.array [.array [shortRule n]]) := .items hrules
  exact .items (.items ⟨.string "a", hnone, hnone, hsheet⟩)

theorem ofJson?_shortDocument (n : Nat) :
    Tree.ofJson? (shortDocument n) = some (nestedDocument n) := by
  have hrules : [shortRule n].mapM (Rule.ofJson? false) = some [nestedRule n] := by
    rw [List.mapM_cons, ofJson?_shortRule]
    rfl
  have hsheet : Stylesheet.ofJson? false (.array [.array [shortRule n]]) = some ⟨[nestedRule n]⟩ :=
    congrArg (Option.map Stylesheet.mk) hrules
  have hroot : Element.ofJson? (.array [.string "a", .array [], .array [], .array [.array [shortRule n]]])
      = some (nestedDocument n).root := by
    show (do return (⟨← some "a", ← some ∅, [], ← (Stylesheet.ofJson? false _).map some⟩ : Element)) = _
    rw [hsheet]
    rfl
  show (do return (⟨← Element.ofJson? _, ← some []⟩ : Tree)) = _
  rw [hroot]
  rfl

theorem depth_shortDocument (n : Nat) : (shortDocument n).depth = 2 * n + 5 := by
  simp only [shortDocument, Json.depth, Json.depthItems, depth_shortRule]
  omega

theorem depth_nestedDocument (n : Nat) : (nestedDocument n).toJson.depth = 2 * n + 6 := by
  have hrules : Json.depthItems (Rule.toJsonList [nestedRule n]) = 2 * n + 2 := by
    rw [Rule.toJsonList, Json.depthItems, depth_nestedRule]
    rfl
  show max (Json.depthFields [("tag", .string "a"), ("stylesheet",
    .object [("rules", .array (Rule.toJsonList [nestedRule n]))])] + 1) 0 + 1 = _
  simp only [Json.depthFields, Json.depth, hrules]
  omega

/-- A document is read from a text that is nested to the limit, and its own text, which is nested one
level deeper, is refused. -/
theorem not_reread_at_limit :
    decodeText (orMalformed Tree.ofJson?) ((shortDocument 61).print Json.compact)
        = .ok (nestedDocument 61) ∧
      decodeText (orMalformed Tree.ofJson?) (printJson false (nestedDocument 61).toJson)
        = .error .malformed := by
  constructor
  · refine decodeText_printed Json.compact_spaced (plain_shortDocument 61) ?_
      (orMalformed_eq_ok_iff.mpr (ofJson?_shortDocument 61))
    rw [depth_shortDocument]
    decide
  · have hprinted := (nestedDocument 61).decodeText_printed Json.compact_spaced
    rw [depth_nestedDocument] at hprinted
    exact hprinted

end SynthDom.CommandLine
