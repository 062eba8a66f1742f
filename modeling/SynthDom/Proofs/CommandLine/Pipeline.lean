import Mathlib
import SynthDom.CommandLine.Run
import SynthDom.Proofs.Mutation.Extent
import SynthDom.Proofs.Wire.Text

/-!
# From two files to a patched one

What `diff` prints for two documents can be given to `patch` together with the first, and gives the
second.  Three things meet here: a diff can be carried out, a printed value is read back, and what
is printed is not nested too deep.  The last leaves nothing over.  A document's text may be nested
127 deep, and a part that a diff inserts lies at least three levels down; it may be written one
level deeper than it was read, and has the list and the record of the mutation around it.

* `decodeText_printJson`: a printed value is decoded as it stands, if it is not too deep.
* `diffOutput`, `decodeText_diffOutput`: what `diff` prints is decoded as the diff.
* `run_diff`, `run_patch`: what the two commands do when their files can be read.
* `diff_output_patches`: the one after the other.
-/

namespace SynthDom.CommandLine

/-! ## Texts -/

theorem printJson_spaced (isPretty : Bool) :
    (if isPretty then Json.pretty else Json.compact).Spaced := by
  split
  · exact Json.pretty_spaced
  · exact Json.compact_spaced

/-- A value that is printed on lines of its own is decoded as it stands. -/
theorem decodeText_printJson {α : Type} {decode : Json → Except DecodeError α} {j : Json} {x : α}
    (hplain : Json.Plain j) (hdepth : j.depth ≤ Json.maxDepth) (hdecode : decode j = .ok x)
    (isPretty : Bool) : decodeText decode (printJson isPretty j ++ "\n") = .ok x :=
  decodeText_print (printJson_spaced isPretty) hplain hdepth hdecode "\n" (by simp [Json.isBlank])

/-! ## What a diff prints -/

/-- What `diff` prints for two documents. -/
def diffOutput (old new : Tree) (isPretty : Bool) : String :=
  printJson isPretty (Mutation.listToJson (old.diff new)) ++ "\n"

/-- A document is written one level deeper than its text is nested, at most, and its lists are no
longer than the text. -/
theorem within_of_decodeText {text : String} {t : Tree}
    (h : decodeText (orMalformed Tree.ofJson?) text = .ok t) :
    Json.Within text.length Json.maxDepth (Node.element t.root).toJson := by
  have htree : Tree.ofJson? (Json.read Json.maxDepth text).value = some t :=
    orMalformed_eq_ok_iff.mp (decode_of_decodeText h)
  exact Tree.within_root htree (Json.read_within (126 + 1) text)

/-- What `diff` prints for documents that were read from texts is decoded as their diff. -/
theorem decodeText_diffOutput {oldText newText : String} {old new : Tree}
    (hold : decodeText (orMalformed Tree.ofJson?) oldText = .ok old)
    (hnew : decodeText (orMalformed Tree.ofJson?) newText = .ok new)
    (holdLength : oldText.length < Json.indexLimit) (hnewLength : newText.length < Json.indexLimit)
    (isPretty : Bool) :
    decodeText Mutation.listOfJson (diffOutput old new isPretty) = .ok (old.diff new) := by
  have hwithin : ∀ m ∈ old.diff new, m.Within Json.indexLimit 125 := Element.diff_within
    ((within_of_decodeText hold).mono (Nat.le_of_lt holdLength) (Nat.le_refl _))
    ((within_of_decodeText hnew).mono (Nat.le_of_lt hnewLength) (Nat.le_refl _))
  have hbelow : ∀ m ∈ old.diff new, m.Below Json.indexLimit := fun m hm => (hwithin m hm).below
  exact decodeText_printJson (Mutation.plain_listToJson hbelow)
    (Mutation.depth_listToJson_le hwithin (by decide)) (Mutation.listOfJson_listToJson hbelow) isPretty

/-! ## Runs -/

/-- The arguments ask for a command, and these settings hold for it. -/
structure Invokes (files : Files) (arguments : List String) (command : Command) (config : Config) :
    Prop where
  arguments : Request.ofArguments arguments = .ok (.run command)
  config : loadConfig files = .ok config

variable {files : Files} {arguments : List String} {config : Config}

/-- A run is the execution of the command that it is asked for. -/
theorem run_of_execute {command : Command} {report : Report}
    (h : Invokes files arguments command config)
    (hexecute : execute files config command = .ok report) : run files arguments = .done report := by
  have hbind : ((loadConfig files).bind fun config => execute files config command) = .ok report := by
    rw [h.config]
    exact hexecute
  simp only [run, h.arguments, hbind]

theorem readFile_of_decodeText {α : Type} {decode : Json → Except DecodeError α}
    {file text : String} {x : α} (hfile : files file = .ok text)
    (hdecode : decodeText decode text = .ok x) : readFile files decode file = .ok x := by
  simp only [readFile, hfile, hdecode]

/-- The check of a diff never fails. -/
theorem verify_diff (old new : Tree) : verify old new (old.diff new) = .ok () := by
  have hequiv : (old.sync new).equiv new = true := Tree.equiv_iff_alike.mpr (Tree.sync_alike old new)
  simp only [verify, Tree.patchAll_diff, hequiv, if_pos]

/-- What `diff` does when its files can be read: the check adds a remark and changes nothing
else. -/
theorem run_diff {old new : String} {isPretty isVerified : Bool} {a b : Tree}
    (h : Invokes files arguments (.diff old new isPretty isVerified) config)
    (ha : readTree files old = .ok a) (hb : readTree files new = .ok b) :
    run files arguments = .done {
      output := diffOutput a b (isPretty || config.pretty)
      notice := if isVerified || config.verify then some (verifiedNotice (a.diff b).length new)
        else none } := by
  refine run_of_execute h ?_
  rw [execute, ha, hb]
  cases hcheck : isVerified || config.verify with
  | false => rfl
  | true =>
    show (verify a b (a.diff b)).bind _ = _
    rw [verify_diff]
    rfl

/-- What `patch` prints for a patched document. -/
def patchOutput (t : Tree) (isHtml isPretty : Bool) : String :=
  if isHtml then t.html ++ "\n" else printJson isPretty t.toJson ++ "\n"

/-- What `patch` does when its files can be read and the mutations apply. -/
theorem run_patch {tree mutations : String} {isHtml isPretty : Bool} {a t : Tree} {ms : List Mutation}
    (h : Invokes files arguments (.patch tree mutations isHtml isPretty) config)
    (ha : readTree files tree = .ok a) (hms : readFile files Mutation.listOfJson mutations = .ok ms)
    (ht : a.patchAll ms = .ok t) :
    run files arguments = .done { output := patchOutput t isHtml (isPretty || config.pretty) } := by
  refine run_of_execute h ?_
  rw [execute, ha]
  show (readFile files Mutation.listOfJson mutations).bind _ = _
  rw [hms]
  simp only [Except.bind, ht]
  cases isHtml <;> rfl

/-! ## The two commands in turn -/

/-- For any two texts of documents, of a size that 64 bits hold, as they do every index:

* what `diff` prints, in either layout, is decoded as the diff of the documents;
* `diff` succeeds, and neither the flag nor the setting that asks for a check changes what it
  prints;
* `patch` with the first text and what `diff` printed succeeds, and the patched document equals the
  second. -/
theorem diff_output_patches {oldText newText : String} {a b : Tree}
    (ha : decodeText (orMalformed Tree.ofJson?) oldText = .ok a)
    (hb : decodeText (orMalformed Tree.ofJson?) newText = .ok b)
    (haLength : oldText.length < Json.indexLimit) (hbLength : newText.length < Json.indexLimit) :
    (∀ isPretty, decodeText Mutation.listOfJson (diffOutput a b isPretty) = .ok (a.diff b)) ∧
    (∀ files arguments config old new isPretty isVerified,
      Invokes files arguments (.diff old new isPretty isVerified) config →
      files old = .ok oldText → files new = .ok newText →
      run files arguments = .done {
        output := diffOutput a b (isPretty || config.pretty)
        notice := if isVerified || config.verify then some (verifiedNotice (a.diff b).length new)
          else none }) ∧
    ∃ t, a.patchAll (a.diff b) = .ok t ∧ t.equiv b = true ∧
      ∀ files arguments config tree mutations isHtml isPretty wasPretty,
        Invokes files arguments (.patch tree mutations isHtml isPretty) config →
        files tree = .ok oldText → files mutations = .ok (diffOutput a b wasPretty) →
        run files arguments = .done { output := patchOutput t isHtml (isPretty || config.pretty) } := by
  have houtput := decodeText_diffOutput ha hb haLength hbLength
  refine ⟨houtput, ?_, a.sync b, Tree.patchAll_diff a b,
    Tree.equiv_iff_alike.mpr (Tree.sync_alike a b), ?_⟩
  · intro files arguments config old new isPretty isVerified h hold hnew
    exact run_diff h (readFile_of_decodeText hold ha) (readFile_of_decodeText hnew hb)
  · intro files arguments config tree mutations isHtml isPretty wasPretty h htree hmutations
    exact run_patch h (readFile_of_decodeText htree ha)
      (readFile_of_decodeText hmutations (houtput wasPretty)) (Tree.patchAll_diff a b)

/-- Files with a document that is all but empty, one with a rule whose declarations are left out,
and the mutations between them. -/
def shortForms (mutations : String) : Files := fun file =>
  if file = "old.json" then .ok "\x7b\"root\":\x7b\"tag\":\"document\"\x7d\x7d"
  else if file = "new.json" then .ok "\x7b\"root\":[\"document\",[],[],[[[\"style\",\"p\"]]]]\x7d"
  else if file = "diff.json" then .ok mutations
  else .error .notFound

/-- What the two commands do with these files. -/
theorem diff_output_patches_short_forms :
    ∃ (mutations : String) (t : Tree),
      run (shortForms mutations) ["diff", "old.json", "new.json", "--verify"]
        = .done ⟨mutations, some "✓ 1 mutations reproduce new.json"⟩ ∧
      run (shortForms mutations) ["patch", "old.json", "diff.json"]
        = .done { output := patchOutput t false false } ∧
      t.equiv ⟨⟨"document", ∅, [], some ⟨[.style "p" ∅]⟩⟩, []⟩ = true := by
  have hold : decodeText (orMalformed Tree.ofJson?) "\x7b\"root\":\x7b\"tag\":\"document\"\x7d\x7d"
      = .ok ⟨.bare "document", []⟩ := by cbv
  have hnew : decodeText (orMalformed Tree.ofJson?)
      "\x7b\"root\":[\"document\",[],[],[[[\"style\",\"p\"]]]]\x7d"
      = .ok ⟨⟨"document", ∅, [], some ⟨[.style "p" ∅]⟩⟩, []⟩ := by cbv
  obtain ⟨-, hdiff, t, -, hequiv, hpatch⟩ :=
    diff_output_patches hold hnew (by decide +kernel) (by decide +kernel)
  refine ⟨_, t, hdiff (shortForms _) ["diff", "old.json", "new.json", "--verify"] {} _ _ false true
    ⟨by cbv, rfl⟩ rfl rfl, ?_, hequiv⟩
  exact hpatch _ _ {} _ _ false false false ⟨by cbv, rfl⟩ rfl rfl

end SynthDom.CommandLine
