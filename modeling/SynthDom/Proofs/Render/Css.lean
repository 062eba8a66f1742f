import SynthDom.Proofs.Text.Parts
import SynthDom.Proofs.Tree.Alike
import SynthDom.Render.Css

/-!
# Stylesheets can be told by their texts

The text of a stylesheet is made of lines, and a line ends where a newline is.  So a text says what it
is the text of, as long as its parts are texts of one line: a rule goes to the first line that closes a
block at its depth, whatever braces, colons or blanks stand in its parts.  A part is told from what
follows it by the first character that it may not contain, which is why names must not contain `:`, nor
keywords a blank.  What the text does not tell is whether a block under a header is a style rule or a
keyframe step.

* `Rule.Plain`: the rules that can be told by their texts.
* `Rule.SameText`: rules that are the same, but for what the text does not tell.
* `Rule.Told`, `Rule.Plain.told`: a rule and what follows it.
* `Stylesheet.css_eq_iff`: stylesheets have one text exactly if their rules do.
-/

namespace SynthDom

/-! ## Lines -/

section

variable {depth : Nat} {header header' : String} {e e' : String × String} {x y : List Char}

theorem toList_indent (depth : Nat) : (indent depth).toList = List.replicate (2 * depth) ' ' :=
  String.toList_ofList

theorem toList_indent_succ (depth : Nat) :
    (indent (depth + 1)).toList = (indent depth).toList ++ [' ', ' '] := by
  rw [toList_indent, toList_indent, Nat.mul_succ, List.replicate_add]
  rfl

theorem toList_openLine (depth : Nat) (header : String) :
    (openLine depth header).toList = (indent depth).toList ++ (header.toList ++ [' ', '{', '\n']) := by
  simp [openLine]

theorem toList_closeLine (depth : Nat) :
    (closeLine depth).toList = (indent depth).toList ++ ['}', '\n'] := by
  simp [closeLine]

theorem toList_declarationLine (depth : Nat) (e : String × String) :
    (declarationLine depth e).toList
      = (indent (depth + 1)).toList ++ (e.1.toList ++ ':' :: ' ' :: (e.2.toList ++ [';', '\n'])) := by
  simp [declarationLine]

/-- A text that begins with a line inside a block does not begin with the line that closes the block. -/
theorem closeLine_ne_inside : (closeLine depth).toList ++ x ≠ (indent (depth + 1)).toList ++ y := by
  intro h
  rw [toList_closeLine, toList_indent_succ, List.append_assoc, List.append_assoc] at h
  exact absurd (List.cons.inj (List.append_cancel_left h)).1 (by decide)

/-- The line that opens a block ends where a newline is. -/
theorem eq_of_openLine (hheader : '\n' ∉ header.toList) (hheader' : '\n' ∉ header'.toList)
    (h : (openLine depth header).toList ++ x = (openLine depth header').toList ++ y) :
    header = header' ∧ x = y := by
  have hline {s : String} (hs : '\n' ∉ s.toList) : '\n' ∉ s.toList ++ [' ', '{'] := by
    simpa using hs
  have h : (header.toList ++ [' ', '{']) ++ '\n' :: x = (header'.toList ++ [' ', '{']) ++ '\n' :: y := by
    simpa [toList_openLine] using h
  obtain ⟨hsame, hrest⟩ := eq_of_not_mem (hline hheader) (hline hheader') h
  exact ⟨String.toList_inj.mp (List.append_cancel_right hsame), hrest⟩

/-- A declaration that can be told by its line: both parts are of one line, and the name ends where a
colon is. -/
structure PlainDeclaration (e : String × String) : Prop where
  name : '\n' ∉ e.1.toList
  colon : ':' ∉ e.1.toList
  value : '\n' ∉ e.2.toList

theorem eq_of_declarationLine (he : PlainDeclaration e) (he' : PlainDeclaration e')
    (h : (declarationLine depth e).toList ++ x = (declarationLine depth e').toList ++ y) :
    e = e' ∧ x = y := by
  have hline {s : String} (hs : '\n' ∉ s.toList) : '\n' ∉ s.toList ++ [';'] := by
    simpa using hs
  have h : e.1.toList ++ ':' :: ' ' :: ((e.2.toList ++ [';']) ++ '\n' :: x)
      = e'.1.toList ++ ':' :: ' ' :: ((e'.2.toList ++ [';']) ++ '\n' :: y) := by
    simpa [toList_declarationLine] using h
  obtain ⟨hname, hbehind⟩ := eq_of_not_mem he.colon he'.colon h
  obtain ⟨hvalue, hrest⟩ :=
    eq_of_not_mem (hline he.value) (hline he'.value) (List.cons.inj hbehind).2
  refine ⟨Prod.ext (String.toList_inj.mp hname) ?_, hrest⟩
  exact String.toList_inj.mp (List.append_cancel_right hvalue)

/-- The line that closes a block is none of a declaration. -/
theorem declarationParts (depth : Nat) : Parts (fun e => (declarationLine depth e).toList)
    (fun es => ∀ e ∈ es, PlainDeclaration e) (fun x => ∃ z, x = (closeLine depth).toList ++ z)
    (fun _ _ => True) where
  tail hes := (List.forall_mem_cons.mp hes).2
  ends_ne := by
    rintro e es _ y - ⟨z, rfl⟩
    rw [toList_declarationLine, List.append_assoc]
    exact closeLine_ne_inside
  follows _ _ := trivial

/-- The declarations of a block go to the line that closes it. -/
theorem eq_of_declarationLines {es es' : List (String × String)} (hes : ∀ e ∈ es, PlainDeclaration e)
    (hes' : ∀ e ∈ es', PlainDeclaration e)
    (h : (String.join (es.map (declarationLine depth))).toList ++ ((closeLine depth).toList ++ x)
      = (String.join (es'.map (declarationLine depth))).toList ++ ((closeLine depth).toList ++ y)) :
    es = es' ∧ x = y := by
  rw [toList_join_map, toList_join_map] at h
  obtain ⟨hsame, hrest⟩ := (declarationParts depth).forall₂_of_flatMap
    (fun e he e' he' _ _ _ _ h => eq_of_declarationLine (hes e he) (hes' e' he') h)
    hes hes' ⟨x, rfl⟩ ⟨y, rfl⟩ h
  exact ⟨List.forall₂_eq_eq_eq ▸ hsame, List.append_cancel_left hrest⟩

end

/-! ## Rules -/

/-- A keyword that can be told by its text: it ends where a blank is, and an unknown one is none of the
known ones. -/
def ConditionKind.Plain : ConditionKind → Prop
  | .unknown keyword =>
    '\n' ∉ keyword.toList ∧ ' ' ∉ keyword.toList ∧ keyword ∉ ["media", "supports", "keyframes"]
  | _ => True

namespace ConditionKind

variable {k l : ConditionKind}

theorem Plain.newline (h : k.Plain) : '\n' ∉ k.keyword.toList := by
  cases k with
  | unknown => exact h.1
  | media | supports | keyframes => decide

theorem Plain.blank (h : k.Plain) : ' ' ∉ k.keyword.toList := by
  cases k with
  | unknown => exact h.2.1
  | media | supports | keyframes => decide

theorem Plain.eq_of_keyword (hk : k.Plain) (hl : l.Plain) (h : k.keyword = l.keyword) : k = l := by
  cases k with
  | unknown w =>
    cases l with
    | unknown w' => exact congrArg unknown h
    | media | supports | keyframes =>
      obtain rfl : w = _ := h
      exact absurd (by decide) hk.2.2
  | media | supports | keyframes =>
    cases l with
    | unknown w' =>
      obtain rfl : _ = w' := h
      exact absurd (by decide) hl.2.2
    | media | supports | keyframes => first | rfl | exact absurd h (by decide)

theorem toList_header (k : ConditionKind) (condition : String) :
    (k.atKeyword ++ " " ++ condition).toList = '@' :: (k.keyword.toList ++ ' ' :: condition.toList) := by
  simp [atKeyword]

/-- A keyword and the condition behind it. -/
theorem eq_of_header {c d : String} (hk : k.Plain) (hl : l.Plain)
    (h : k.atKeyword ++ " " ++ c = l.atKeyword ++ " " ++ d) : k = l ∧ c = d := by
  have h := congrArg String.toList h
  rw [toList_header, toList_header] at h
  obtain ⟨hkeyword, hcondition⟩ := eq_of_not_mem hk.blank hl.blank (List.cons.inj h).2
  exact ⟨hk.eq_of_keyword hl (String.toList_inj.mp hkeyword), String.toList_inj.mp hcondition⟩

end ConditionKind

namespace Rule

/-- The header text and the declarations of a rule that has declarations. -/
def block? : Rule → Option (String × PropertyList)
  | .style header ds | .keyframeStep header ds => some (header, ds)
  | .condition .. => none

/-- A rule that can be told by its text, if need be up to the kind of its blocks. -/
inductive Plain : Rule → Prop
  /-- A selector or an offset of one line that is no at-keyword, and declarations that can be told by
  their lines. -/
  | block {r : Rule} {header : String} {ds : PropertyList} : r.block? = some (header, ds) →
      '\n' ∉ header.toList → header.toList.head? ≠ some '@' →
      (∀ e ∈ ds.entries, PlainDeclaration e) → Plain r
  /-- A keyword, a condition of one line, and rules that can be told by their texts. -/
  | condition {kind : ConditionKind} {condition : String} {rules : List Rule} : kind.Plain →
      '\n' ∉ condition.toList → (∀ r ∈ rules, Plain r) → Plain (.condition kind condition rules)

/-- The same rules in the same nesting with the same headers, declarations and values, but a style rule
and a keyframe step may stand for each other. -/
inductive SameText : Rule → Rule → Prop
  | block {r q : Rule} {b : String × PropertyList} : r.block? = some b → q.block? = some b → SameText r q
  | condition {kind : ConditionKind} {condition : String} {rs qs : List Rule} :
      List.Forall₂ SameText rs qs → SameText (.condition kind condition rs) (.condition kind condition qs)

/-- What the line that opens a rule says. -/
def header : Rule → String
  | .style header _ | .keyframeStep header _ => header
  | .condition k c _ => k.atKeyword ++ " " ++ c

/-- The lines between the first and the last of a rule inside `depth` condition rules. -/
def body (depth : Nat) : Rule → String
  | .style _ ds | .keyframeStep _ ds => String.join (ds.entries.map (declarationLine depth))
  | .condition _ _ rules => cssList (depth + 1) rules

variable {r q : Rule} {depth : Nat} {x y : List Char}

theorem css_eq (depth : Nat) (r : Rule) :
    r.css depth = openLine depth r.header ++ r.body depth ++ closeLine depth := by
  cases r <;> rfl

theorem header_of_block {b : String × PropertyList} (h : r.block? = some b) : r.header = b.1 := by
  cases r <;> cases h <;> rfl

theorem body_of_block {b : String × PropertyList} (h : r.block? = some b) (depth : Nat) :
    r.body depth = String.join (b.2.entries.map (declarationLine depth)) := by
  cases r <;> cases h <;> rfl

theorem Plain.header (h : r.Plain) : '\n' ∉ r.header.toList := by
  cases h with
  | block hb hheader => rwa [header_of_block hb]
  | condition hkind hcondition =>
    have hkeyword := hkind.newline
    rw [Rule.header, ConditionKind.toList_header]
    simp [hkeyword, hcondition]

/-- A rule and what follows it begin with the line that opens the rule. -/
theorem css_append (depth : Nat) (r : Rule) (x : List Char) :
    (r.css depth).toList ++ x = (openLine depth r.header).toList
      ++ ((r.body depth).toList ++ ((closeLine depth).toList ++ x)) := by
  simp [css_eq]

/-! ### Lists of rules -/

/-- What follows the rules inside `depth` condition rules: the line that closes the innermost of these, if
there is one. -/
inductive Closes : Nat → List Char → Prop
  | last : Closes 0 []
  | inside (depth : Nat) (x : List Char) : Closes (depth + 1) ((closeLine depth).toList ++ x)

/-- The line that closes a rule is none that opens one inside. -/
theorem parts (depth : Nat) : Parts (fun r : Rule => (r.css depth).toList) (fun rs => ∀ r ∈ rs, r.Plain)
    (Closes depth) (fun _ _ => True) where
  tail hrs := (List.forall_mem_cons.mp hrs).2
  ends_ne := by
    rintro r rs x y - hx
    rw [css_append, toList_openLine]
    cases hx with
    | last => simp
    | inside depth z =>
      rw [List.append_assoc]
      exact closeLine_ne_inside
  follows _ _ := trivial

theorem toList_cssList (depth : Nat) (rs : List Rule) :
    (cssList depth rs).toList = rs.flatMap fun r => (r.css depth).toList := by
  induction rs with
  | nil => rfl
  | cons r rs ih => rw [cssList, String.toList_append, ih, List.flatMap_cons]

/-- A rule inside `depth` condition rules that no other one with something behind it is taken for. -/
def Told (depth : Nat) (r : Rule) : Prop :=
  ∀ ⦃q : Rule⦄ ⦃x y : List Char⦄, q.Plain →
    (r.css depth).toList ++ x = (q.css depth).toList ++ y → r.SameText q ∧ x = y

/-- The rules of a list go to the line that closes the rule around them. -/
theorem sameText_of_cssList {rs qs : List Rule} (htold : ∀ r ∈ rs, r.Told depth)
    (hrs : ∀ r ∈ rs, r.Plain) (hqs : ∀ q ∈ qs, q.Plain) (hx : Closes depth x) (hy : Closes depth y)
    (h : (cssList depth rs).toList ++ x = (cssList depth qs).toList ++ y) :
    List.Forall₂ SameText rs qs ∧ x = y := by
  rw [toList_cssList, toList_cssList] at h
  exact (parts depth).forall₂_of_flatMap (fun r hr q hq _ _ _ _ h => htold r hr (hqs q hq) h)
    hrs hqs hx hy h

/-- A rule goes to the first line that closes a block at its depth. -/
theorem Plain.told (hr : r.Plain) (depth : Nat) : r.Told depth := by
  induction r using Rule.induct_nested generalizing depth with
  | h r ih =>
    intro q x y hq h
    rw [css_append, css_append] at h
    obtain ⟨hheader, hbody⟩ := eq_of_openLine hr.header hq.header h
    have hat {k : ConditionKind} {c header : String} (hnot : header.toList.head? ≠ some '@') :
        header ≠ k.atKeyword ++ " " ++ c := by
      rintro rfl
      rw [ConditionKind.toList_header] at hnot
      exact hnot rfl
    cases hr with
    | @block _ s ds hb _ hnot hds =>
      cases hq with
      | @block _ t es hb' _ _ hes =>
        rw [header_of_block hb, header_of_block hb'] at hheader
        rw [body_of_block hb, body_of_block hb'] at hbody
        obtain ⟨hentries, hrest⟩ := eq_of_declarationLines hds hes hbody
        obtain rfl : s = t := hheader
        obtain rfl : ds = es := PropertyList.ext_entries hentries
        exact ⟨.block hb hb', hrest⟩
      | condition =>
        rw [header_of_block hb] at hheader
        exact absurd hheader (hat hnot)
    | @condition k c rs hk _ hrs =>
      cases hq with
      | block hb' _ hnot =>
        rw [header_of_block hb'] at hheader
        exact absurd hheader.symm (hat hnot)
      | @condition l d qs hl _ hqs =>
        obtain ⟨rfl, rfl⟩ := ConditionKind.eq_of_header hk hl hheader
        obtain ⟨hrules, hrest⟩ := sameText_of_cssList
          (fun r hr => ih k c rs rfl r hr (hrs r hr) (depth + 1)) hrs hqs (.inside depth x)
          (.inside depth y) hbody
        exact ⟨.condition hrules, List.append_cancel_left hrest⟩

theorem cssList_congr {rs qs : List Rule}
    (h : List.Forall₂ (fun r q => r.css depth = q.css depth) rs qs) :
    cssList depth rs = cssList depth qs := by
  induction h with
  | nil => rfl
  | cons hhead _ ih => rw [cssList, cssList, hhead, ih]

/-- What is the same but for the kind of its blocks has the same text. -/
theorem SameText.css_eq (h : r.SameText q) (depth : Nat) : r.css depth = q.css depth := by
  induction r using Rule.induct_nested generalizing q depth with
  | h r ih =>
    cases h with
    | block hb hb' =>
      rw [Rule.css_eq, Rule.css_eq, header_of_block hb, header_of_block hb', body_of_block hb,
        body_of_block hb']
    | @condition k c rs qs hrules =>
      have hsame : cssList (depth + 1) rs = cssList (depth + 1) qs :=
        cssList_congr (forall₂_imp_of_mem (fun r hr _ h => ih k c rs rfl r hr h (depth + 1)) hrules)
      rw [css, css, hsame]

end Rule

/-! ## Stylesheets -/

/-- Stylesheets of which the rules can be told by their texts have the same text exactly if they have the
same rules, in the same order and nesting and with the same headers, declarations and values, but that a
style rule and a keyframe step may stand for each other. -/
theorem Stylesheet.css_eq_iff {s t : Stylesheet} (hs : ∀ r ∈ s.rules, r.Plain)
    (ht : ∀ r ∈ t.rules, r.Plain) : s.css = t.css ↔ List.Forall₂ Rule.SameText s.rules t.rules := by
  constructor
  · intro h
    have h : (Rule.cssList 0 s.rules).toList ++ [] = (Rule.cssList 0 t.rules).toList ++ [] :=
      congrArg (fun text => String.toList text ++ []) h
    exact (Rule.sameText_of_cssList (fun r hr => (hs r hr).told 0) hs ht .last .last h).1
  · intro h
    exact Rule.cssList_congr (h.imp fun _ _ h => h.css_eq 0)

/-- A step of a keyframes rule has the text of a style rule there, and braces, colons and blanks in a
selector and a value do not make a text pass for another one. -/
theorem Stylesheet.css_eq_iff_keyframes :
    let sheet (k : ConditionKind) (inner : Rule) : Stylesheet := ⟨[.condition k "fade" [inner]]⟩
    let ds (value : String) : PropertyList := .ofPairs [("opacity", value)]
    let step := sheet .keyframes (.keyframeStep "0%" (ds "0"))
    let style := sheet .keyframes (.style "0%" (ds "0"))
    let odd := sheet (.unknown "layer") (.style "  0% \x7b" (ds "0;\x7d a: b"))
    (∀ r ∈ step.rules, r.Plain) ∧ (∀ r ∈ style.rules, r.Plain) ∧ (∀ r ∈ odd.rules, r.Plain) ∧
      step.css = style.css ∧ step.css ≠ odd.css := by
  intro sheet ds step style odd
  have hname : '\n' ∉ "opacity".toList ∧ ':' ∉ "opacity".toList := by decide
  have hds (value : String) (h : '\n' ∉ value.toList) : ∀ e ∈ (ds value).entries, PlainDeclaration e :=
    List.forall_mem_singleton.mpr ⟨hname.1, hname.2, h⟩
  have hsheet {k : ConditionKind} {inner : Rule} (hk : k.Plain) (hinner : inner.Plain) :
      ∀ r ∈ (sheet k inner).rules, r.Plain :=
    List.forall_mem_singleton.mpr (.condition hk (by decide) (List.forall_mem_singleton.mpr hinner))
  have hstep : ∀ r ∈ step.rules, r.Plain :=
    hsheet trivial (.block rfl (by decide) (by decide) (hds "0" (by decide)))
  have hstyle : ∀ r ∈ style.rules, r.Plain :=
    hsheet trivial (.block rfl (by decide) (by decide) (hds "0" (by decide)))
  have hodd : ∀ r ∈ odd.rules, r.Plain :=
    hsheet ⟨by decide, by decide, by decide⟩
      (.block rfl (by decide) (by decide) (hds "0;\x7d a: b" (by decide)))
  refine ⟨hstep, hstyle, hodd, ?_, fun h => ?_⟩
  · exact (Stylesheet.css_eq_iff hstep hstyle).mpr
      (.cons (.condition (.cons (.block rfl rfl) .nil)) .nil)
  · cases (Stylesheet.css_eq_iff hstep hodd).mp h with
    | cons hrule =>
      cases hrule with
      | block hb => cases hb

end SynthDom
