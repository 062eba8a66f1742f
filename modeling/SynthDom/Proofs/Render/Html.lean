import SynthDom.Proofs.Render.Css
import SynthDom.Proofs.Tree.Identical

/-!
# Documents can be told by their texts

Nothing that a text or an attribute's value holds can pass for markup, because the characters that markup
is made of are escaped in it.  So the text of a document says what it is the text of, as long as the parts
that are written as they are keep to their own characters: tags and names, which end at the first
character that is none of a name, and stylesheets, which end at the first `<`.  Besides, no text is empty
or next to another one, and no element can be taken for a stylesheet.

As with stylesheets, a statement about a part of a text is about two such parts with any two texts behind
them, if need be with texts in front of which the part ends.

* `eq_of_textHtml`, `eq_of_attributeHtml`: texts and attributes.
* `Node.Plain`, `Element.PlainContent`: nodes that can be told by their texts, and elements that hold such
  nodes.
* `Node.SameMarkup`, `Element.SameMarkupContent`: nodes that are the same, but for what the text of a
  stylesheet does not tell.
* `Node.Told`, `Node.Plain.told`: a node and what follows it.
* `Tree.html_eq_iff`: documents have one text exactly if their roots hold the same.
-/

namespace SynthDom

/-! ## Escaping -/

section

variable {c d : Char} {x y : List Char} {v w : String}

theorem escapeText_ne_nil (c : Char) : escapeText c ≠ [] := by
  unfold escapeText
  split_ifs <;> simp

theorem escapeValue_ne_nil (c : Char) : escapeValue c ≠ [] := by
  unfold escapeValue
  split_ifs
  · simp
  · exact escapeText_ne_nil c

theorem not_mem_escapeText (c : Char) : '<' ∉ escapeText c := by
  unfold escapeText
  split_ifs with hand hless <;> simp
  exact fun h => hless h.symm

theorem not_mem_escapeValue (c : Char) : '"' ∉ escapeValue c := by
  unfold escapeValue escapeText
  split_ifs with hquote <;> simp
  exact fun h => hquote h.symm

theorem eq_of_escapeText (h : escapeText c ++ x = escapeText d ++ y) : c = d ∧ x = y := by
  unfold escapeText at h
  split_ifs at h <;> grind

theorem eq_of_escapeValue (h : escapeValue c ++ x = escapeValue d ++ y) : c = d ∧ x = y := by
  have hquote {c : Char} {x y : List Char} : "&quot;".toList ++ x ≠ escapeText c ++ y := by
    unfold escapeText
    split_ifs <;> grind
  unfold escapeValue at h
  split_ifs at h with hc hd hd
  · exact ⟨hc.trans hd.symm, List.append_cancel_left h⟩
  · exact absurd h hquote
  · exact absurd h.symm hquote
  · exact eq_of_escapeText h

/-- A text of characters each of which can be told from what follows it is told by what is written. -/
theorem eq_of_flatMap {f : Char → List Char} (hne : ∀ c, f c ≠ [])
    (hf : ∀ {c d : Char} {x y : List Char}, f c ++ x = f d ++ y → c = d ∧ x = y) {l m : List Char}
    (h : l.flatMap f = m.flatMap f) : l = m := by
  have hparts : Parts f (fun _ => True) (fun x => x = []) (fun _ _ => True) :=
    { tail := fun _ => trivial
      ends_ne := fun _ hx h => hne _ (List.append_eq_nil_iff.mp (hx ▸ h).symm).1
      follows := fun _ _ => trivial }
  have hsame : List.Forall₂ Eq l m := (hparts.forall₂_of_flatMap (fun _ _ _ _ _ _ _ _ => hf)
    trivial trivial rfl rfl (congrArg (· ++ []) h)).1
  exact List.forall₂_eq_eq_eq ▸ hsame

theorem toList_textHtml (v : String) : (textHtml v).toList = v.toList.flatMap escapeText :=
  String.toList_ofList

theorem not_mem_textHtml (v : String) : '<' ∉ (textHtml v).toList := by
  rw [toList_textHtml, List.mem_flatMap]
  rintro ⟨c, -, hc⟩
  exact not_mem_escapeText c hc

theorem textHtml_ne_nil (hv : v ≠ "") : (textHtml v).toList ≠ [] := by
  intro h
  rw [toList_textHtml, List.flatMap_eq_nil_iff] at h
  cases hl : v.toList with
  | nil => exact hv (String.toList_eq_nil_iff.mp hl)
  | cons c l => exact escapeText_ne_nil c (h c (hl ▸ List.mem_cons_self))

theorem ne_less_of_mem_textHtml {c : Char} (h : c ∈ (textHtml v).toList) : (c != '<') = true :=
  bne_iff_ne.mpr fun he => not_mem_textHtml v (he ▸ h)

/-- A text ends where a tag begins. -/
theorem eq_of_textHtml (hx : Stops (fun c => c != '<') x) (hy : Stops (fun c => c != '<') y)
    (h : (textHtml v).toList ++ x = (textHtml w).toList ++ y) : v = w ∧ x = y := by
  obtain ⟨hsame, hrest⟩ := eq_of_stops (fun _ => ne_less_of_mem_textHtml)
    (fun _ => ne_less_of_mem_textHtml) hx hy h
  rw [toList_textHtml, toList_textHtml] at hsame
  exact ⟨String.toList_inj.mp (eq_of_flatMap escapeText_ne_nil eq_of_escapeText hsame), hrest⟩

/-- Neither the end nor a tag is where a text is. -/
theorem ne_textHtml_append (hv : v ≠ "") (hx : Stops (fun c => c != '<') x) :
    x ≠ (textHtml v).toList ++ y :=
  ne_of_stops hx (fun _ => ne_less_of_mem_textHtml) (textHtml_ne_nil hv)

end

/-! ## Names -/

/-- The characters of names: letters, digits and hyphens. -/
def isNameChar (c : Char) : Bool := c.isAlphanum || c == '-'

/-- A tag or an attribute's name that can be told from what follows it. -/
structure PlainName (name : String) : Prop where
  nonempty : name ≠ ""
  chars : ∀ c ∈ name.toList, isNameChar c = true

section

variable {a b : String × String} {as bs : List (String × String)} {s t : String} {x y : List Char}

theorem PlainName.of_all (hs : s ≠ "") (h : s.toList.all isNameChar = true) : PlainName s :=
  ⟨hs, List.all_eq_true.mp h⟩

theorem eq_of_name (hs : PlainName s) (ht : PlainName t) (hx : Stops isNameChar x)
    (hy : Stops isNameChar y) (h : s.toList ++ x = t.toList ++ y) : s = t ∧ x = y := by
  obtain ⟨hsame, hrest⟩ := eq_of_stops hs.chars ht.chars hx hy h
  exact ⟨String.toList_inj.mp hsame, hrest⟩

/-- What is no name does not stand where one is. -/
theorem PlainName.ne_append (hs : PlainName s) (hx : Stops isNameChar x) : x ≠ s.toList ++ y :=
  ne_of_stops hx hs.chars (mt String.toList_eq_nil_iff.mp hs.nonempty)

/-! ## Attributes -/

/-- The characters that a bare name does not end at. -/
def isAttributeChar (c : Char) : Bool := isNameChar c || c == '='

theorem Stops.name (h : Stops isAttributeChar x) : Stops isNameChar x := fun c hc =>
  (Bool.or_eq_false_iff.mp (h c hc)).1

theorem toList_attributeHtml_of_flag (h : a.2 = flagValue) :
    (attributeHtml a).toList = ' ' :: a.1.toList := by
  simp [attributeHtml, h]

theorem toList_attributeHtml (h : a.2 ≠ flagValue) : (attributeHtml a).toList
    = ' ' :: (a.1.toList ++ '=' :: '"' :: (a.2.toList.flatMap escapeValue ++ ['"'])) := by
  simp [attributeHtml, h]

/-- A flag is not taken for the name of an attribute with a value. -/
theorem ne_of_flag (ha : PlainName a.1) (hb : PlainName b.1) (hx : Stops isAttributeChar x) :
    a.1.toList ++ x ≠ b.1.toList ++ '=' :: y := by
  intro h
  obtain ⟨-, rfl⟩ := eq_of_name ha hb hx.name (stops_cons (by decide) y) h
  exact absurd (hx '=' rfl) (by decide)

/-- An attribute and what follows it, which is not taken for a part of a flag. -/
theorem eq_of_attributeHtml (ha : PlainName a.1) (hb : PlainName b.1) (hx : Stops isAttributeChar x)
    (hy : Stops isAttributeChar y)
    (h : (attributeHtml a).toList ++ x = (attributeHtml b).toList ++ y) : a = b ∧ x = y := by
  have hnot (v : String) : '"' ∉ v.toList.flatMap escapeValue := by
    rw [List.mem_flatMap]
    rintro ⟨c, -, hc⟩
    exact not_mem_escapeValue c hc
  by_cases hflag : a.2 = flagValue <;> by_cases hflag' : b.2 = flagValue
  · rw [toList_attributeHtml_of_flag hflag, toList_attributeHtml_of_flag hflag'] at h
    obtain ⟨hname, hrest⟩ := eq_of_name ha hb hx.name hy.name (List.cons.inj h).2
    exact ⟨Prod.ext hname (hflag.trans hflag'.symm), hrest⟩
  · rw [toList_attributeHtml_of_flag hflag, toList_attributeHtml hflag'] at h
    simp only [List.cons_append, List.append_assoc] at h
    exact absurd (List.cons.inj h).2 (ne_of_flag ha hb hx)
  · rw [toList_attributeHtml hflag, toList_attributeHtml_of_flag hflag'] at h
    simp only [List.cons_append, List.append_assoc] at h
    exact absurd (List.cons.inj h).2.symm (ne_of_flag hb ha hy)
  · rw [toList_attributeHtml hflag, toList_attributeHtml hflag'] at h
    simp only [List.cons_append, List.append_assoc] at h
    obtain ⟨hname, hbehind⟩ := eq_of_name ha hb (stops_cons (by decide) _) (stops_cons (by decide) _)
      (List.cons.inj h).2
    obtain ⟨hvalue, hrest⟩ := eq_of_not_mem (hnot a.2) (hnot b.2)
      (List.cons.inj (List.cons.inj hbehind).2).2
    have hvalue := String.toList_inj.mp (eq_of_flatMap escapeValue_ne_nil eq_of_escapeValue hvalue)
    exact ⟨Prod.ext hname hvalue, hrest⟩

/-- The attributes of a tag. -/
def attributesHtml (as : List (String × String)) : String := String.join (as.map attributeHtml)

theorem toList_attributesHtml (as : List (String × String)) :
    (attributesHtml as).toList = as.flatMap fun a => (attributeHtml a).toList :=
  toList_join_map attributeHtml as

theorem attributeHtml_append (a : String × String) (x : List Char) :
    ∃ z, (attributeHtml a).toList ++ x = ' ' :: z := by
  by_cases h : a.2 = flagValue
  · exact ⟨_, congrArg (· ++ x) (toList_attributeHtml_of_flag h)⟩
  · exact ⟨_, congrArg (· ++ x) (toList_attributeHtml h)⟩

/-- The attributes of a tag are not taken for a part of what stands before them. -/
theorem stops_attributesHtml (as : List (String × String)) (x : List Char) :
    Stops isAttributeChar ((attributesHtml as).toList ++ '>' :: x) := by
  rw [toList_attributesHtml]
  cases as with
  | nil => exact stops_cons (by decide) x
  | cons a as =>
    rw [List.flatMap_cons, List.append_assoc]
    obtain ⟨z, hz⟩ := attributeHtml_append a _
    rw [hz]
    exact stops_cons (by decide) z

/-- The end of a tag is none of an attribute. -/
theorem attributeParts : Parts (fun a => (attributeHtml a).toList) (fun as => ∀ a ∈ as, PlainName a.1)
    (fun x => ∃ z, x = '>' :: z) (fun _ x => Stops isAttributeChar x) where
  tail has := (List.forall_mem_cons.mp has).2
  ends_ne := by
    rintro a as _ y - ⟨z, rfl⟩
    obtain ⟨z', hz⟩ := attributeHtml_append a y
    rw [hz]
    simp
  follows := by
    rintro a as _ - ⟨z, rfl⟩
    rw [← toList_attributesHtml]
    exact stops_attributesHtml as z

/-- The attributes go to the end of the tag. -/
theorem eq_of_attributesHtml (has : ∀ a ∈ as, PlainName a.1) (hbs : ∀ b ∈ bs, PlainName b.1)
    (h : (attributesHtml as).toList ++ '>' :: x = (attributesHtml bs).toList ++ '>' :: y) :
    as = bs ∧ x = y := by
  rw [toList_attributesHtml, toList_attributesHtml] at h
  obtain ⟨hsame, hrest⟩ := attributeParts.forall₂_of_flatMap
    (fun a ha b hb _ _ => eq_of_attributeHtml (has a ha) (hbs b hb)) has hbs ⟨x, rfl⟩ ⟨y, rfl⟩ h
  exact ⟨List.forall₂_eq_eq_eq ▸ hsame, (List.cons.inj hrest).2⟩

end

/-! ## Nodes that can be told by their texts -/

/-- Not both are texts, so that the one can be told from the other when they are next to each other. -/
def Node.Apart (n m : Node) : Prop := n.kind = .text → m.kind ≠ .text

/-- A node that can be told by its text, if need be up to its stylesheets. -/
inductive Node.Plain : Node → Prop
  | text {value : String} : value ≠ "" → Node.Plain (.text value)
  /-- Names of name characters, a tag that is not taken for a stylesheet, children of which no two texts
  are next to each other, and a stylesheet that is not taken for markup. -/
  | element {e : Element} : PlainName e.tag → e.tag ≠ "style" →
      (∀ a ∈ e.attributes.entries, PlainName a.1) → (∀ n ∈ e.children, Node.Plain n) →
      e.children.IsChain Node.Apart → '<' ∉ e.sheet.css.toList → Node.Plain (.element e)

/-- An element that holds what can be told by its text, whatever its tag and its attributes are. -/
structure Element.PlainContent (e : Element) : Prop where
  children : ∀ n ∈ e.children, n.Plain
  apart : e.children.IsChain Node.Apart
  css : '<' ∉ e.sheet.css.toList

/-- The same nodes with the same tags, attributes and texts, and stylesheets with the same text. -/
inductive Node.SameMarkup : Node → Node → Prop
  | text (value : String) : Node.SameMarkup (.text value) (.text value)
  | element {e f : Element} (tag : e.tag = f.tag) (attributes : e.attributes = f.attributes)
      (children : List.Forall₂ Node.SameMarkup e.children f.children)
      (css : e.sheet.css = f.sheet.css) : Node.SameMarkup (.element e) (.element f)

/-- Elements that hold the same nodes and have stylesheets with the same text, where none has the text of an
empty one. -/
structure Element.SameMarkupContent (e f : Element) : Prop where
  children : List.Forall₂ Node.SameMarkup e.children f.children
  css : e.sheet.css = f.sheet.css

/-! ## Stylesheets in elements -/

/-- Only a stylesheet without rules has no text. -/
theorem Stylesheet.css_eq_empty_iff {s : Stylesheet} : s.css = "" ↔ s.rules = [] := by
  rw [Stylesheet.css]
  cases s.rules with
  | nil => simp [Rule.cssList]
  | cons r rs => simp [Rule.cssList, Rule.css_eq, openLine]

theorem styleHtml_of_empty {e : Element} (h : e.sheet.css = "") : styleHtml e.stylesheet = "" := by
  rw [Stylesheet.css_eq_empty_iff, e.rules_sheet] at h
  simp [styleHtml_eq, h]

theorem toList_styleHtml {e : Element} (h : e.sheet.css ≠ "") (x : List Char) :
    (styleHtml e.stylesheet).toList ++ x
      = "<style>".toList ++ (e.sheet.css.toList ++ '<' :: ("/style>".toList ++ x)) := by
  have hrules := mt Stylesheet.css_eq_empty_iff.mpr h
  rw [e.rules_sheet] at hrules
  simp [styleHtml_eq, hrules, Stylesheet.css]

theorem styleHtml_congr {e f : Element} (h : e.sheet.css = f.sheet.css) :
    styleHtml e.stylesheet = styleHtml f.stylesheet := by
  by_cases hempty : e.sheet.css = ""
  · rw [styleHtml_of_empty hempty, styleHtml_of_empty (h.symm.trans hempty)]
  · have hsame := toList_styleHtml hempty []
    rw [h, ← toList_styleHtml (h ▸ hempty)] at hsame
    exact String.toList_inj.mp (List.append_cancel_right hsame)

/-! ## Nodes -/

/-- What follows the nodes that an element holds: the tag that closes the element, or nothing, if the
element is the root. -/
inductive Closes : List Char → Prop
  | root : Closes []
  | tag (x : List Char) : Closes ('<' :: '/' :: x)

namespace Node

variable {n m : Node} {ns ms : List Node} {x y : List Char}

theorem Plain.content {e : Element} (h : (Node.element e).Plain) : e.PlainContent := by
  cases h with
  | element _ _ _ children apart css => exact ⟨children, apart, css⟩

/-- An element and what follows it. -/
theorem html_element_append (e : Element) (x : List Char) : (Node.element e).html.toList ++ x
    = '<' :: (e.tag.toList ++ ((attributesHtml e.attributes.entries).toList
      ++ '>' :: (e.contentHtml.toList ++ '<' :: '/' :: (e.tag.toList ++ '>' :: x)))) := by
  simp [Node.html, Element.html_eq, attributesHtml, Element.contentHtml]

theorem toList_htmlList (ns : List Node) :
    (htmlList ns).toList = ns.flatMap fun n => n.html.toList := by
  induction ns with
  | nil => rfl
  | cons n ns ih => rw [htmlList, String.toList_append, ih, List.flatMap_cons]

/-- A tag that closes an element is not the beginning of a node. -/
theorem Plain.ne_of_closes (hn : n.Plain) (hx : Closes x) : x ≠ n.html.toList ++ y := by
  cases hn with
  | text hv =>
    refine ne_textHtml_append hv ?_
    cases hx with
    | root => exact stops_nil _
    | tag x => exact stops_cons (by decide) _
  | @element e htag =>
    rw [html_element_append]
    cases hx with
    | root => simp
    | tag x =>
      intro h
      exact htag.ne_append (stops_cons (by decide) x) (List.cons.inj h).2

/-- The tag of a stylesheet is not the beginning of a node. -/
theorem Plain.ne_style (hn : n.Plain) : "<style>".toList ++ x ≠ n.html.toList ++ y := by
  cases hn with
  | text hv => exact ne_textHtml_append hv (stops_cons (by decide) _)
  | @element e htag hstyle =>
    intro h
    rw [html_element_append] at h
    have hname : PlainName "style" := .of_all (by decide) (by decide)
    exact hstyle (eq_of_name hname htag (stops_cons (by decide) x)
      (stops_attributesHtml _ _).name (List.cons.inj h).2).1.symm

/-- The tag of a stylesheet does not stand where the nodes of an element do. -/
theorem ne_style_htmlList (hns : ∀ n ∈ ns, n.Plain) (hx : Closes x) :
    "<style>".toList ++ y ≠ (htmlList ns).toList ++ x := by
  cases ns with
  | nil => cases hx <;> simp [htmlList]
  | cons n ns =>
    rw [htmlList, String.toList_append, List.append_assoc]
    exact (hns n List.mem_cons_self).ne_style

/-- What follows a node does not go on with the node: behind a text stands no other one. -/
def EndsAt (n : Node) (x : List Char) : Prop := n.kind = .text → Stops (fun c => c != '<') x

/-- What closes an element is no node, and behind a text that it holds stands a tag. -/
theorem parts : Parts (fun n : Node => n.html.toList)
    (fun ns => (∀ n ∈ ns, n.Plain) ∧ ns.IsChain Apart) Closes EndsAt where
  tail hns := ⟨(List.forall_mem_cons.mp hns.1).2, hns.2.of_cons⟩
  ends_ne hns hx := (hns.1 _ List.mem_cons_self).ne_of_closes hx
  follows := by
    rintro n ns x ⟨-, hapart⟩ hx htext
    cases ns with
    | nil =>
      cases hx with
      | root => exact stops_nil _
      | tag x => exact stops_cons (by decide) _
    | cons m ns =>
      cases m with
      | text => exact absurd rfl ((List.isChain_cons_cons.mp hapart).1 htext)
      | element e =>
        rw [List.flatMap_cons, List.append_assoc, html_element_append]
        exact stops_cons (by decide) _

/-- A node that no other one with something behind it is taken for. -/
def Told (n : Node) : Prop :=
  ∀ ⦃m : Node⦄ ⦃x y : List Char⦄, m.Plain → n.EndsAt x → m.EndsAt y →
    n.html.toList ++ x = m.html.toList ++ y → n.SameMarkup m ∧ x = y

/-- What an element holds goes to what closes the element, and the text of its stylesheet to the first
`<`. -/
theorem sameMarkup_of_contentHtml {e f : Element} (htold : ∀ n ∈ e.children, n.Told)
    (he : e.PlainContent) (hf : f.PlainContent) (hx : Closes x) (hy : Closes y)
    (h : e.contentHtml.toList ++ x = f.contentHtml.toList ++ y) :
    e.SameMarkupContent f ∧ x = y := by
  have hchildren (h : (htmlList e.children).toList ++ x = (htmlList f.children).toList ++ y) :
      List.Forall₂ SameMarkup e.children f.children ∧ x = y := by
    rw [toList_htmlList, toList_htmlList] at h
    exact parts.forall₂_of_flatMap (fun n hn m hm _ _ => htold n hn (hf.children m hm))
      ⟨he.children, he.apart⟩ ⟨hf.children, hf.apart⟩ hx hy h
  simp only [Element.contentHtml, String.toList_append, List.append_assoc] at h
  by_cases hempty : e.sheet.css = "" <;> by_cases hempty' : f.sheet.css = ""
  · rw [styleHtml_of_empty hempty, styleHtml_of_empty hempty'] at h
    obtain ⟨hsame, hrest⟩ := hchildren h
    exact ⟨⟨hsame, hempty.trans hempty'.symm⟩, hrest⟩
  -- a stylesheet in one of the two only stands where the other one has a node or is closed
  · rw [styleHtml_of_empty hempty, toList_styleHtml hempty'] at h
    exact absurd h.symm (ne_style_htmlList he.children hx)
  · rw [toList_styleHtml hempty, styleHtml_of_empty hempty'] at h
    exact absurd h (ne_style_htmlList hf.children hy)
  · rw [toList_styleHtml hempty, toList_styleHtml hempty'] at h
    obtain ⟨hcss, hbehind⟩ := eq_of_not_mem he.css hf.css (List.append_cancel_left h)
    obtain ⟨hsame, hrest⟩ := hchildren (List.append_cancel_left hbehind)
    exact ⟨⟨hsame, String.toList_inj.mp hcss⟩, hrest⟩

/-- A node goes to the tag that closes it, and a text to the next tag. -/
theorem Plain.told (hn : n.Plain) : n.Told := by
  induction n with
  | text v =>
    intro m x y hm hx hy h
    cases hn with
    | text hv =>
      cases hm with
      | text =>
        obtain ⟨rfl, hrest⟩ := eq_of_textHtml (hx rfl) (hy rfl) h
        exact ⟨.text v, hrest⟩
      | element =>
        rw [html_element_append] at h
        exact absurd h.symm (ne_textHtml_append hv (stops_cons (by decide) _))
  | element e ih =>
    intro m x y hm _ _ h
    have hcontent := hn.content
    cases hn with
    | element htag hstyle hattributes hchildren =>
      cases hm with
      | text hw =>
        rw [html_element_append] at h
        exact absurd h (ne_textHtml_append hw (stops_cons (by decide) _))
      | @element f htag' hstyle' hattributes' hchildren' hapart' hcss' =>
        -- the tag ends where the attributes begin, these at `>`, and the content at the closing tag
        rw [html_element_append, html_element_append] at h
        obtain ⟨htags, hbehind⟩ := eq_of_name htag htag' (stops_attributesHtml _ _).name
          (stops_attributesHtml _ _).name (List.cons.inj h).2
        obtain ⟨hentries, hbehind⟩ := eq_of_attributesHtml hattributes hattributes' hbehind
        obtain ⟨⟨hsame, hcss⟩, hclosing⟩ := sameMarkup_of_contentHtml
          (fun n hn => ih n hn (hchildren n hn)) hcontent ⟨hchildren', hapart', hcss'⟩
          (.tag _) (.tag _) hbehind
        simp only [htags, List.cons.injEq, List.append_cancel_left_eq, true_and] at hclosing
        exact ⟨.element htags (PropertyList.ext_entries hentries) hsame hcss, hclosing⟩

/-- What is the same but for the rules behind the text of a stylesheet has the same text. -/
theorem SameMarkup.html_eq (h : n.SameMarkup m) : n.html = m.html := by
  induction n generalizing m with
  | text value =>
    cases h
    rfl
  | element e ih =>
    cases h with
    | @element _ f tag attributes children css =>
      have hchildren : htmlList e.children = htmlList f.children :=
        htmlList_eq_of_forall₂ (forall₂_imp_of_mem (fun n hn _ => ih n hn) children)
      rw [Node.html, Node.html, Element.html_eq, Element.html_eq, tag, attributes, hchildren,
        styleHtml_congr css]

end Node

/-! ## Documents -/

/-- Documents that can be told by their texts have the same text exactly if their roots hold the same
nodes, with the same tags, the same attributes in the same order and the same texts, and if all
stylesheets, that of the root included, have the same text. -/
theorem Tree.html_eq_iff {t u : Tree} (ht : t.root.PlainContent) (hu : u.root.PlainContent) :
    t.html = u.html ↔ t.root.SameMarkupContent u.root := by
  constructor
  · intro h
    have h : t.root.contentHtml.toList ++ [] = u.root.contentHtml.toList ++ [] :=
      congrArg (fun text => String.toList text ++ []) h
    exact (Node.sameMarkup_of_contentHtml (fun n hn => (ht.children n hn).told) ht hu .root .root h).1
  · rintro ⟨children, css⟩
    rw [Tree.html, Tree.html, Element.contentHtml, Element.contentHtml, styleHtml_congr css,
      Node.htmlList_eq_of_forall₂ (children.imp fun _ _ h => h.html_eq)]

/-- An empty stylesheet of the root has no text, and a value that holds quotes is not taken for the one that
is written as the other one is escaped. -/
theorem Tree.html_eq_iff_quotes :
    let link (title : String) : Node :=
      .element ⟨"a", ⟨[("title", title), ("hidden", flagValue)], by simp⟩, [.text "1 < 2</a>"],
        some ⟨[.style "p > q" ∅]⟩⟩
    let document (tag title : String) (sheet : Option Stylesheet) : Tree :=
      ⟨⟨tag, ∅, [.text "&lt;", link title, .text "&lt;"], sheet⟩, []⟩
    let quoted := document "document" "\" hidden=\"" none
    let same := document "root" "\" hidden=\"" (some .empty)
    let escaped := document "document" "&quot; hidden=&quot;" none
    quoted.root.PlainContent ∧ same.root.PlainContent ∧ escaped.root.PlainContent ∧
      quoted.html = same.html ∧ quoted.html ≠ escaped.html := by
  intro link document quoted same escaped
  have hnames : PlainName "a" ∧ PlainName "title" ∧ PlainName "hidden" :=
    ⟨.of_all (by decide) (by decide), .of_all (by decide) (by decide), .of_all (by decide) (by decide)⟩
  have htag : "a" ≠ "style" := by decide
  have hcss : '<' ∉ (Stylesheet.mk [.style "p > q" ∅]).css.toList := by decide
  have hlink (title : String) : (link title).Plain := by
    refine .element hnames.1 htag ?_ ?_ (.singleton _) hcss
    · exact List.forall_mem_cons.mpr ⟨hnames.2.1, List.forall_mem_singleton.mpr hnames.2.2⟩
    · exact List.forall_mem_singleton.mpr (.text (by decide))
  have hdocument (tag title : String) {sheet : Option Stylesheet}
      (h : '<' ∉ (sheet.getD .empty).css.toList) : (document tag title sheet).root.PlainContent := by
    refine ⟨?_, ?_, h⟩
    · refine List.forall_mem_cons.mpr ⟨.text (by decide), List.forall_mem_cons.mpr ⟨hlink title, ?_⟩⟩
      exact List.forall_mem_singleton.mpr (.text (by decide))
    · exact .cons_cons (fun _ => nofun) (.cons_cons nofun (.singleton _))
  have hquoted : quoted.root.PlainContent := hdocument _ _ (by decide)
  have hsame : same.root.PlainContent := hdocument _ _ (by decide)
  have hescaped : escaped.root.PlainContent := hdocument _ _ (by decide)
  refine ⟨hquoted, hsame, hescaped, ?_, fun h => ?_⟩
  · refine (Tree.html_eq_iff hquoted hsame).mpr ⟨.cons (.text _) (.cons ?_ (.cons (.text _) .nil)), rfl⟩
    exact .element rfl rfl (.cons (.text _) .nil) rfl
  · cases ((Tree.html_eq_iff hquoted hescaped).mp h).children with
    | cons _ hothers =>
      cases hothers with
      | cons hlinks =>
        cases hlinks with
        | element _ hattributes => exact absurd (congrArg PropertyList.entries hattributes) (by decide)

end SynthDom
