import SynthDom.Proofs.Json.RoundTrip
import SynthDom.Proofs.PropertyList.Lookup
import SynthDom.Proofs.Tree.Alike
import SynthDom.Wire.Decode
import SynthDom.Wire.Encode

/-!
# The wire form is read back

Rules, nodes, documents and mutations are decoded from what they are encoded as, and nothing is
lost: entries keep their order, a missing stylesheet stays missing, an unknown at-keyword stays
unknown, and a rule is never taken for a node.

Encoded values are `Json.Plain`, so that they can be printed and read, and no part of them is
unreadable.
-/

namespace SynthDom

/-! ## Lists -/

/-- A list is read if its items are, one by one. -/
theorem mapM_eq_some_iff {α β : Type} {read : α → Option β} {xs : List α} {ys : List β} :
    xs.mapM read = some ys ↔ List.Forall₂ (fun x y => read x = some y) xs ys := by
  induction xs generalizing ys with
  | nil =>
    rw [List.mapM_nil, List.forall₂_nil_left_iff, Option.pure_def, Option.some.injEq, eq_comm]
  | cons x xs ih =>
    rw [List.mapM_cons, List.forall₂_cons_left_iff]
    simp only [Option.bind_eq_bind, Option.bind_eq_some_iff, Option.pure_def, Option.some.injEq, ih]
    constructor
    · rintro ⟨y, hy, ys, hys, rfl⟩
      exact ⟨y, ys, hy, hys, rfl⟩
    · rintro ⟨y, ys, hy, hys, rfl⟩
      exact ⟨y, hy, ys, hys, rfl⟩

/-- What is read from each item of a list that is written item by item. -/
theorem mapM_map_eq_some {α β : Type} {write : α → β} {read : β → Option α} {l : List α}
    (h : ∀ x ∈ l, read (write x) = some x) : (l.map write).mapM read = some l :=
  mapM_eq_some_iff.mpr (List.forall₂_map_left_iff.mpr (List.forall₂_same.mpr h))

theorem mapM_map_eq_ok {ε α β : Type} {write : α → β} {read : β → Except ε α} {l : List α}
    (h : ∀ x ∈ l, read (write x) = .ok x) : (l.map write).mapM read = .ok l := by
  induction l with
  | nil => rfl
  | cons x l ih =>
    rw [List.map_cons, List.mapM_cons, h x List.mem_cons_self,
      ih fun y hy => h y (List.mem_cons_of_mem _ hy)]
    rfl

/-! ## Values without loss -/

namespace Json

theorem allReadable_iff {items : List Json} :
    allReadable items = true ↔ ∀ j ∈ items, j.isReadable = true := by
  induction items with
  | nil => simp [allReadable]
  | cons j js ih => simp [allReadable, ih]

theorem allFieldsReadable_iff {fields : List (String × Json)} :
    allFieldsReadable fields = true ↔ ∀ f ∈ fields, f.2.isReadable = true := by
  induction fields with
  | nil => simp [allFieldsReadable]
  | cons f fields ih =>
    obtain ⟨name, j⟩ := f
    simp [allFieldsReadable, ih]

theorem Plain.isReadable {j : Json} (h : Plain j) : j.isReadable = true := by
  induction h with
  | null | bool | natural | string => rfl
  | array _ ih => exact allReadable_iff.mpr ih
  | object _ ih => exact allFieldsReadable_iff.mpr ih

/-- An array of some items is plain if they are. -/
theorem Plain.items {items : List Json} (h : items.Forall Plain) : Plain (.array items) :=
  .array (List.forall_iff_forall_mem.mp h)

/-- A list is written without loss if its members are. -/
theorem Plain.map {α : Type} {write : α → Json} {l : List α} (h : ∀ x ∈ l, Plain (write x)) :
    Plain (.array (l.map write)) := by
  refine .array fun j hj => ?_
  obtain ⟨x, hx, rfl⟩ := List.mem_map.mp hj
  exact h x hx

/-- An object of some fields is plain if their values are. -/
theorem Plain.fields {fields : List (String × Json)} (h : fields.Forall fun f => Plain f.2) :
    Plain (.object fields) :=
  .object (List.forall_iff_forall_mem.mp h)

end Json

/-! ## Property lists and at-keywords -/

theorem PropertyList.plain_toJson (l : PropertyList) : Json.Plain l.toJson :=
  .map fun _ _ => .items ⟨.string _, .string _⟩

theorem PropertyList.ofJson?_toJson (l : PropertyList) : ofJson? l.toJson = some l := by
  have hpairs : (l.entries.map fun e => Json.array [.string e.1, .string e.2]).mapM pairOfJson?
      = some l.entries := mapM_map_eq_some fun _ _ => rfl
  rw [ofJson?, toJson, Json.items?, Json.array?, Option.bind_some, hpairs, Option.map_some,
    ofPairs_entries]

theorem ConditionKind.plain_toJson (k : ConditionKind) : Json.Plain k.toJson := by
  cases k with
  | media | supports | keyframes => exact .string _
  | unknown keyword => exact .fields (.string _)

theorem ConditionKind.ofJson?_toJson (inside : Bool) (k : ConditionKind) :
    ofJson? inside k.toJson = some k := by
  cases k <;> rfl

/-! ## Rules -/

theorem Rule.toJsonList_eq (rules : List Rule) : Rule.toJsonList rules = rules.map Rule.toJson := by
  induction rules with
  | nil => rfl
  | cons r rules ih => rw [Rule.toJsonList, ih, List.map_cons]

theorem Rule.plain_toJson (r : Rule) : Json.Plain r.toJson := by
  induction r with
  | style selector ds => exact .fields ⟨.string _, .string _, ds.plain_toJson⟩
  | condition k c rules ih =>
    have hrules : Json.Plain (.array (Rule.toJsonList rules)) := by
      rw [Rule.toJsonList_eq]
      exact .map ih
    exact .fields ⟨.string _, k.plain_toJson, .string _, hrules⟩
  | keyframeStep offset ds => exact .fields ⟨.string _, .string _, ds.plain_toJson⟩

/-- Rules inside a rule are read back if each of them is. -/
theorem rulesOfItems?_map {rules : List Rule}
    (h : ∀ r ∈ rules, Rule.ofJson? true r.toJson = some r) :
    rulesOfItems? (rules.map Rule.toJson) = some rules := by
  induction rules with
  | nil => rfl
  | cons r rules ih =>
    rw [List.map_cons, rulesOfItems?, h r List.mem_cons_self,
      ih fun s hs => h s (List.mem_cons_of_mem _ hs)]

/-- A header text and declarations from the values of their fields. -/
theorem blockOfJson?_of_slots {header s : String} {j : Json} {ds : PropertyList}
    (h : j.slots [header, "declarations"] = some [some (.string s), some ds.toJson]) :
    blockOfJson? header j = some (s, ds) := by
  simp [blockOfJson?, h, Json.string?, Json.orDefault, PropertyList.ofJson?_toJson]

/-- A condition rule from the values of its fields. -/
theorem conditionOfJson?_of_slots {j : Json} {k : ConditionKind} {c : String} {rules : List Rule}
    {x : Option Json} (h : j.slots ["atRule", "condition", "rules"]
      = some [some k.toJson, some (.string c), x]) :
    conditionOfJson? j rules = some (.condition k c rules) := by
  simp [conditionOfJson?, h, Json.string?, ConditionKind.ofJson?_toJson]

/-- A rule is read back, on its own and inside another. -/
theorem Rule.ofJson?_toJson (r : Rule) (inside : Bool) : Rule.ofJson? inside r.toJson = some r := by
  have hreadable : r.toJson.isReadable = true := r.plain_toJson.isReadable
  induction r generalizing inside with
  | style selector ds =>
    rw [Rule.toJson] at hreadable ⊢
    have hkind : tagField? RuleTag.names inside [("kind", .string "style"),
      ("selector", .string selector), ("declarations", ds.toJson)] = some .style := rfl
    rw [Rule.ofJson?, hreadable]
    simp only [hkind, Bool.not_true, Bool.and_false, Bool.false_eq_true, if_false, RuleTag.leafOfJson?]
    rw [blockOfJson?_of_slots rfl, Option.map_some]
  | condition k c rules ih =>
    rw [Rule.toJson] at hreadable ⊢
    have hkind : tagField? RuleTag.names inside [("kind", .string "condition"), ("atRule", k.toJson),
      ("condition", .string c), ("rules", .array (Rule.toJsonList rules))] = some .condition := rfl
    have hrules : rulesOfItems? (Rule.toJsonList rules) = some rules := by
      rw [Rule.toJsonList_eq]
      exact rulesOfItems?_map fun r hr => ih r hr true r.plain_toJson.isReadable
    have hfield : rulesField? [("kind", .string "condition"), ("atRule", k.toJson),
      ("condition", .string c), ("rules", .array (Rule.toJsonList rules))] = some rules := hrules
    rw [Rule.ofJson?, hreadable]
    simp only [hkind, Bool.not_true, Bool.and_false, Bool.false_eq_true, if_false, hfield,
      Option.bind_some]
    exact conditionOfJson?_of_slots rfl
  | keyframeStep offset ds =>
    rw [Rule.toJson] at hreadable ⊢
    have hkind : tagField? RuleTag.names inside [("kind", .string "keyframeStep"),
      ("offset", .string offset), ("declarations", ds.toJson)] = some .keyframeStep := rfl
    rw [Rule.ofJson?, hreadable]
    simp only [hkind, Bool.not_true, Bool.and_false, Bool.false_eq_true, if_false, RuleTag.leafOfJson?]
    rw [blockOfJson?_of_slots rfl, Option.map_some]

theorem Stylesheet.plain_toJson (s : Stylesheet) : Json.Plain s.toJson := by
  have hrules : Json.Plain (.array (Rule.toJsonList s.rules)) := by
    rw [Rule.toJsonList_eq]
    exact .map fun r _ => r.plain_toJson
  exact .fields hrules

theorem Stylesheet.ofJson?_toJson (s : Stylesheet) (inside : Bool) :
    Stylesheet.ofJson? inside s.toJson = some s := by
  have hslots : s.toJson.slots ["rules"] = some [some (.array (Rule.toJsonList s.rules))] := rfl
  have hrules : (s.rules.map Rule.toJson).mapM (Rule.ofJson? inside) = some s.rules :=
    mapM_map_eq_some fun r _ => r.ofJson?_toJson inside
  rw [← Rule.toJsonList_eq] at hrules
  simp [Stylesheet.ofJson?, hslots, Json.orDefault, Json.items?, Json.array?, hrules]

/-! ## Nodes -/

theorem Node.toJsonList_eq (nodes : List Node) : Node.toJsonList nodes = nodes.map Node.toJson := by
  induction nodes with
  | nil => rfl
  | cons n nodes ih => rw [Node.toJsonList, ih, List.map_cons]

namespace Element

/-- The attributes as they are written, if there are any. -/
def attributesSlot (e : Element) : Option Json :=
  if e.attributes.isEmpty then none else some e.attributes.toJson

/-- The children as they are written, if there are any. -/
def childrenSlot (e : Element) : Option Json :=
  if e.children.isEmpty then none else some (.array (Node.toJsonList e.children))

theorem slots_fields (e : Element) (kind : Json) :
    Json.slots fieldNames (.object (("kind", kind) :: e.fields))
      = some [some (.string e.tag), e.attributesSlot, e.childrenSlot,
        e.stylesheet.map Stylesheet.toJson] := by
  obtain ⟨tag, attributes, children, stylesheet⟩ := e
  simp only [fields, PropertyList.fields, attributesSlot, childrenSlot]
  cases attributes.isEmpty <;> cases children.isEmpty <;> cases stylesheet <;> rfl

/-- Without the kind the fields are the same. -/
theorem slots_toJson (e : Element) : e.toJson.slots fieldNames = some [some (.string e.tag),
    e.attributesSlot, e.childrenSlot, e.stylesheet.map Stylesheet.toJson] := by
  obtain ⟨tag, attributes, children, stylesheet⟩ := e
  simp only [toJson, fields, PropertyList.fields, attributesSlot, childrenSlot]
  cases attributes.isEmpty <;> cases children.isEmpty <;> cases stylesheet <;> rfl

theorem tagField?_fields (e : Element) (inside : Bool) :
    tagField? NodeTag.names inside (("kind", .string "element") :: e.fields) = some .element := by
  obtain ⟨tag, attributes, children, stylesheet⟩ := e
  simp only [fields, PropertyList.fields]
  cases attributes.isEmpty <;> cases children.isEmpty <;> cases stylesheet <;> rfl

theorem childrenField?_fields (e : Element) (kind : Json) :
    childrenField? (("kind", kind) :: e.fields)
      = e.childrenSlot.elim (some []) childrenValue? := by
  obtain ⟨tag, attributes, children, stylesheet⟩ := e
  simp only [fields, PropertyList.fields, childrenSlot]
  cases attributes.isEmpty <;> cases children.isEmpty <;> cases stylesheet <;> rfl

theorem ofJson?_attributesSlot (e : Element) :
    Json.orDefault ∅ PropertyList.ofJson? e.attributesSlot = some e.attributes := by
  unfold attributesSlot
  split
  · next hempty =>
    have hnone : e.attributes = ∅ := PropertyList.ext_entries (List.isEmpty_iff.mp hempty)
    rw [hnone]
    rfl
  · exact e.attributes.ofJson?_toJson

/-- An element from the values of its fields. -/
theorem elementOfJson?_of_slots {e : Element} {j : Json} (inside : Bool)
    (h : j.slots fieldNames = some [some (.string e.tag), e.attributesSlot, e.childrenSlot,
      e.stylesheet.map Stylesheet.toJson]) : elementOfJson? inside j e.children = some e := by
  have hsheet : Json.nullable (Stylesheet.ofJson? inside) (e.stylesheet.map Stylesheet.toJson)
      = some e.stylesheet := by
    cases e.stylesheet with
    | none => rfl
    | some s => exact congrArg (Option.map some) (s.ofJson?_toJson inside)
  rw [elementOfJson?, h]
  simp [Json.string?, e.ofJson?_attributesSlot, hsheet]
  cases e
  rfl

/-- What holds of an element's parts as they are written holds of all its fields. -/
theorem forall_fields {P : Json → Prop} {e : Element} (htag : P (.string e.tag))
    (hattributes : P e.attributes.toJson) (hchildren : P (.array (Node.toJsonList e.children)))
    (hsheet : ∀ s ∈ e.stylesheet, P s.toJson) : ∀ f ∈ e.fields, P f.2 := by
  obtain ⟨tag, attributes, children, stylesheet⟩ := e
  intro f hf
  rw [fields, List.mem_cons, List.mem_append, List.mem_append] at hf
  rcases hf with rfl | (hf | hf) | hf
  · exact htag
  · unfold PropertyList.fields at hf
    split at hf
    · cases hf
    · rw [List.mem_singleton.mp hf]
      exact hattributes
  · split at hf
    · cases hf
    · rw [List.mem_singleton.mp hf]
      exact hchildren
  · cases stylesheet with
    | none => cases hf
    | some s =>
      rw [List.mem_singleton.mp hf]
      exact hsheet s rfl

end Element

theorem Node.plain_toJson (n : Node) : Json.Plain n.toJson := by
  induction n with
  | text value => exact .fields ⟨.string _, .string _⟩
  | element e ih =>
    have hchildren : Json.Plain (.array (Node.toJsonList e.children)) := by
      rw [Node.toJsonList_eq]
      exact .map ih
    refine .object fun f hf => ?_
    rcases List.mem_cons.mp hf with rfl | hf
    · exact .string _
    · exact Element.forall_fields (.string _) e.attributes.plain_toJson hchildren
        (fun s _ => s.plain_toJson) f hf

/-- Children inside a node are read back if each of them is. -/
theorem childrenOfItems?_map {nodes : List Node}
    (h : ∀ n ∈ nodes, Node.ofJson? true n.toJson = some n) :
    childrenOfItems? (nodes.map Node.toJson) = some nodes := by
  induction nodes with
  | nil => rfl
  | cons n nodes ih =>
    rw [List.map_cons, childrenOfItems?, h n List.mem_cons_self,
      ih fun m hm => h m (List.mem_cons_of_mem _ hm)]

/-- A node is read back, on its own and inside another. -/
theorem Node.ofJson?_toJson (n : Node) (inside : Bool) : Node.ofJson? inside n.toJson = some n := by
  have hreadable : n.toJson.isReadable = true := n.plain_toJson.isReadable
  induction n generalizing inside with
  | text value =>
    rw [Node.toJson] at hreadable ⊢
    have hkind : tagField? NodeTag.names inside [("kind", .string "text"), ("value", .string value)]
      = some .text := rfl
    rw [Node.ofJson?, hreadable]
    simp only [hkind, Bool.not_true, Bool.and_false, Bool.false_eq_true, if_false]
    rfl
  | element e ih =>
    rw [Node.toJson] at hreadable ⊢
    have hchildren : childrenField? (("kind", .string "element") :: e.fields) = some e.children := by
      rw [Element.childrenField?_fields, Element.childrenSlot]
      split
      · next hempty => rw [List.isEmpty_iff.mp hempty]; rfl
      · rw [Node.toJsonList_eq]
        exact childrenOfItems?_map fun n hn => ih n hn true n.plain_toJson.isReadable
    have helement := Element.elementOfJson?_of_slots true (e.slots_fields (.string "element"))
    rw [Node.ofJson?, hreadable]
    simp only [e.tagField?_fields inside, Bool.not_true, Bool.and_false, Bool.false_eq_true, if_false,
      hchildren, Option.bind_some, helement, Option.map_some]

/-! ## Elements and documents -/

/-- What is written for an element and for its children. -/
theorem Element.plain_toJson (e : Element) : Json.Plain e.toJson := by
  have hchildren : Json.Plain (.array (Node.toJsonList e.children)) := by
    rw [Node.toJsonList_eq]
    exact .map fun n _ => n.plain_toJson
  exact .object (forall_fields (.string _) e.attributes.plain_toJson hchildren
    fun s _ => s.plain_toJson)

/-- An element is read back where nothing but an element can stand. -/
theorem Element.ofJson?_toJson (e : Element) : Element.ofJson? e.toJson = some e := by
  have hchildren : Json.orDefault [] (·.items? (Node.ofJson? false)) e.childrenSlot
      = some e.children := by
    unfold childrenSlot
    split
    · next hempty => rw [List.isEmpty_iff.mp hempty]; rfl
    · rw [Node.toJsonList_eq]
      exact mapM_map_eq_some fun n _ => n.ofJson?_toJson false
  rw [ofJson?, e.slots_toJson]
  simp only [hchildren, Option.bind_some]
  exact elementOfJson?_of_slots false e.slots_toJson

namespace Tree

/-- The modules as they are written, if there are any. -/
def modulesSlot (t : Tree) : Option Json :=
  if t.modules.isEmpty then none else some (.array (t.modules.map .string))

theorem slots_toJson (t : Tree) :
    t.toJson.slots ["root", "modules"] = some [some t.root.toJson, t.modulesSlot] := by
  simp only [toJson, modulesSlot]
  cases t.modules.isEmpty <;> rfl

theorem ofJson?_modulesSlot (t : Tree) :
    Json.orDefault [] (·.items? Json.string?) t.modulesSlot = some t.modules := by
  unfold modulesSlot
  split
  · next hempty => rw [List.isEmpty_iff.mp hempty]; rfl
  · exact mapM_map_eq_some fun _ _ => rfl

theorem plain_toJson (t : Tree) : Json.Plain t.toJson := by
  refine .object fun f hf => ?_
  rcases List.mem_cons.mp hf with rfl | hf
  · exact t.root.plain_toJson
  · split at hf
    · cases hf
    · rw [List.mem_singleton.mp hf]
      exact .map fun name _ => .string name

/-- A document is read back. -/
theorem ofJson?_toJson (t : Tree) : ofJson? t.toJson = some t := by
  rw [ofJson?, t.slots_toJson]
  simp [t.root.ofJson?_toJson, t.ofJson?_modulesSlot]

end Tree

/-! ## Rules and nodes -/

/-- A rule is not a node. -/
theorem Node.ofJson?_rule (r : Rule) (inside : Bool) : Node.ofJson? inside r.toJson = none := by
  cases r <;> rw [Rule.toJson, Node.ofJson?] <;> split <;> rfl

/-! ## Mutations -/

/-- The index that a step goes by is below a bound. -/
def Segment.Below (bound : Nat) : Segment → Prop
  | .child i | .rule i | .declaration i => i < bound
  | .shadow => True

/-- All indexes of a mutation, in its target and in its action, are below a bound. -/
structure Mutation.Below (bound : Nat) (m : Mutation) : Prop where
  target : ∀ s ∈ m.target, s.Below bound
  index : ∀ i ∈ m.action.index?, i < bound

theorem Json.index?_natural {i : Nat} (h : i < Json.indexLimit) :
    Json.index? (.natural i) = some i := if_pos h

theorem Segment.plain_toJson {s : Segment} (h : s.Below Json.indexLimit) : Json.Plain s.toJson := by
  cases s with
  | child | rule | declaration => exact .fields (.natural h)
  | shadow => exact .string _

theorem Segment.ofJson?_toJson {s : Segment} (h : s.Below Json.indexLimit) :
    ofJson? s.toJson = some s := by
  cases s with
  | child i | rule i | declaration i => simp [toJson, ofJson?, Json.index?_natural h]
  | shadow => rfl

theorem Address.plain_toJson {a : Address} (h : ∀ s ∈ a, s.Below Json.indexLimit) :
    Json.Plain a.toJson :=
  .map fun s hs => Segment.plain_toJson (h s hs)

theorem Address.ofJson?_toJson {a : Address} (h : ∀ s ∈ a, s.Below Json.indexLimit) :
    ofJson? a.toJson = some a :=
  mapM_map_eq_some fun s hs => Segment.ofJson?_toJson (h s hs)

theorem Payload.plain_toJson (p : Payload) : Json.Plain p.toJson := by
  cases p with
  | node n => exact n.plain_toJson
  | rule r => exact r.plain_toJson

theorem Payload.toJson_ne_null (p : Payload) : p.toJson ≠ .null := by
  rcases p with (_ | _) | (_ | _ | _) <;> exact nofun

theorem Payload.ofJson?_toJson (p : Payload) : ofJson? p.toJson = some p := by
  rw [ofJson?, p.plain_toJson.isReadable, if_pos rfl]
  cases p with
  | node n => rw [toJson, n.ofJson?_toJson]
  | rule r => rw [toJson, Node.ofJson?_rule, r.ofJson?_toJson, Option.map_some]

theorem ActionKind.ofName?_name (k : ActionKind) : ofName? k.name = some k := by
  cases k <;> rfl

/-- An optional value that is written as something else than null is read back. -/
theorem Json.nullable_map {α : Type} {write : α → Json} {read : Json → Option α} {x : Option α}
    (h : ∀ y ∈ x, write y ≠ .null ∧ read (write y) = some y) :
    Json.nullable read (x.map write) = some x := by
  cases x with
  | none => rfl
  | some y =>
    obtain ⟨hnull, hread⟩ := h y rfl
    have hnot : Json.nullable read (some (write y)) = (read (write y)).map some := by
      generalize write y = j at hnull
      cases j <;> first | rfl | exact absurd rfl hnull
    rw [Option.map_some, hnot, hread, Option.map_some]

/-- An optional text is read back, though null stands for none. -/
theorem Json.nullable_optionalText (o : Option String) :
    Json.nullable Json.string? (some (optionalText o)) = some o := by
  cases o <;> rfl

namespace Mutation

variable {m : Mutation}

/-- The fields of a mutation, whatever its kind. -/
theorem slots_toJson (m : Mutation) :
    m.toJson.slots MutationRecord.fieldNames = some [some (.string m.kind.name),
      some m.target.toJson, m.action.index?.map .natural, m.action.name?.map .string,
      some (optionalText m.action.newValue?), some (optionalText m.action.oldValue?),
      (m.action.inserted?.map Prod.fst).map Payload.toJson,
      (m.action.inserted?.map Prod.snd).map .bool] := by
  obtain ⟨target, action⟩ := m
  cases action <;> rfl

/-- The record that a mutation is written as. -/
def record (m : Mutation) : MutationRecord where
  kind := m.kind
  target := m.target
  index := m.action.index?
  name := m.action.name?
  newValue := m.action.newValue?
  oldValue := m.action.oldValue?
  child := m.action.inserted?.map Prod.fst
  clone := m.action.inserted?.map Prod.snd

theorem action_record (m : Mutation) : m.record.action = .ok m.action := by
  obtain ⟨target, action⟩ := m
  cases action <;> rfl

theorem record_ofJson? (h : m.Below Json.indexLimit) :
    MutationRecord.ofJson? m.toJson = some m.record := by
  have hkind : ActionKind.ofJson? (.string m.kind.name) = some m.kind := ActionKind.ofName?_name m.kind
  have htarget := Address.ofJson?_toJson h.target
  have hindex : Json.nullable Json.index? (m.action.index?.map .natural) = some m.action.index? :=
    Json.nullable_map fun i hi => ⟨nofun, Json.index?_natural (h.index i hi)⟩
  have hname : Json.nullable Json.string? (m.action.name?.map .string) = some m.action.name? :=
    Json.nullable_map fun _ _ => ⟨nofun, rfl⟩
  have hchild : Json.nullable Payload.ofJson? ((m.action.inserted?.map Prod.fst).map Payload.toJson)
      = some (m.action.inserted?.map Prod.fst) :=
    Json.nullable_map fun p _ => ⟨p.toJson_ne_null, p.ofJson?_toJson⟩
  have hclone : Json.nullable Json.bool? ((m.action.inserted?.map Prod.snd).map .bool)
      = some (m.action.inserted?.map Prod.snd) :=
    Json.nullable_map fun _ _ => ⟨nofun, rfl⟩
  rw [MutationRecord.ofJson?, slots_toJson]
  simp only [hkind, htarget, hindex, hname, hchild, hclone, Json.nullable_optionalText]
  rfl

/-- A mutation is read back from the record that it is written as. -/
theorem ofJson_toJson (h : m.Below Json.indexLimit) : ofJson m.toJson = .ok m := by
  rw [ofJson, record_ofJson? h]
  simp only [action_record]
  rfl

/-- A list of mutations is read back. -/
theorem listOfJson_listToJson {ms : List Mutation} (h : ∀ m ∈ ms, m.Below Json.indexLimit) :
    listOfJson (listToJson ms) = .ok ms :=
  mapM_map_eq_ok fun m hm => ofJson_toJson (h m hm)

/-- What holds of the value of a field, if it has one, holds of all that is written for the
field. -/
theorem forall_optionalField {α : Type} {P : Json → Prop} {name : String} {write : α → Json}
    {x : Option α} (h : ∀ y ∈ x, P (write y)) : ∀ f ∈ optionalField name write x, P f.2 := by
  cases x with
  | none => exact nofun
  | some y =>
    intro f hf
    rw [List.mem_singleton.mp hf]
    exact h y rfl

/-- What holds of the values of a mutation's fields holds of all that is written for it. -/
theorem forall_fields {P : Json → Prop} {fields : List (String × Json)}
    (hfields : m.toJson = .object fields) (htext : ∀ s, P (.string s)) (hnull : P .null)
    (htarget : P m.target.toJson) (hindex : ∀ i ∈ m.action.index?, P (.natural i))
    (hchild : ∀ p ∈ m.action.inserted?.map Prod.fst, P p.toJson) (hclone : ∀ b, P (.bool b)) :
    ∀ f ∈ fields, P f.2 := by
  have hoptional (o : Option String) : P (optionalText o) := by
    cases o with
    | none => exact hnull
    | some s => exact htext s
  injection hfields with hfields
  subst hfields
  intro f hf
  simp only [List.mem_append, List.mem_cons, List.not_mem_nil, or_false] at hf
  rcases hf with ((((((rfl | rfl) | hf) | hf) | rfl | rfl) | hf) | hf)
  · exact htext _
  · exact htarget
  · exact forall_optionalField hindex f hf
  · exact forall_optionalField (fun s _ => htext s) f hf
  · exact hoptional _
  · exact hoptional _
  · exact forall_optionalField hchild f hf
  · exact forall_optionalField (fun b _ => hclone b) f hf

theorem plain_toJson (h : m.Below Json.indexLimit) : Json.Plain m.toJson :=
  .object (forall_fields rfl .string .null (Address.plain_toJson h.target)
    (fun i hi => .natural (h.index i hi)) (fun p _ => p.plain_toJson) .bool)

theorem plain_listToJson {ms : List Mutation} (h : ∀ m ∈ ms, m.Below Json.indexLimit) :
    Json.Plain (listToJson ms) :=
  .map fun m hm => plain_toJson (h m hm)

end Mutation

end SynthDom
