import Crosswalk.Proofs.Document.Layout
import Crosswalk.Proofs.Markup.Entity

/-!
# Decoded documents

What is read of decoded elements is the decoded document: every reader passes the values of
attributes on as they are, and neither types nor flags are written with entities.
-/

namespace Crosswalk
set_option autoImplicit false
open Crosswalk.Markup

/-! ## Decoding the parts of a document -/

/-- The field with its name decoded. Types have no entities. -/
def FieldDecl.decoded (f : FieldDecl) : FieldDecl :=
  { f with name := Markup.decoded f.name }

/-- The definition with all names and values decoded. -/
def Definition.decoded : Definition → Definition
  | struct name fields => .struct (Markup.decoded name) (fields.map FieldDecl.decoded)
  | enum name values => .enum (Markup.decoded name) (values.map Markup.decoded)
  | typedef name target => .typedef (Markup.decoded name) target

/-- The schema with its name, its file and its definitions decoded. -/
def Schema.decoded (s : Schema) : Schema :=
  ⟨Markup.decoded s.name, Markup.decoded s.file, s.definitions.map Definition.decoded⟩

/-- The mapping with both ends decoded. -/
def MappingDecl.decoded (m : MappingDecl) : MappingDecl :=
  { m with dest := Markup.decoded m.dest, source := Markup.decoded m.source }

/-- The conversion with its names and mappings decoded. -/
def ConversionDecl.decoded (c : ConversionDecl) : ConversionDecl :=
  ⟨Markup.decoded c.name, Markup.decoded c.source, Markup.decoded c.dest,
    c.mappings.map MappingDecl.decoded⟩

/-- The document with all of its texts decoded. -/
def Document.decoded (d : Document) : Document :=
  ⟨d.schemas.map Schema.decoded, d.conversions.map ConversionDecl.decoded⟩

/-- A list is left alone if each of its members is. -/
theorem map_eq_self_iff {α : Type} {f : α → α} {l : List α} :
    l.map f = l ↔ ∀ a ∈ l, f a = a := by
  have pointwise := List.map_inj_left (f := f) (g := id) (l := l)
  rwa [List.map_id] at pointwise

theorem FieldDecl.decoded_eq_self_iff {f : FieldDecl} :
    f.decoded = f ↔ Markup.decoded f.name = f.name := by
  obtain ⟨name, type, required⟩ := f
  simp [decoded]

theorem MappingDecl.decoded_eq_self_iff {m : MappingDecl} :
    m.decoded = m ↔ ∀ t ∈ m.texts, Markup.decoded t = t := by
  obtain ⟨dest, source, overrides⟩ := m
  simp [decoded, texts]

/-- Decoding leaves a definition alone if it leaves its texts alone. -/
theorem Definition.decoded_eq_self_iff {d : Definition} :
    d.decoded = d ↔ ∀ t ∈ d.texts, Markup.decoded t = t := by
  cases d <;> simp [decoded, texts, map_eq_self_iff, FieldDecl.decoded_eq_self_iff]

/-- Likewise for a schema. -/
theorem Schema.decoded_eq_self_iff {s : Schema} :
    s.decoded = s ↔ ∀ t ∈ s.texts, Markup.decoded t = t := by
  obtain ⟨name, file, definitions⟩ := s
  simp only [decoded, texts, mk.injEq, map_eq_self_iff, Definition.decoded_eq_self_iff,
    List.forall_mem_cons, List.forall_mem_flatMap]

/-- Likewise for a conversion. -/
theorem ConversionDecl.decoded_eq_self_iff {c : ConversionDecl} :
    c.decoded = c ↔ ∀ t ∈ c.texts, Markup.decoded t = t := by
  obtain ⟨name, source, dest, mappings⟩ := c
  simp only [decoded, texts, mk.injEq, map_eq_self_iff, MappingDecl.decoded_eq_self_iff,
    List.forall_mem_cons, List.forall_mem_flatMap]

/-- Decoding changes a document exactly if an entity occurs in one of its texts. -/
theorem Document.decoded_eq_self_iff {d : Document} :
    d.decoded = d ↔ ∀ t ∈ d.texts, ¬HasEntity t.toList := by
  obtain ⟨schemas, conversions⟩ := d
  simp only [decoded, texts, mk.injEq, map_eq_self_iff, Schema.decoded_eq_self_iff,
    ConversionDecl.decoded_eq_self_iff, List.forall_mem_append, List.forall_mem_flatMap,
    Markup.decoded_eq_self_iff]

/-! ## Reading decoded elements -/

namespace Markup.Node
variable {node : Node} {key : String}

/-- Decoding an element decodes its tag. -/
theorem tag_decoded : node.decoded.tag = node.tag.decoded := by
  cases node
  rw [decoded_mk]
  rfl

/-- It decodes what is in the element. -/
theorem children_decoded : node.decoded.children = node.children.map decoded := by
  cases node
  rw [decoded_mk]
  rfl

theorem ending_decoded : node.decoded.ending = node.ending := by
  cases node
  rw [decoded_mk]
  rfl

theorem name_decoded : node.decoded.name = node.name := by
  rw [name, tag_decoded]
  rfl

/-- An attribute is found with its value decoded. -/
theorem attribute?_decoded :
    node.decoded.attribute? key = (node.attribute? key).map Markup.decoded := by
  rw [attribute?, attribute?, tag_decoded, Tag.decoded, List.find?_map, Option.map_map,
    Option.map_map]
  rfl

/-- What is passed over ends where it did. -/
theorem skip_decoded : node.decoded.skip = node.skip := by
  rw [skip, skip, ending_decoded]

/-- A required attribute is read decoded. -/
theorem required_decoded {value : String} (h : node.required key = .ok value) :
    node.decoded.required key = .ok (Markup.decoded value) := by
  rw [required_eq_ok] at h ⊢
  rw [attribute?_decoded, h]
  rfl

/-- A flag is read as it was. -/
theorem flag_decoded {b : Bool} (h : node.flag key = .ok b) : node.decoded.flag key = .ok b := by
  rw [flag_eq_ok] at h ⊢
  rw [attribute?_decoded]
  -- a word for a flag has no entity in it
  cases found : node.attribute? key with
  | none =>
    rw [found] at h
    exact h
  | some word =>
    rw [found] at h
    have same : Markup.decoded word = word := by
      have words : ∀ word ∈ flagWords b, Markup.decoded word = word := by cases b <;> decide
      exact words word h
    rw [Option.map_some, same]
    exact h

/-- So is a type. -/
theorem typeExpr_decoded {e : TypeExpr} (h : node.typeExpr key = .ok e) :
    node.decoded.typeExpr key = .ok e := by
  rw [typeExpr_eq_ok] at h ⊢
  obtain ⟨text, found, parsed⟩ := h
  have same : Markup.decoded text = text := decoded_eq_self_iff.2 (not_hasEntity_of_not_mem
    (TypeExpr.not_mem_of_parse parsed (by decide) (by decide) (by decide)))
  exact ⟨text, by rw [attribute?_decoded, found, Option.map_some, same], parsed⟩

theorem IsItem.decoded {element : String} (h : node.IsItem element) :
    node.decoded.IsItem element :=
  ⟨name_decoded.trans h.name, skip_decoded.trans h.skip⟩

/-- Items are read decoded if each is. -/
theorem items_decoded {α : Type} {element : String} {read : Node → Except ParseError α}
    {change : α → α} {as : List α} (h : node.items element read = .ok as)
    (each : ∀ n a, read n = .ok a → read n.decoded = .ok (change a)) :
    node.decoded.items element read = .ok (as.map change) := by
  obtain ⟨inside, closed⟩ := items_eq_ok.1 h
  refine items_eq_ok.2 ⟨?_, ending_decoded.trans closed⟩
  rw [children_decoded, List.forall₂_map_left_iff, List.forall₂_map_right_iff]
  exact inside.imp fun n a is => ⟨is.1.decoded, each n a is.2⟩

/-- A field is read decoded. -/
theorem fieldDecl_decoded {f : FieldDecl} (h : node.fieldDecl = .ok f) :
    node.decoded.fieldDecl = .ok f.decoded := by
  obtain ⟨name, type, required⟩ := fieldDecl_eq_ok.1 h
  exact fieldDecl_eq_ok.2 ⟨required_decoded name, typeExpr_decoded type, flag_decoded required⟩

/-- A mapping is read decoded. -/
theorem mappingDecl_decoded {m : MappingDecl} (h : node.mappingDecl = .ok m) :
    node.decoded.mappingDecl = .ok m.decoded := by
  obtain ⟨dest, source, overrides⟩ := mappingDecl_eq_ok.1 h
  exact mappingDecl_eq_ok.2
    ⟨required_decoded dest, required_decoded source, flag_decoded overrides⟩

/-- A definition is read decoded. -/
theorem Defines.decoded {d : Definition} (h : node.Defines d) : node.decoded.Defines d.decoded := by
  cases h with
  | struct kind named inside =>
    exact .struct (name_decoded.trans kind) (required_decoded named)
      (items_decoded inside fun _ _ => fieldDecl_decoded)
  | enum kind named inside =>
    exact .enum (name_decoded.trans kind) (required_decoded named)
      (items_decoded inside fun _ _ => required_decoded)
  | typedef kind skip named typed =>
    exact .typedef (name_decoded.trans kind) (skip_decoded.trans skip) (required_decoded named)
      (typeExpr_decoded typed)

/-- A schema is read decoded. -/
theorem schema_decoded {s : Schema} (h : node.schema = .ok s) :
    node.decoded.schema = .ok s.decoded := by
  obtain ⟨name, file, inside, closed⟩ := schema_eq_ok.1 h
  refine schema_eq_ok.2 ⟨required_decoded name, required_decoded file, ?_,
    ending_decoded.trans closed⟩
  rw [children_decoded, Schema.decoded, List.forall₂_map_left_iff, List.forall₂_map_right_iff]
  exact inside.imp fun _ _ => Defines.decoded

/-- A conversion is read decoded. -/
theorem conversionDecl_decoded {c : ConversionDecl} (h : node.conversionDecl = .ok c) :
    node.decoded.conversionDecl = .ok c.decoded := by
  obtain ⟨name, source, dest, mappings⟩ := conversionDecl_eq_ok.1 h
  exact conversionDecl_eq_ok.2 ⟨required_decoded name, required_decoded source,
    required_decoded dest, items_decoded mappings fun _ _ => mappingDecl_decoded⟩

end Markup.Node

namespace Document

/-- Decoded elements declare the decoded document. -/
theorem Declared.decoded {nodes : List Node} {d : Document} (h : Declared nodes d) :
    Declared (nodes.map Node.decoded) d.decoded := by
  induction h with
  | nil => exact .nil
  | schema kind first _ ih =>
    exact .schema (Node.name_decoded.trans kind) (Node.schema_decoded first) ih
  | conversion kind first _ ih =>
    exact .conversion (Node.name_decoded.trans kind) (Node.conversionDecl_decoded first) ih

/-- Reading decoded elements gives the decoded document. -/
theorem ofForest_decoded {forest : Forest} {d : Document} (h : ofForest forest = .ok d) :
    ofForest ⟨forest.nodes.map Node.decoded, forest.fault?⟩ = .ok d.decoded := by
  obtain ⟨sound, root, behind, nodes, name, declared⟩ := ofForest_eq_ok.1 h
  refine ofForest_eq_ok.2 ⟨sound, root.decoded, behind.map Node.decoded, by rw [nodes]; rfl,
    Node.name_decoded.trans name, ?_⟩
  rw [Node.children_decoded, ← List.map_append]
  exact declared.decoded

end Document

end Crosswalk
