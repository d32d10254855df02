import Crosswalk.Proofs.Document.Reading
import Crosswalk.Proofs.Document.TypeText
import Crosswalk.Proofs.Markup.Writing

/-!
# The layout of documents

A document is written with an element for each of its parts. Names, files, values and paths are
attributes, types are attributes in their written form, and a flag that is unset may be left out.
Schemas and conversions may be mixed. What is read of such a text is the document that was written.
-/

namespace Crosswalk
set_option autoImplicit false
open Crosswalk.Markup

/-! ## Texts and types -/

namespace Definition

/-- The names and values in a definition. -/
def texts : Definition → List String
  | struct name fields => name :: fields.map FieldDecl.name
  | enum name values => name :: values
  | typedef name _ => [name]

/-- The types in a definition. -/
def types : Definition → List TypeExpr
  | struct _ fields => fields.map FieldDecl.type
  | enum _ _ => []
  | typedef _ target => [target]

end Definition

/-- The names, file and values of a schema. -/
def Schema.texts (s : Schema) : List String :=
  s.name :: s.file :: s.definitions.flatMap Definition.texts

/-- The types in a schema. -/
def Schema.types (s : Schema) : List TypeExpr :=
  s.definitions.flatMap Definition.types

/-- The two ends of a mapping, as they are written. -/
def MappingDecl.texts (m : MappingDecl) : List String :=
  [m.dest, m.source]

/-- The names in a conversion and its mappings. -/
def ConversionDecl.texts (c : ConversionDecl) : List String :=
  c.name :: c.source :: c.dest :: c.mappings.flatMap MappingDecl.texts

/-- The names, files, values and paths of a document. -/
def Document.texts (d : Document) : List String :=
  d.schemas.flatMap Schema.texts ++ d.conversions.flatMap ConversionDecl.texts

/-- The types of a document. -/
def Document.types (d : Document) : List TypeExpr :=
  d.schemas.flatMap Schema.types

/-- The text can stand in double quotes. -/
def Quotable (text : String) : Prop :=
  '"' ∉ text.toList

instance (text : String) : Decidable (Quotable text) :=
  inferInstanceAs (Decidable (_ ∉ _))

/-- The document can be written: no text has a quotation mark, and names in types are legible. -/
structure Document.Plain (d : Document) : Prop where
  texts : ∀ text ∈ d.texts, Quotable text
  types : ∀ e ∈ d.types, e.Legible

/-! ## Elements of a document -/

/-- A flag is written as a word, or not at all if it is unset. -/
inductive WritesFlag (key : String) : Bool → List Attribute → Prop
  | word {b : Bool} : WritesFlag key b [⟨key, toString b⟩]
  | omitted : WritesFlag key false []

/-- The element of a field. -/
inductive FieldDecl.WrittenAs (f : FieldDecl) : Node → Prop
  | mk {flags : List Attribute} (flag : WritesFlag "required" f.required flags) :
      f.WrittenAs (.mk ⟨"field", ⟨"name", f.name⟩ :: ⟨"type", f.type.text⟩ :: flags⟩ [] .closed)

/-- The element of a mapping. -/
inductive MappingDecl.WrittenAs (m : MappingDecl) : Node → Prop
  | mk {flags : List Attribute} (flag : WritesFlag "override" m.overrides flags) :
      m.WrittenAs (.mk ⟨"mapping", ⟨"to", m.dest⟩ :: ⟨"from", m.source⟩ :: flags⟩ [] .closed)

/-- The element of an enum value. -/
def valueNode (value : String) : Node :=
  .mk ⟨"value", [⟨"name", value⟩]⟩ [] .closed

/-- The element of a definition, with those of its fields or values. -/
inductive Definition.WrittenAs : Definition → Node → Prop
  | struct {name : String} {fields : List FieldDecl} {nodes : List Node}
      (inside : List.Forall₂ FieldDecl.WrittenAs fields nodes) :
      WrittenAs (.struct name fields) (.mk ⟨"struct", [⟨"name", name⟩]⟩ nodes .closed)
  | enum {name : String} {values : List String} :
      WrittenAs (.enum name values)
        (.mk ⟨"enum", [⟨"name", name⟩]⟩ (values.map valueNode) .closed)
  | typedef {name : String} {target : TypeExpr} :
      WrittenAs (.typedef name target)
        (.mk ⟨"typedef", [⟨"name", name⟩, ⟨"type", target.text⟩]⟩ [] .closed)

/-- The element of a schema, with those of its definitions. -/
inductive Schema.WrittenAs (s : Schema) : Node → Prop
  | mk {nodes : List Node} (inside : List.Forall₂ Definition.WrittenAs s.definitions nodes) :
      s.WrittenAs (.mk ⟨"schema", [⟨"name", s.name⟩, ⟨"file", s.file⟩]⟩ nodes .closed)

/-- The element of a conversion, with those of its mappings. -/
inductive ConversionDecl.WrittenAs (c : ConversionDecl) : Node → Prop
  | mk {nodes : List Node} (inside : List.Forall₂ MappingDecl.WrittenAs c.mappings nodes) :
      c.WrittenAs (.mk ⟨"conversion", [⟨"name", c.name⟩, ⟨"from", c.source⟩, ⟨"to", c.dest⟩]⟩
        nodes .closed)

namespace Document

/-- The elements of the schemas and conversions, those of each kind in their order. -/
inductive PartsWrittenAs : Document → List Node → Prop
  | nil : PartsWrittenAs ⟨[], []⟩ []
  | schema {s : Schema} {d : Document} {n : Node} {nodes : List Node} (first : s.WrittenAs n)
      (others : d.PartsWrittenAs nodes) :
      PartsWrittenAs { d with schemas := s :: d.schemas } (n :: nodes)
  | conversion {c : ConversionDecl} {d : Document} {n : Node} {nodes : List Node}
      (first : c.WrittenAs n) (others : d.PartsWrittenAs nodes) :
      PartsWrittenAs { d with conversions := c :: d.conversions } (n :: nodes)

/-- What may stand before the root of a document. -/
def declaration : List Char :=
  "<?xml version=\"1.0\" encoding=\"UTF-8\"?>".toList

/-- The text is a layout of the document. -/
def WrittenAs (d : Document) (text : String) : Prop :=
  ∃ nodes lead body, d.PartsWrittenAs nodes ∧ Laid [.mk ⟨"idl", []⟩ nodes .closed] body ∧
    (lead = [] ∨ lead = declaration) ∧ text.toList = lead ++ body

end Document

/-! ## Reading elements -/

/-- A type whose names are legible has no quotation mark in its text. -/
theorem TypeExpr.Legible.quotable {e : TypeExpr} (legible : e.Legible) : Quotable e.text := by
  have word : ∀ {text : List Char}, text.all isNameChar = true → '"' ∉ text :=
    fun chars mem => absurd (List.all_eq_true.1 chars _ mem) (by decide)
  -- induction on the type: a name has no quotes in it, and neither do the brackets around an
  -- element
  induction e with
  | primitive p => exact word (isNameChar_idlName p)
  | binary => exact word (by decide)
  | named name => exact word legible.2.1
  | list element ih =>
    rw [Quotable, toList_text_list]
    simpa [Quotable] using ih legible
  | set element ih =>
    rw [Quotable, toList_text_set]
    simpa [Quotable] using ih legible
  | map key value ihk ihv =>
    rw [Quotable, toList_text_map]
    simpa [Quotable] using ⟨ihk legible.1, ihv legible.2⟩

/-- The words for flags have none either. -/
theorem quotable_toString (b : Bool) : Quotable (toString b) := by
  cases b <;> (rw [Quotable]; decide)

namespace WritesFlag
variable {key : String} {b : Bool} {flags : List Attribute}

/-- Flags are plain attributes. -/
theorem plain (h : WritesFlag key b flags) (word : IsWord key) : ∀ a ∈ flags, a.Plain := by
  cases h with
  | word =>
    intro a mem
    obtain rfl := List.mem_singleton.1 mem
    exact ⟨word, quotable_toString b⟩
  | omitted => exact fun _ mem => absurd mem List.not_mem_nil

/-- The key of a flag differs from the others, if it is there. -/
theorem distinct (h : WritesFlag key b flags) (keys : List String) (apart : (keys ++ [key]).Nodup) :
    (keys ++ flags.map Attribute.key).Nodup := by
  cases h with
  | word => exact apart
  | omitted => exact List.Nodup.sublist (List.sublist_append_left ..) (by simpa using apart)

/-- What is written for a flag is read as it. -/
theorem isFlag (h : WritesFlag key b flags) :
    Node.IsFlag b ((flags.find? (·.key == key)).map Attribute.value) := by
  cases h with
  | word =>
    rw [List.find?_cons_of_pos (by simp)]
    cases b <;> exact List.mem_cons_self
  | omitted => rfl

end WritesFlag

/-- A text without quotation marks is a plain attribute. -/
theorem plain_attribute {key value : String} (word : IsWord key) (h : Quotable value) :
    Attribute.Plain ⟨key, value⟩ :=
  ⟨word, h⟩

/-- An element is plain if its tag is and what is in it. -/
theorem Markup.Node.plain_mk {name : String} {written : List Attribute} {children : List Node}
    (word : IsWord name) (attributes : ∀ a ∈ written, a.Plain)
    (distinct : (written.map Attribute.key).Nodup) (inside : ∀ n ∈ children, n.Plain) :
    Node.Plain (.mk ⟨name, written⟩ children .closed) :=
  .mk ⟨word, attributes, distinct⟩ inside

/-- An element without others in it. -/
theorem Markup.Node.plain_leaf {name : String} {written : List Attribute} (word : IsWord name)
    (attributes : ∀ a ∈ written, a.Plain) (distinct : (written.map Attribute.key).Nodup) :
    Node.Plain (.mk ⟨name, written⟩ [] .closed) :=
  plain_mk word attributes distinct fun _ mem => absurd mem List.not_mem_nil

section Parts
variable {n : Node}

theorem FieldDecl.WrittenAs.plain {f : FieldDecl} (h : f.WrittenAs n) (name : Quotable f.name)
    (type : f.type.Legible) : n.Plain := by
  obtain ⟨flag⟩ := h
  refine Node.plain_leaf (by decide) ?_ (flag.distinct ["name", "type"] (by decide))
  exact List.forall_mem_cons.2 ⟨plain_attribute (by decide) name, List.forall_mem_cons.2
    ⟨plain_attribute (by decide) type.quotable, flag.plain (by decide)⟩⟩

/-- The element of a field is read as the field. -/
theorem FieldDecl.WrittenAs.read {f : FieldDecl} (h : f.WrittenAs n) (type : f.type.Legible) :
    n.IsItem "field" ∧ n.fieldDecl = .ok f := by
  obtain ⟨flag⟩ := h
  refine ⟨⟨rfl, rfl⟩, Node.fieldDecl_eq_ok.2 ⟨rfl, ?_, ?_⟩⟩
  · exact Node.typeExpr_eq_ok.2 ⟨f.type.text, rfl, TypeExpr.parse_text type⟩
  · exact Node.flag_eq_ok.2 flag.isFlag

theorem MappingDecl.WrittenAs.plain {m : MappingDecl} (h : m.WrittenAs n)
    (texts : ∀ t ∈ m.texts, Quotable t) : n.Plain := by
  obtain ⟨flag⟩ := h
  obtain ⟨dest, others⟩ := List.forall_mem_cons.1 texts
  refine Node.plain_leaf (by decide) ?_ (flag.distinct ["to", "from"] (by decide))
  exact List.forall_mem_cons.2 ⟨plain_attribute (by decide) dest, List.forall_mem_cons.2
    ⟨plain_attribute (by decide) (List.forall_mem_singleton.1 others), flag.plain (by decide)⟩⟩

/-- The element of a mapping is read as the mapping. -/
theorem MappingDecl.WrittenAs.read {m : MappingDecl} (h : m.WrittenAs n) :
    n.IsItem "mapping" ∧ n.mappingDecl = .ok m := by
  obtain ⟨flag⟩ := h
  exact ⟨⟨rfl, rfl⟩, Node.mappingDecl_eq_ok.2 ⟨rfl, rfl, Node.flag_eq_ok.2 flag.isFlag⟩⟩

theorem plain_valueNode {value : String} (h : Quotable value) : (valueNode value).Plain :=
  Node.plain_leaf (by decide) (List.forall_mem_singleton.2 (plain_attribute (by decide) h))
    (by simp)

/-- The nodes in which parts are written are plain, if they are for each part. -/
theorem plain_of_forall₂ {α : Type} {R : α → Node → Prop} {parts : List α} {nodes : List Node}
    (h : List.Forall₂ R parts nodes) (each : ∀ a ∈ parts, ∀ n, R a n → n.Plain) :
    ∀ n ∈ nodes, n.Plain := by
  intro n mem
  obtain ⟨a, among, written⟩ := exists_of_forall₂ h.flip mem
  exact each a among n written

/-- Parts are read in their order, if each is read from the node it is written as. -/
theorem forall₂_of_written {α : Type} {R S : α → Node → Prop} {parts : List α} {nodes : List Node}
    (h : List.Forall₂ R parts nodes) (each : ∀ a ∈ parts, ∀ n, R a n → S a n) :
    List.Forall₂ (fun n a => S a n) nodes parts := by
  induction h with
  | nil => exact .nil
  | cons first _ ih =>
    obtain ⟨this, others⟩ := List.forall_mem_cons.1 each
    exact .cons (this _ first) (ih others)

/-- The element of a definition can be told from its text. -/
theorem Definition.WrittenAs.plain {d : Definition} (h : d.WrittenAs n)
    (texts : ∀ t ∈ d.texts, Quotable t) (types : ∀ e ∈ d.types, e.Legible) : n.Plain := by
  -- by the kind of definition; each name and each type is a text without quotes
  cases h with
  | struct inside =>
    obtain ⟨name, names⟩ := List.forall_mem_cons.1 texts
    refine Node.plain_mk (by decide) (List.forall_mem_singleton.2 (plain_attribute (by decide) name))
      (by simp) (plain_of_forall₂ inside fun f mem _ written => ?_)
    exact written.plain (names _ (List.mem_map_of_mem mem)) (types _ (List.mem_map_of_mem mem))
  | enum =>
    obtain ⟨name, values⟩ := List.forall_mem_cons.1 texts
    refine Node.plain_mk (by decide) (List.forall_mem_singleton.2 (plain_attribute (by decide) name))
      (by simp) fun n mem => ?_
    obtain ⟨value, among, rfl⟩ := List.mem_map.1 mem
    exact plain_valueNode (values value among)
  | typedef =>
    have name := List.forall_mem_singleton.1 texts
    have target := List.forall_mem_singleton.1 types
    refine Node.plain_leaf (by decide) ?_ (by simp)
    exact List.forall_mem_cons.2 ⟨plain_attribute (by decide) name,
      List.forall_mem_singleton.2 (plain_attribute (by decide) target.quotable)⟩

/-- The element of a definition is read as the definition. -/
theorem Definition.WrittenAs.read {d : Definition} (h : d.WrittenAs n)
    (types : ∀ e ∈ d.types, e.Legible) : n.Defines d := by
  cases h with
  | struct inside =>
    refine .struct rfl rfl (Node.items_eq_ok.2 ⟨?_, rfl⟩)
    exact forall₂_of_written inside fun f mem n written =>
      written.read (types _ (List.mem_map_of_mem mem))
  | enum =>
    refine .enum rfl rfl (Node.items_eq_ok.2 ⟨?_, rfl⟩)
    exact List.forall₂_map_left_iff.2 (List.forall₂_same.2 fun _ _ => ⟨⟨rfl, rfl⟩, rfl⟩)
  | typedef =>
    have target := List.forall_mem_singleton.1 types
    exact .typedef rfl rfl rfl (Node.typeExpr_eq_ok.2 ⟨_, rfl, TypeExpr.parse_text target⟩)

/-- The element of a schema can be told from its text. -/
theorem Schema.WrittenAs.plain {s : Schema} (h : s.WrittenAs n)
    (texts : ∀ t ∈ s.texts, Quotable t) (types : ∀ e ∈ s.types, e.Legible) : n.Plain := by
  obtain ⟨inside⟩ := h
  obtain ⟨name, others⟩ := List.forall_mem_cons.1 texts
  obtain ⟨file, within⟩ := List.forall_mem_cons.1 others
  refine Node.plain_mk (by decide) ?_ (by simp) (plain_of_forall₂ inside fun d mem _ written => ?_)
  · exact List.forall_mem_cons.2 ⟨plain_attribute (by decide) name,
      List.forall_mem_singleton.2 (plain_attribute (by decide) file)⟩
  · exact written.plain (fun t among => within t (List.mem_flatMap_of_mem mem among))
      fun e among => types e (List.mem_flatMap_of_mem mem among)

/-- The element of a schema is read as the schema. -/
theorem Schema.WrittenAs.read {s : Schema} (h : s.WrittenAs n) (types : ∀ e ∈ s.types, e.Legible) :
    n.name = "schema" ∧ n.schema = .ok s := by
  obtain ⟨inside⟩ := h
  refine ⟨rfl, Node.schema_eq_ok.2 ⟨rfl, rfl, forall₂_of_written inside fun d mem _ written => ?_,
    rfl⟩⟩
  exact written.read fun e among => types e (List.mem_flatMap_of_mem mem among)

/-- The element of a conversion can be told from its text. -/
theorem ConversionDecl.WrittenAs.plain {c : ConversionDecl} (h : c.WrittenAs n)
    (texts : ∀ t ∈ c.texts, Quotable t) : n.Plain := by
  obtain ⟨inside⟩ := h
  obtain ⟨name, others⟩ := List.forall_mem_cons.1 texts
  obtain ⟨source, others⟩ := List.forall_mem_cons.1 others
  obtain ⟨dest, within⟩ := List.forall_mem_cons.1 others
  refine Node.plain_mk (by decide) ?_ (by simp) (plain_of_forall₂ inside fun m mem _ written => ?_)
  · exact List.forall_mem_cons.2 ⟨plain_attribute (by decide) name, List.forall_mem_cons.2
      ⟨plain_attribute (by decide) source,
        List.forall_mem_singleton.2 (plain_attribute (by decide) dest)⟩⟩
  · exact written.plain fun t among => within t (List.mem_flatMap_of_mem mem among)

/-- The element of a conversion is read as the conversion. -/
theorem ConversionDecl.WrittenAs.read {c : ConversionDecl} (h : c.WrittenAs n) :
    n.name = "conversion" ∧ n.conversionDecl = .ok c := by
  obtain ⟨inside⟩ := h
  refine ⟨rfl, Node.conversionDecl_eq_ok.2 ⟨rfl, rfl, rfl, Node.items_eq_ok.2 ⟨?_, rfl⟩⟩⟩
  exact forall₂_of_written inside fun _ _ _ written => written.read

end Parts

end Crosswalk
