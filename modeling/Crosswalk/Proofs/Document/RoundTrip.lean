import Crosswalk.Proofs.Document.Layout

/-!
# Reading undoes writing

Every layout of a document is read as that document, and a document without quotation marks and with
legible names in its types has one.
-/

namespace Crosswalk
set_option autoImplicit false
open Crosswalk.Markup

namespace Document
variable {d : Document} {nodes : List Node}

/-! ## Reading layouts -/

/-- A plain document begins with a plain schema, and the rest is plain. -/
theorem Plain.of_schema {s : Schema} (h : Plain { d with schemas := s :: d.schemas }) :
    (∀ t ∈ s.texts, Quotable t) ∧ (∀ e ∈ s.types, e.Legible) ∧ d.Plain := by
  obtain ⟨texts, types⟩ := h
  simp only [Document.texts, Document.types, List.flatMap_cons, List.append_assoc,
    List.forall_mem_append] at texts types
  exact ⟨texts.1, types.1, List.forall_mem_append.2 texts.2, types.2⟩

/-- A plain document begins with a plain conversion, and the rest is plain. -/
theorem Plain.of_conversion {c : ConversionDecl}
    (h : Plain { d with conversions := c :: d.conversions }) :
    (∀ t ∈ c.texts, Quotable t) ∧ d.Plain := by
  obtain ⟨texts, types⟩ := h
  simp only [Document.texts, List.flatMap_cons, List.forall_mem_append] at texts
  exact ⟨texts.2.1, List.forall_mem_append.2 ⟨texts.1, texts.2.2⟩, types⟩

/-- What the parts of a plain document are written as is plain and declares the document. -/
theorem PartsWrittenAs.read (h : d.PartsWrittenAs nodes) (plain : d.Plain) :
    (∀ n ∈ nodes, n.Plain) ∧ Declared nodes d := by
  induction h with
  | nil => exact ⟨fun _ mem => absurd mem List.not_mem_nil, .nil⟩
  | schema first _ ih =>
    obtain ⟨texts, types, others⟩ := plain.of_schema
    obtain ⟨kind, read⟩ := first.read types
    obtain ⟨allPlain, declared⟩ := ih others
    exact ⟨List.forall_mem_cons.2 ⟨first.plain texts types, allPlain⟩, .schema kind read declared⟩
  | conversion first _ ih =>
    obtain ⟨texts, others⟩ := plain.of_conversion
    obtain ⟨kind, read⟩ := first.read
    obtain ⟨allPlain, declared⟩ := ih others
    exact ⟨List.forall_mem_cons.2 ⟨first.plain texts, allPlain⟩, .conversion kind read declared⟩

/-- The declaration in front of a document gives no tokens. -/
theorem yields_declaration : Yields declaration [] := by
  intro rest
  have passed : next '<' (declaration.tail ++ rest) = .ok (none, rest) := rfl
  exact scan_of_next passed

/-- A layout does not begin with a byte order mark, which would be dropped. -/
theorem scanDocument_layout {lead body : List Char} (opening : lead = [] ∨ lead = declaration)
    (h : Laid nodes body) : scanDocument (lead ++ body) = scan body := by
  rcases opening with rfl | rfl
  · have other : ∀ c rest, body = c :: rest → c ≠ '\ufeff' := by
      rintro c rest rfl rfl
      cases h with
      | space white => cases white
    cases body with
    | nil => rfl
    | cons c rest => rw [List.nil_append, scanDocument, if_neg (other c rest rfl)]
  · exact yields_declaration body

theorem plain_root (inside : ∀ n ∈ nodes, n.Plain) : Node.Plain (.mk ⟨"idl", []⟩ nodes .closed) :=
  Node.plain_mk (by decide) (fun _ mem => absurd mem List.not_mem_nil) List.nodup_nil inside

/-- A layout has the elements of the document in one root. -/
theorem isWhole_of_writtenAs {text : String} (plain : d.Plain) (h : d.WrittenAs text) :
    IsWhole text d := by
  obtain ⟨nodes, lead, body, parts, laid, opening, chars⟩ := h
  obtain ⟨inside, declared⟩ := parts.read plain
  obtain ⟨tokens, spells, yields⟩ := laid.spells (List.forall_mem_singleton.2 (plain_root inside))
  have scanned : scanDocument text.toList = ⟨tokens, none⟩ := by
    rw [chars, scanDocument_layout opening laid, yields.scan_eq]
  exact ⟨_, tokens, scanned, spells, rfl, declared⟩

end Document

/-! ## Writing -/

/-- The element of a field with its flag shown. -/
def FieldDecl.node (f : FieldDecl) : Node :=
  .mk ⟨"field", [⟨"name", f.name⟩, ⟨"type", f.type.text⟩, ⟨"required", toString f.required⟩]⟩ []
    .closed

/-- The element of a mapping with its flag shown. -/
def MappingDecl.node (m : MappingDecl) : Node :=
  .mk ⟨"mapping", [⟨"to", m.dest⟩, ⟨"from", m.source⟩, ⟨"override", toString m.overrides⟩]⟩ []
    .closed

/-- The element of a definition. -/
def Definition.node : Definition → Node
  | struct name fields => .mk ⟨"struct", [⟨"name", name⟩]⟩ (fields.map FieldDecl.node) .closed
  | enum name values => .mk ⟨"enum", [⟨"name", name⟩]⟩ (values.map valueNode) .closed
  | typedef name target =>
    .mk ⟨"typedef", [⟨"name", name⟩, ⟨"type", target.text⟩]⟩ [] .closed

/-- The element of a schema. -/
def Schema.node (s : Schema) : Node :=
  .mk ⟨"schema", [⟨"name", s.name⟩, ⟨"file", s.file⟩]⟩ (s.definitions.map Definition.node) .closed

/-- The element of a conversion. -/
def ConversionDecl.node (c : ConversionDecl) : Node :=
  .mk ⟨"conversion", [⟨"name", c.name⟩, ⟨"from", c.source⟩, ⟨"to", c.dest⟩]⟩
    (c.mappings.map MappingDecl.node) .closed

theorem FieldDecl.writtenAs_node (f : FieldDecl) : f.WrittenAs f.node :=
  .mk .word

theorem MappingDecl.writtenAs_node (m : MappingDecl) : m.WrittenAs m.node :=
  .mk .word

/-- Parts are written as their nodes, if each of them is. -/
theorem forall₂_node {α : Type} {R : α → Node → Prop} {node : α → Node} (each : ∀ a, R a (node a))
    (parts : List α) : List.Forall₂ R parts (parts.map node) :=
  List.forall₂_map_right_iff.2 (List.forall₂_same.2 fun a _ => each a)

/-- A definition is written as its element. -/
theorem Definition.writtenAs_node (d : Definition) : d.WrittenAs d.node := by
  cases d with
  | struct name fields => exact .struct (forall₂_node FieldDecl.writtenAs_node fields)
  | enum name values => exact .enum
  | typedef name target => exact .typedef

theorem Schema.writtenAs_node (s : Schema) : s.WrittenAs s.node :=
  .mk (forall₂_node Definition.writtenAs_node s.definitions)

theorem ConversionDecl.writtenAs_node (c : ConversionDecl) : c.WrittenAs c.node :=
  .mk (forall₂_node MappingDecl.writtenAs_node c.mappings)

namespace Document

/-- The elements of a document, schemas before conversions. -/
def nodes (d : Document) : List Node :=
  d.schemas.map Schema.node ++ d.conversions.map ConversionDecl.node

/-- The document as text, each tag in a line of its own and all flags shown. -/
def text (d : Document) : String :=
  String.ofList (Node.layout 0 (.mk ⟨"idl", []⟩ d.nodes .closed))

/-- The elements of a document are those of its parts. -/
theorem partsWrittenAs_nodes (d : Document) : d.PartsWrittenAs d.nodes := by
  obtain ⟨schemas, conversions⟩ := d
  induction schemas with
  | nil =>
    induction conversions with
    | nil => exact .nil
    | cons c conversions ih => exact .conversion c.writtenAs_node ih
  | cons s schemas ih => exact .schema s.writtenAs_node ih

/-- The text of a plain document is a layout of it. -/
theorem writtenAs_text {d : Document} (plain : d.Plain) : d.WrittenAs d.text := by
  have parts := d.partsWrittenAs_nodes
  have root := plain_root (parts.read plain).1
  have laid : Laid [.mk ⟨"idl", []⟩ d.nodes .closed]
      (Node.layout 0 (.mk ⟨"idl", []⟩ d.nodes .closed) ++ []) := Laid.nil.layout root
  rw [List.append_nil] at laid
  exact ⟨d.nodes, [], _, parts, laid, .inl rfl, String.toList_ofList⟩

/-- Reading undoes writing: a document that can be written has a layout, and all its layouts are
read as the document. -/
theorem read_written {d : Document} (plain : d.Plain) :
    d.WrittenAs d.text ∧ ∀ text, d.WrittenAs text → Document.read text = .ok d :=
  ⟨writtenAs_text plain, fun _ written => read_of_isWhole (isWhole_of_writtenAs plain written)⟩

example : text ⟨[⟨"a", "a.thrift", [.enum "Color" ["RED"]]⟩], []⟩ =
    "<idl>\n  <schema name=\"a\" file=\"a.thrift\">\n    <enum name=\"Color\">\n" ++
      "      <value name=\"RED\"/>\n    </enum>\n  </schema>\n</idl>\n" := by
  decide

end Document

namespace Endpoint

/-! A schema with a definition of each kind, and a conversion with a mapping. -/

def bytesAlias (name : String) : Definition := .typedef name (.list .binary)

/-- A document with all kinds of definitions. -/
def document : Document where
  schemas := [⟨"endpoint", "endpoints/bar/bar.thrift", [
    .struct "Request" [⟨"Name", .primitive .string, true⟩,
      ⟨"Attrs", .map (.primitive .string) (.named "client.Address"), false⟩],
    .enum "Color" ["RED"],
    bytesAlias "UUID"]⟩]
  conversions := [⟨"convert_request", "endpoint.Request", "client.Request",
    [⟨"Owner", "User", true⟩]⟩]

/-- It has no quotation marks. -/
theorem plain : document.Plain where
  texts := by decide
  types := by decide

/-- Its text is read as itself. -/
theorem document_read : Document.read document.text = .ok document :=
  (Document.read_written plain).2 _ (Document.read_written plain).1

end Endpoint

end Crosswalk
