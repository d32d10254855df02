import Crosswalk.TypeExpr

/-!
# Schema documents

A document declares schemas, each with its named definitions, and conversions between structs of
them. References are still text here. The definitions of a schema are found through an index that
keeps, of several definitions with one name, the first.
-/

namespace Crosswalk
set_option autoImplicit false

/-- A field as it is declared in a struct. -/
structure FieldDecl where
  name : String
  type : TypeExpr
  required : Bool
  deriving DecidableEq, Repr

/-- A named definition of a schema. -/
inductive Definition
  | struct (name : String) (fields : List FieldDecl)
  | enum (name : String) (values : List String)
  | typedef (name : String) (target : TypeExpr)
  deriving DecidableEq, Repr

namespace Definition

/-- The name that the definition is found by. -/
def name : Definition → String
  | struct name _ => name
  | enum name _ => name
  | typedef name _ => name

/-- The kind of type that the definition declares. -/
def kind : Definition → Kind
  | struct .. => .struct
  | enum .. => .enum
  | typedef .. => .typedef

end Definition

/-- The definitions of one schema file. -/
structure Schema where
  name : String
  file : String
  definitions : List Definition
  deriving DecidableEq, Repr

namespace Schema

/-- A schema without definitions. -/
def empty (name file : String) : Schema :=
  ⟨name, file, []⟩

/-- Appends a definition. -/
def add (s : Schema) (d : Definition) : Schema :=
  { s with definitions := s.definitions ++ [d] }

/-- The index after the entry of a name at a position: an entry that is there already stays. -/
def enter (index : List (String × Nat)) (name : String) (position : Nat) : List (String × Nat) :=
  if (index.lookup name).isSome then index else index ++ [(name, position)]

/-- For every name the position of its first definition. -/
def index (s : Schema) : List (String × Nat) :=
  s.definitions.zipIdx.foldl (fun entries (d, position) => enter entries d.name position) []

/-- The definition of a name, found through the index. -/
def find? (s : Schema) (name : String) : Option Definition :=
  (s.index.lookup name).bind fun position => s.definitions[position]?

/-- The key of a definition in the whole document. -/
def key (s : Schema) (name : String) : String :=
  s.name ++ "." ++ name

/-- A definition that is added enters the index at the position behind the others. -/
theorem index_add (s : Schema) (d : Definition) :
    (s.add d).index = enter s.index d.name s.definitions.length := by
  simp [index, add, List.zipIdx_append, List.foldl_append]

/-- What is found is a definition of the schema. -/
theorem find?_mem {s : Schema} {name : String} {d : Definition} (h : s.find? name = some d) :
    d ∈ s.definitions := by
  simp only [find?, Option.bind_eq_some_iff] at h
  obtain ⟨position, -, hd⟩ := h
  exact List.mem_of_getElem? hd

end Schema

/-- Where a destination field, given by its path, takes its value from. -/
structure MappingDecl where
  dest : String
  source : String
  overrides : Bool
  deriving DecidableEq, Repr

/-- A conversion between two structs, given as `schema.Type`. -/
structure ConversionDecl where
  name : String
  source : String
  dest : String
  mappings : List MappingDecl
  deriving DecidableEq, Repr

/-- Schemas and conversions in the order of the text. -/
structure Document where
  schemas : List Schema
  conversions : List ConversionDecl
  deriving DecidableEq, Repr

/-- The first schema of a name. -/
def Document.schema? (d : Document) (name : String) : Option Schema :=
  d.schemas.find? (·.name == name)

/-- The keys of all definitions. -/
def Document.keys (d : Document) : List String :=
  d.schemas.flatMap fun s => s.definitions.map fun definition => s.key definition.name

/-- A schema that is found is one of the document. -/
theorem Document.schema?_mem {d : Document} {name : String} {s : Schema}
    (h : d.schema? name = some s) : s ∈ d.schemas :=
  List.mem_of_find?_eq_some h

end Crosswalk
