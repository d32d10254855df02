import Crosswalk.Ty

/-!
# Resolved documents

A catalog holds every named type of a document under its key `schema.Type`, and every conversion
with both structs and all mapped source fields at hand.
-/

namespace Crosswalk
set_option autoImplicit false

/-- A mapping whose source field has been found. -/
structure Mapping where
  /-- The destination path as it is written. -/
  dest : String
  /-- The names of the fields from the source struct down to `field`. -/
  source : List String
  field : Field
  /-- Optionality of the fields passed on the way to `field`. -/
  parentsOptional : List Bool
  overrides : Bool
  deriving Repr

/-- A conversion with both of its structs and the source fields of its mappings. -/
structure Conversion where
  name : String
  source : Struct
  dest : Struct
  mappings : List Mapping
  deriving Repr

/-- All that the generation of a module needs to know of a document. -/
structure Catalog where
  /-- Names and files of the schemas, in document order. -/
  schemas : List (String × String)
  types : List (String × Ty)
  conversions : List Conversion
  deriving Repr

namespace Catalog

/-- The type under a key. -/
def type? (c : Catalog) (key : String) : Option Ty :=
  c.types.lookup key

/-- The struct under a key; an alias of a struct is none. -/
def struct? (c : Catalog) (key : String) : Option Struct :=
  (c.type? key).bind Ty.asStruct?

/-- The first conversion of a name. -/
def conversion? (c : Catalog) (name : String) : Option Conversion :=
  c.conversions.find? (·.name == name)

end Catalog

/-- The fields on a way of names down from a list of fields, through aliases of structs. -/
def fieldsAlong? (fields : List Field) : List String → Option (List Field)
  | [] => none
  | [name] => (findField? fields name).map ([·])
  | name :: below =>
    match findField? fields name with
    | none => none
    | some field =>
      match field.type.resolved with
      | .struct _ _ inner => (fieldsAlong? inner below).map (field :: ·)
      | _ => none

end Crosswalk
