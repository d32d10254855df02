import Crosswalk.Document

/-!
# Errors in what a document declares

Each error is one cause; its wording is in one place.
-/

namespace Crosswalk
set_option autoImplicit false

/-- Something a document declares under a name. -/
inductive Declared
  | schema (name : String)
  | definition (kind : Kind) (owner name : String)
  | field (owner name : String)
  | conversion (name : String)
  deriving DecidableEq, Repr

namespace Declared

/-- The word for what is declared. -/
def what : Declared → String
  | schema _ => "schema"
  | definition kind .. => kind.name
  | field .. => "field"
  | conversion _ => "conversion"

/-- The name with the name of what it is declared in. -/
def fullName : Declared → String
  | schema name => name
  | definition _ owner name => owner ++ "." ++ name
  | field owner name => owner ++ "." ++ name
  | conversion name => name

end Declared

/-- Why a document with proper syntax cannot be used. -/
inductive SchemaError
  | typeNotFound (name context : String)
  | schemaNotFound (name : String)
  | notAStruct (name : String) (kind : Kind)
  | fieldNotFound (path struct : String)
  | duplicate (declared : Declared)
  /-- The keys of definitions each of which refers to the next; the last stands there twice. -/
  | circular (keys : List String)
  | dottedSchema (name : String)
  | repeatedValue (value enum : String)
  | repeatedTarget (target conversion : String)
  deriving DecidableEq, Repr

/-- The wording for an error. -/
def SchemaError.message : SchemaError → String
  | typeNotFound name context =>
    "type '" ++ name ++ "' not found (referenced from '" ++ context ++ "')"
  | schemaNotFound name => "schema '" ++ name ++ "' not found"
  | notAStruct name kind => "'" ++ name ++ "' is a " ++ kind.name ++ ", expected a struct"
  | fieldNotFound path struct =>
    "field path '" ++ path ++ "' not found in struct '" ++ struct ++ "'"
  | duplicate declared =>
    "duplicate " ++ declared.what ++ " definition: '" ++ declared.fullName ++ "'"
  | circular keys => "circular type reference detected: " ++ " -> ".intercalate keys
  | dottedSchema name => "validation error: schema name '" ++ name ++ "' must not contain '.'"
  | repeatedValue value enum =>
    "validation error: Duplicate enum value '" ++ value ++ "' in enum '" ++ enum ++ "'"
  | repeatedTarget target conversion =>
    "validation error: Duplicate mapping target '" ++ target ++ "' in conversion '" ++
      conversion ++ "'"

end Crosswalk
