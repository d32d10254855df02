import Crosswalk.Conversion.Choice
import Crosswalk.Settings
import Crosswalk.Statement

/-!
# Converters

A converter knows how to find namespaces and which identifiers to use. Here are the names of types
in generated code, where an alias has a name of its own, and the checks on the shapes of types,
which look through aliases.
-/

namespace Crosswalk
set_option autoImplicit false

/-- A destination field: its path in the destination tree and its place. -/
structure Slot where
  path : Path
  place : Place
  deriving Repr

/-- The aggregates that are converted element by element. -/
inductive Shape
  | list
  | map
  deriving DecidableEq, Repr

/-- The shape as a kind of types. -/
def Shape.kind : Shape → Kind
  | list => .list
  | map => .map

/-- What conversions depend on besides the types, the sources and the mapping table. -/
structure Converter where
  namespaces : Namespaces
  settings : Settings := {}

namespace Converter

/-! ## Type names -/

/-- The qualified name of a named type. -/
def qualified (cv : Converter) (name file : String) (path : Path) : Except ConvertError String :=
  match cv.namespaces.qualify name file with
  | .ok found => .ok found
  | .error e => path.fail (.noNamespace file e)

/-- The name of a type in generated code; aggregates have none. -/
def typeName (cv : Converter) (path : Path) : Ty → Except ConvertError String
  | .primitive p => .ok p.codeName
  | .binary => .ok "Vec<u8>"
  | .enum name file _ => cv.qualified name file path
  | .struct name file _ => cv.qualified name file path
  | .typedef name file _ => cv.qualified name file path
  | ty => path.unsupported (.nameless ty.kind)

/-! ## Compatibility -/

/-- Scalars are compatible with all scalars, other types with those of their kind. -/
def compatible (dest source : Ty) : Bool :=
  if dest.isScalar then source.isScalar else dest.kind == source.kind

/-- Types are compared with their aliases followed. -/
def checkCompatible (path : Path) (dest source : Ty) : Except ConvertError Unit :=
  if compatible dest.resolved source.resolved then .ok ()
  else path.mismatch dest.resolved.kind source.resolved.kind

/-- Only strings are keys. -/
def checkKey (path : Path) (key : Ty) : Except ConvertError Unit :=
  if key.resolved.isString then .ok () else path.unsupported (.mapKey key.resolved.kind)

/-- Aggregates do not nest. -/
def checkElement (path : Path) (shape : Shape) (element : Ty) : Except ConvertError Unit :=
  if element.resolved.isAggregate then
    path.unsupported (.nested shape.kind element.resolved.kind)
  else .ok ()

/-- The element type of a source type, aliases followed, that has to be of the given shape. -/
def elementOf (path : Path) (shape : Shape) (source : Ty) : Except ConvertError Ty :=
  match shape, source.resolved with
  | _, .set _ => path.unsupported .set
  | .list, .list element => .ok element
  | .map, .map key value => (checkKey path key).map fun _ => value
  | _, other => path.mismatch shape.kind other.kind

/-- The type of the elements of a source of the given shape. -/
def sourceElement (path : Path) (shape : Shape) (source : Candidate) :
    Except ConvertError Ty := do
  let element ← elementOf path shape source.type
  checkElement path shape element
  return element

end Converter

end Crosswalk
