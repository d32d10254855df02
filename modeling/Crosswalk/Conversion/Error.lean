import Crosswalk.Namespace
import Crosswalk.Path
import Crosswalk.Ty

/-!
# Conversion errors

A destination field that cannot be converted is reported by its path and a cause.
-/

namespace Crosswalk
set_option autoImplicit false

/-- A shape that is never converted. -/
inductive Unsupported
  | set
  | mapKey (found : Kind)
  | nested (outer inner : Kind)
  /-- A type without a name where an element's name is needed. -/
  | nameless (kind : Kind)
  deriving DecidableEq, Repr

/-- The wording for a shape. -/
def Unsupported.message : Unsupported → String
  | set => "set types are not supported"
  | mapKey found => "map keys must be strings, found " ++ found.name
  | nested outer inner => outer.name ++ " of " ++ inner.name ++ " is not supported"
  | nameless kind => kind.name ++ " has no element name"

/-- Why a destination field cannot be converted. -/
inductive ConvertCause
  | noSource
  | mismatch (expected found : Kind)
  | unsupported (shape : Unsupported)
  | noNamespace (file : String) (error : NamespaceError)
  deriving DecidableEq, Repr

/-- The first destination field that cannot be converted, and why. -/
structure ConvertError where
  path : Path
  cause : ConvertCause
  deriving DecidableEq, Repr

/-- The wording for an error, which begins with the path. -/
def ConvertError.message (e : ConvertError) : String :=
  let path := "'" ++ e.path.text ++ "'"
  match e.cause with
  | .noSource => "no source found for destination field " ++ path
  | .mismatch expected found =>
    "type mismatch at " ++ path ++ ": expected " ++ expected.name ++ ", found " ++ found.name
  | .unsupported shape => "unsupported type at " ++ path ++ ": " ++ shape.message
  | .noNamespace file error =>
    "cannot resolve namespace of '" ++ file ++ "' at " ++ path ++ ": " ++ error.message

namespace Path

/-- An error at a path. -/
def fail {α : Type} (p : Path) (cause : ConvertCause) : Except ConvertError α :=
  .error ⟨p, cause⟩

/-- A shape that is not converted, at a path. -/
def unsupported {α : Type} (p : Path) (shape : Unsupported) : Except ConvertError α :=
  p.fail (.unsupported shape)

/-- Kinds that differ, at a path. -/
def mismatch {α : Type} (p : Path) (expected found : Kind) : Except ConvertError α :=
  p.fail (.mismatch expected found)

end Path

end Crosswalk
