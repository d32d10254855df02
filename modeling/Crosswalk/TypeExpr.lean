import Crosswalk.Ty

/-!
# Type expressions

A type as it is written in a schema document, before its names are looked up.
-/

namespace Crosswalk
set_option autoImplicit false

/-- A type, with names still to be looked up. -/
inductive TypeExpr
  | primitive (p : Primitive)
  | binary
  | named (name : String)
  | list (element : TypeExpr)
  | set (element : TypeExpr)
  | map (key value : TypeExpr)
  deriving DecidableEq, Repr

/-- The written form: `list[T]`, `set[T]`, `map[K, V]` or a name. -/
def TypeExpr.text : TypeExpr → String
  | primitive p => p.idlName
  | binary => "binary"
  | named name => name
  | list element => "list[" ++ element.text ++ "]"
  | set element => "set[" ++ element.text ++ "]"
  | map key value => "map[" ++ key.text ++ ", " ++ value.text ++ "]"

end Crosswalk
