/-!
# Places

A place is a location that a conversion reads or writes: the value being converted, the value being
built or a variable, followed by accesses. Each field access carries whether that field may be
absent, and the place whether the value at it may be.
-/

namespace Crosswalk
set_option autoImplicit false

/-- What a place begins with. -/
inductive Root
  | input
  | output
  | var (name : String)
  deriving DecidableEq, Repr

/-- One access: a field, or the element that a loop variable stands for. -/
inductive Access
  | field (name : String) (optional : Bool)
  | index (binding : String)
  | key (binding : String)
  deriving DecidableEq, Repr

/-- A location that is read or written. -/
structure Place where
  root : Root
  accesses : List Access
  optional : Bool
  deriving DecidableEq, Repr

namespace Place

/-- The value being converted. -/
def input : Place :=
  ⟨.input, [], false⟩

/-- The value being built. -/
def output : Place :=
  ⟨.output, [], false⟩

/-- A variable. -/
def var (name : String) (optional : Bool) : Place :=
  ⟨.var name, [], optional⟩

/-- A field of the value at a place. -/
def field (p : Place) (name : String) (optional : Bool) : Place :=
  ⟨p.root, p.accesses ++ [.field name optional], optional⟩

/-- The list element that `binding` counts. -/
def index (p : Place) (binding : String) : Place :=
  ⟨p.root, p.accesses ++ [.index binding], false⟩

/-- The map value that `binding` is the key of. -/
def key (p : Place) (binding : String) : Place :=
  ⟨p.root, p.accesses ++ [.key binding], false⟩

/-- The name of a variable without accesses. -/
def asVar? (p : Place) : Option String :=
  match p.root, p.accesses with
  | .var name, [] => some name
  | _, _ => none

end Place

/-- The root as it is written. -/
def Root.text : Root → String
  | input => "in"
  | output => "out"
  | var name => name

/-- The access as it is written. A position and a key look alike. -/
def Access.text : Access → String
  | field name _ => "." ++ name
  | index binding => "[" ++ binding ++ "]"
  | key binding => "[" ++ binding ++ "]"

/-- The written form, with a question mark where the value may be absent. -/
def Place.text (p : Place) : String :=
  p.root.text ++ String.join (p.accesses.map Access.text) ++ if p.optional then "?" else ""

end Crosswalk
