import Crosswalk.Code.Identifier
import Crosswalk.Settings
import Crosswalk.Statement

/-!
# Places and values in generated code

Optional values are `Option`s, lists are vectors and maps are hash maps with string keys. Reading
through an absent struct reads its default; writing through one creates it.
-/

namespace Crosswalk.Code
set_option autoImplicit false

/-- A place begins with the parameter, the result or a variable. -/
def rootText (s : Settings) : Root → String
  | .input => s.source
  | .output => s.dest
  | .var name => name

/-- Accesses for reading. Only the value at the end of a place may stay absent. -/
def readAccesses : List Access → String
  | [] => ""
  | .field name optional :: rest =>
    let default := if optional && !rest.isEmpty then ".clone().unwrap_or_default()" else ""
    "." ++ identifier name ++ default ++ readAccesses rest
  | .index binding :: rest => "[" ++ binding ++ "]" ++ readAccesses rest
  | .key binding :: rest => "[" ++ binding ++ "]" ++ readAccesses rest

/-- The text of a place that is read. -/
def readText (s : Settings) (p : Place) : String :=
  rootText s p.root ++ readAccesses p.accesses

/-- Accesses for writing. -/
def writeAccesses : List Access → String
  | [] => ""
  | .field name optional :: rest =>
    let create :=
      if optional && !rest.isEmpty then ".get_or_insert_with(Default::default)" else ""
    "." ++ identifier name ++ create ++ writeAccesses rest
  | .index binding :: rest => "[" ++ binding ++ "]" ++ writeAccesses rest
  | .key binding :: rest => ".entry(" ++ binding ++ ".clone()).or_default()" ++ writeAccesses rest

/-- The entry of a map is a reference, which an assignment to it goes through. -/
def endsInKey (p : Place) : Bool :=
  match p.accesses.getLast? with
  | some (.key _) => true
  | _ => false

/-- The text of a place that is assigned to. -/
def writeText (s : Settings) (p : Place) : String :=
  (if endsInKey p then "*" else "") ++ rootText s p.root ++ writeAccesses p.accesses

/-- An optional value that is present. -/
def someText (text : String) : String :=
  "Some(" ++ text ++ ")"

/-- A value converted to a type. -/
def fromText (type value : String) : String :=
  "<" ++ type ++ ">::from(" ++ value ++ ")"

/-- The value of an expression that is assigned to a target. -/
def exprText (s : Settings) (target : Place) : Expr → String
  | .read p =>
    let copy := readText s p ++ ".clone()"
    match p.optional, target.optional with
    | false, true => someText copy
    | true, false => copy ++ ".unwrap_or_default()"
    | _, _ => copy
  | .cast type p optional =>
    let copy := readText s p ++ ".clone()"
    match optional, p.optional with
    | true, true => copy ++ ".map(<" ++ type ++ ">::from)"
    | true, false => someText (fromText type copy)
    | false, true => fromText type (copy ++ ".unwrap_or_default()")
    | false, false => fromText type copy
  | .bytes p =>
    let copy := readText s p ++ ".clone()"
    let bytes := "Vec::<u8>::from(" ++ (if p.optional then copy ++ ".unwrap_or_default()" else copy)
      ++ ")"
    if target.optional then someText bytes else bytes
  | .bool value => if value then "true" else "false"
  | .null => if target.optional then "None" else "Default::default()"

/-- The number of elements of an aggregate, zero without one. -/
def sizeText (s : Settings) : Option Place → String
  | none => "0"
  | some p =>
    if p.optional then readText s p ++ ".as_ref().map_or(0, |items| items.len())"
    else readText s p ++ ".len()"

/-- The value that fresh storage begins with: a struct of defaults, a list of as many defaults as
the source has elements, or an empty map. -/
def storageText (s : Settings) (sizeHint? : Option Place) : Storage → String
  | .struct type => "<" ++ type ++ ">::default()"
  | .list element _ =>
    "std::iter::repeat_with(<" ++ element ++ ">::default).take(" ++ sizeText s sizeHint? ++
      ").collect()"
  | .map _ _ => "std::collections::HashMap::with_capacity(" ++ sizeText s sizeHint? ++ ")"

end Crosswalk.Code
