import Crosswalk.Path
import Crosswalk.Text.Blank

/-!
# Reading paths

A path is written as names with dots between them, each followed by any number of brackets:
`[key]` stands for a map value and any other bracket for a list element. White space around the
whole text and inside brackets is dropped.
-/

namespace Crosswalk.Path
set_option autoImplicit false
open Crosswalk.Text

/-- Why a text is not a path. -/
inductive Fault
  | emptyName
  | unclosedBracket
  | trailing (rest : String)
  deriving DecidableEq, Repr

/-- The wording for a fault. -/
def Fault.message : Fault → String
  | emptyName => "empty field name"
  | unclosedBracket => "unclosed '['"
  | trailing rest => "unexpected '" ++ rest ++ "' after element marker"

/-- Where in a path the reader is. -/
inductive ReadState
  | name (chars : List Char)
  | bracket (chars : List Char)
  /-- Behind a closing bracket. -/
  | behind
  deriving DecidableEq, Repr

/-- The segment that a bracket stands for. -/
def ofBracket (chars : List Char) : Segment :=
  if trim chars = "key".toList then .key else .index

/-- The segments from a state on. -/
def readFrom : ReadState → List Char → Except Fault (List Segment)
  | .name [], [] => .error .emptyName
  | .name (c :: chars), [] => .ok [.field (String.ofList (c :: chars))]
  | .bracket _, [] => .error .unclosedBracket
  | .behind, [] => .ok []
  | .name chars, c :: rest =>
    if c = '.' || c = '[' then
      if chars = [] then .error .emptyName
      else (readFrom (if c = '.' then .name [] else .bracket []) rest).map
        (.field (String.ofList chars) :: ·)
    else readFrom (.name (chars ++ [c])) rest
  | .bracket chars, c :: rest =>
    if c = ']' then (readFrom .behind rest).map (ofBracket chars :: ·)
    else readFrom (.bracket (chars ++ [c])) rest
  | .behind, c :: rest =>
    if c = '.' then readFrom (.name []) rest
    else if c = '[' then readFrom (.bracket []) rest
    else .error (.trailing (String.ofList (c :: rest)))

end Crosswalk.Path

namespace Crosswalk
set_option autoImplicit false

/-- A text that is not a path, with the reason. -/
structure PathError where
  text : String
  fault : Path.Fault
  deriving DecidableEq, Repr

/-- The wording for an error shows the whole text. -/
def PathError.message (e : PathError) : String :=
  "invalid path '" ++ e.text ++ "': " ++ e.fault.message

/-- Reads a path; a blank text is the root. -/
def Path.parse (text : String) : Except PathError Path :=
  match Text.trim text.toList with
  | [] => .ok root
  | c :: rest =>
    match readFrom (.name []) (c :: rest) with
    | .ok segments => .ok ⟨segments⟩
    | .error fault => .error ⟨text, fault⟩

end Crosswalk
