import Crosswalk.Text.Alphanumeric
import Crosswalk.Text.Blank
import Crosswalk.TypeExpr

/-!
# Reading type expressions

A type expression is cut into names and single marks, white space between them being dropped.
`readType` wants a type next and `readAfter` has just read one; both carry the brackets that are
still open, so every step consumes a token. Offsets in error reasons count UTF-8 bytes.
-/

namespace Crosswalk.TypeExpr
set_option autoImplicit false
open Crosswalk.Text

/-- A name is a maximal run of name characters; any other character but white space is a mark. -/
inductive Token
  | name (chars : List Char)
  | mark (c : Char)
  deriving DecidableEq, Repr

/-- A token and the byte offset at which it starts. -/
structure Placed where
  offset : Nat
  token : Token
  deriving DecidableEq, Repr

/-- The characters of names, the dot of a qualified one among them. -/
def isNameChar (c : Char) : Bool :=
  isAlphanumeric c || c == '_' || c == '.'

/-- A name begun before the rest of the text, with the offset of its first character. -/
def flush : Option (Nat × List Char) → List Placed
  | none => []
  | some (start, chars) => [⟨start, .name chars⟩]

/-- The tokens of a text that starts at `offset`; `open?` is the name being read. -/
def tokensFrom (open? : Option (Nat × List Char)) (offset : Nat) : List Char → List Placed
  | [] => flush open?
  | c :: rest =>
    let next := offset + c.utf8Size
    if isNameChar c then
      let grown := match open? with
        | some (start, chars) => (start, chars ++ [c])
        | none => (offset, [c])
      tokensFrom (some grown) next rest
    else if isBlank c then flush open? ++ tokensFrom none next rest
    else flush open? ++ ⟨offset, .mark c⟩ :: tokensFrom none next rest

/-- The tokens of a text with their offsets. -/
def tokens (text : List Char) : List Placed :=
  tokensFrom none 0 text

/-- Why a text is not a type expression. -/
inductive Fault
  | expectedName (offset : Nat)
  | expectedMark (mark : Char) (offset : Nat)
  | trailing
  deriving DecidableEq, Repr

/-- The wording for a fault. -/
def Fault.message : Fault → String
  | expectedName offset => "expected type name at offset " ++ toString offset
  | expectedMark mark offset =>
    "expected '" ++ mark.toString ++ "' at offset " ++ toString offset
  | trailing => "unexpected trailing input"

/-- A bracket that is open while a type is read, with what was read inside it. -/
inductive Pending
  | list
  | set
  | mapKey
  | mapValue (key : TypeExpr)
  deriving DecidableEq, Repr

/-- The words that take a bracket. -/
def bracketWord? (name : String) : Option Pending :=
  if name = "list" then some .list
  else if name = "set" then some .set
  else if name = "map" then some .mapKey
  else none

/-- The type that a word without bracket denotes. -/
def ofWord (name : String) : TypeExpr :=
  if name = "binary" then .binary
  else match Primitive.ofIdlName? name with
    | some p => .primitive p
    | none => .named name

/-- The mark that has to follow the type read inside a bracket. -/
def Pending.closing : Pending → Char
  | mapKey => ','
  | _ => ']'

mutual

/-- Reads a type inside the pending brackets. -/
def readType (stop : Nat) (pending : List Pending) : List Placed → Except Fault TypeExpr
  | ⟨_, .name chars⟩ :: rest =>
    match bracketWord? (String.ofList chars) with
    | some bracket => readBracket stop bracket pending rest
    | none => readAfter stop pending (ofWord (String.ofList chars)) rest
  | [] => .error (.expectedName stop)
  | ⟨offset, .mark _⟩ :: _ => .error (.expectedName offset)

/-- Reads the bracket after a word that takes one. -/
def readBracket (stop : Nat) (bracket : Pending) (pending : List Pending) :
    List Placed → Except Fault TypeExpr
  | [] => .error (.expectedMark '[' stop)
  | t :: rest =>
    if t.token = .mark '[' then readType stop (bracket :: pending) rest
    else .error (.expectedMark '[' t.offset)

/-- Goes on after a type, closing the innermost pending bracket. -/
def readAfter (stop : Nat) : List Pending → TypeExpr → List Placed → Except Fault TypeExpr
  | [], e, [] => .ok e
  | [], _, _ :: _ => .error .trailing
  | bracket :: _, _, [] => .error (.expectedMark bracket.closing stop)
  | bracket :: pending, e, t :: rest =>
    if t.token = .mark bracket.closing then
      match bracket with
      | .list => readAfter stop pending (.list e) rest
      | .set => readAfter stop pending (.set e) rest
      | .mapKey => readType stop (.mapValue e :: pending) rest
      | .mapValue key => readAfter stop pending (.map key e) rest
    else .error (.expectedMark bracket.closing t.offset)

end

/-- Reads a type expression that takes up the whole text. -/
def parse (text : String) : Except Fault TypeExpr :=
  readType text.utf8ByteSize [] (tokens text.toList)

end Crosswalk.TypeExpr
