/-!
# Attributes of a tag

The attributes are read from the text between a tag's name and its end. What is not an attribute
is passed over without a fault: a key without a value, a value without quotes, and a key that the
tag has had before. A key may begin with any character but white space, an equals sign included.
Values are kept as they are written.
-/

namespace Crosswalk.Markup
set_option autoImplicit false

/-- White space of the markup: blank, tab, carriage return and line feed. -/
def isSpace (c : Char) : Bool :=
  c == ' ' || c == '\t' || c == '\r' || c == '\n'

/-- The marks that a value can stand between. -/
def isQuote (c : Char) : Bool :=
  c == '"' || c == '\''

/-- Where in an attribute list the reader is. -/
inductive AttributeState
  /-- Before a key. -/
  | between
  | inKey (key : List Char)
  | afterKey (key : List Char)
  /-- Behind the equals sign of a key that is new to the tag. -/
  | beforeValue (key : List Char)
  | inValue (key : List Char) (quote : Char) (value : List Char)
  /-- On the way to the next white space. -/
  | skipping
  deriving DecidableEq, Repr

/-- The state behind the equals sign of `key`, which is passed over if the tag has had it. -/
def AttributeState.ofKey (seen : List (List Char)) (key : List Char) : AttributeState :=
  if key ∈ seen then skipping else beforeValue key

/-- The keys and values read from a state on, `seen` being the keys whose equals sign was met. -/
def attributesFrom (seen : List (List Char)) :
    AttributeState → List Char → List (List Char × List Char)
  | _, [] => []
  | .between, c :: rest =>
    if isSpace c then attributesFrom seen .between rest
    else attributesFrom seen (.inKey [c]) rest
  | .inKey key, c :: rest =>
    if isSpace c then attributesFrom seen (.afterKey key) rest
    else if c = '=' then attributesFrom (key :: seen) (.ofKey seen key) rest
    else attributesFrom seen (.inKey (key ++ [c])) rest
  | .afterKey key, c :: rest =>
    if isSpace c then attributesFrom seen (.afterKey key) rest
    else if c = '=' then attributesFrom (key :: seen) (.ofKey seen key) rest
    else attributesFrom seen (.inKey [c]) rest
  | .beforeValue key, c :: rest =>
    if isSpace c then attributesFrom seen (.beforeValue key) rest
    else if isQuote c then attributesFrom seen (.inValue key c []) rest
    else attributesFrom seen .skipping rest
  | .inValue key quote value, c :: rest =>
    if c = quote then (key, value) :: attributesFrom seen .between rest
    else attributesFrom seen (.inValue key quote (value ++ [c])) rest
  | .skipping, c :: rest =>
    if isSpace c then attributesFrom seen .between rest
    else attributesFrom seen .skipping rest

/-- An attribute of a tag. -/
structure Attribute where
  key : String
  value : String
  deriving DecidableEq, Repr

/-- The attributes of a tag, given the text behind its name. -/
def attributes (text : List Char) : List Attribute :=
  (attributesFrom [] .between text).map fun (key, value) =>
    ⟨String.ofList key, String.ofList value⟩

end Crosswalk.Markup
