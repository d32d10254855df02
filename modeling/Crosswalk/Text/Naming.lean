import Crosswalk.Text.LetterCase

/-!
# Snake case and Pascal case

Snake case puts an underscore where a word starts: at an upper-case character after a lower-case
character or a decimal digit, and at the last upper-case character of a run that a lower-case
character follows. A run of capitals so stays one word (`MDEntryPx` gives `md_entry_px`).
-/

namespace Crosswalk.Text
set_option autoImplicit false

/-- Whether an upper-case character between these neighbours starts a word. -/
def startsWord (prev : Char) (next : Option Char) : Bool :=
  isLower prev || prev.isDigit || (isUpper prev && next.any isLower)

/-- A hyphen and a space are written as underscores. -/
def isGap (c : Char) : Bool :=
  c == '-' || c == ' '

/-- Snake case of a text that follows the character `prev`. -/
def snakeAfter (prev : Option Char) : List Char → List Char
  | [] => []
  | c :: rest =>
    if isGap c then '_' :: snakeAfter (some c) rest
    else if isUpper c && prev.any (startsWord · rest.head?) then
      '_' :: toLower c ++ snakeAfter (some c) rest
    else toLower c ++ snakeAfter (some c) rest

/-- Snake case of a list of characters. -/
def snakeChars (text : List Char) : List Char :=
  snakeAfter none text

/-- Snake case of a name. -/
def snakeCase (text : String) : String :=
  String.ofList (snakeChars text.toList)

/-- Pascal case of the rest of a text; `fresh` at the start of a word. -/
def pascalFrom (fresh : Bool) : List Char → List Char
  | [] => []
  | c :: rest =>
    if c == '_' || c == '-' then pascalFrom true rest
    else (if fresh then c.toUpper else c) :: pascalFrom false rest

/-- Pascal case: underscores and hyphens go, and the ASCII letter after each is a capital. -/
def pascalCase (text : String) : String :=
  String.ofList (pascalFrom true text.toList)

end Crosswalk.Text
