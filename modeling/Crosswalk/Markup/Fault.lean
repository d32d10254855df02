/-!
# Markup faults

What can be wrong with the markup of a document, whatever its elements mean. A syntax fault is a
construct without its end; a form fault is a construct in the wrong place.
-/

namespace Crosswalk.Markup
set_option autoImplicit false

/-- A fault, with the texts that its message names. -/
inductive Fault
  | unclosedReference
  | unclosedTag
  | unclosedValue (quote : Char)
  | unclosedComment
  | unclosedCharacterData
  | unclosedDoctype
  | namelessDoctype
  | unclosedInstruction
  | unclosedDeclaration
  | unknownMarkup
  | mismatchedEnd (expected found : String)
  | unmatchedEnd (found : String)
  deriving DecidableEq, Repr

namespace Fault

/-- The wording for a construct without its end. -/
def unclosed (construct mark : String) : String :=
  "syntax error: " ++ construct ++ " not closed: `" ++ mark ++ "` not found before end of input"

/-- The wording for a construct in the wrong place. -/
def illFormed (what : String) : String :=
  "ill-formed document: " ++ what

/-- The wording for a fault. -/
def message : Fault → String
  | unclosedReference =>
    illFormed "entity or character reference not closed: `;` not found before end of input"
  | unclosedTag => unclosed "tag" ">"
  | unclosedValue quote => unclosed "attribute value" quote.toString
  | unclosedComment => unclosed "comment" "-->"
  | unclosedCharacterData => unclosed "CDATA" "]]>"
  | unclosedDoctype => unclosed "DOCTYPE" ">"
  | namelessDoctype =>
    illFormed "`<!DOCTYPE>` declaration does not contain a name of a document type"
  | unclosedInstruction => unclosed "processing instruction" "?>"
  | unclosedDeclaration => unclosed "XML declaration" "?>"
  | unknownMarkup => "syntax error: unknown or missed symbol in markup"
  | mismatchedEnd expected found =>
    illFormed ("expected `</" ++ expected ++ ">`, but `</" ++ found ++ ">` was found")
  | unmatchedEnd found =>
    illFormed ("close tag `</" ++ found ++ ">` does not match any open tag")

end Fault

end Crosswalk.Markup
