import Crosswalk.Text.Naming

/-!
# Identifiers of generated code

Names of fields and conversions are written in snake case. A name that is a keyword of Rust, the
language of generated code, is written as a raw identifier.
-/

namespace Crosswalk.Code
set_option autoImplicit false

/-- The words that are written in raw form. -/
def keywords : List String :=
  ["as", "async", "await", "box", "break", "const", "continue", "dyn", "else", "enum", "extern",
    "false", "fn", "for", "gen", "if", "impl", "in", "let", "loop", "match", "mod", "move", "mut",
    "pub", "ref", "return", "static", "struct", "trait", "true", "try", "type", "unsafe", "use",
    "where", "while", "yield"]

/-- A word in a form that is no keyword. -/
def escape (word : String) : String :=
  if word ∈ keywords then "r#" ++ word else word

/-- The identifier for a name of a document. -/
def identifier (name : String) : String :=
  escape (Text.snakeCase name)

end Crosswalk.Code
