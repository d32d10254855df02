/-!
# Lines of generated code

A block is written as lines, each a declaration, an assignment to a declared variable or to any
other place, or the head, middle or end of an inner block, indented by its depth.
-/

namespace Crosswalk.Code
set_option autoImplicit false

/-- A line, with the texts that it is put together from. -/
inductive Line
  | declare (name value : String)
  | reassign (name value : String)
  | store (target value : String)
  | openBranch (condition : String)
  | otherwise
  | openLoop (vars iterator : String)
  | close
  deriving DecidableEq, Repr

/-- The line as it is written, without indentation. -/
def Line.text : Line → String
  | declare name value => "let mut " ++ name ++ " = " ++ value ++ ";"
  | reassign name value => name ++ " = " ++ value ++ ";"
  | store target value => target ++ " = " ++ value ++ ";"
  | openBranch condition => "if " ++ condition ++ " \x7b"
  | otherwise => "\x7d else \x7b"
  | openLoop vars iterator => "for (" ++ vars ++ ") in " ++ iterator ++ " \x7b"
  | close => "\x7d"

/-- A line at a depth. -/
structure Indented where
  depth : Nat
  line : Line
  deriving DecidableEq, Repr

/-- The line as it is written, with its end. -/
def Indented.text (indent : String) (l : Indented) : String :=
  String.join (List.replicate l.depth indent) ++ l.line.text ++ "\n"

/-- The text of lines, each with its end. -/
def linesText (indent : String) (lines : List Indented) : String :=
  String.join (lines.map (Indented.text indent))

end Crosswalk.Code
