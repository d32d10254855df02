import Crosswalk.Code.Line
import Crosswalk.Code.Value

/-!
# Generated code

A variable is declared where it is first assigned, and a block knows the variables declared before
it. The branch that is taken when a required value is present is always taken, so it is written
without a condition as part of the block it stands in.
-/

namespace Crosswalk.Code
set_option autoImplicit false

/-- The variables of a loop and what it runs over. -/
def loopLine (s : Settings) (iterable : Place) : Binding → Line
  | .index index value =>
    let flat := if iterable.optional then ".flatten()" else ""
    .openLoop (index ++ ", " ++ value) (readText s iterable ++ ".iter()" ++ flat ++ ".enumerate()")
  | .key key value =>
    let flat := if iterable.optional then ".flatten()" else ""
    .openLoop (key ++ ", " ++ value) (readText s iterable ++ ".iter()" ++ flat)

/-- What a branch is taken on: the presence of a value or a flag. -/
def conditionText (s : Settings) : Condition → String
  | .isPresent p => readText s p ++ ".is_some()"
  | .flag name => name

/-- A condition that holds whatever the input. -/
def holds : Condition → Bool
  | .isPresent p => !p.optional
  | .flag _ => false

/-- An assignment, which declares a variable unless it is declared already. -/
def assignLine (s : Settings) (declared : List String) (target : Place) (value : String) :
    Line × List String :=
  match target.asVar? with
  | some name =>
    if name ∈ declared then (.reassign name value, declared)
    else (.declare name value, name :: declared)
  | none => (.store (writeText s target) value, declared)

mutual

/-- The lines of a block, and the variables that are declared behind it. -/
def blockLines (s : Settings) (depth : Nat) (declared : List String) :
    List Statement → List Indented × List String
  | [] => ([], declared)
  | statement :: rest =>
    let (lines, declared) := statementLines s depth declared statement
    let (later, declared) := blockLines s depth declared rest
    (lines ++ later, declared)

/-- The lines of a statement. A check that always holds has none of its own, and what it declares
stays visible behind it; what other branches and loops declare does not. -/
def statementLines (s : Settings) (depth : Nat) (declared : List String) :
    Statement → List Indented × List String
  | .assign target value =>
    let (line, declared) := assignLine s declared target (exprText s target value)
    ([⟨depth, line⟩], declared)
  | .allocate target storage sizeHint? =>
    let value := storageText s sizeHint? storage
    let value := if target.optional then someText value else value
    ([⟨depth, .store (writeText s target) value⟩], declared)
  | .branch condition yes no =>
    if holds condition then blockLines s depth declared yes
    else
      let taken := (blockLines s (depth + 1) declared yes).1
      let other := if no.isEmpty then [] else
        ⟨depth, .otherwise⟩ :: (blockLines s (depth + 1) declared no).1
      (⟨depth, .openBranch (conditionText s condition)⟩ :: taken ++ other ++ [⟨depth, .close⟩],
        declared)
  | .loop iterable binding body =>
    let turn := (blockLines s (depth + 1) declared body).1
    (⟨depth, loopLine s iterable binding⟩ :: turn ++ [⟨depth, .close⟩], declared)

end

/-- The text of a block at a depth. -/
def blockText (s : Settings) (depth : Nat) (block : Block) : String :=
  linesText s.indent (blockLines s depth [] block).1

/-- The text of a conversion function between two types. -/
def functionText (s : Settings) (name source dest : String) (body : Block) : String :=
  "/// Converts `" ++ source ++ "` into `" ++ dest ++ "`.\n" ++
  "#[allow(non_snake_case)]\n" ++
  "pub fn " ++ identifier name ++ "(" ++ s.source ++ ": &" ++ source ++ ") -> " ++ dest ++
    " \x7b\n" ++
  s.indent ++ "let mut " ++ s.dest ++ " = <" ++ dest ++ ">::default();\n" ++
  blockText s 1 body ++
  s.indent ++ s.dest ++ "\n\x7d\n"

end Crosswalk.Code
