import Crosswalk.Text.Blank
import Crosswalk.Text.Naming
import Crosswalk.Text.Split

/-!
# Namespaces of schema files

Generated code names a type through the namespace of the schema file that declares it. A way to find
namespaces is any function from files; there are two ready ones, a registry and module paths.
-/

namespace Crosswalk
set_option autoImplicit false
open Crosswalk.Text

/-- Why a file has no module path. -/
inductive FileFault
  | empty
  | absolute
  | parentReference
  | unusable (component : String)
  deriving DecidableEq, Repr

/-- The wording for a fault. -/
def FileFault.message : FileFault → String
  | empty => "empty path"
  | absolute => "absolute path"
  | parentReference => "parent directory references are not allowed"
  | unusable component => "component '" ++ component ++ "' has no usable name"

/-- Why a schema file has no namespace. -/
inductive NamespaceError
  | unknownFile (file : String)
  | invalidFile (file : String) (fault : FileFault)
  deriving DecidableEq, Repr

/-- The wording for an error names the file. -/
def NamespaceError.message : NamespaceError → String
  | unknownFile file => "no namespace registered for schema file '" ++ file ++ "'"
  | invalidFile file fault => "invalid schema file path '" ++ file ++ "': " ++ fault.message

/-- A way to find the namespace (`a::b::c`) of a schema file. -/
abbrev Namespaces := String → Except NamespaceError String

/-- Looks files up; the last registration of a file counts. -/
def Namespaces.registry (entries : List (String × String)) : Namespaces := fun file =>
  match entries.reverse.lookup file with
  | some found => .ok found
  | none => .error (.unknownFile file)

namespace Namespaces

/-- The characters of module names besides the underscore. -/
def isAsciiAlphanumeric (c : Char) : Bool :=
  c.isAlpha || c.isDigit

/-- The module name of a component: snake case, with anything but letters and digits replaced. -/
def moduleName (component : List Char) : Except FileFault String :=
  let name := (snakeChars component).map fun c => if isAsciiAlphanumeric c then c else '_'
  if name.all (· == '_') then .error (.unusable (String.ofList component))
  else if name.head?.any Char.isDigit then .ok (String.ofList ('_' :: name))
  else .ok (String.ofList name)

/-- The components of a file path that name something. -/
def components (file : List Char) : List (List Char) :=
  (splitOn '/' file).filter fun c => c ≠ [] ∧ c ≠ ['.']

/-- The last component without its file extension. -/
def stem (component : List Char) : List Char :=
  (beforeLast? '.' component).getD component

/-- One module name for each component. -/
def moduleNames : List (List Char) → Except FileFault (List String)
  | [] => .ok []
  | component :: rest => do
    if component = ['.', '.'] then throw .parentReference
    let name ← moduleName (if rest = [] then stem component else component)
    return name :: (← moduleNames rest)

/-- The path of modules for a file, below a root. An empty root has no segment. -/
def modulePath? (root : String) (file : String) : Except FileFault String := do
  let chars := file.toList
  if trim chars = [] then throw .empty
  if chars.head? = some '/' then throw .absolute
  let names ← moduleNames (components chars)
  return "::".intercalate (if root = "" then names else root :: names)

/-- Derives the namespace from the components of the file's path, below a root. -/
def modulePath (root : String) : Namespaces := fun file =>
  (modulePath? root file).mapError (.invalidFile file)

/-- The name of a type inside the namespace of its file. -/
def qualify (namespaces : Namespaces) (name file : String) : Except NamespaceError String := do
  let space ← namespaces file
  return if space = "" then name else space ++ "::" ++ name

end Namespaces

end Crosswalk
