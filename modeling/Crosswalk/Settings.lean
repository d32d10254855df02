/-!
# Settings

The identifiers that generated code uses besides those of the schemas, its indentation, and what
becomes of a conversion that cannot be generated.
-/

namespace Crosswalk
set_option autoImplicit false

/-- The texts that generated code is put together with, with their defaults. -/
structure Settings where
  /-- The parameter of a conversion function. -/
  source : String := "input"
  /-- The value being built. -/
  dest : String := "out"
  /-- The position in a list loop. -/
  index : String := "index"
  /-- The key in a map loop. -/
  key : String := "key"
  /-- The element in a loop. -/
  value : String := "value"
  /-- The start of the names of variables that hold a selected list or map. -/
  sourceList : String := "source_list"
  /-- The start of the names of variables that tell whether the overriding source was taken. -/
  overrideFlag : String := "is_overridden"
  indent : String := "    "
  /-- Whether the first conversion that fails ends the generation; else it is left out. -/
  failFast : Bool := true
  deriving DecidableEq, Repr

/-- An identifier among the settings. -/
inductive Setting
  | source | dest | index | key | value | sourceList | overrideFlag
  deriving DecidableEq, Repr

/-- The name that a setting is configured by. -/
def Setting.name : Setting → String
  | source => "source_ident"
  | dest => "dest_ident"
  | index => "index_binding"
  | key => "key_binding"
  | value => "value_binding"
  | sourceList => "source_list_local"
  | overrideFlag => "override_flag_local"

/-- Why settings cannot be used. -/
inductive SettingsError
  | notIdentifier (setting : Setting) (text : String)
  | repeated (setting : Setting) (text : String)
  | badIndent
  deriving DecidableEq, Repr

/-- The wording for an error names the setting and its text. -/
def SettingsError.message : SettingsError → String
  | notIdentifier setting text => setting.name ++ " '" ++ text ++ "' is not a valid identifier"
  | repeated setting text => setting.name ++ " '" ++ text ++ "' is used more than once"
  | badIndent => "indent must contain only spaces or tabs"

/-- A letter or underscore, then letters, digits and underscores; not an underscore alone. -/
def isIdentifier (text : String) : Bool :=
  match text.toList with
  | [] => false
  | c :: rest =>
    (c.isAlpha || c == '_') && !(c == '_' && rest.isEmpty) &&
      rest.all fun c => c.isAlpha || c.isDigit || c == '_'

namespace Settings

/-- The identifiers in the order in which they are checked. -/
def identifiers (s : Settings) : List (Setting × String) :=
  [(.source, s.source), (.dest, s.dest), (.index, s.index), (.key, s.key), (.value, s.value),
    (.sourceList, s.sourceList), (.overrideFlag, s.overrideFlag)]

/-- Checks that identifiers are well formed and differ from each other and those seen before. -/
def checkIdentifiers : List String → List (Setting × String) → Except SettingsError Unit
  | _, [] => .ok ()
  | seen, (setting, text) :: rest =>
    if !isIdentifier text then .error (.notIdentifier setting text)
    else if text ∈ seen then .error (.repeated setting text)
    else checkIdentifiers (text :: seen) rest

/-- Identifiers are well formed and differ from each other, and the indentation is blank. -/
def validate (s : Settings) : Except SettingsError Unit := do
  checkIdentifiers [] s.identifiers
  if !s.indent.toList.all fun c => c == ' ' || c == '\t' then throw .badIndent

end Settings

end Crosswalk
