import Crosswalk.Catalog.Resolution
import Crosswalk.Conversion
import Crosswalk.Document.Reader
import Crosswalk.Document.Validation
import Crosswalk.Code

/-!
# Generation

From a document to the text of a module: a header that names the schemas, then one function for each
conversion in document order. With `failFast` unset a conversion that fails is left out.
-/

namespace Crosswalk
set_option autoImplicit false

/-- Why there is no module, by the step that failed. -/
inductive GenerateError
  | parse (error : ParseError)
  | schema (error : SchemaError)
  | settings (error : SettingsError)
  | path (error : PathError)
  | noNamespace (error : NamespaceError)
  | convert (conversion : String) (error : ConvertError)
  /-- A file cannot be read or written. -/
  | file
  deriving DecidableEq, Repr

/-- The wording for an error names the step, and the conversion if it is in one. -/
def GenerateError.message : GenerateError → String
  | parse error => "schema parse error: " ++ error.message
  | schema error => "schema error: " ++ error.message
  | settings error => "generation error: " ++ error.message
  | path error => "mapping error: " ++ error.message
  | noNamespace error => "resolve error: " ++ error.message
  | convert conversion error => "conversion '" ++ conversion ++ "' failed: " ++ error.message
  | file => "IO error"

namespace Converter

/-- The qualified name of one end of a conversion. -/
def structName (cv : Converter) (s : Struct) : Except GenerateError String :=
  (cv.namespaces.qualify s.name s.file).mapError .noNamespace

/-- The text of the function for a conversion. -/
def generateOne (cv : Converter) (c : Conversion) : Except GenerateError String := do
  let table ← (MappingTable.ofMappings c.mappings).mapError .path
  let body ← (cv.convert c.source.fields c.dest.fields table).mapError (.convert c.name)
  let source ← cv.structName c.source
  let dest ← cv.structName c.dest
  return Code.functionText cv.settings c.name source dest body

/-- The texts of the functions, each after an empty line. -/
def generateEach (cv : Converter) : List Conversion → Except GenerateError String
  | [] => .ok ""
  | c :: rest =>
    match cv.generateOne c with
    | .ok text => do return "\n" ++ text ++ (← cv.generateEach rest)
    | .error e => if cv.settings.failFast then .error e else cv.generateEach rest

end Converter

namespace Catalog

/-- The comment that a module begins with. -/
def header (c : Catalog) : String :=
  "// Code generated by gatekit. DO NOT EDIT.\n//\n" ++
  String.join (c.schemas.map fun (name, file) => "// schema " ++ name ++ ": " ++ file ++ "\n")

/-- The text of the module for a catalog. -/
def generate (c : Catalog) (cv : Converter) : Except GenerateError String := do
  cv.settings.validate.mapError .settings
  return c.header ++ (← cv.generateEach c.conversions)

end Catalog

/-- Generates the module for a document text. -/
def generateFromText (text : String) (namespaces : Namespaces) : Except GenerateError String := do
  let document ← (Document.read text).mapError .parse
  document.validate.mapError .schema
  let catalog ← (Catalog.ofDocument document).mapError .schema
  catalog.generate { namespaces }

/-- Generates the module for the content of a file, if there is one. -/
def generateFromContent (content? : Option ByteArray) (namespaces : Namespaces) :
    Except GenerateError String :=
  match content?.bind String.fromUTF8? with
  | some text => generateFromText text namespaces
  | none => .error .file

end Crosswalk
