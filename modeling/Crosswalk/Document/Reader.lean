import Crosswalk.Document
import Crosswalk.Markup.Node
import Crosswalk.TypeExpr.Parser

/-!
# Reading documents

The root element is `idl`. Its children, and any elements behind it, are schemas and conversions;
those hold definitions and mappings, and the elements inside fields, values, aliases and mappings
are passed over. Of several faults the one that stands first in the text is reported; an element
whose content is passed over reports the faults of that content before its own.
-/

namespace Crosswalk
set_option autoImplicit false
open Crosswalk.Markup

/-- Why a text is not a document. -/
inductive ParseError
  | markup (fault : Markup.Fault)
  | missingAttribute (element key : String)
  | invalidAttribute (element key value : String)
  | unknownElement (element context : String)
  | invalidTypeExpr (text : String) (fault : TypeExpr.Fault)
  | noRoot
  | unterminatedSchema (name : String)
  | unterminatedElement (element : String)
  /-- The file is missing or is no text. -/
  | unreadable
  deriving DecidableEq, Repr

namespace ParseError

/-- The wording for an error. -/
def message : ParseError → String
  | markup fault => "XML parsing error: " ++ fault.message
  | missingAttribute element key =>
    "missing required attribute '" ++ key ++ "' on element '" ++ element ++ "'"
  | invalidAttribute element key value =>
    "invalid value '" ++ value ++ "' for attribute '" ++ key ++ "' on element '" ++
      element ++ "'"
  | unknownElement element context =>
    "unknown element '" ++ element ++ "' in context '" ++ context ++ "'"
  | invalidTypeExpr text fault => "invalid type expression '" ++ text ++ "': " ++ fault.message
  | noRoot => "invalid document structure: No idl element found"
  | unterminatedSchema name =>
    "invalid document structure: unterminated schema '" ++ name ++ "'"
  | unterminatedElement element =>
    "invalid document structure: unterminated element '" ++ element ++ "'"
  | unreadable => "IO error"

end ParseError

/-- Reads a type expression. -/
def TypeExpr.read (text : String) : Except ParseError TypeExpr :=
  (TypeExpr.parse text).mapError (.invalidTypeExpr text)

namespace Markup.Node

/-- An attribute that has to be there. -/
def required (node : Node) (key : String) : Except ParseError String :=
  match node.attribute? key with
  | some value => .ok value
  | none => .error (.missingAttribute node.name key)

/-- A flag is written as a word or a digit; an absent flag is unset. -/
def flag (node : Node) (key : String) : Except ParseError Bool :=
  match node.attribute? key with
  | none => .ok false
  | some value =>
    if value = "true" || value = "1" then .ok true
    else if value = "false" || value = "0" then .ok false
    else .error (.invalidAttribute node.name key value)

/-- A type expression in an attribute that has to be there. -/
def typeExpr (node : Node) (key : String) : Except ParseError TypeExpr := do
  TypeExpr.read (← node.required key)

/-- Passes over the content of an element, up to its end or the end of the text. -/
def skip (node : Node) : Except ParseError Unit :=
  match node.ending with
  | .faulty fault => .error (.markup fault)
  | _ => .ok ()

/-- Requires an end tag; without one the error is `unterminated`. -/
def finish (node : Node) (unterminated : ParseError) : Except ParseError Unit :=
  match node.ending with
  | .closed => .ok ()
  | .cut => .error unterminated
  | .faulty fault => .error (.markup fault)

/-- Reads one item of a list of like elements, whose content is passed over. -/
def item {α : Type} (context element : String) (read : Node → Except ParseError α) (node : Node) :
    Except ParseError α := do
  if node.name ≠ element then throw (.unknownElement node.name context)
  node.skip
  read node

/-- Reads the children of an element, which all have to be of one name. -/
def items {α : Type} (node : Node) (element : String) (read : Node → Except ParseError α) :
    Except ParseError (List α) := do
  let read ← node.children.mapM (item node.name element read)
  node.finish (.unterminatedElement node.name)
  return read

/-- Reads a field of a struct; it is optional unless it is flagged as required. -/
def fieldDecl (node : Node) : Except ParseError FieldDecl := do
  let name ← node.required "name"
  let type ← node.typeExpr "type"
  let required ← node.flag "required"
  return { name, type, required }

/-- Reads a mapping; the source of the destination's name comes first unless it is overridden. -/
def mappingDecl (node : Node) : Except ParseError MappingDecl := do
  let dest ← node.required "to"
  let source ← node.required "from"
  let overrides ← node.flag "override"
  return { dest, source, overrides }

/-- Reads an element inside a schema. -/
def definition (node : Node) : Except ParseError Definition := do
  if node.name = "struct" then
    let name ← node.required "name"
    return .struct name (← node.items "field" fieldDecl)
  else if node.name = "enum" then
    let name ← node.required "name"
    return .enum name (← node.items "value" (·.required "name"))
  else if node.name = "typedef" then
    node.skip
    let name ← node.required "name"
    return .typedef name (← node.typeExpr "type")
  else throw (.unknownElement node.name "schema")

/-- Reads a schema with its definitions. -/
def schema (node : Node) : Except ParseError Schema := do
  let name ← node.required "name"
  let file ← node.required "file"
  let definitions ← node.children.mapM definition
  node.finish (.unterminatedSchema name)
  return { name, file, definitions }

/-- Reads a conversion with its mappings. -/
def conversionDecl (node : Node) : Except ParseError ConversionDecl := do
  let name ← node.required "name"
  let source ← node.required "from"
  let dest ← node.required "to"
  let mappings ← node.items "mapping" mappingDecl
  return { name, source, dest, mappings }

end Markup.Node

namespace Document

/-- Adds what an element at document level declares. -/
def declare (d : Document) (node : Node) : Except ParseError Document := do
  if node.name = "schema" then
    return { d with schemas := d.schemas ++ [← node.schema] }
  else if node.name = "conversion" then
    return { d with conversions := d.conversions ++ [← node.conversionDecl] }
  else throw (.unknownElement node.name "idl")

/-- The document that the elements of a text declare. -/
def ofForest (forest : Forest) : Except ParseError Document := do
  let stopped : Except ParseError Unit := match forest.fault? with
    | some fault => .error (.markup fault)
    | none => .ok ()
  match forest.nodes with
  | [] =>
    stopped
    throw .noRoot
  | root :: behind =>
    if root.name ≠ "idl" then throw (.unknownElement root.name "document")
    let document ← (root.children ++ behind).foldlM declare ⟨[], []⟩
    stopped
    return document

/-- Reads a document text. -/
def read (text : String) : Except ParseError Document :=
  ofForest (Forest.ofText text)

/-- Reads the content of a file, if there is one. -/
def ofContent (content? : Option ByteArray) : Except ParseError Document :=
  match content?.bind String.fromUTF8? with
  | some text => read text
  | none => .error .unreadable

end Document

end Crosswalk
