import Crosswalk.Document.SchemaError

/-!
# Validation

A document is valid if no name is declared twice in one place and no schema name holds a dot, so
that `schema.Type` can be cut at its first dot. References are not looked at. The check goes through
the document in order and stops at the first fault, schemas before conversions.
-/

namespace Crosswalk
set_option autoImplicit false

/-- Checks items in order; an item with the name of an earlier one is refused. -/
def checkDistinct {α : Type} (name : α → String) (refusal : α → SchemaError)
    (check : α → Except SchemaError Unit) : List String → List α → Except SchemaError Unit
  | _, [] => .ok ()
  | seen, item :: rest => do
    if name item ∈ seen then throw (refusal item)
    check item
    checkDistinct name refusal check (name item :: seen) rest

/-- Checks that items have distinct names, and nothing else. -/
def checkNames {α : Type} (name : α → String) (refusal : α → SchemaError) (items : List α) :
    Except SchemaError Unit :=
  checkDistinct name refusal (fun _ => .ok ()) [] items

/-- The fields of a struct have different names, and so have the values of an enum. -/
def Definition.validate : Definition → Except SchemaError Unit
  | struct name fields => checkNames (·.name) (fun f => .duplicate (.field name f.name)) fields
  | enum name values => checkNames id (.repeatedValue · name) values
  | typedef .. => .ok ()

/-- The name of a schema has no dot, and its definitions have different names and are valid. -/
def Schema.validate (s : Schema) : Except SchemaError Unit := do
  if s.name.contains '.' then throw (.dottedSchema s.name)
  checkDistinct (·.name) (fun d => .duplicate (.definition d.kind s.name d.name))
    Definition.validate [] s.definitions

/-- The mappings of a conversion have different targets, compared as texts. -/
def ConversionDecl.validate (c : ConversionDecl) : Except SchemaError Unit :=
  checkNames (·.dest) (fun m => .repeatedTarget m.dest c.name) c.mappings

/-- Schemas have different names and are valid, and so are conversions. -/
def Document.validate (d : Document) : Except SchemaError Unit := do
  checkDistinct (·.name) (fun s => .duplicate (.schema s.name)) Schema.validate [] d.schemas
  checkDistinct (·.name) (fun c => .duplicate (.conversion c.name)) ConversionDecl.validate []
    d.conversions

end Crosswalk
