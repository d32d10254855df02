/-!
# Field trees

The resolved types that a conversion works on. Every named type carries the schema file it was
declared in, and a struct carries its fields in declaration order. `Ty.resolved` follows aliases;
the shape predicates that decide whether two types can be converted look at the resolved type.
-/

namespace Crosswalk
set_option autoImplicit false

/-- Scalar types of the schema language. -/
inductive Primitive
  | bool | i8 | i16 | i32 | i64 | double | string
  deriving DecidableEq, Repr

namespace Primitive

/-- The name in type expressions. -/
def idlName : Primitive → String
  | bool => "bool"
  | i8 => "i8"
  | i16 => "i16"
  | i32 => "i32"
  | i64 => "i64"
  | double => "double"
  | string => "string"

/-- The name in generated code. -/
def codeName : Primitive → String
  | bool => "bool"
  | i8 => "i8"
  | i16 => "i16"
  | i32 => "i32"
  | i64 => "i64"
  | double => "f64"
  | string => "String"

/-- Reads a name; `byte` is a second name of `i8`. -/
def ofIdlName? (name : String) : Option Primitive :=
  if name = "bool" then some bool
  else if name = "i8" then some i8
  else if name = "byte" then some i8
  else if name = "i16" then some i16
  else if name = "i32" then some i32
  else if name = "i64" then some i64
  else if name = "double" then some double
  else if name = "string" then some string
  else none

/-- The names in type expressions are read back as they are written. -/
theorem ofIdlName?_idlName (p : Primitive) : ofIdlName? p.idlName = some p := by
  cases p <;> rfl

end Primitive

/-- The shape of a type. -/
inductive Kind
  | primitive | binary | enum | struct | typedef | list | map | set
  deriving DecidableEq, Repr

/-- The word for a kind in messages. -/
def Kind.name : Kind → String
  | primitive => "primitive"
  | binary => "binary"
  | enum => "enum"
  | struct => "struct"
  | typedef => "typedef"
  | list => "list"
  | map => "map"
  | set => "set"

/-- A struct member whose type is a `τ`. -/
structure FieldOf (τ : Type) where
  name : String
  type : τ
  required : Bool
  file : String
  deriving DecidableEq, Repr

/-- A resolved type: references are replaced by what they name, aliases are kept. -/
inductive Ty
  | primitive (p : Primitive)
  | binary
  | enum (name file : String) (values : List String)
  | struct (name file : String) (fields : List (FieldOf Ty))
  | typedef (name file : String) (target : Ty)
  | list (element : Ty)
  | map (key value : Ty)
  | set (element : Ty)
  deriving Repr

/-- A struct member. -/
abbrev Field := FieldOf Ty

/-- An optional field may be absent at run time. -/
def FieldOf.isOptional {τ : Type} (f : FieldOf τ) : Bool :=
  !f.required

/-- The first field of a name. -/
def findField? (fields : List Field) (name : String) : Option Field :=
  fields.find? (·.name == name)

/-- What is found under a name has that name. -/
theorem name_of_findField? {fields : List Field} {name : String} {f : Field}
    (h : findField? fields name = some f) : f.name = name := by
  simpa using List.find?_some h

namespace Ty

/-- The shape of a type, aliases not followed. -/
def kind : Ty → Kind
  | primitive _ => .primitive
  | binary => .binary
  | enum .. => .enum
  | struct .. => .struct
  | typedef .. => .typedef
  | list _ => .list
  | map .. => .map
  | set _ => .set

/-- The type behind a chain of aliases. -/
def resolved : Ty → Ty
  | typedef _ _ target => target.resolved
  | ty => ty

/-- The declared name, or the primitive's name in type expressions. -/
def name? : Ty → Option String
  | primitive p => some p.idlName
  | enum name .. => some name
  | struct name .. => some name
  | typedef name .. => some name
  | _ => none

/-- The schema file a named type was declared in. -/
def file? : Ty → Option String
  | enum _ file _ => some file
  | struct _ file _ => some file
  | typedef _ file _ => some file
  | _ => none

/-- Lists, maps and sets hold elements of another type. -/
def isAggregate : Ty → Bool
  | list _ => true
  | map .. => true
  | set _ => true
  | _ => false

/-- Structs, aliases not followed. -/
def isStruct : Ty → Bool
  | struct .. => true
  | _ => false

/-- The primitive type of strings, the only one of map keys. -/
def isString : Ty → Bool
  | primitive .string => true
  | _ => false

/-- A type whose values are copied whole. -/
def isScalar (ty : Ty) : Bool :=
  !ty.isAggregate && !ty.isStruct

/-- Behind the aliases there is none. -/
theorem kind_resolved_ne_typedef (ty : Ty) : ty.resolved.kind ≠ .typedef := by
  fun_induction resolved ty with
  | case1 _ _ _ ih => exact ih
  | case2 ty h =>
    cases ty with
    | typedef n f t => exact absurd rfl (h n f t)
    | _ => simp [kind]

@[simp] theorem resolved_resolved (ty : Ty) : ty.resolved.resolved = ty.resolved := by
  have h := kind_resolved_ne_typedef ty
  cases hr : ty.resolved with
  | typedef n f t => simp [hr, kind] at h
  | _ => rfl

end Ty

/-- A named struct with its fields. -/
structure Struct where
  name : String
  file : String
  fields : List Field
  deriving Repr

/-- A struct as a type. -/
def Struct.toTy (s : Struct) : Ty :=
  .struct s.name s.file s.fields

/-- The struct that a type is, aliases not followed. -/
def Ty.asStruct? : Ty → Option Struct
  | .struct name file fields => some ⟨name, file, fields⟩
  | _ => none

end Crosswalk
