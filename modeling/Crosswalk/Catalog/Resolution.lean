import Crosswalk.Catalog
import Crosswalk.Document.SchemaError
import Crosswalk.Text.Split

/-!
# Resolution

Names in a document are replaced by what they denote: a plain name a definition of the schema it is
written in, `schema.Type` one of that schema. Resolved definitions are remembered, and the keys of
the definitions being resolved stand on a stack: meeting one of them again is a circle. A definition
is entered only if it is not on the stack, so the definitions left to enter bound the search.
-/

namespace Crosswalk
set_option autoImplicit false
open Crosswalk.Text

/-! ## One step, given what references denote -/

section Step
variable {M : Type → Type} [Monad M]

/-- The type that an expression denotes. What names denote is an argument, so the search can be told
apart from the structure that it goes through. -/
def TypeExpr.resolve (ref : String → M Ty) : TypeExpr → M Ty
  | primitive p => pure (.primitive p)
  | binary => pure .binary
  | named name => ref name
  | list element => do return .list (← element.resolve ref)
  | set element => do return .set (← element.resolve ref)
  | map key value => do
    let key ← key.resolve ref
    let value ← value.resolve ref
    return .map key value

/-- A field keeps the file of the schema that declares it. -/
def FieldDecl.resolve (ref : String → M Ty) (file : String) (f : FieldDecl) : M Field := do
  let type ← f.type.resolve ref
  return { name := f.name, type, required := f.required, file }

/-- The type of a definition, with the types in it resolved in order. -/
def Definition.resolve (ref : String → M Ty) (file : String) : Definition → M Ty
  | struct name fields => do return .struct name file (← fields.mapM (·.resolve ref file))
  | enum name values => pure (.enum name file values)
  | typedef name target => do return .typedef name file (← target.resolve ref)

end Step

/-! ## What a reference denotes -/

/-- A schema of a document. -/
abbrev Document.Home (d : Document) : Type :=
  { s : Schema // s ∈ d.schemas }

/-- The first schema of a name, as one of the document. -/
def Document.home? (d : Document) (name : String) : Option d.Home :=
  match h : d.schema? name with
  | some s => some ⟨s, schema?_mem h⟩
  | none => none

/-- A reference cut at its first dot. -/
def cutReference (reference : String) : Option (String × String) :=
  (cut? '.' reference.toList).map fun (schema, name) => (String.ofList schema, String.ofList name)

/-- The schema and the name in it that a reference written in the schema `home` denotes. -/
def Document.locate (d : Document) (home : d.Home) (reference : String) :
    Except SchemaError (d.Home × String) :=
  match cutReference reference with
  | none => .ok (home, reference)
  | some (qualifier, name) =>
    match d.home? qualifier with
    | some schema => .ok (schema, name)
    | none => .error (.schemaNotFound qualifier)

/-! ## The definitions left to enter -/

/-- The number of definitions whose keys are not on the stack. -/
def Document.left (d : Document) (stack : List String) : Nat :=
  (d.keys.filter (· ∉ stack)).length

namespace Schema

/-- Every entry of an index points at a definition of its name. -/
def IndexSound (index : List (String × Nat)) (definitions : List Definition) : Prop :=
  ∀ name position, index.lookup name = some position →
    ∃ d, definitions[position]? = some d ∧ d.name = name

/-- Entering a definition keeps the entries for those before it, and adds one only for a new name.
-/
theorem IndexSound.enter {index : List (String × Nat)} {definitions : List Definition}
    (h : IndexSound index definitions) (d : Definition) :
    IndexSound (Schema.enter index d.name definitions.length) (definitions ++ [d]) := by
  -- what was entered still points to the same definition, since the new one stands at the end
  have old : IndexSound index (definitions ++ [d]) := by
    intro name position hl
    obtain ⟨e, he, hn⟩ := h name position hl
    have hlt := (List.getElem?_eq_some_iff.1 he).1
    exact ⟨e, by rw [List.getElem?_append_left hlt]; exact he, hn⟩
  unfold Schema.enter
  split
  · exact old
  · intro name position hl
    rw [List.lookup_append] at hl
    cases hi : index.lookup name with
    | some p =>
      rw [hi] at hl
      simp only [Option.some_or, Option.some.injEq] at hl
      exact hl ▸ old name p hi
    | none =>
      rw [hi] at hl
      -- the only new entry is that of the new name, at the position of the new definition
      by_cases hn : name = d.name
      · simp [hn] at hl
        exact ⟨d, by simp [← hl], hn.symm⟩
      · have hb : (name == d.name) = false := by simpa using hn
        simp [List.lookup_cons, hb] at hl

/-- The index is built over the definitions done so far, which the induction has in front. -/
theorem indexSound_foldl (rest : List Definition) :
    ∀ (done : List Definition) (index : List (String × Nat)), IndexSound index done →
      IndexSound ((rest.zipIdx done.length).foldl
        (fun entries (d, position) => Schema.enter entries d.name position) index)
        (done ++ rest) := by
  induction rest with
  | nil => intro done index h; simpa using h
  | cons d rest ih =>
    intro done index h
    have := ih (done ++ [d]) _ (h.enter d)
    simpa [List.zipIdx_cons] using this

/-- The index of a schema points at definitions of the names it has. -/
theorem indexSound (s : Schema) : IndexSound s.index s.definitions := by
  have := indexSound_foldl s.definitions [] [] (by intro name position h; simp at h)
  simpa [Schema.index] using this

/-- What is found under a name has that name. -/
theorem name_of_find? {s : Schema} {name : String} {d : Definition}
    (h : s.find? name = some d) : d.name = name := by
  simp only [Schema.find?, Option.bind_eq_some_iff] at h
  obtain ⟨position, hl, hd⟩ := h
  obtain ⟨e, he, hn⟩ := indexSound s name position hl
  rw [hd] at he
  cases he
  exact hn

end Schema

/-- The key of a definition that is found is among the keys of the document. -/
theorem Document.key_mem {d : Document} {s : Schema} {name : String} {definition : Definition}
    (hs : s ∈ d.schemas) (hd : s.find? name = some definition) : s.key name ∈ d.keys := by
  simp only [Document.keys, List.mem_flatMap, List.mem_map]
  exact ⟨s, hs, definition, Schema.find?_mem hd, by rw [Schema.name_of_find? hd]⟩

/-- Entering a definition leaves fewer to enter. -/
theorem Document.left_lt {d : Document} {stack : List String} {key : String}
    (hk : key ∈ d.keys) (hs : key ∉ stack) : d.left (stack ++ [key]) < d.left stack := by
  have split : d.keys.filter (· ∉ stack ++ [key]) =
      (d.keys.filter (· ∉ stack)).filter (· ≠ key) := by
    rw [List.filter_filter]
    congr 1
    funext k
    simp [and_comm]
  unfold Document.left
  rw [split]
  exact List.length_filter_lt_length_iff_exists.2
    ⟨key, by simp [hk, hs], by simp⟩

/-! ## The search -/

/-- The definitions resolved so far, under their keys. -/
abbrev Cache := List (String × Ty)

/-- A search goes on with the definitions resolved so far, or ends with an error. -/
abbrev Resolving := StateT Cache (Except SchemaError)

/-- The type that a reference denotes, seen from a schema while `stack` is being resolved. -/
def Document.resolve (d : Document) (stack : List String) (home : d.Home) (reference : String) :
    Resolving Ty := fun cache =>
  match d.locate home reference with
  | .error e => .error e
  | .ok (schema, name) =>
    let key := schema.1.key name
    match cache.lookup key with
    | some ty => .ok (ty, cache)
    | none =>
      if _ : key ∈ stack then .error (.circular (stack ++ [key]))
      else
        match _ : schema.1.find? name with
        | none => .error (.typeNotFound name schema.1.name)
        | some definition => do
          let (ty, cache) ← (definition.resolve (fun r => d.resolve (stack ++ [key]) schema r)
            schema.1.file : Resolving Ty) cache
          return (ty, (key, ty) :: cache)
termination_by d.left stack
decreasing_by exact Document.left_lt (Document.key_mem schema.2 (by assumption)) (by assumption)

/-- The struct that an end of a conversion names as `schema.Type`. -/
def Document.resolveStruct (d : Document) (reference context : String) : Resolving Struct := do
  match cutReference reference with
  | none => throw (.typeNotFound reference context)
  | some (qualifier, name) =>
    match d.home? qualifier with
    | none => throw (.schemaNotFound qualifier)
    | some schema =>
      let ty ← d.resolve [] schema name
      match ty.asStruct? with
      | some struct => return struct
      | none => throw (.notAStruct reference ty.kind)

/-- Finds the source field of a mapping. -/
def MappingDecl.resolve (source : Struct) (m : MappingDecl) : Except SchemaError Mapping :=
  let way := (splitOn '.' m.source.toList).map String.ofList
  let passed := (fieldsAlong? source.fields way).getD []
  match passed.getLast? with
  | none => .error (.fieldNotFound m.source source.name)
  | some field => .ok {
      dest := m.dest
      source := way
      field
      parentsOptional := passed.dropLast.map (·.isOptional)
      overrides := m.overrides }

/-- Resolves the source of a conversion, then its destination, then the source fields of its
mappings in order. -/
def Document.resolveConversion (d : Document) (c : ConversionDecl) : Resolving Conversion := do
  let context := "conversion '" ++ c.name ++ "'"
  let source ← d.resolveStruct c.source context
  let dest ← d.resolveStruct c.dest context
  let mappings ← (c.mappings.mapM (·.resolve source) : Except SchemaError _)
  return { name := c.name, source, dest, mappings }

/-- Resolves all definitions in document order, then all conversions. -/
def Document.resolveAll (d : Document) : Resolving (List Conversion) := do
  d.schemas.attach.forM fun home =>
    home.1.definitions.forM fun definition => discard <| d.resolve [] home definition.name
  d.conversions.mapM d.resolveConversion

/-- The catalog of a document. -/
def Catalog.ofDocument (d : Document) : Except SchemaError Catalog := do
  let (conversions, types) ← d.resolveAll.run []
  return { schemas := d.schemas.map fun s => (s.name, s.file), types, conversions }

end Crosswalk
