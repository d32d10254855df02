import Crosswalk.Proofs.Emission

/-!
# Aggregates inside of aggregates

A list or map is filled by a loop, and so are those below its elements, if the elements are structs.
`Ty.Loops` says that a destination type has an aggregate of a shape, `Ty.Nests` that it has one
below the elements of another of the same shape.
-/

namespace Crosswalk
set_option autoImplicit false

namespace Ty

/-- A type is filled by a loop of a shape, or has fields or elements that are. -/
inductive Loops (shape : Shape) : Ty → Prop
  | here {ty element : Ty} (h : ty.elements? = some (shape, element)) : Loops shape ty
  | field {name file : String} {fields : List Field} {f : Field} (mem : f ∈ fields)
      (h : Loops shape f.type) : Loops shape (.struct name file fields)
  | element {ty element : Ty} {outer : Shape} (he : ty.elements? = some (outer, element))
      (h : Loops shape element) : Loops shape ty

/-- An aggregate has another of its own shape below its elements. -/
inductive Nests : Ty → Prop
  | here {ty element : Ty} {shape : Shape} (he : ty.elements? = some (shape, element))
      (h : element.Loops shape) : Nests ty
  | field {name file : String} {fields : List Field} {f : Field} (mem : f ∈ fields)
      (h : Nests f.type) : Nests (.struct name file fields)
  | element {ty element : Ty} {outer : Shape} (he : ty.elements? = some (outer, element))
      (h : Nests element) : Nests ty

/-- What is copied whole has no elements to go over. -/
theorem elements?_of_isCopied {ty : Ty} (h : ty.isCopied = true) : ty.elements? = none := by
  cases ty <;> simp_all [isCopied, elements?]

theorem elements?_of_not_isAggregate {ty : Ty} (h : ty.resolved.isAggregate = false) :
    ty.elements? = none := by
  cases ty <;> simp_all [isAggregate, elements?, resolved]

theorem isStruct_of_isCopied {ty : Ty} (h : ty.isCopied = true) : ty.isStruct = false := by
  cases ty <;> simp_all [isCopied, isStruct]

/-- A type without fields and elements of its own has no loops. -/
theorem not_loops {ty : Ty} {shape : Shape} (whole : ty.isStruct = false)
    (plain : ty.elements? = none) : ¬ ty.Loops shape := by
  intro h
  cases h with
  | here he => simp [plain] at he
  | field mem h => simp [isStruct] at whole
  | element he h => simp [plain] at he

/-- Without structs and elements nothing can be nested. -/
theorem not_nests {ty : Ty} (whole : ty.isStruct = false) (plain : ty.elements? = none) :
    ¬ ty.Nests := by
  intro h
  cases h with
  | here he h => simp [plain] at he
  | field mem h => simp [isStruct] at whole
  | element he h => simp [plain] at he

/-- A struct has a loop of a shape in it if one of its fields has. -/
theorem loops_struct_iff {s : Struct} {shape : Shape} :
    s.toTy.Loops shape ↔ ∃ f ∈ s.fields, f.type.Loops shape := by
  constructor
  · intro h
    cases h with
    | here he => simp [Struct.toTy, elements?] at he
    | field mem h => exact ⟨_, mem, h⟩
    | element he h => simp [Struct.toTy, elements?] at he
  · rintro ⟨f, mem, h⟩
    exact .field mem h

/-- A struct has nested loops of one shape if one of its fields has. -/
theorem nests_struct_iff {s : Struct} : s.toTy.Nests ↔ ∃ f ∈ s.fields, f.type.Nests := by
  constructor
  · intro h
    cases h with
    | here he h => simp [Struct.toTy, elements?] at he
    | field mem h => exact ⟨_, mem, h⟩
    | element he h => simp [Struct.toTy, elements?] at he
  · rintro ⟨f, mem, h⟩
    exact .field mem h

/-- The loops of an aggregate: its own and those of its elements. -/
theorem loops_iff_of_elements? {ty element : Ty} {outer shape : Shape}
    (he : ty.elements? = some (outer, element)) :
    ty.Loops shape ↔ outer = shape ∨ element.Loops shape := by
  constructor
  · intro h
    cases h with
    | here h => exact .inl (by simp_all)
    | field mem h => simp [elements?] at he
    | element he' h => exact .inr (by simp_all)
  · rintro (rfl | h)
    · exact .here he
    · exact .element he h

/-- In a list or map, loops are nested if its elements have a loop of its own shape, or nested loops
themselves. -/
theorem nests_iff_of_elements? {ty element : Ty} {outer : Shape}
    (he : ty.elements? = some (outer, element)) :
    ty.Nests ↔ element.Loops outer ∨ element.Nests := by
  constructor
  · intro h
    cases h with
    | here he' h =>
      obtain ⟨rfl, rfl⟩ : _ = outer ∧ _ = element := by simpa using he'.symm.trans he
      exact .inl h
    | field mem h => simp [elements?] at he
    | element he' h => exact .inr (by simp_all)
  · rintro (h | h)
    · exact .here he h
    · exact .element he h

end Ty

/-! ## Tasks -/

/-- The place that a task fills. -/
def Task.target : Task → Place
  | .fields level _ _ => level.dest
  | .value _ slot _ _ => slot.place
  | .body _ _ slot _ => slot.place

/-- A property of types, of what a task fills. -/
def Task.Fills (P : Ty → Prop) : Task → Prop
  | .fields _ _ dests => ∃ f ∈ dests, P f.type
  | .value _ _ _ type => P type
  | .body _ s _ _ => P s.toTy

end Crosswalk
