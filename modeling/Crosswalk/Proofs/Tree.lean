import Crosswalk.Proofs.Emission
import Crosswalk.Proofs.Spelling
import Mathlib.Data.List.Nodup

/-!
# Destination trees

A conversion goes down from a struct to its fields, and from a list or map to the structs that are
its elements. `FieldAt` says which field a path leads to. An alias is copied whole, so what it names
is no part of the tree.
-/

namespace Crosswalk
set_option autoImplicit false

/-- Segments that lead from the fields of a struct down to a field. -/
inductive FieldAt : List Field → List Segment → Field → Prop
  | here {fields : List Field} {f : Field} (mem : f ∈ fields) : FieldAt fields [.field f.name] f
  | struct {fields : List Field} {f g : Field} {s : Struct} {below : List Segment}
      (mem : f ∈ fields) (kind : f.type = s.toTy) (h : FieldAt s.fields below g) :
      FieldAt fields (.field f.name :: below) g
  | element {fields : List Field} {f g : Field} {s : Struct} {shape : Shape}
      {below : List Segment} (mem : f ∈ fields) (kind : f.type.elements? = some (shape, s.toTy))
      (h : FieldAt s.fields below g) : FieldAt fields (.field f.name :: shape.marker :: below) g

/-- A type is a struct of these fields, or has one in its fields or elements. -/
inductive Ty.HasStruct : Ty → List Field → Prop
  | here {name file : String} {fields : List Field} : HasStruct (.struct name file fields) fields
  | field {name file : String} {fields inner : List Field} {f : Field} (mem : f ∈ fields)
      (h : HasStruct f.type inner) : HasStruct (.struct name file fields) inner
  | element {ty element : Ty} {shape : Shape} {inner : List Field}
      (he : ty.elements? = some (shape, element)) (h : HasStruct element inner) :
      HasStruct ty inner

/-- A property of the fields of a struct, for all structs of a tree. -/
def EachStruct (P : List Field → Prop) (fields : List Field) : Prop :=
  P fields ∧ ∀ f ∈ fields, ∀ inner, f.type.HasStruct inner → P inner

/-- Fields with different names. -/
def NamesDiffer (fields : List Field) : Prop :=
  (fields.map (·.name)).Nodup

/-- Fields whose names are spelled differently as parts of identifiers. -/
def SpellingsDiffer (fields : List Field) : Prop :=
  (fields.map fun f => (Segment.field f.name).ident).Nodup

namespace EachStruct
variable {P : List Field → Prop} {fields : List Field} {f : Field} {s : Struct} {shape : Shape}

theorem of_hasStruct {ty : Ty} (h : ∀ inner, ty.HasStruct inner → P inner)
    (kind : ty = s.toTy) : EachStruct P s.fields := by
  subst kind
  exact ⟨h _ .here, fun f mem inner has => h inner (.field mem has)⟩

theorem of_struct (h : EachStruct P fields) (mem : f ∈ fields) (kind : f.type = s.toTy) :
    EachStruct P s.fields :=
  of_hasStruct (h.2 f mem) kind

theorem of_element (h : EachStruct P fields) (mem : f ∈ fields)
    (kind : f.type.elements? = some (shape, s.toTy)) : EachStruct P s.fields :=
  of_hasStruct (fun inner has => h.2 f mem inner (.element kind has)) rfl

end EachStruct

namespace FieldAt
variable {fields : List Field} {p q : List Segment} {f g : Field}

theorem ne_nil (h : FieldAt fields p f) : p ≠ [] := by
  cases h <;> simp

theorem mono {more : List Field} (sub : fields ⊆ more) (h : FieldAt fields p f) :
    FieldAt more p f := by
  cases h with
  | here mem => exact .here (sub mem)
  | struct mem kind below => exact .struct (sub mem) kind below
  | element mem kind below => exact .element (sub mem) kind below

/-- Where the names of a struct are spelled differently, no two paths are spelled alike. -/
theorem eq_of_alike (h : FieldAt fields p f) : EachStruct SpellingsDiffer fields →
    ∀ {q : List Segment} {g : Field}, FieldAt fields q g →
      p.map Segment.ident = q.map Segment.ident → p = q := by
  -- by one field and then the other; the first step of both is spelled alike, so it is the same
  induction h with
  | @here fields f mem =>
    intro differ q g other alike
    cases other with
    | @here _ g mem' =>
      have same := List.inj_on_of_nodup_map differ.1 mem mem' (List.cons.inj alike).1
      rw [same]
    | struct _ _ below => exact absurd (by simpa using (List.cons.inj alike).2) below.ne_nil
    | element => simp at alike
  | @struct fields f _ s below mem kind h ih =>
    intro differ q g other alike
    cases other with
    -- a field is not spelled like one further inside
    | here mem' => exact absurd (by simpa using (List.cons.inj alike).2) h.ne_nil
    | @struct _ g _ t below' mem' kind' other =>
      obtain ⟨first, rest⟩ := List.cons.inj alike
      obtain rfl : f = g := List.inj_on_of_nodup_map differ.1 mem mem' first
      obtain rfl := Struct.toTy_inj (kind.symm.trans kind')
      rw [ih (differ.of_struct mem kind) other rest]
    | element mem' kind' other =>
      obtain ⟨first, rest⟩ := List.cons.inj alike
      obtain rfl := List.inj_on_of_nodup_map differ.1 mem mem' first
      -- a type is not both a struct and an aggregate
      simp [kind, Struct.elements?_toTy] at kind'
  | @element fields f _ s shape below mem kind h ih =>
    intro differ q g other alike
    cases other with
    | here mem' => simp at alike
    | struct mem' kind' other =>
      obtain ⟨first, rest⟩ := List.cons.inj alike
      obtain rfl := List.inj_on_of_nodup_map differ.1 mem mem' first
      simp [kind', Struct.elements?_toTy] at kind
    | @element _ g _ t shape' below' mem' kind' other =>
      obtain ⟨first, rest⟩ := List.cons.inj alike
      obtain rfl : f = g := List.inj_on_of_nodup_map differ.1 mem mem' first
      obtain ⟨rfl, same⟩ : shape = shape' ∧ s.toTy = t.toTy := by
        simpa using kind.symm.trans kind'
      obtain rfl := Struct.toTy_inj same
      rw [ih (differ.of_element mem kind) other (List.cons.inj rest).2]

end FieldAt

end Crosswalk
