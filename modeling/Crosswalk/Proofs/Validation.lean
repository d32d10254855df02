import Crosswalk.Document.Validation
import Crosswalk.Proofs.Except
import Mathlib.Data.List.Nodup

/-!
# What validation accepts

The checks of names, each as the condition that it decides.
-/

namespace Crosswalk
set_option autoImplicit false

/-- Items pass if their names differ from each other and from those seen before, and each passes
its own check. -/
theorem checkDistinct_eq_ok_iff {α : Type} {name : α → String} {refusal : α → SchemaError}
    {check : α → Except SchemaError Unit} {seen : List String} {items : List α} :
    checkDistinct name refusal check seen items = .ok () ↔
      (items.map name).Nodup ∧ (∀ item ∈ items, name item ∉ seen) ∧
        ∀ item ∈ items, check item = .ok () := by
  induction items generalizing seen with
  | nil => simp [checkDistinct]
  | cons item rest ih =>
    have unseen : (∀ other ∈ rest, name other ∉ name item :: seen) ↔
        (name item ∉ rest.map name) ∧ ∀ other ∈ rest, name other ∉ seen := by
      simp only [List.mem_cons, not_or, List.mem_map, not_exists, not_and]
      exact forall₂_and
    rw [checkDistinct, refuse_eq_ok, bind_eq_ok, List.map_cons, List.nodup_cons]
    simp only [ih, unseen, List.forall_mem_cons]
    constructor
    · rintro ⟨fresh, _, checked, differ, ⟨apart, others⟩, each⟩
      exact ⟨⟨apart, differ⟩, ⟨fresh, others⟩, checked, each⟩
    · rintro ⟨⟨apart, differ⟩, ⟨fresh, others⟩, checked, each⟩
      exact ⟨fresh, (), checked, differ, ⟨apart, others⟩, each⟩

/-- Names pass if none of them is there twice. -/
theorem checkNames_eq_ok_iff {α : Type} {name : α → String} {refusal : α → SchemaError}
    {items : List α} : checkNames name refusal items = .ok () ↔ (items.map name).Nodup := by
  rw [checkNames, checkDistinct_eq_ok_iff]
  simp

theorem ConversionDecl.validate_eq_ok_iff {c : ConversionDecl} :
    c.validate = .ok () ↔ (c.mappings.map (·.dest)).Nodup :=
  checkNames_eq_ok_iff

/-- A schema passes if its own name has no dot, the names of its definitions differ, and each
definition passes. -/
theorem Schema.validate_eq_ok_iff {s : Schema} :
    s.validate = .ok () ↔ '.' ∉ s.name.toList ∧ (s.definitions.map (·.name)).Nodup ∧
      ∀ x ∈ s.definitions, x.validate = .ok () := by
  have dotted : s.name.contains '.' = true ↔ '.' ∈ s.name.toList := by
    simp [String.contains_char_eq]
  rw [Schema.validate, refuse_eq_ok, checkDistinct_eq_ok_iff, dotted]
  simp

/-- A document passes if schemas have different names, conversions have different names, and all of
them pass. -/
theorem Document.validate_eq_ok_iff {d : Document} :
    d.validate = .ok () ↔
      ((d.schemas.map (·.name)).Nodup ∧ ∀ s ∈ d.schemas, s.validate = .ok ()) ∧
        (d.conversions.map (·.name)).Nodup ∧ ∀ c ∈ d.conversions, c.validate = .ok () := by
  have each {α : Type} {name : α → String} {refusal : α → SchemaError}
      {check : α → Except SchemaError Unit} {items : List α} :
      checkDistinct name refusal check [] items = .ok () ↔
        (items.map name).Nodup ∧ ∀ item ∈ items, check item = .ok () := by
    simp [checkDistinct_eq_ok_iff]
  rw [Document.validate, bind_eq_ok, each]
  constructor
  · rintro ⟨_, schemas, conversions⟩
    exact ⟨each.1 schemas, conversions⟩
  · rintro ⟨schemas, conversions⟩
    exact ⟨(), each.2 schemas, conversions⟩

/-- So the first dot in a qualified name is behind the schema's. -/
theorem Document.undotted_of_mem {d : Document} {s : Schema} (valid : d.validate = .ok ())
    (mem : s ∈ d.schemas) : '.' ∉ s.name.toList :=
  (Schema.validate_eq_ok_iff.1 ((Document.validate_eq_ok_iff.1 valid).1.2 s mem)).1

/-- The definitions of a schema have different names. -/
theorem Document.nodup_definitions {d : Document} {s : Schema} (valid : d.validate = .ok ())
    (mem : s ∈ d.schemas) : (s.definitions.map (·.name)).Nodup :=
  (Schema.validate_eq_ok_iff.1 ((Document.validate_eq_ok_iff.1 valid).1.2 s mem)).2.1

/-- The fields of a struct have different names. -/
theorem Document.nodup_fields {d : Document} {s : Schema} {name : String} {fields : List FieldDecl}
    (valid : d.validate = .ok ()) (home : s ∈ d.schemas)
    (mem : .struct name fields ∈ s.definitions) : (fields.map (·.name)).Nodup := by
  obtain ⟨_, each⟩ := (Document.validate_eq_ok_iff.1 valid).1
  obtain ⟨_, _, checked⟩ := Schema.validate_eq_ok_iff.1 (each s home)
  exact checkNames_eq_ok_iff.1 (checked _ mem)

end Crosswalk
