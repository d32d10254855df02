import Crosswalk.Catalog.Resolution
import Crosswalk.Proofs.Except

/-!
# Resolved mappings

The mappings of a resolved conversion lead from its source struct to the fields that they name.
-/

namespace Crosswalk
set_option autoImplicit false

/-- The names of a mapping lead through parents of the noted optionality to its field. -/
def Mapping.LeadsFrom (source : Struct) (m : Mapping) : Prop :=
  ∃ passed, fieldsAlong? source.fields m.source = some passed ∧ passed.getLast? = some m.field ∧
    m.parentsOptional = passed.dropLast.map (·.isOptional)

/-- A resolved mapping leads from the source struct to its field. -/
theorem MappingDecl.leadsFrom_of_resolve {source : Struct} {m : MappingDecl} {mapping : Mapping}
    (h : m.resolve source = .ok mapping) : mapping.LeadsFrom source := by
  simp only [MappingDecl.resolve] at h
  split at h
  · cases h
  · next field last =>
    cases h
    cases found : fieldsAlong? source.fields
        ((Text.splitOn '.' m.source.toList).map String.ofList) with
    | none => simp [found] at last
    | some passed =>
      rw [found] at last
      exact ⟨passed, found, last, rfl⟩

/-! ## Conversions -/

namespace Document
variable {d : Document} {decl : ConversionDecl} {c : Conversion} {cache cache' : Cache}
  {fault : SchemaError}

/-- Both ends of a conversion, the source first. -/
def resolveEnds (d : Document) (decl : ConversionDecl) : Resolving (Struct × Struct) := do
  let context := "conversion '" ++ decl.name ++ "'"
  let source ← d.resolveStruct decl.source context
  let dest ← d.resolveStruct decl.dest context
  return (source, dest)

theorem resolveConversion_eq (d : Document) (decl : ConversionDecl) :
    d.resolveConversion decl = d.resolveEnds decl >>= fun ends => do
      let mappings ← (decl.mappings.mapM (·.resolve ends.1) : Except SchemaError _)
      return { name := decl.name, source := ends.1, dest := ends.2, mappings } := by
  simp [resolveConversion, resolveEnds]

/-- A resolved conversion has both ends of its declaration, and the mappings in order and with their
sources found. -/
theorem resolveConversion_eq_ok (h : d.resolveConversion decl cache = .ok (c, cache')) :
    c.name = decl.name ∧ d.resolveEnds decl cache = .ok ((c.source, c.dest), cache') ∧
      decl.mappings.mapM (·.resolve c.source) = .ok c.mappings := by
  rw [resolveConversion_eq] at h
  obtain ⟨⟨source, dest⟩, behind, ends, h⟩ := stateT_bind_eq_ok.1 h
  obtain ⟨mappings, _, resolved, h⟩ := stateT_bind_eq_ok.1 h
  obtain ⟨rfl, rfl⟩ := stateT_pure_eq_ok.1 h
  obtain ⟨mapped, rfl⟩ := stateT_lift_eq_ok.1 resolved
  exact ⟨rfl, ends, mapped⟩

/-- A conversion fails with one of its ends, or else with its mappings. -/
theorem resolveConversion_eq_error_iff : d.resolveConversion decl cache = .error fault ↔
    d.resolveEnds decl cache = .error fault ∨
      ∃ source dest behind, d.resolveEnds decl cache = .ok ((source, dest), behind) ∧
        decl.mappings.mapM (·.resolve source) = .error fault := by
  rw [resolveConversion_eq, stateT_bind_eq_error]
  refine or_congr_right ⟨?_, ?_⟩
  · rintro ⟨⟨source, dest⟩, behind, ends, h⟩
    rcases stateT_bind_eq_error.1 h with failed | ⟨_, _, _, h⟩
    · exact ⟨source, dest, behind, ends, stateT_lift_eq_error.1 failed⟩
    · cases h
  · rintro ⟨source, dest, behind, ends, failed⟩
    exact ⟨(source, dest), behind, ends,
      stateT_bind_eq_error.2 (.inl (stateT_lift_eq_error.2 failed))⟩

end Document

/-- The conversions of a catalog are the declared ones, in order. -/
theorem Catalog.forall₂_decl {d : Document} {catalog : Catalog}
    (h : Catalog.ofDocument d = .ok catalog) :
    List.Forall₂ (fun (decl : ConversionDecl) (c : Conversion) => c.name = decl.name ∧
      decl.mappings.mapM (·.resolve c.source) = .ok c.mappings) d.conversions
      catalog.conversions := by
  unfold Catalog.ofDocument at h
  obtain ⟨⟨conversions, types⟩, resolved, h⟩ := bind_eq_ok.1 h
  obtain rfl := pure_eq_ok.1 h
  unfold Document.resolveAll at resolved
  obtain ⟨_, cache, _, resolved⟩ := stateT_bind_eq_ok.1 resolved
  refine (stateT_forall₂_of_mapM resolved).imp fun decl c => ?_
  rintro ⟨_, _, found⟩
  obtain ⟨name, _, mappings⟩ := Document.resolveConversion_eq_ok found
  exact ⟨name, mappings⟩

/-- Each conversion of a catalog is a declared one, with its mappings resolved from the source. -/
theorem Catalog.exists_decl {d : Document} {catalog : Catalog} {c : Conversion}
    (h : Catalog.ofDocument d = .ok catalog) (mem : c ∈ catalog.conversions) :
    ∃ decl ∈ d.conversions, c.name = decl.name ∧
      decl.mappings.mapM (·.resolve c.source) = .ok c.mappings :=
  exists_of_forall₂ (List.Forall₂.flip (Catalog.forall₂_decl h)) mem

/-- Conversions stand in the order in which they are declared. -/
theorem Catalog.names_eq {d : Document} {catalog : Catalog}
    (h : Catalog.ofDocument d = .ok catalog) :
    catalog.conversions.map (·.name) = d.conversions.map (·.name) := by
  have same : List.Forall₂ (· = ·) (catalog.conversions.map (·.name))
      (d.conversions.map (·.name)) := by
    rw [List.forall₂_map_left_iff, List.forall₂_map_right_iff]
    exact (Catalog.forall₂_decl h).flip.imp fun _ _ both => both.1
  exact List.forall₂_eq_eq_eq ▸ same

/-- So all mappings of a catalog lead from the source of their conversion. -/
theorem Catalog.leadsFrom {d : Document} {catalog : Catalog} {c : Conversion} {m : Mapping}
    (h : Catalog.ofDocument d = .ok catalog) (conversion : c ∈ catalog.conversions)
    (mem : m ∈ c.mappings) : m.LeadsFrom c.source := by
  obtain ⟨_, _, _, resolved⟩ := Catalog.exists_decl h conversion
  obtain ⟨decl, _, found⟩ := exists_of_mem_mapM resolved mem
  exact decl.leadsFrom_of_resolve found

end Crosswalk
