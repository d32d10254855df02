import Crosswalk.Proofs.Resolution
import Crosswalk.Proofs.Table
import Crosswalk.Proofs.Validation

/-!
# Targets of mappings

A mapping is declared for a path that is given as text. Validation refuses two mappings with the
same text, but a table has one entry for each path, and a path has many texts.
-/

namespace Crosswalk
set_option autoImplicit false

/-- Resolving a mapping leaves its target as it is written. -/
theorem MappingDecl.dest_of_resolve {source : Struct} {m : MappingDecl} {r : Mapping}
    (h : m.resolve source = .ok r) : r.dest = m.dest := by
  simp only [resolve] at h
  split at h
  · cases h
  · cases h
    rfl

/-- A table has the entries of declared mappings, each at the path that it is declared for, and no
others. -/
structure MappingTable.Keeps (t : MappingTable) (source : Struct) (decls : List MappingDecl) :
    Prop where
  size : t.size = decls.length
  entry : ∀ m ∈ decls, ∃ r path, m.resolve source = .ok r ∧ Path.parse m.dest = .ok path ∧
    t.get? path = some r.entry

section
variable {t : MappingTable} {mappings : List Mapping} {m : Mapping}

/-- A mapping has its entry if no other is to the same path. -/
theorem MappingTable.get?_of_nodup (h : ofMappings mappings = .ok t)
    (differ : (mappings.map fun m => Path.tidied m.dest).Nodup) (mem : m ∈ mappings) :
    ∃ path, Path.parse m.dest = .ok path ∧ t.get? path = some m.entry := by
  obtain ⟨path, parsed⟩ := exists_path_of_ofMappings h mem
  refine ⟨path, parsed, ?_⟩
  rw [get?_ofMappings h, Option.map_eq_some_iff]
  refine ⟨m, ?_, rfl⟩
  cases found : mappings.reverse.find? fun m => (Path.parse m.dest).toOption = some path with
  | none =>
    have none := List.find?_eq_none.1 found m (List.mem_reverse.2 mem)
    simp [parsed, Except.toOption] at none
  | some other =>
    have among := List.mem_reverse.1 (List.mem_of_find?_eq_some found)
    have same : Path.parse other.dest = .ok path := by
      simpa [toOption_eq_some] using List.find?_some found
    rw [List.inj_on_of_nodup_map differ among mem ((Path.eq_iff_tidied_eq same parsed).1 rfl)]

/-- A table keeps all mappings exactly if their targets differ as paths, and not only as texts. -/
theorem MappingTable.keeps_iff {source : Struct} {decls : List MappingDecl}
    (resolved : decls.mapM (·.resolve source) = .ok mappings) (h : ofMappings mappings = .ok t) :
    t.Keeps source decls ↔ (decls.map fun m => Path.tidied m.dest).Nodup := by
  have each := forall₂_of_mapM resolved
  have targets : (decls.map fun m => Path.tidied m.dest) =
      mappings.map fun m => Path.tidied m.dest := by
    rw [← List.forall₂_eq_eq_eq, List.forall₂_map_left_iff, List.forall₂_map_right_iff]
    exact each.imp fun m r h => by rw [MappingDecl.dest_of_resolve h]
  rw [targets]
  constructor
  · intro keeps
    have size := keeps.size.symm.trans (size_ofMappings h)
    rw [each.length_eq, ← List.length_map (fun m : Mapping => Path.tidied m.dest)] at size
    exact List.dedup_eq_self.1 ((List.dedup_sublist _).eq_of_length size.symm)
  · intro differ
    refine ⟨?_, fun m mem => ?_⟩
    · rw [size_ofMappings h, differ.dedup, List.length_map, each.length_eq]
    · obtain ⟨r, among, found⟩ := exists_of_forall₂ each mem
      obtain ⟨path, parsed, entry⟩ := get?_of_nodup h differ among
      rw [MappingDecl.dest_of_resolve found] at parsed
      exact ⟨r, path, found, parsed, entry⟩

end

/-- Validation makes the texts of the mappings of a conversion differ. All of them are kept exactly
if the texts differ when they are tidied. -/
theorem mappings_kept_iff {d : Document} {catalog : Catalog} {c : Conversion} {t : MappingTable}
    (valid : d.validate = .ok ()) (h : Catalog.ofDocument d = .ok catalog)
    (mem : c ∈ catalog.conversions) (tabled : MappingTable.ofMappings c.mappings = .ok t) :
    ∃ decl ∈ d.conversions, c.name = decl.name ∧ (decl.mappings.map (·.dest)).Nodup ∧
      (t.Keeps c.source decl.mappings ↔
        (decl.mappings.map fun m => Path.tidied m.dest).Nodup) := by
  obtain ⟨decl, declared, name, resolved⟩ := Catalog.exists_decl h mem
  have accepted := (Document.validate_eq_ok_iff.1 valid).2.2 decl declared
  exact ⟨decl, declared, name, ConversionDecl.validate_eq_ok_iff.1 accepted,
    MappingTable.keeps_iff resolved tabled⟩

namespace Card

/-! A person has two names, and a card has a name and a title. -/

def names (first second : String) : List FieldDecl :=
  [⟨first, .primitive .string, true⟩, ⟨second, .primitive .string, true⟩]

def api : Schema :=
  ⟨"api", "api.thrift",
    [.struct "Person" (names "First" "Last"), .struct "Card" (names "Name" "Title")]⟩

/-- Each name is mapped to a target. -/
def toCard (first second : String) : ConversionDecl where
  name := "ToCard"
  source := "api.Person"
  dest := "api.Card"
  mappings := [⟨first, "First", false⟩, ⟨second, "Last", false⟩]

/-- A conversion of cards with two mappings, whose targets are given. -/
def cards (first second : String) : Document :=
  ⟨[api], [toCard first second]⟩

theorem valid {first second : String} (differ : first ≠ second) :
    (cards first second).validate = .ok () := by
  have targets : (toCard first second).validate = .ok () := by
    rw [ConversionDecl.validate_eq_ok_iff]
    simpa [toCard] using differ
  have schema : api.validate = .ok () := by
    rw [Schema.validate_eq_ok_iff]
    decide
  rw [Document.validate_eq_ok_iff]
  simpa [cards] using ⟨schema, targets⟩

/-- The number of entries in the table of the conversion. -/
def entries? (first second : String) : Option Nat := do
  let catalog ← (Catalog.ofDocument (cards first second)).toOption
  let c ← catalog.conversions.head?
  let table ← (MappingTable.ofMappings c.mappings).toOption
  return table.size

/-- The document resolves, and its table has as many entries as the targets make. -/
theorem exists_table {first second : String} {n : Nat} (h : entries? first second = some n) :
    ∃ catalog c t, Catalog.ofDocument (cards first second) = .ok catalog ∧
      c ∈ catalog.conversions ∧ MappingTable.ofMappings c.mappings = .ok t ∧ t.size = n := by
  obtain ⟨catalog, resolved, h⟩ := Option.bind_eq_some_iff.1 h
  obtain ⟨c, first, h⟩ := Option.bind_eq_some_iff.1 h
  obtain ⟨t, tabled, h⟩ := Option.bind_eq_some_iff.1 h
  exact ⟨catalog, c, t, toOption_eq_some.1 resolved, List.mem_of_head? first,
    toOption_eq_some.1 tabled, by simpa using h⟩

/-- Two mappings to the name, one of them with a blank in front, are valid, and one is lost. -/
theorem name_mapped_twice :
    ∃ catalog c t, (cards "Name" " Name").validate = .ok () ∧
      Catalog.ofDocument (cards "Name" " Name") = .ok catalog ∧ c ∈ catalog.conversions ∧
      MappingTable.ofMappings c.mappings = .ok t ∧
      t.size = 1 ∧ ¬ t.Keeps c.source (toCard "Name" " Name").mappings := by
  have one : entries? "Name" " Name" = some 1 := by decide +kernel
  obtain ⟨catalog, c, t, resolved, mem, tabled, size⟩ := exists_table one
  refine ⟨catalog, c, t, valid (by decide), resolved, mem, tabled, size, fun keeps => ?_⟩
  exact absurd (size.symm.trans keeps.size) (by decide)

/-- Targets that differ as paths have an entry each. -/
theorem names_kept :
    ∃ catalog c t, (cards "Name" "Title").validate = .ok () ∧
      Catalog.ofDocument (cards "Name" "Title") = .ok catalog ∧ c ∈ catalog.conversions ∧
      MappingTable.ofMappings c.mappings = .ok t ∧
      t.Keeps c.source (toCard "Name" "Title").mappings := by
  have accepted : (cards "Name" "Title").validate = .ok () := valid (by decide)
  have two : entries? "Name" "Title" = some 2 := by decide +kernel
  obtain ⟨catalog, c, t, resolved, mem, tabled, _⟩ := exists_table two
  obtain ⟨decl, declared, _, _, kept⟩ := mappings_kept_iff accepted resolved mem tabled
  obtain rfl := List.mem_singleton.1 declared
  exact ⟨catalog, c, t, accepted, resolved, mem, tabled, kept.2 (by decide)⟩

end Card

end Crosswalk
