import Crosswalk.Proofs.Resolution
import Crosswalk.Proofs.Table
import Crosswalk.Proofs.Walk

/-!
# Mapped sources

The places of the entries in a table made of mappings lead from the source struct to the fields that
the mappings name.
-/

namespace Crosswalk
set_option autoImplicit false

/-- Every entry of a table made of mappings is that of one of them. -/
theorem MappingTable.exists_mapping_of_get? {mappings : List Mapping} {table : MappingTable}
    (h : ofMappings mappings = .ok table) {path : Path} {e : Entry}
    (found : table.get? path = some e) : ∃ m ∈ mappings, e = m.entry := by
  rw [get?_ofMappings h] at found
  obtain ⟨m, last, rfl⟩ := Option.map_eq_some_iff.1 found
  exact ⟨m, List.mem_reverse.1 (List.mem_of_find?_eq_some last), rfl⟩

/-! ## Places of entries -/

/-- The access that a field is read or written by. -/
def FieldOf.access {τ : Type} (f : FieldOf τ) : Access :=
  .field f.name f.isOptional

/-- The first field on a way, and the way below it. -/
theorem fieldsAlong?_cons {fields passed : List Field} {name : String} {below : List String}
    (h : fieldsAlong? fields (name :: below) = some passed) :
    ∃ f, findField? fields name = some f ∧ (below = [] ∧ passed = [f] ∨
      ∃ struct file inner deeper, f.type.resolved = .struct struct file inner ∧
        fieldsAlong? inner below = some deeper ∧ passed = f :: deeper) := by
  cases below with
  | nil =>
    obtain ⟨f, found, rfl⟩ := Option.map_eq_some_iff.1 h
    exact ⟨f, found, .inl ⟨rfl, rfl⟩⟩
  | cons next names =>
    rw [fieldsAlong?] at h
    split at h
    · cases h
    · next f found =>
      split at h
      · next struct file inner resolved =>
        obtain ⟨deeper, along, rfl⟩ := Option.map_eq_some_iff.1 h
        exact ⟨f, found, .inr ⟨struct, file, inner, deeper, resolved, along, rfl⟩⟩
      · cases h
    · simp

/-- A way along fields has at least one name, and as many fields. -/
theorem fieldsAlong?_ne_nil {fields passed : List Field} {names : List String}
    (h : fieldsAlong? fields names = some passed) : names ≠ [] ∧ passed ≠ [] := by
  cases names with
  | nil => cases h
  | cons name below =>
    obtain ⟨f, _, ⟨_, rfl⟩ | ⟨_, _, _, deeper, _, _, rfl⟩⟩ := fieldsAlong?_cons h <;> simp

/-- A way of names ends in a field that is optional as the last is. -/
theorem Entry.placeAlong_eq_field (last : Bool) {names : List String} (some : names ≠ [])
    (p : Place) (parents : List Bool) :
    ∃ (before : Place) (name : String),
      placeAlong last p parents names = before.field name last := by
  induction names generalizing p parents with
  | nil => exact absurd rfl some
  | cons name below ih =>
    cases below with
    | nil => exact ⟨p, name, rfl⟩
    | cons next names => exact ih (List.cons_ne_nil _ _) _ _

/-- The place of the field that a way of fields leads to. -/
theorem Entry.placeAlong_eq {fields passed : List Field} {names : List String} {f : Field}
    (h : fieldsAlong? fields names = some passed) (last : passed.getLast? = some f) (p : Place) :
    placeAlong f.isOptional p (passed.dropLast.map (·.isOptional)) names =
      ⟨p.root, p.accesses ++ passed.map FieldOf.access, f.isOptional⟩ := by
  induction names generalizing fields passed p with
  | nil => cases h
  | cons name below ih =>
    obtain ⟨g, found, ⟨rfl, rfl⟩ | ⟨_, _, inner, deeper, _, along, rfl⟩⟩ := fieldsAlong?_cons h
    · obtain rfl : g = f := by simpa using last
      obtain rfl := name_of_findField? found
      rfl
    · obtain ⟨more, some⟩ := fieldsAlong?_ne_nil along
      obtain ⟨next, names, rfl⟩ := List.exists_cons_of_ne_nil more
      obtain ⟨d, rest, rfl⟩ := List.exists_cons_of_ne_nil some
      obtain rfl := name_of_findField? found
      have below := ih along (by simpa using last) (p.field g.name g.isOptional)
      simpa [placeAlong, Place.field, FieldOf.access] using below

/-- The way along fields leads to the type of the last one. -/
theorem Ty.at?_along {ty : Ty} {name file : String} {fields passed : List Field}
    {names : List String} {f : Field} (struct : ty.resolved = .struct name file fields)
    (h : fieldsAlong? fields names = some passed) (last : passed.getLast? = some f) :
    ty.at? (passed.map FieldOf.access) = some f.type := by
  induction names generalizing ty name file fields passed with
  | nil => cases h
  | cons first below ih =>
    obtain ⟨g, found, rest⟩ := fieldsAlong?_cons h
    obtain rfl := name_of_findField? found
    have step := step?_field struct found
    rcases rest with ⟨_, rfl⟩ | ⟨_, _, inner, deeper, resolved, along, rfl⟩
    · obtain rfl : g = f := by simpa using last
      simpa [at?, FieldOf.access] using step
    · obtain ⟨_, some⟩ := fieldsAlong?_ne_nil along
      obtain ⟨d, rest, rfl⟩ := List.exists_cons_of_ne_nil some
      have below := ih resolved along (by simpa using last)
      rw [List.map_cons, at?, List.foldlM_cons, FieldOf.access, step]
      exact below

@[simp] theorem Entry.fieldNames_ofFields (names : List String) :
    fieldNames (.ofFields names) = names := by
  rw [fieldNames, Path.ofFields, List.filterMap_map]
  exact List.filterMap_some

/-- An entry reads its field, from the source struct on. -/
def Entry.Reads (source : Ty) (e : Entry) : Prop :=
  e.place.root = .input ∧ source.at? e.place.accesses = some e.field.type ∧
    e.place.optional = e.field.isOptional

/-- The place of an entry is that of the field which a way of fields leads to. -/
theorem Mapping.place_entry {fields passed : List Field} {m : Mapping}
    (along : fieldsAlong? fields m.source = some passed) (last : passed.getLast? = some m.field)
    (parents : m.parentsOptional = passed.dropLast.map (·.isOptional)) :
    m.entry.place = ⟨.input, passed.map FieldOf.access, m.field.isOptional⟩ := by
  simp only [Entry.place, Mapping.entry, Entry.fieldNames_ofFields, parents]
  rw [Entry.placeAlong_eq along last]
  rfl

/-- The entry of a mapping reads the place that the fields lead to, of the type of the last one. -/
theorem Mapping.exists_place {source : Struct} {m : Mapping} (h : m.LeadsFrom source) :
    ∃ passed : List Field,
      m.entry.place = ⟨.input, passed.map FieldOf.access, m.field.isOptional⟩ ∧
      source.toTy.at? (passed.map FieldOf.access) = some m.field.type := by
  obtain ⟨passed, along, last, parents⟩ := h
  exact ⟨passed, place_entry along last parents, Ty.at?_along rfl along last⟩

/-- So the entry reads what it says. -/
theorem Mapping.entry_reads {source : Struct} {m : Mapping} (h : m.LeadsFrom source) :
    m.entry.Reads source.toTy := by
  obtain ⟨passed, place, reach⟩ := exists_place h
  rw [Entry.Reads, place]
  exact ⟨rfl, reach, rfl⟩

/-- The entries of a resolved conversion read what the conversion's source has. -/
theorem Catalog.entry_reads {d : Document} {catalog : Catalog} {c : Conversion}
    {table : MappingTable} (h : Catalog.ofDocument d = .ok catalog)
    (mem : c ∈ catalog.conversions) (tabled : MappingTable.ofMappings c.mappings = .ok table)
    {path : Path} {e : Entry} (found : table.get? path = some e) : e.Reads c.source.toTy := by
  obtain ⟨m, among, rfl⟩ := MappingTable.exists_mapping_of_get? tabled found
  exact Mapping.entry_reads (Catalog.leadsFrom h mem among)

end Crosswalk
