import Crosswalk.Proofs.Reference

/-!
# The index of a schema

While definitions are added to a schema one by one, an index of their names is kept beside them: a
name is entered with the position of its first definition, and later definitions of that name leave
the entry as it is. However many definitions are added, the index fits the list. It is the one that
the list alone determines, no entry points behind the list, and what a name leads to is the first
definition that was added under it.
-/

namespace Crosswalk
set_option autoImplicit false

namespace Schema

/-! ## Entries -/

section
variable {index : List (String × Nat)} {own name : String} {position : Nat}

theorem lookup_isSome_iff_mem_names :
    (index.lookup name).isSome = true ↔ name ∈ index.map (·.1) := by
  rw [List.lookup_isSome_iff, List.mem_map]
  simp only [beq_iff_eq, @eq_comm _ name]

theorem mem_enter {entry : String × Nat} (h : entry ∈ enter index own position) :
    entry ∈ index ∨ entry = (own, position) := by
  unfold enter at h
  split at h
  · exact .inl h
  · simpa using h

/-- A name that has an entry is not entered again. -/
theorem names_enter : (enter index own position).map (·.1) =
    if own ∈ index.map (·.1) then index.map (·.1) else index.map (·.1) ++ [own] := by
  simp only [enter, lookup_isSome_iff_mem_names]
  split
  · rfl
  · simp

theorem mem_names_enter :
    name ∈ (enter index own position).map (·.1) ↔ name ∈ index.map (·.1) ∨ name = own := by
  rw [names_enter]
  split
  · next known =>
    constructor
    · exact .inl
    · rintro (mem | rfl)
      · exact mem
      · exact known
  · simp

end

/-! ## Definitions added one by one -/

theorem foldl_add (added : List Definition) :
    ∀ s : Schema, added.foldl add s = { s with definitions := s.definitions ++ added } := by
  induction added with
  | nil => intro s; simp
  | cons d rest ih => intro s; simp [ih, add]

/-- A schema with an index that is kept beside its definitions. -/
structure Indexed where
  schema : Schema
  index : List (String × Nat)
  deriving DecidableEq, Repr

namespace Indexed

def empty (name file : String) : Indexed :=
  ⟨.empty name file, []⟩

/-- Appends a definition, and enters its name with the position that it has then. -/
def add (s : Indexed) (d : Definition) : Indexed where
  schema := s.schema.add d
  index := enter s.index d.name s.schema.definitions.length

/-- The definition that the entry of a name points at, if the name has an entry. It is an error if
that entry points behind the definitions. -/
def find (s : Indexed) (name : String) : Except Nat (Option Definition) :=
  match s.index.lookup name with
  | none => .ok none
  | some position =>
    match s.schema.definitions[position]? with
    | some d => .ok (some d)
    | none => .error position

/-- The index fits the definitions. -/
structure Coherent (s : Indexed) : Prop where
  /-- It is the index that the definitions alone determine. -/
  computed : s.index = s.schema.index
  within : ∀ entry ∈ s.index, entry.2 < s.schema.definitions.length
  once : (s.index.map (·.1)).Nodup
  names : ∀ name, name ∈ s.index.map (·.1) ↔ name ∈ s.schema.definitions.map (·.name)

variable {s : Indexed}

theorem coherent_empty (name file : String) : (empty name file).Coherent where
  computed := rfl
  within := by simp [empty]
  once := by simp [empty]
  names := by simp [empty, Schema.empty]

namespace Coherent

/-- One definition more, be its name a new one or not, and the index still fits. -/
theorem add (h : s.Coherent) (d : Definition) : (s.add d).Coherent where
  computed := by
    -- entering one more name is what computing the index anew does
    show enter s.index d.name s.schema.definitions.length = (s.schema.add d).index
    rw [index_add, h.computed]
  within := by
    intro entry mem
    show entry.2 < (s.schema.definitions ++ [d]).length
    rw [List.length_append, List.length_singleton]
    rcases mem_enter mem with old | rfl
    · exact Nat.lt_succ_of_lt (h.within entry old)
    · exact Nat.lt_succ_self _
  once := by
    show ((enter s.index d.name s.schema.definitions.length).map (·.1)).Nodup
    rw [names_enter]
    -- a name that is known is not entered again
    split
    · exact h.once
    · next fresh => simpa using h.once.concat fresh
  names := by
    intro name
    show name ∈ (enter s.index d.name s.schema.definitions.length).map (·.1) ↔
      name ∈ (s.schema.definitions ++ [d]).map (·.name)
    rw [mem_names_enter, h.names name, List.map_append, List.mem_append, List.map_singleton,
      List.mem_singleton]

theorem foldl (added : List Definition) :
    ∀ {s : Indexed}, s.Coherent → (added.foldl Indexed.add s).Coherent := by
  induction added with
  | nil => exact id
  | cons d rest ih => exact fun h => ih (h.add d)

/-- Where the index fits, looking a name up meets no error, and is looking it up by the index that
the definitions determine. -/
theorem find_eq (h : s.Coherent) (name : String) : s.find name = .ok (s.schema.find? name) := by
  unfold find Schema.find?
  rw [← h.computed]
  cases entered : s.index.lookup name with
  | none => rfl
  | some position =>
    have inside : position < s.schema.definitions.length := h.within _ (mem_of_lookup entered)
    simp [List.getElem?_eq_getElem inside]

end Coherent

theorem schema_foldl (added : List Definition) :
    ∀ s : Indexed, (added.foldl add s).schema = added.foldl Schema.add s.schema := by
  induction added with
  | nil => exact fun _ => rfl
  | cons d rest ih => exact fun s => ih (s.add d)

/-- Whatever definitions are added to an empty schema, in whatever order and with whatever names:
the list holds all of them as they came, the index kept beside it is that of the list and fits it,
and both lookups find, without error, the first definition of a name. -/
theorem index_faithful (name file : String) (added : List Definition) :
    let s := added.foldl add (empty name file)
    s.schema = added.foldl Schema.add (.empty name file) ∧ s.schema = ⟨name, file, added⟩ ∧
      s.Coherent ∧ ∀ wanted, s.find wanted = .ok (added.find? (·.name == wanted)) ∧
        s.schema.find? wanted = added.find? (·.name == wanted) := by
  intro s
  have same : s.schema = added.foldl Schema.add (.empty name file) := schema_foldl added _
  have whole : s.schema = ⟨name, file, added⟩ := by
    rw [same, foldl_add]
    rfl
  have coherent : s.Coherent := (coherent_empty name file).foldl added
  have first : ∀ wanted, s.schema.find? wanted = added.find? (·.name == wanted) := by
    intro wanted
    rw [find?_eq, whole]
  exact ⟨same, whole, coherent, fun wanted =>
    ⟨(coherent.find_eq wanted).trans (congrArg Except.ok (first wanted)), first wanted⟩⟩

/-- An enum does not take the place of a struct that was added before it. -/
example :
    let s := [.struct "Color" [], .enum "Shade" ["DARK"], .enum "Color" ["RED"]].foldl add
      (empty "api" "api.thrift")
    s.index = [("Color", 0), ("Shade", 1)] ∧ s.find "Color" = .ok (some (.struct "Color" [])) := by
  decide

end Indexed

end Schema

end Crosswalk
