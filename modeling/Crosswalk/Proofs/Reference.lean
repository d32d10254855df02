import Crosswalk.Catalog.Resolution
import Crosswalk.Proofs.Validation
import Mathlib.Data.List.Induction
import Mathlib.Logic.Relation

/-!
# References between definitions

A plain name denotes a definition of the schema that it is written in, and `schema.Type` one of that
schema. A document is closed if every reference in it denotes a definition, and acyclic if no
definition refers to itself, be it through others. Where the names are valid, every definition has a
key of its own, and what a reference denotes is what is looked up.
-/

namespace Crosswalk
set_option autoImplicit false
open Crosswalk.Text

/-! ## Definitions by name -/

namespace Schema

theorem lookup_enter {index : List (String × Nat)} {own name : String} {position : Nat} :
    (enter index own position).lookup name =
      (index.lookup name).or (if own = name then some position else none) := by
  unfold enter
  by_cases same : own = name
  · subst same
    cases found : index.lookup own with
    | some earlier => simp [found]
    | none => simp [found, List.lookup_append]
  · have other : (name == own) = false := by simpa using Ne.symm same
    rw [if_neg same, Option.or_none]
    split
    · rfl
    · simp [List.lookup_append, List.lookup_cons, other]

/-- The index holds for every name the position of its first definition. -/
theorem lookup_index (s : Schema) (name : String) :
    s.index.lookup name = s.definitions.findIdx? (·.name == name) := by
  obtain ⟨own, file, definitions⟩ := s
  induction definitions using List.reverseRecOn with
  | nil => rfl
  | append_singleton rest x ih =>
    let before : Schema := ⟨own, file, rest⟩
    show (before.add x).index.lookup name = (rest ++ [x]).findIdx? (·.name == name)
    rw [index_add, lookup_enter, ih, List.findIdx?_append]
    by_cases same : x.name = name <;> simp [same, before]

/-- A schema finds the first of its definitions with a name. -/
theorem find?_eq (s : Schema) (name : String) :
    s.find? name = s.definitions.find? (·.name == name) := by
  rw [find?, lookup_index, List.find?_eq_bind_findIdx?_getElem?]

/-- Where names differ, every definition is found by its name. -/
theorem find?_of_mem {s : Schema} {x : Definition} (differ : (s.definitions.map (·.name)).Nodup)
    (mem : x ∈ s.definitions) : s.find? x.name = some x := by
  have isSome : (s.definitions.find? (·.name == x.name)).isSome = true :=
    List.find?_isSome.2 ⟨x, mem, by simp⟩
  obtain ⟨y, found⟩ := Option.isSome_iff_exists.1 isSome
  have same : y.name = x.name := by simpa using List.find?_some found
  obtain rfl := List.inj_on_of_nodup_map differ (List.mem_of_find?_eq_some found) mem same
  rw [find?_eq, found]

end Schema

/-! ## Keys -/

/-- A definition with the schema that it is declared in. -/
structure Declaration where
  schema : Schema
  definition : Definition

def Declaration.key (n : Declaration) : String :=
  n.schema.key n.definition.name

namespace Document

def Declares (d : Document) (n : Declaration) : Prop :=
  n.schema ∈ d.schemas ∧ n.definition ∈ n.schema.definitions

/-- No name of a definition holds a dot. -/
def PlainNames (d : Document) : Prop :=
  ∀ s ∈ d.schemas, ∀ x ∈ s.definitions, '.' ∉ x.name.toList

instance (d : Document) : Decidable d.PlainNames :=
  inferInstanceAs (Decidable (∀ s ∈ d.schemas, ∀ x ∈ s.definitions, '.' ∉ x.name.toList))

/-- Names that tell definitions apart, none of them with a dot. -/
structure Keyed (d : Document) : Prop where
  schemas : (d.schemas.map (·.name)).Nodup
  undotted : ∀ s ∈ d.schemas, '.' ∉ s.name.toList
  definitions : ∀ s ∈ d.schemas, (s.definitions.map (·.name)).Nodup
  plain : d.PlainNames

theorem keyed_of_validate {d : Document} (valid : d.validate = .ok ()) (plain : d.PlainNames) :
    d.Keyed := by
  obtain ⟨⟨differ, _⟩, _⟩ := validate_eq_ok_iff.1 valid
  exact ⟨differ, fun _ => undotted_of_mem valid, fun _ => nodup_definitions valid, plain⟩

theorem mem_keys_iff {d : Document} {key : String} :
    key ∈ d.keys ↔ ∃ n, d.Declares n ∧ n.key = key := by
  simp only [keys, List.mem_flatMap, List.mem_map]
  constructor
  · rintro ⟨s, hs, x, hx, rfl⟩
    exact ⟨⟨s, x⟩, ⟨hs, hx⟩, rfl⟩
  · rintro ⟨⟨s, x⟩, ⟨hs, hx⟩, rfl⟩
    exact ⟨s, hs, x, hx, rfl⟩

theorem name_of_home? {d : Document} {name : String} {home : d.Home}
    (h : d.home? name = some home) : home.1.name = name := by
  unfold home? at h
  split at h
  · next s found =>
    cases h
    simpa using List.find?_some found
  · cases h

end Document

theorem toList_key (s : Schema) (name : String) :
    (s.key name).toList = s.name.toList ++ '.' :: name.toList := by
  simp [Schema.key]

/-- A key is cut into the names that it is made of. -/
theorem cutReference_key {s : Schema} {name : String} (undotted : '.' ∉ s.name.toList) :
    cutReference (s.key name) = some (s.name, name) := by
  rw [cutReference, toList_key, cut?_append undotted]
  simp

/-- A key names a schema and a name in it. -/
theorem names_of_key {s t : Schema} {a b : String} (hs : '.' ∉ s.name.toList)
    (ht : '.' ∉ t.name.toList) (same : s.key a = t.key b) : s.name = t.name ∧ a = b := by
  have cut : some (s.name, a) = some (t.name, b) := by
    rw [← cutReference_key hs, same, cutReference_key ht]
  exact Prod.mk.inj (Option.some.inj cut)

theorem cutReference_eq_none {reference : String} (plain : '.' ∉ reference.toList) :
    cutReference reference = none := by
  rw [cutReference, cut?_eq_none_iff.2 plain]
  rfl

theorem eq_of_cutReference {reference qualifier name : String}
    (h : cutReference reference = some (qualifier, name)) :
    reference = qualifier ++ "." ++ name := by
  obtain ⟨⟨before, after⟩, cut, same⟩ := Option.map_eq_some_iff.1 h
  obtain ⟨rfl, rfl⟩ := Prod.mk.inj same
  apply String.toList_inj.1
  simpa using (cut?_eq_some cut).1

namespace Document.Keyed
variable {d : Document} {s t : Schema} {m n : Declaration}

theorem schema_eq (keyed : d.Keyed) (hs : s ∈ d.schemas) (ht : t ∈ d.schemas)
    (same : s.name = t.name) : s = t :=
  List.inj_on_of_nodup_map keyed.schemas hs ht same

theorem home?_eq (keyed : d.Keyed) (home : d.Home) : d.home? home.1.name = some home := by
  have isSome : (d.schemas.find? (·.name == home.1.name)).isSome = true :=
    List.find?_isSome.2 ⟨home.1, home.2, by simp⟩
  unfold home?
  split
  · next s found =>
    have same : s.name = home.1.name := by simpa using List.find?_some found
    obtain rfl := keyed.schema_eq (schema?_mem found) home.2 same
    rfl
  · next missing =>
    rw [schema?] at missing
    simp [missing] at isSome

/-- A key names one schema of the document and one name in it. -/
theorem key_eq (keyed : d.Keyed) {a b : String} (hs : s ∈ d.schemas) (ht : t ∈ d.schemas)
    (same : s.key a = t.key b) : s = t ∧ a = b := by
  obtain ⟨names, rest⟩ := names_of_key (keyed.undotted s hs) (keyed.undotted t ht) same
  exact ⟨keyed.schema_eq hs ht names, rest⟩

theorem key_inj (keyed : d.Keyed) (hm : d.Declares m) (hn : d.Declares n)
    (same : m.key = n.key) : m = n := by
  obtain ⟨s, x⟩ := m
  obtain ⟨t, y⟩ := n
  obtain ⟨rfl, names⟩ := keyed.key_eq hm.1 hn.1 same
  obtain rfl := List.inj_on_of_nodup_map (keyed.definitions s hm.1) hm.2 hn.2 names
  rfl

end Document.Keyed

/-! ## What references denote -/

/-- The references in a type expression. -/
def TypeExpr.references : TypeExpr → List String
  | primitive _ => []
  | binary => []
  | named name => [name]
  | list element => element.references
  | set element => element.references
  | map key value => key.references ++ value.references

/-- The references in the fields of a struct, or in the target of an alias. -/
def Definition.references : Definition → List String
  | struct _ fields => fields.flatMap (·.type.references)
  | enum .. => []
  | typedef _ target => target.references

/-- What a reference that is written in the schema `home` denotes. -/
inductive Document.Denotes (d : Document) (home : Schema) : String → Declaration → Prop
  | own {x : Definition} (mem : x ∈ home.definitions) : Denotes d home x.name ⟨home, x⟩
  | qualified {n : Declaration} (declared : d.Declares n) : Denotes d home n.key n

namespace Document

/-- A definition refers to another. -/
def Refers (d : Document) (m n : Declaration) : Prop :=
  ∃ r ∈ m.definition.references, d.Denotes m.schema r n

/-- Every reference denotes a definition. -/
def Closed (d : Document) : Prop :=
  ∀ n, d.Declares n → ∀ r ∈ n.definition.references, ∃ m, d.Denotes n.schema r m

/-- No definition refers to itself, be it through others. -/
def Acyclic (d : Document) : Prop :=
  ∀ n, d.Declares n → ¬ Relation.TransGen d.Refers n n

variable {d : Document} {home : Schema} {r : String} {m n : Declaration}

theorem Denotes.declares (h : d.Denotes home r n) (mem : home ∈ d.schemas) : d.Declares n := by
  cases h with
  | own hx => exact ⟨mem, hx⟩
  | qualified declared => exact declared

/-- A reference denotes at most one definition. -/
theorem Denotes.unique (keyed : d.Keyed) (mem : home ∈ d.schemas) (hm : d.Denotes home r m)
    (hn : d.Denotes home r n) : m = n := by
  -- a key has a dot, so it is no name of a definition
  have apart : ∀ {x : Definition} {k : Declaration}, x ∈ home.definitions → x.name ≠ k.key := by
    intro x k hx same
    have plain := keyed.plain home mem x hx
    rw [same, Declaration.key, toList_key] at plain
    exact plain (by simp)
  generalize hr : r = r' at hn
  cases hm with
  | own hx =>
    cases hn with
    | own hy =>
      obtain rfl := List.inj_on_of_nodup_map (keyed.definitions home mem) hx hy hr
      rfl
    | qualified declared => exact absurd hr (apart hx)
  | qualified declared =>
    cases hn with
    | own hy => exact absurd hr.symm (apart hy)
    | qualified declared' => exact keyed.key_inj declared declared' hr

/-- What is found where a reference leads is what it denotes. -/
theorem denotes_of_locate {home schema : d.Home} {name : String} {x : Definition}
    (located : d.locate home r = .ok (schema, name)) (found : schema.1.find? name = some x) :
    d.Denotes home.1 r ⟨schema.1, x⟩ := by
  have mem := Schema.find?_mem found
  obtain rfl := Schema.name_of_find? found
  unfold locate at located
  split at located
  · cases located
    exact .own mem
  · next qualifier name cut =>
    split at located
    · next target at_ =>
      cases located
      have written : r = schema.1.key x.name := by
        rw [eq_of_cutReference cut, ← name_of_home? at_, Schema.key]
      rw [written]
      exact .qualified (n := ⟨schema.1, x⟩) ⟨schema.2, mem⟩
    · cases located

/-- A reference leads to what it denotes. -/
theorem Keyed.locate_of_denotes (keyed : d.Keyed) {home : d.Home} (h : d.Denotes home.1 r n) :
    ∃ schema : d.Home, schema.1 = n.schema ∧
      d.locate home r = .ok (schema, n.definition.name) ∧
      n.schema.find? n.definition.name = some n.definition := by
  cases h with
  | own hx =>
    refine ⟨home, rfl, ?_, Schema.find?_of_mem (keyed.definitions _ home.2) hx⟩
    rw [locate, cutReference_eq_none (keyed.plain _ home.2 _ hx)]
  | qualified declared =>
    refine ⟨⟨n.schema, declared.1⟩, rfl, ?_,
      Schema.find?_of_mem (keyed.definitions _ declared.1) declared.2⟩
    rw [locate, Declaration.key, cutReference_key (keyed.undotted _ declared.1)]
    have at_ := keyed.home?_eq ⟨n.schema, declared.1⟩
    simp only [at_]

/-- A definition whose key a reference leads to is what the reference denotes. -/
theorem Keyed.denotes_of_key (keyed : d.Keyed) {home schema : d.Home} {name : String}
    (located : d.locate home r = .ok (schema, name)) (declared : d.Declares n)
    (same : n.key = schema.1.key name) : d.Denotes home.1 r n := by
  obtain ⟨s, x⟩ := n
  obtain ⟨rfl, rfl⟩ := keyed.key_eq declared.1 schema.2 same
  exact denotes_of_locate located
    (Schema.find?_of_mem (keyed.definitions _ declared.1) declared.2)

end Document

end Crosswalk
