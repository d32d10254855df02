import Crosswalk.Proofs.Check
import Crosswalk.Proofs.Coverage
import Crosswalk.Proofs.Walk

/-!
# What resolved types speak of

Resolution makes up nothing: every field in a resolved type, at whatever depth, has the name of a
field that a struct of the document declares, and every named type in it has the file of a schema.
So has everything that a place walks through.
-/

namespace Crosswalk
set_option autoImplicit false

/-! ## Parts of types -/

namespace Ty

/-- The types that a type is directly made of. -/
def parts : Ty → List Ty
  | struct _ _ fields => fields.map (·.type)
  | typedef _ _ target => [target]
  | list element => [element]
  | map key value => [key, value]
  | set element => [element]
  | _ => []

/-- A type itself or a part of it, at whatever depth. -/
inductive Within (part : Ty) : Ty → Prop
  | here : Within part part
  | deeper {ty next : Ty} (mem : next ∈ ty.parts) (h : Within part next) : Within part ty

/-- Parts of parts are parts. -/
theorem Within.trans {a b c : Ty} (h : a.Within b) (h' : b.Within c) : a.Within c := by
  induction h' with
  | here => exact h
  | deeper mem _ ih => exact .deeper mem ih

theorem Within.part {ty part whole : Ty} (h : ty.Within whole) (mem : part ∈ ty.parts) :
    part.Within whole :=
  trans (.deeper mem .here) h

/-- Elements are parts of what holds them. -/
theorem mem_parts_of_elements? {ty element : Ty} {shape : Shape}
    (kind : ty.elements? = some (shape, element)) : element ∈ ty.parts := by
  rcases elements?_eq_some kind with ⟨_, rfl⟩ | ⟨_, key, _, rfl⟩
  · exact List.mem_cons_self
  · exact List.mem_cons_of_mem _ List.mem_cons_self

/-- The names of the fields of a struct. -/
def fieldNames : Ty → List String
  | struct _ _ fields => fields.map (·.name)
  | _ => []

end Ty

/-- Names of fields, and files that named types are declared in. -/
structure Vocabulary where
  field : String → Prop
  file : String → Prop

namespace Vocabulary
variable {v : Vocabulary} {ty : Ty}

/-- What a type speaks of by itself, its parts left aside. -/
def Names (v : Vocabulary) (ty : Ty) : Prop :=
  (∀ n ∈ ty.fieldNames, v.field n) ∧ ∀ file ∈ ty.file?, v.file file

/-- All that a type and its parts speak of. -/
def Covers (v : Vocabulary) (ty : Ty) : Prop :=
  ∀ part : Ty, part.Within ty → v.Names part

namespace Covers

/-- What a type speaks of by itself is covered. -/
theorem names (h : v.Covers ty) : v.Names ty :=
  h ty .here

/-- What a part speaks of is covered. -/
theorem within {part : Ty} (h : v.Covers ty) (inside : part.Within ty) : v.Covers part :=
  fun deep deeper => h deep (deeper.trans inside)

theorem part {part : Ty} (h : v.Covers ty) (mem : part ∈ ty.parts) : v.Covers part :=
  h.within (.deeper mem .here)

/-- So is what an alias stands for. -/
theorem resolved (h : v.Covers ty) : v.Covers ty.resolved := by
  fun_induction Ty.resolved ty with
  | case1 name file target ih => exact ih (h.part List.mem_cons_self)
  | case2 => exact h

/-- So are the fields of a struct, with their types. -/
theorem field {name file : String} {fields : List Field} {f : Field} (h : v.Covers ty)
    (struct : ty.resolved = .struct name file fields) (mem : f ∈ fields) :
    v.field f.name ∧ v.Covers f.type := by
  have inside := struct ▸ h.resolved
  exact ⟨inside.names.1 f.name (List.mem_map_of_mem mem), inside.part (List.mem_map_of_mem mem)⟩

/-- An access goes through a field that the type speaks of, and leads to what it covers. -/
theorem lead {next : Ty} {access : Access} (h : v.Covers ty) (leads : access.Leads ty next) :
    (∀ n optional, access = .field n optional → v.field n) ∧ v.Covers next := by
  cases leads with
  | field struct mem =>
    obtain ⟨known, inside⟩ := h.field struct mem
    refine ⟨fun n optional same => ?_, inside⟩
    cases same
    exact known
  | index list =>
    have inside := list ▸ h.resolved
    exact ⟨nofun, inside.part List.mem_cons_self⟩
  | key map =>
    have inside := map ▸ h.resolved
    exact ⟨nofun, inside.part (List.mem_cons_of_mem _ List.mem_cons_self)⟩

/-- So is all that a place walks through, and the type that it ends at. -/
theorem walk {last : Ty} {accesses : List Access} (h : v.Covers ty)
    (walks : Walks ty accesses last) :
    (∀ n optional, .field n optional ∈ accesses → v.field n) ∧ v.Covers last := by
  induction walks with
  | done => exact ⟨nofun, h⟩
  | step first _ ih =>
    obtain ⟨known, inside⟩ := h.lead first
    obtain ⟨later, last⟩ := ih inside
    refine ⟨fun n optional mem => ?_, last⟩
    rcases List.mem_cons.1 mem with same | mem
    · exact known n optional same.symm
    · exact later n optional mem

end Covers

end Vocabulary

/-! ## Documents -/

/-- The names of the fields that a definition declares. -/
def Definition.fieldNames : Definition → List String
  | struct _ fields => fields.map (·.name)
  | _ => []

namespace Document
variable {d : Document} {cache : Cache} {ty : Ty} {home : d.Home} {x : Definition}

/-- The fields that the structs of a document declare, and the files of its schemas. -/
def vocabulary (d : Document) : Vocabulary where
  field n := ∃ s ∈ d.schemas, ∃ x ∈ s.definitions, n ∈ x.fieldNames
  file f := ∃ s ∈ d.schemas, s.file = f

/-- A type that a definition is resolved to, or a type expression by what is remembered. -/
inductive Made (d : Document) (cache : Cache) : Ty → Prop
  | definition {home : d.Home} {x : Definition} {ty : Ty} (mem : x ∈ home.1.definitions)
      (h : d.Resolves cache home x ty) : Made d cache ty
  | expr {home : d.Home} {e : TypeExpr} {ty : Ty}
      (h : e.resolve (d.typeAt cache home) = some ty) : Made d cache ty

/-- A type that a reference leads to is made of that reference. -/
theorem Made.of_typeAt {r : String} (known : d.typeAt cache home r = some ty) :
    d.Made cache ty :=
  .expr (e := .named r) known

/-- What is remembered where a reference leads is a definition. -/
theorem Settled.exists_definition (settled : d.Settled cache) {r : String}
    (known : d.typeAt cache home r = some ty) :
    ∃ (home : d.Home) (x : Definition), x ∈ home.1.definitions ∧ d.Resolves cache home x ty := by
  unfold typeAt at known
  split at known
  · obtain ⟨home, x, mem, _, _, resolves⟩ := settled _ ty known
    exact ⟨home, x, mem, resolves⟩
  · cases known

/-- The members of a struct have the names of declared fields and the types of these. -/
theorem exists_decl_of_member {look : String → Option Ty} {file : String}
    {decls : List FieldDecl} {members : List Field}
    (h : decls.mapM (·.resolve look file) = some members) {f : Field} (mem : f ∈ members) :
    ∃ g ∈ decls, g.name = f.name ∧ g.type.resolve look = some f.type := by
  -- induction on the members; a member is that of the declaration in its place
  induction decls generalizing members with
  | nil =>
    cases h
    cases mem
  | cons g rest ih =>
    rw [List.mapM_cons] at h
    obtain ⟨member, first, h⟩ := Option.bind_eq_some_iff.1 h
    obtain ⟨others, later, h⟩ := Option.bind_eq_some_iff.1 h
    cases h
    rcases List.mem_cons.1 mem with rfl | mem
    · obtain ⟨type, resolved, first⟩ := Option.bind_eq_some_iff.1 first
      cases first
      exact ⟨g, List.mem_cons_self, rfl, resolved⟩
    · obtain ⟨g', among, found⟩ := ih later mem
      exact ⟨g', List.mem_cons_of_mem g among, found⟩

/-- A definition is resolved to a type with its fields, in the file of its schema. -/
theorem Resolves.names (h : d.Resolves cache home x ty) (among : x ∈ home.1.definitions) :
    d.vocabulary.Names ty := by
  have here : d.vocabulary.file home.1.file := ⟨home.1, home.2, rfl⟩
  -- a struct names its fields, an alias or an enum only its file
  cases x with
  | struct name decls =>
    obtain ⟨members, inside, same⟩ := Option.bind_eq_some_iff.1 h
    cases same
    refine ⟨fun n mem => ⟨home.1, home.2, _, among, ?_⟩, fun _ file => Option.some.inj file ▸ here⟩
    obtain ⟨f, member, rfl⟩ := List.mem_map.1 mem
    obtain ⟨g, declared, same, _⟩ := exists_decl_of_member inside member
    exact List.mem_map.2 ⟨g, declared, same⟩
  | enum =>
    cases h
    exact ⟨nofun, fun _ file => Option.some.inj file ▸ here⟩
  | typedef =>
    obtain ⟨_, _, same⟩ := Option.bind_eq_some_iff.1 h
    cases same
    exact ⟨nofun, fun _ file => Option.some.inj file ▸ here⟩

/-- The parts of a type that a definition is resolved to are made by its expressions. -/
theorem Resolves.made (h : d.Resolves cache home x ty) {part : Ty} (mem : part ∈ ty.parts) :
    d.Made cache part := by
  cases x with
  | struct name decls =>
    obtain ⟨members, inside, same⟩ := Option.bind_eq_some_iff.1 h
    cases same
    obtain ⟨f, among, rfl⟩ := List.mem_map.1 mem
    obtain ⟨_, _, _, resolved⟩ := exists_decl_of_member inside among
    exact .expr resolved
  | enum =>
    cases h
    cases mem
  | typedef name target =>
    obtain ⟨inner, inside, same⟩ := Option.bind_eq_some_iff.1 h
    cases same
    obtain rfl := List.mem_singleton.1 mem
    exact .expr inside

/-- The parts of a type that is made are made, too. -/
theorem Made.part (settled : d.Settled cache) (made : d.Made cache ty) {part : Ty}
    (mem : part ∈ ty.parts) : d.Made cache part := by
  -- a type expression is made of its own parts, and a named one of those of the definition
  cases made with
  | definition _ h => exact h.made mem
  | @expr _ e _ h =>
    cases e with
    | named r =>
      obtain ⟨_, _, _, resolves⟩ := settled.exists_definition h
      exact resolves.made mem
    | primitive | binary =>
      cases h
      cases mem
    | list | set =>
      obtain ⟨_, inside, same⟩ := Option.bind_eq_some_iff.1 h
      cases same
      obtain rfl := List.mem_singleton.1 mem
      exact .expr inside
    | map =>
      obtain ⟨_, key, h⟩ := Option.bind_eq_some_iff.1 h
      obtain ⟨_, value, same⟩ := Option.bind_eq_some_iff.1 h
      cases same
      rcases List.mem_pair.1 mem with rfl | rfl
      · exact .expr key
      · exact .expr value

/-- What a type that is made speaks of is declared in the document. -/
theorem Made.names (settled : d.Settled cache) (made : d.Made cache ty) :
    d.vocabulary.Names ty := by
  cases made with
  | definition among h => exact h.names among
  | @expr _ e _ h =>
    cases e with
    | named r =>
      obtain ⟨_, _, among, resolves⟩ := settled.exists_definition h
      exact resolves.names among
    | primitive | binary =>
      cases h
      exact ⟨nofun, nofun⟩
    | list | set =>
      obtain ⟨_, _, same⟩ := Option.bind_eq_some_iff.1 h
      cases same
      exact ⟨nofun, nofun⟩
    | map =>
      obtain ⟨_, _, h⟩ := Option.bind_eq_some_iff.1 h
      obtain ⟨_, _, same⟩ := Option.bind_eq_some_iff.1 h
      cases same
      exact ⟨nofun, nofun⟩

/-- A type that is made speaks of the document. -/
theorem Made.covers (settled : d.Settled cache) (made : d.Made cache ty) :
    d.vocabulary.Covers ty := by
  intro part within
  induction within with
  | here => exact made.names settled
  | deeper mem _ ih => exact ih (made.part settled mem)

/-- The structs at the ends of a conversion speak of the document. -/
theorem resolveStruct_covers {decl : ConversionDecl} {reference context : String}
    {s : Struct} {cache' : Cache} (mem : decl ∈ d.conversions)
    (written : reference ∈ [decl.source, decl.dest]) (settled : d.Settled cache)
    (h : d.resolveStruct reference context cache = .ok (s, cache')) :
    d.Proceeds [] cache cache' ∧ d.vocabulary.Covers s.toTy := by
  obtain ⟨home, r, ends, resolved⟩ := resolveStruct_eq_ok h
  have entered : ∀ target y, d.LeadsTo home r target y → d.Entered target y :=
    fun _ _ => .ending mem written ends
  obtain ⟨proceeds, found⟩ := resolve_settles [] home r entered cache _ cache' settled resolved
  exact ⟨proceeds, Made.covers proceeds.settled (.of_typeAt found)⟩

end Document

/-- The structs of a resolved conversion speak of the document, and of nothing else. -/
theorem Catalog.covers {d : Document} {catalog : Catalog}
    (h : Catalog.ofDocument d = .ok catalog) {c : Conversion} (mem : c ∈ catalog.conversions) :
    d.vocabulary.Covers c.source.toTy ∧ d.vocabulary.Covers c.dest.toTy := by
  obtain ⟨between, definitions, conversions⟩ := ofDocument_eq_ok h
  have start := (Document.resolveDefinitions_settles Document.settled_nil definitions).1
  have step : ∀ decl ∈ d.conversions, ∀ t u t', d.Settled t →
      d.resolveConversion decl t = .ok (u, t') → d.Settled t' :=
    fun decl mem t u t' settled done =>
      (Document.resolveConversion_settles mem settled done).1.settled
  have each := stateT_forall₂_of_mapM_of_keeps step start conversions
  obtain ⟨decl, _, declared, t, t', settled, done⟩ := exists_of_forall₂ each.flip mem
  obtain ⟨context, u, first, second⟩ := Document.resolveConversion_structs done
  obtain ⟨proceeds, source⟩ := Document.resolveStruct_covers declared (by simp) settled first
  obtain ⟨_, dest⟩ := Document.resolveStruct_covers declared (by simp) proceeds.settled second
  exact ⟨source, dest⟩

end Crosswalk
