import Crosswalk.Proofs.Catalog
import Crosswalk.Proofs.Mapped

/-!
# Source fields of mappings

Every mapping of a catalog describes a field of its source struct: the names of the mapping lead to
it, through the parents that are noted, and the entry of the mapping reads it. A document with a
mapping whose names lead nowhere has no catalog. That mapping is the fault that is reported if it is
the first one met: definitions come first, then the conversions in order, and of each its ends before
its mappings.
-/

namespace Crosswalk
set_option autoImplicit false

/-! ## Names that lead to a field -/

/-- Names lead from the fields of a struct down to a field, each but the last through a field whose
type is a struct, be it under aliases. The fields on the way are listed with the last one. -/
inductive Follows : List Field → List String → List Field → Prop
  | last {fields : List Field} {name : String} {f : Field} (found : findField? fields name = some f) :
      Follows fields [name] [f]
  | through {fields inner passed : List Field} {name own file : String} {below : List String}
      {f : Field} (found : findField? fields name = some f)
      (struct : f.type.resolved = .struct own file inner) (h : Follows inner below passed) :
      Follows fields (name :: below) (f :: passed)

section
variable {fields passed : List Field} {names : List String}

/-- The fields on the way have the names that were followed. -/
theorem Follows.names_eq (h : Follows fields names passed) : passed.map (·.name) = names := by
  induction h with
  | last found => rw [List.map_singleton, name_of_findField? found]
  | through found _ _ ih => rw [List.map_cons, ih, name_of_findField? found]

/-- The names lead where the search along the fields goes. -/
theorem follows_iff : Follows fields names passed ↔ fieldsAlong? fields names = some passed := by
  -- the search and the relation go along the names in the same steps
  constructor
  · intro h
    induction h with
    | last found => rw [fieldsAlong?, found]; rfl
    | @through _ _ _ name _ _ below f found struct h ih =>
      obtain ⟨next, names, rfl⟩ := List.exists_cons_of_ne_nil (fieldsAlong?_ne_nil ih).1
      rw [fieldsAlong?, found]
      · simp [struct, ih]
      · simp
  · intro h
    induction names generalizing fields passed with
    | nil => cases h
    | cons name below ih =>
      obtain ⟨f, found, ⟨rfl, rfl⟩ | ⟨_, _, inner, deeper, struct, along, rfl⟩⟩ :=
        fieldsAlong?_cons h
      · exact .last found
      · exact .through found struct (ih along)

end

/-! ## What a mapping describes -/

/-- The accesses of fields with names, each of which may be absent as is noted for it. -/
def accessesOf (names : List String) (optional : List Bool) : List Access :=
  List.zipWith .field names optional

/-- The accesses of fields are those of their names. -/
theorem accessesOf_map (passed : List Field) :
    accessesOf (passed.map (·.name)) (passed.map (·.isOptional)) = passed.map FieldOf.access := by
  rw [accessesOf, List.zipWith_map, List.zipWith_self]
  rfl

/-- A mapping describes a field of a struct: its names lead there, through parents of which it notes
whether they may be absent, and the entry that is made of it in a table reads just that. -/
structure Mapping.Describes (m : Mapping) (source : Struct) : Prop where
  follows : ∃ parents : List Field, Follows source.fields m.source (parents ++ [m.field]) ∧
    m.parentsOptional = parents.map (·.isOptional)
  steps : m.source.length = m.parentsOptional.length + 1
  entry : ∀ before after table, MappingTable.ofMappings (before ++ m :: after) = .ok table →
    (∀ later ∈ after, Path.parse later.dest ≠ Path.parse m.dest) →
    ∃ path e, Path.parse m.dest = .ok path ∧ table.get? path = some e ∧
      e.place = ⟨.input, accessesOf m.source (m.parentsOptional ++ [m.field.isOptional]),
        m.field.isOptional⟩

/-- The entry at the path of a mapping is that of the mapping, if none behind it has the path. -/
theorem MappingTable.get?_of_last {before after : List Mapping} {m : Mapping} {table : MappingTable}
    (h : ofMappings (before ++ m :: after) = .ok table)
    (last : ∀ later ∈ after, Path.parse later.dest ≠ Path.parse m.dest) :
    ∃ path, Path.parse m.dest = .ok path ∧ table.get? path = some m.entry := by
  obtain ⟨path, parsed⟩ := exists_path_of_ofMappings h (m := m) (by simp)
  have none : after.reverse.find? (fun m => (Path.parse m.dest).toOption = some path) = none := by
    rw [List.find?_eq_none]
    intro later mem same
    have same : Path.parse later.dest = .ok path := by simpa [toOption_eq_some] using same
    exact last later (List.mem_reverse.1 mem) (same.trans parsed.symm)
  refine ⟨path, parsed, ?_⟩
  rw [get?_ofMappings h, List.reverse_append, List.reverse_cons, List.append_assoc,
    List.find?_append, none]
  simp [parsed, Except.toOption]

/-- A mapping whose names lead to its field describes it. -/
theorem Mapping.LeadsFrom.describes {m : Mapping} {source : Struct} (h : m.LeadsFrom source) :
    m.Describes source := by
  -- the fields on the way are the parents that the mapping notes, and then the mapping's own field
  obtain ⟨passed, along, last, parents⟩ := h
  have place := place_entry along last parents
  obtain ⟨front, rfl⟩ : ∃ front, passed = front ++ [m.field] :=
    ⟨passed.dropLast, (List.dropLast_append_getLast? _ last).symm⟩
  rw [List.dropLast_concat] at parents
  have follows : Follows source.fields m.source (front ++ [m.field]) := follows_iff.2 along
  have names := follows.names_eq
  have noted : m.parentsOptional ++ [m.field.isOptional] =
      (front ++ [m.field]).map (·.isOptional) := by
    rw [parents, List.map_append, List.map_singleton]
  refine ⟨⟨front, follows, parents⟩, ?_, fun before after table tabled final => ?_⟩
  · rw [← names, parents]
    simp
  · obtain ⟨path, parsed, found⟩ := MappingTable.get?_of_last tabled final
    refine ⟨path, m.entry, parsed, found, ?_⟩
    rw [noted, ← names, accessesOf_map, place]

/-! ## Mappings that lead nowhere -/

namespace MappingDecl
variable {m : MappingDecl} {source : Struct} {fault : SchemaError}

/-- The names in the source path of a mapping. -/
def names (m : MappingDecl) : List String :=
  (Text.splitOn '.' m.source.toList).map String.ofList

/-- The names of a mapping lead to a field of a struct. -/
def Followable (source : Struct) (m : MappingDecl) : Prop :=
  ∃ passed, Follows source.fields m.names passed

/-- A mapping whose names lead to a field is resolved. -/
theorem exists_resolve_of_followable (h : m.Followable source) :
    ∃ mapping, m.resolve source = .ok mapping := by
  obtain ⟨passed, follows⟩ := h
  have along := follows_iff.1 follows
  have last := List.getLast?_eq_some_getLast (fieldsAlong?_ne_nil along).2
  rw [names] at along
  simp only [resolve, along, Option.getD_some, last]
  exact ⟨_, rfl⟩

/-- A mapping whose names lead nowhere is not. -/
theorem resolve_of_not_followable (h : ¬ m.Followable source) :
    m.resolve source = .error (.fieldNotFound m.source source.name) := by
  have nowhere : fieldsAlong? source.fields m.names = none :=
    Option.eq_none_iff_forall_ne_some.2 fun passed along => h ⟨passed, follows_iff.2 along⟩
  rw [names] at nowhere
  simp [resolve, nowhere]

/-- So it is resolved exactly if they lead somewhere. -/
theorem exists_resolve_iff : (∃ mapping, m.resolve source = .ok mapping) ↔ m.Followable source := by
  refine ⟨fun ⟨mapping, resolved⟩ => ?_, exists_resolve_of_followable⟩
  by_contra h
  rw [resolve_of_not_followable h] at resolved
  cases resolved

/-- Its only fault is that they lead nowhere. -/
theorem resolve_eq_error_iff : m.resolve source = .error fault ↔
    ¬ m.Followable source ∧ fault = .fieldNotFound m.source source.name := by
  constructor
  · intro failed
    have h : ¬ m.Followable source := by
      intro follows
      obtain ⟨mapping, resolved⟩ := exists_resolve_of_followable follows
      rw [failed] at resolved
      cases resolved
    rw [resolve_of_not_followable h] at failed
    exact ⟨h, (Except.error.inj failed).symm⟩
  · rintro ⟨h, rfl⟩
    exact resolve_of_not_followable h

/-- Of several mappings the first that leads nowhere is reported. -/
theorem mapM_resolve_eq_error_iff {mappings : List MappingDecl} :
    mappings.mapM (·.resolve source) = .error fault ↔ ∃ before m after,
      mappings = before ++ m :: after ∧ (∀ earlier ∈ before, earlier.Followable source) ∧
        ¬ m.Followable source ∧ fault = .fieldNotFound m.source source.name := by
  simp only [mapM_eq_error_iff, exists_resolve_iff, resolve_eq_error_iff]

end MappingDecl

/-! ## Steps before the mappings -/

namespace Document
variable {d : Document} {decl : ConversionDecl} {before after : List ConversionDecl}
  {cache cache' : Cache} {fault : SchemaError} {source dest : Struct}

/-- In a conversion that is resolved, all mappings lead somewhere. -/
theorem followable_of_resolveConversion {c : Conversion}
    (h : d.resolveConversion decl cache = .ok (c, cache')) :
    ∀ m ∈ decl.mappings, m.Followable c.source := by
  intro m mem
  obtain ⟨_, _, mapped⟩ := resolveConversion_eq_ok h
  obtain ⟨mapping, _, found⟩ := exists_of_forall₂ (forall₂_of_mapM mapped) mem
  exact MappingDecl.exists_resolve_iff.1 ⟨mapping, found⟩

/-- All definitions are resolved and some conversions are, and the types that are known then are
those in the cache. -/
def Proceeded (d : Document) (before : List ConversionDecl) (cache : Cache) : Prop :=
  ∃ start results, d.resolveDefinitions [] = .ok ((), start) ∧
    before.mapM d.resolveConversion start = .ok (results, cache)

/-- What is known behind some conversions is told by the document. -/
theorem Proceeded.unique (h : d.Proceeded before cache) (h' : d.Proceeded before cache') :
    cache = cache' := by
  obtain ⟨start, results, definitions, first⟩ := h
  obtain ⟨_, _, definitions', first'⟩ := h'
  rw [definitions] at definitions'
  cases definitions'
  rw [first] at first'
  cases first'
  rfl

/-- All definitions are resolved, and the conversions before one are, and both its ends. -/
def Arrives (d : Document) (before : List ConversionDecl) (decl : ConversionDecl)
    (source : Struct) : Prop :=
  ∃ cache dest behind, d.Proceeded before cache ∧
    d.resolveEnds decl cache = .ok ((source, dest), behind)

/-- The source struct that is arrived at is told by the document. -/
theorem Arrives.unique {source' : Struct} (h : d.Arrives before decl source)
    (h' : d.Arrives before decl source') : source = source' := by
  obtain ⟨cache, dest, behind, proceeded, ends⟩ := h
  obtain ⟨_, _, _, proceeded', ends'⟩ := h'
  obtain rfl := proceeded.unique proceeded'
  rw [ends] at ends'
  cases ends'
  rfl

/-- A definition cannot be resolved, or an end of one of the conversions: with what is known where
the run comes to it, all definitions and the conversions before it being resolved. -/
def Unresolved (d : Document) (decls : List ConversionDecl) (fault : SchemaError) : Prop :=
  d.resolveDefinitions [] = .error fault ∨
    ∃ before decl after cache, decls = before ++ decl :: after ∧ d.Proceeded before cache ∧
      d.resolveEnds decl cache = .error fault

/-- The first mapping that is come to and leads nowhere. -/
def Strays (d : Document) (source : Struct) (m : MappingDecl) : Prop :=
  ∃ before decl after earlier later, d.conversions = before ++ decl :: after ∧
    d.Arrives before decl source ∧ decl.mappings = earlier ++ m :: later ∧
    (∀ other ∈ earlier, other.Followable source) ∧ ¬ m.Followable source

/-! ## Faults of references -/

/-- A fault that is not that of a mapping. -/
def OfReference (fault : SchemaError) : Prop :=
  ∀ path own, fault ≠ .fieldNotFound path own

/-- Resolving a reference never gives the fault of a mapping. -/
theorem resolve_fails (stack : List String) : ∀ (home : d.Home) (r : String) (cache : Cache),
    FailsOnly OfReference (d.resolve stack home r cache) := by
  induction stack using d.stack_induction with
  | step stack ih =>
    intro home r cache fault h
    rcases resolve_eq_error h with unlocated | ⟨schema, name, _, why⟩
    · obtain ⟨qualifier, rfl⟩ := locate_eq_error unlocated
      exact nofun
    · rcases why with ⟨_, rfl⟩ | ⟨_, rfl⟩ | ⟨x, fresh, found, failed⟩
      · exact nofun
      · exact nofun
      · obtain rfl := Schema.name_of_find? found
        obtain ⟨r', _, cache', failed⟩ := resolve_definition_error failed
        exact ih _ (key_mem schema.2 found) fresh schema r' cache' fault failed

/-- Resolving an end of a conversion never does either. -/
theorem resolveStruct_fails (reference context : String) (cache : Cache) :
    FailsOnly OfReference (d.resolveStruct reference context cache) := by
  intro fault h
  rcases resolveStruct_eq_error h with ⟨home, r, failed⟩ | rfl | ⟨_, rfl⟩ | ⟨_, rfl⟩
  · exact resolve_fails [] home r cache fault failed
  · exact nofun
  · exact nofun
  · exact nofun

/-- What cannot be resolved is a reference. -/
theorem Unresolved.ofReference {decls : List ConversionDecl} (h : d.Unresolved decls fault) :
    OfReference fault := by
  rcases h with failed | ⟨_, decl, _, cache, _, _, failed⟩
  · obtain ⟨home, x, between, _, failed⟩ := resolveDefinitions_error failed
    exact resolve_fails [] home x.name between fault failed
  · obtain ⟨reference, context, between, failed⟩ := resolveEnds_eq_error failed
    exact resolveStruct_fails reference context between fault failed

end Document

/-! ## The fault that is met first -/

section
variable {d : Document} {fault : SchemaError} {before after : List ConversionDecl}
  {decl : ConversionDecl} {m : MappingDecl}

/-- There is no catalog if a definition fails, or a conversion when all definitions are resolved. -/
theorem Catalog.ofDocument_eq_error_iff : Catalog.ofDocument d = .error fault ↔
    d.resolveDefinitions [] = .error fault ∨ ∃ start, d.resolveDefinitions [] = .ok ((), start) ∧
      d.conversions.mapM d.resolveConversion start = .error fault := by
  have all : Catalog.ofDocument d = .error fault ↔ d.resolveAll [] = .error fault := by
    refine bind_eq_error.trans ⟨?_, .inl⟩
    rintro (failed | ⟨_, _, h⟩)
    · exact failed
    · cases h
  rw [all, Document.resolveAll_eq, stateT_bind_eq_error]
  exact or_congr_right ⟨fun ⟨_, start, done⟩ => ⟨start, done⟩, fun ⟨start, done⟩ => ⟨(), start, done⟩⟩

/-- A mapping is reported exactly if it is the first fault. -/
theorem Catalog.ofDocument_eq_fieldNotFound_iff {path own : String} :
    Catalog.ofDocument d = .error (.fieldNotFound path own) ↔
      ∃ source m, d.Strays source m ∧ path = m.source ∧ own = source.name := by
  rw [ofDocument_eq_error_iff]
  constructor
  -- the fault is of a definition, of an end, or of a mapping; only the last has this form
  · rintro (failed | ⟨start, definitions, failed⟩)
    · have unresolved : d.Unresolved [] (.fieldNotFound path own) := .inl failed
      exact absurd rfl (unresolved.ofReference path own)
    · obtain ⟨before, decl, after, results, between, split, earlier, failed⟩ :=
        stateT_mapM_eq_error_iff.1 failed
      rcases Document.resolveConversion_eq_error_iff.1 failed with
        failed | ⟨source, dest, behind, ends, failed⟩
      · have unresolved : d.Unresolved (before ++ [decl]) (.fieldNotFound path own) :=
          .inr ⟨before, decl, [], between, rfl, ⟨start, results, definitions, earlier⟩, failed⟩
        exact absurd rfl (unresolved.ofReference path own)
      · obtain ⟨first, m, later, mappings, each, nowhere, same⟩ :=
          MappingDecl.mapM_resolve_eq_error_iff.1 failed
        obtain ⟨rfl, rfl⟩ := SchemaError.fieldNotFound.inj same
        exact ⟨source, m, ⟨before, decl, after, first, later, split,
          ⟨between, dest, behind, ⟨start, results, definitions, earlier⟩, ends⟩, mappings, each,
          nowhere⟩, rfl, rfl⟩
  -- a stray mapping is met behind all that is known to succeed
  · rintro ⟨source, m, strays, rfl, rfl⟩
    obtain ⟨before, decl, after, first, later, split, arrives, mappings, each, nowhere⟩ := strays
    obtain ⟨between, dest, behind, ⟨start, results, definitions, earlier⟩, ends⟩ := arrives
    refine .inr ⟨start, definitions, stateT_mapM_eq_error_iff.2
      ⟨before, decl, after, results, between, split, earlier, ?_⟩⟩
    exact Document.resolveConversion_eq_error_iff.2 (.inr ⟨source, dest, behind, ends,
      MappingDecl.mapM_resolve_eq_error_iff.2 ⟨first, m, later, mappings, each, nowhere, rfl⟩⟩)

/-- Where the mappings of a conversion are come to, one that leads nowhere is reported, if there
is any. -/
theorem Catalog.exists_fieldNotFound {source : Struct}
    (split : d.conversions = before ++ decl :: after) (arrives : d.Arrives before decl source)
    (mem : m ∈ decl.mappings) (nowhere : ¬ m.Followable source) :
    ∃ other ∈ decl.mappings, ¬ other.Followable source ∧
      Catalog.ofDocument d = .error (.fieldNotFound other.source source.name) := by
  cases run : decl.mappings.mapM (·.resolve source) with
  | ok mappings =>
    obtain ⟨mapping, _, resolved⟩ := exists_of_forall₂ (forall₂_of_mapM run) mem
    exact absurd (MappingDecl.exists_resolve_iff.1 ⟨mapping, resolved⟩) nowhere
  | error fault =>
    obtain ⟨earlier, other, later, parts, each, astray, _⟩ :=
      MappingDecl.mapM_resolve_eq_error_iff.1 run
    refine ⟨other, by simp [parts], astray, ofDocument_eq_fieldNotFound_iff.2 ⟨source, other, ?_⟩⟩
    exact ⟨⟨before, decl, after, earlier, later, split, arrives, parts, each, astray⟩, rfl, rfl⟩

/-- A mapping that leads nowhere leaves a document without a catalog. -/
theorem Catalog.exists_error_of_not_followable (split : d.conversions = before ++ decl :: after)
    (mem : m ∈ decl.mappings)
    (nowhere : ∀ source, d.Arrives before decl source → ¬ m.Followable source) :
    ∃ fault, Catalog.ofDocument d = .error fault ∧
      ((∃ path own, fault = .fieldNotFound path own) ∨ d.Unresolved (before ++ [decl]) fault) := by
  cases definitions : d.resolveDefinitions [] with
  -- a definition that fails is met before all conversions
  | error fault =>
    exact ⟨fault, ofDocument_eq_error_iff.2 (.inl definitions), .inr (.inl definitions)⟩
  | ok started =>
    obtain ⟨_, start⟩ := started
    cases run : (before ++ [decl]).mapM d.resolveConversion start with
    | ok done =>
      -- the conversion with the stray mapping would have been resolved
      obtain ⟨results, cache⟩ := done
      obtain ⟨earlier, between, own, first, last, _⟩ := stateT_mapM_append_eq_ok.1 run
      obtain ⟨c, behind, resolved, _⟩ := stateT_bind_eq_ok.1 last
      obtain ⟨_, ends, _⟩ := Document.resolveConversion_eq_ok resolved
      exact absurd (Document.followable_of_resolveConversion resolved m mem)
        (nowhere c.source ⟨between, c.dest, behind, ⟨start, earlier, definitions, first⟩, ends⟩)
    | error fault =>
      obtain ⟨front, failing, back, results, between, parts, first, failed⟩ :=
        -- what fails first is this conversion or one before it
        stateT_mapM_eq_error_iff.1 run
      have whole : d.conversions = front ++ failing :: (back ++ after) := by
        rw [split, ← List.singleton_append, ← List.append_assoc, parts]
        simp
      refine ⟨fault, ofDocument_eq_error_iff.2 (.inr ⟨start, definitions,
        stateT_mapM_eq_error_iff.2 ⟨front, failing, _, results, between, whole, first, failed⟩⟩), ?_⟩
      rcases Document.resolveConversion_eq_error_iff.1 failed with
        unresolved | ⟨source, _, _, _, astray⟩
      · exact .inr (.inr ⟨front, failing, back, between, parts,
          ⟨start, results, definitions, first⟩, unresolved⟩)
      · obtain ⟨_, m', _, _, _, _, same⟩ := MappingDecl.mapM_resolve_eq_error_iff.1 astray
        exact .inl ⟨m'.source, source.name, same⟩

/-- Every mapping of a catalog describes a field of its source struct. A document with a mapping that
leads nowhere has no catalog. If definitions, earlier conversions and both ends of its conversion are
resolved, then the first such mapping of the conversion is the fault. In any case the fault is a
mapping that leads nowhere, unless a definition or an end of this or an earlier conversion cannot be
resolved. -/
theorem mappings_describe_fields (d : Document) :
    (∀ catalog, Catalog.ofDocument d = .ok catalog → ∀ c ∈ catalog.conversions,
      ∀ m ∈ c.mappings, m.Describes c.source) ∧
    (∀ path own, Catalog.ofDocument d = .error (.fieldNotFound path own) ↔
      ∃ source m, d.Strays source m ∧ path = m.source ∧ own = source.name) ∧
    ∀ before decl after, d.conversions = before ++ decl :: after → ∀ m ∈ decl.mappings,
      (∀ source, d.Arrives before decl source → ¬ m.Followable source →
        ∃ other ∈ decl.mappings, ¬ other.Followable source ∧
          Catalog.ofDocument d = .error (.fieldNotFound other.source source.name)) ∧
      ((∀ source, d.Arrives before decl source → ¬ m.Followable source) →
        ∃ fault, Catalog.ofDocument d = .error fault ∧
          ((∃ path own, fault = .fieldNotFound path own) ∨
            d.Unresolved (before ++ [decl]) fault)) :=
  ⟨fun _ h _ conversion _ mem => (Catalog.leadsFrom h conversion mem).describes,
    fun _ _ => Catalog.ofDocument_eq_fieldNotFound_iff,
    fun _ _ _ split _ mem => ⟨fun _ arrives => Catalog.exists_fieldNotFound split arrives mem,
      Catalog.exists_error_of_not_followable split mem⟩⟩

end

namespace Move

/-- A person has a name. -/
def person : Definition := .struct "Person" [⟨"Name", .primitive .string, true⟩]

open Definition in
/-- A card stands for a person. -/
def card : Definition := typedef "Card" (.named "Person")

/-- A user can have a card. -/
def user : Definition := .struct "User" [⟨"Card", .named "Card", false⟩]

/-- The name is that of the person that the card stands for. -/
def named : ConversionDecl := ⟨"Named", "api.User", "api.Person", [⟨"Name", "Card.Name", false⟩]⟩

def namedDocument : Document := ⟨[⟨"api", "api.thrift", [person, card, user]⟩], [named]⟩

def people : Schema := ⟨"api", "api.thrift", [person]⟩

/-- A document with people and a conversion. -/
def moving (c : ConversionDecl) : Document := ⟨[people], [c]⟩

/-- No field is called `Nick`. -/
def fromNick : MappingDecl := ⟨"Name", "Nick", false⟩

/-- The conversion with that mapping. -/
def nicked : ConversionDecl := ⟨"Nicked", "api.Person", "api.Person", [fromNick]⟩

/-- What the person is resolved to. -/
def personStruct : Struct :=
  ⟨"Person", "api.thrift", [⟨"Name", .primitive .string, true, "api.thrift"⟩]⟩

/-- The types that are known when the definitions are resolved. -/
def known : Cache := [("api.Person", personStruct.toTy)]

/-- The names of the mapping lead nowhere. -/
theorem nick_astray : ¬ fromNick.Followable personStruct := by
  rintro ⟨passed, follows⟩
  rw [follows_iff] at follows
  cases follows

/-- The definitions are resolved whatever the conversion is. -/
theorem definitions_resolved (c : ConversionDecl) :
    (moving c).resolveDefinitions [] = .ok ((), known) := by
  have first : (moving c).resolve [] ⟨people, List.mem_singleton_self people⟩ "Person" [] =
      .ok (personStruct.toTy, known) := by
    rw [Document.resolve]
    rfl
  have own := stateT_discard_eq_ok.2 ⟨_, first⟩
  exact stateT_bind_eq_ok.2 ⟨(), known, stateT_bind_eq_ok.2 ⟨(), known, own, rfl⟩, rfl⟩

/-- Both ends can be the person. -/
theorem person_resolved (c : ConversionDecl) (context : String) :
    (moving c).resolveStruct "api.Person" context known = .ok (personStruct, known) := by
  have again : (moving c).resolve [] ⟨people, List.mem_singleton_self people⟩ "Person" known =
      .ok (personStruct.toTy, known) := by
    rw [Document.resolve]
    rfl
  exact stateT_bind_eq_ok.2 ⟨_, known, again, rfl⟩

/-- Nothing fails before the stray mapping. -/
theorem nicked_arrives : (moving nicked).Arrives [] nicked personStruct := by
  refine ⟨known, personStruct, known, ⟨known, [], definitions_resolved nicked, rfl⟩, ?_⟩
  exact stateT_bind_eq_ok.2 ⟨personStruct, known, person_resolved nicked _,
    stateT_bind_eq_ok.2 ⟨personStruct, known, person_resolved nicked _, rfl⟩⟩

/-- The mapping through an alias is found and entered, and the one from a missing field reported. -/
theorem card_name_entered :
    (∃ catalog, Catalog.ofDocument namedDocument = .ok catalog ∧
      ∃ c ∈ catalog.conversions, ∃ m ∈ c.mappings, m.Describes c.source ∧
        ∃ table path e, MappingTable.ofMappings [m] = .ok table ∧ table.get? path = some e ∧
          e.place = ⟨.input, [.field "Card" true, .field "Name" false], false⟩) ∧
    (moving nicked).Arrives [] nicked personStruct ∧ ¬ fromNick.Followable personStruct ∧
      Catalog.ofDocument (moving nicked) = .error (.fieldNotFound "Nick" "Person") ∧
      ∃ fault, Catalog.ofDocument (moving nicked) = .error fault ∧
        ((∃ path own, fault = .fieldNotFound path own) ∨
          (moving nicked).Unresolved [nicked] fault) := by
  constructor
  -- the name that is mapped through an alias
  · have found : (Catalog.ofDocument namedDocument).toOption.any (fun catalog =>
        catalog.conversions.any fun c => c.mappings.any fun m =>
          m.source = ["Card", "Name"] ∧ m.parentsOptional = [true] ∧ m.field.isOptional = false ∧
            (MappingTable.ofMappings [m]).toOption.isSome) = true := by decide +kernel
    obtain ⟨catalog, resolved, found⟩ := (Option.any_eq_true _ _).1 found
    obtain ⟨c, conversion, found⟩ := List.any_eq_true.1 found
    obtain ⟨m, mem, found⟩ := List.any_eq_true.1 found
    obtain ⟨names, parents, last, tabled⟩ := of_decide_eq_true found
    obtain ⟨table, tabled⟩ := Option.isSome_iff_exists.1 tabled
    rw [toOption_eq_some] at resolved tabled
    have describes := (mappings_describe_fields _).1 catalog resolved c conversion m mem
    obtain ⟨path, e, _, entry, place⟩ := describes.entry [] [] table tabled nofun
    rw [names, parents, last] at place
    exact ⟨catalog, resolved, c, conversion, m, mem, describes, table, path, e, tabled, entry,
      place⟩
  -- the stray mapping, which is the only one and therefore the one reported
  · have among : fromNick ∈ nicked.mappings := List.mem_singleton_self fromNick
    obtain ⟨_, _, converse⟩ := mappings_describe_fields (moving nicked)
    obtain ⟨named, fails⟩ := converse [] nicked [] rfl fromNick among
    obtain ⟨other, mem, _, failed⟩ := named personStruct nicked_arrives nick_astray
    obtain rfl := List.mem_singleton.1 mem
    refine ⟨nicked_arrives, nick_astray, failed, fails fun source arrives => ?_⟩
    rw [arrives.unique nicked_arrives]
    exact nick_astray

/-- The destination is missing as well as the source field. -/
def lost : ConversionDecl := ⟨"Lost", "api.Person", "api.Guest", [fromNick]⟩

/-- There is no guest among the definitions. -/
theorem guest_missing (context : String) :
    (moving lost).resolveStruct "api.Guest" context known =
      .error (.typeNotFound "Guest" "api") := by
  have nothing : (moving lost).resolve [] ⟨people, by decide⟩ "Guest" known =
      .error (.typeNotFound "Guest" "api") := by
    rw [Document.resolve]
    rfl
  exact stateT_bind_eq_error.2 (.inl nothing)

/-- The missing end is reported, and not the stray mapping. -/
theorem lost_fails_with_end :
    (moving lost).validate = .ok () ∧ fromNick ∈ lost.mappings ∧
      (∀ context, (moving lost).resolveStruct lost.source context known =
        .ok (personStruct, known)) ∧
      ¬ fromNick.Followable personStruct ∧
      Catalog.ofDocument (moving lost) = .error (.typeNotFound "Guest" "api") := by
  have ends : (moving lost).resolveEnds lost known = .error (.typeNotFound "Guest" "api") :=
    stateT_bind_eq_error.2 (.inr ⟨personStruct, known, person_resolved lost _,
      stateT_bind_eq_error.2 (.inl (guest_missing _))⟩)
  have failed := Document.resolveConversion_eq_error_iff.2 (.inl ends)
  refine ⟨?_, List.mem_singleton_self fromNick, person_resolved lost, nick_astray, ?_⟩
  · rw [Document.validate_eq_ok_iff]
    simp only [Schema.validate_eq_ok_iff]
    decide
  · exact Catalog.ofDocument_eq_error_iff.2 (.inr ⟨known, definitions_resolved lost,
      stateT_mapM_eq_error_iff.2 ⟨[], lost, [], [], known, rfl, rfl, failed⟩⟩)

end Move

end Crosswalk
