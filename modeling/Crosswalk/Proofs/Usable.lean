import Crosswalk.Proofs.Clash
import Crosswalk.Proofs.ModulePath
import Crosswalk.Proofs.Origin
import Crosswalk.Proofs.Scope
import Crosswalk.Proofs.Skipping

/-!
# Words of generated code

Identifiers reach a generated module in four ways. Names of conversions and fields are written in
snake case and escaped, settings are taken as they are, components of files are spelled as modules,
and variables for lists and maps are put together from a setting and a path. Whatever its way, a
word is an identifier, so it can be used unless it is a keyword. A variable for a list or map is
never one. The other ways let some keywords through, and which ones is said exactly.
-/

namespace Crosswalk
set_option autoImplicit false
open Converter

/-! ## The words of a statement -/

/-- The identifier in the text of an access: the name of a field, or the variable for a position or
a key. -/
def Access.word : Access → String
  | field name _ => Code.identifier name
  | index binding => binding
  | key binding => binding

/-- The identifiers in the text of a place. -/
def Place.words (s : Settings) (p : Place) : List String :=
  Code.rootText s p.root :: p.accesses.map Access.word

/-- The type that a value is cast to; no other value names one. -/
def Expr.type? : Expr → Option String
  | cast type _ _ => some type
  | _ => none

/-- The type that fresh storage names. The map for an aggregate is created without the type of its
values. -/
def Storage.type? : Storage → Option String
  | struct type => some type
  | list element _ => some element
  | map _ _ => none

namespace Statement

/-- The type that the text of a statement names. -/
def type? : Statement → Option String
  | assign _ value => value.type?
  | allocate _ storage _ => storage.type?
  | branch .. => none
  | loop .. => none

/-- The variables that a loop binds. -/
def bound : Statement → List String
  | loop _ binding _ => binding.names
  | _ => []

/-- The identifiers in the text of a statement, aside from the type in it. -/
def words (s : Settings) (st : Statement) : List String :=
  st.places.flatMap (Place.words s) ++ st.flag?.toList ++ st.bound

end Statement

/-! ## Where words come from -/

/-- The fields on a path are in a vocabulary. -/
def Path.Spoken (v : Vocabulary) (path : Path) : Prop :=
  ∀ n, .field n ∈ path.segments → v.field n

namespace Settings
variable {s : Settings} {v : Vocabulary}

/-- A word of a statement: a setting, the name of a field, or a variable for a list or map. -/
inductive Word (s : Settings) (v : Vocabulary) : String → Prop
  | setting {w : String} (mem : w ∈ [s.source, s.dest, s.index, s.key, s.value]) : Word s v w
  | field {n : String} (known : v.field n) : Word s v (Code.identifier n)
  | staged {lead : String} {path : Path} (mem : lead ∈ s.leads) (known : path.Spoken v) :
      Word s v (lead ++ "_" ++ path.ident)

/-- The variable for a selected list or map is put together from a setting and the path of the
field. -/
theorem word_sourceListVar {path : Path} (known : path.Spoken v) :
    s.Word v (sourceListVar s path) :=
  .staged List.mem_cons_self known

/-- So is the variable that tells whether the overriding source was taken. -/
theorem word_overrideFlagVar {path : Path} (known : path.Spoken v) :
    s.Word v (overrideFlagVar s path) :=
  .staged (List.mem_cons_of_mem _ List.mem_cons_self) known

/-- What a loop binds are settings. -/
theorem word_loopBinding {shape : Shape} {name : String}
    (mem : name ∈ (loopBinding s shape).names) : s.Word v name := by
  have settings : (loopBinding s shape).names ⊆ [s.source, s.dest, s.index, s.key, s.value] := by
    cases shape <;> simp [loopBinding, Binding.names, Binding.counter, Binding.value]
  exact .setting (settings mem)

end Settings

/-- All words of a place come from the settings and the vocabulary. -/
def Place.Spoken (s : Settings) (v : Vocabulary) (p : Place) : Prop :=
  ∀ w ∈ p.words s, s.Word v w

/-- The path and the place of a slot speak of the document. -/
structure Slot.Spoken (s : Settings) (v : Vocabulary) (slot : Slot) : Prop where
  path : slot.path.Spoken v
  place : slot.place.Spoken s v

/-- The place of a source speaks of the document, and so does its type, for fields below are read
from it. -/
structure Candidate.Spoken (s : Settings) (v : Vocabulary) (c : Candidate) : Prop where
  place : c.place.Spoken s v
  type : v.Covers c.type

/-- All sources in a table are spoken. -/
def MappingTable.Spoken (s : Settings) (v : Vocabulary) (table : MappingTable) : Prop :=
  ∀ path e, table.get? path = some e → e.candidate.Spoken s v

/-- What a level reads and writes speaks of the document. It is what the induction over emission
carries. -/
structure Level.Spoken (s : Settings) (v : Vocabulary) (level : Level) : Prop where
  table : level.table.Spoken s v
  path : level.path.Spoken v
  source : level.source.Spoken s v
  dest : level.dest.Spoken s v

section
variable {s : Settings} {v : Vocabulary} {p : Place} {path : Path}

/-- A path stays spoken on the way down to a field whose name is known. -/
theorem Path.Spoken.field {n : String} (h : path.Spoken v) (known : v.field n) :
    (path.field n).Spoken v := by
  intro m mem
  rcases List.mem_append.1 mem with mem | mem
  · exact h m mem
  · cases List.mem_singleton.1 mem
    exact known

/-- The path of an element adds no name of a field. -/
theorem Path.Spoken.element {slot : Slot} {shape : Shape} (h : slot.path.Spoken v) :
    (elementSlot s slot shape).path.Spoken v := by
  intro m mem
  rw [elementSlot_path] at mem
  rcases List.mem_append.1 mem with mem | mem
  · exact h m mem
  · cases shape <;> cases List.mem_singleton.1 mem

namespace Place

/-- A place without accesses has one word. -/
theorem spoken_root {root : Root} {optional : Bool} (word : s.Word v (Code.rootText s root)) :
    Spoken s v ⟨root, [], optional⟩ := by
  intro w mem
  rwa [List.mem_singleton.1 mem]

theorem spoken_input : input.Spoken s v := by
  apply spoken_root
  exact .setting List.mem_cons_self

theorem spoken_output : output.Spoken s v := by
  apply spoken_root
  exact .setting (List.mem_cons_of_mem _ List.mem_cons_self)

/-- A variable is a place with its own name as the only word. -/
theorem spoken_var {name : String} {optional : Bool} (word : s.Word v name) :
    (var name optional).Spoken s v :=
  spoken_root word

/-- A place has the words of the place before its last access, and that of the access. -/
theorem Spoken.snoc {access : Access} {optional : Bool} (h : p.Spoken s v)
    (word : s.Word v access.word) : Spoken s v ⟨p.root, p.accesses ++ [access], optional⟩ := by
  intro w mem
  rw [words, List.map_append, ← List.cons_append] at mem
  rcases List.mem_append.1 mem with mem | mem
  · exact h w mem
  · rwa [List.mem_singleton.1 mem]

/-- A field of a spoken place is spoken if its name is known. -/
theorem Spoken.field {n : String} {optional : Bool} (h : p.Spoken s v) (known : v.field n) :
    (p.field n optional).Spoken s v :=
  h.snoc (.field known)

end Place

/-- The elements of a slot are reached by a variable that a loop binds, which is a setting. -/
theorem Slot.Spoken.element {slot : Slot} {shape : Shape} (h : slot.Spoken s v) :
    (elementSlot s slot shape).Spoken s v where
  path := h.path.element
  place := by
    cases shape with
    | list => exact h.place.snoc (.setting (by simp [Access.word]))
    | map => exact h.place.snoc (.setting (by simp [Access.word]))

/-- A source that is chosen at a level is spoken. -/
theorem Level.Spoken.choose {level : Level} {sources : List Field} {name : String}
    {choice : Choice} (h : level.Spoken s v)
    (given : ∀ f ∈ sources, v.field f.name ∧ v.Covers f.type)
    (chosen : level.choose sources name = .ok choice) :
    ∀ c ∈ choice.candidates, c.Spoken s v := by
  intro c mem
  rcases Level.candidate_of_choose chosen mem with ⟨f, found, rfl⟩ | ⟨path, e, found, rfl⟩
  · obtain ⟨known, type⟩ := given f (List.mem_of_find?_eq_some found)
    exact ⟨h.source.field known, type⟩
  · exact h.table path e found

/-- The sources that mappings name are spoken if the source struct is. -/
theorem Mapping.spoken_entry {source : Struct} {m : Mapping} (covers : v.Covers source.toTy)
    (h : m.LeadsFrom source) : m.entry.candidate.Spoken s v := by
  obtain ⟨passed, place, reach⟩ := exists_place h
  obtain ⟨known, last⟩ := covers.walk (Ty.walks_of_at? reach)
  refine ⟨fun w mem => ?_, last⟩
  rw [Entry.candidate, Candidate.ofField, place] at mem
  rcases List.mem_cons.1 mem with rfl | mem
  · exact .setting (by simp [Code.rootText])
  · rw [List.map_map] at mem
    obtain ⟨f, among, rfl⟩ := List.mem_map.1 mem
    exact .field (known f.name f.isOptional (List.mem_map_of_mem among))

end

/-! ## The words of a program -/

/-- The name of a type that is part of another. -/
def Converter.NamesIn (cv : Converter) (whole : Ty) (name : String) : Prop :=
  ∃ path part, part.Within whole ∧ cv.typeName path part = .ok name

/-- All words of a statement come from the settings and the vocabulary, and the type that it names
is part of the destination. -/
structure Statement.Spoken (cv : Converter) (v : Vocabulary) (dest : Ty) (st : Statement) :
    Prop where
  places : ∀ p ∈ st.places, p.Spoken cv.settings v
  flag : ∀ name ∈ st.flag?, cv.settings.Word v name
  bound : ∀ name ∈ st.bound, cv.settings.Word v name
  type : ∀ name ∈ st.type?, cv.NamesIn dest name

/-- All words in the text of a spoken statement come from the settings and the vocabulary. -/
theorem Statement.Spoken.word {cv : Converter} {v : Vocabulary} {dest : Ty} {st : Statement}
    (h : st.Spoken cv v dest) {w : String} (mem : w ∈ st.words cv.settings) :
    cv.settings.Word v w := by
  rcases List.mem_append.1 mem with mem | mem
  · rcases List.mem_append.1 mem with mem | mem
    · obtain ⟨p, among, mem⟩ := List.mem_flatMap.1 mem
      exact h.places p among w mem
    · exact h.flag w (Option.mem_toList.1 mem)
  · exact h.bound w mem

section
variable {cv : Converter} {v : Vocabulary} {dest : Ty} {p : Place} {slot : Slot} {choice : Choice}
  {start : Site} {name : String}

/-- An assignment is spoken if its target is, what it reads is, and the type it casts to is part of
the destination. -/
theorem spoken_assign {value : Expr} (written : p.Spoken cv.settings v)
    (read : ∀ q ∈ value.places, q.Spoken cv.settings v)
    (type : ∀ name ∈ value.type?, cv.NamesIn dest name) :
    (Statement.assign p value).Spoken cv v dest where
  places := List.forall_mem_cons.2 ⟨written, read⟩
  flag := nofun
  bound := nofun
  type := type

/-- An allocation is spoken if its target and its size hint are. -/
theorem spoken_allocate {storage : Storage} {hint? : Option Place}
    (written : p.Spoken cv.settings v) (hint : ∀ q ∈ hint?, q.Spoken cv.settings v)
    (type : ∀ name ∈ storage.type?, cv.NamesIn dest name) :
    (Statement.allocate p storage hint?).Spoken cv v dest where
  places := List.forall_mem_cons.2 ⟨written, fun q mem => hint q (Option.mem_toList.1 mem)⟩
  flag := nofun
  bound := nofun
  type := type

/-- A presence check has the words of the place that it checks. -/
theorem spoken_present {yes no : Block} (read : p.Spoken cv.settings v) :
    (Statement.branch (.isPresent p) yes no).Spoken cv v dest where
  places := List.forall_mem_singleton.2 read
  flag := nofun
  bound := nofun
  type := nofun

/-- A check of a flag has that variable as its only word. -/
theorem spoken_flag {yes no : Block} (word : cv.settings.Word v name) :
    (Statement.branch (.flag name) yes no).Spoken cv v dest where
  places := nofun
  flag _ mem := Option.mem_some.1 mem ▸ word
  bound := nofun
  type := nofun

/-- A loop has the words of what it runs over, and its variables are settings. -/
theorem spoken_loop {body : Block} {shape : Shape} (read : p.Spoken cv.settings v) :
    (Statement.loop p (loopBinding cv.settings shape) body).Spoken cv v dest where
  places := List.forall_mem_singleton.2 read
  flag := nofun
  bound _ mem := Settings.word_loopBinding mem
  type := nofun

/-- The statements that assign a field from its sources are spoken if the field and the sources are.
-/
theorem spoken_assignChoice {guard : Bool} {value : Candidate → Expr}
    (written : p.Spoken cv.settings v) (sources : ∀ c ∈ choice.candidates, c.Spoken cv.settings v)
    (read : ∀ c, (value c).places = [c.place])
    (type : ∀ c, ∀ name ∈ (value c).type?, cv.NamesIn dest name) :
    Everywhere (fun _ st => st.Spoken cv v dest) start (assignChoice guard p value choice) := by
  refine everywhere_assignChoice (fun _ _ c mem _ _ => spoken_present (sources c mem).place)
    fun _ _ c mem => spoken_assign written ?_ (type c)
  rw [read]
  exact List.forall_mem_singleton.2 (sources c mem).place

/-- What an aggregate is filled from is a source, or the variable that the sources are selected
into. -/
theorem spoken_iterable {boxed : Bool} (named : slot.path.Spoken v)
    (sources : ∀ c ∈ choice.candidates, c.Spoken cv.settings v) :
    (stage cv.settings slot.path boxed choice).iterable.Spoken cv.settings v := by
  cases found : choice.fallback? with
  | none =>
    have single : (stage cv.settings slot.path boxed choice).iterable = choice.primary.place := by
      simp [stage, found]
    rw [single]
    exact (sources _ Choice.primary_mem).place
  | some fallback =>
    have selected : (stage cv.settings slot.path boxed choice).iterable =
        .var (sourceListVar cv.settings slot.path) fallback.optional := by simp [stage, found]
    rw [selected]
    exact Place.spoken_var (Settings.word_sourceListVar named)

/-- The program for a list or a map is spoken: it selects its sources into variables, allocates the
destination and fills it in a loop. What it does at each turn is spoken by assumption, whatever the
site. -/
theorem spoken_aggregateBlock {shape : Shape} {boxed : Bool} {turn : Block}
    (written : slot.Spoken cv.settings v)
    (sources : ∀ c ∈ choice.candidates, c.Spoken cv.settings v) (named : cv.NamesIn dest name)
    (inside : ∀ site, Everywhere (fun _ st => st.Spoken cv v dest) site turn) :
    Everywhere (fun _ st => st.Spoken cv v dest) start
      (aggregateBlock cv.settings slot shape choice name boxed turn) := by
  have iterable : (stage cv.settings slot.path boxed choice).iterable.Spoken cv.settings v :=
    spoken_iterable written.path sources
  have list : ∀ optional,
      (Place.var (sourceListVar cv.settings slot.path) optional).Spoken cv.settings v :=
    fun _ => Place.spoken_var (Settings.word_sourceListVar written.path)
  rw [everywhere_aggregateBlock rfl]
  refine ⟨everywhere_stage ?_ ?_ ?_, fun _ => ⟨spoken_present iterable, ?_⟩, ?_,
    spoken_loop iterable, inside _⟩
  · intro _ _ c mem optional
    exact spoken_assign (list optional) (List.forall_mem_singleton.2 (sources c mem).place) nofun
  · intro _ _ taken
    have flag := Settings.word_overrideFlagVar (s := cv.settings) written.path
    exact spoken_assign (Place.spoken_var flag) nofun nofun
  · exact fun _ _ _ _ => spoken_present (sources _ Choice.primary_mem).place
  · exact spoken_assign written.place nofun nofun
  · refine spoken_allocate written.place (fun q mem => Option.mem_some.1 mem ▸ iterable) ?_
    cases shape with
    | list => exact fun _ mem => Option.mem_some.1 mem ▸ named
    | map => exact nofun

end

/-- The places, the types and the table of a task are spoken. -/
def Task.Spoken (s : Settings) (v : Vocabulary) (whole : Ty) : Task → Prop
  | .fields level sources dests =>
    level.Spoken s v ∧ (∀ f ∈ sources, v.field f.name ∧ v.Covers f.type) ∧
      ∀ f ∈ dests, v.field f.name ∧ f.type.Within whole
  | .value level slot choice type =>
    level.table.Spoken s v ∧ slot.Spoken s v ∧ type.Within whole ∧
      ∀ c ∈ choice.candidates, c.Spoken s v
  | .body level struct slot c =>
    level.table.Spoken s v ∧ slot.Spoken s v ∧ struct.toTy.Within whole ∧ c.Spoken s v

/-- What is emitted for a task is spoken if the task is. Fields are added to places and paths on the
way down, and a loop adds settings. -/
theorem Emits.spoken {cv : Converter} {v : Vocabulary} {dest : Ty} (covers : v.Covers dest)
    {task : Task} {block : Block} (h : Emits cv task block) :
    task.Spoken cv.settings v dest →
      ∀ start, Everywhere (fun _ st => st.Spoken cv v dest) start block := by
  -- induction on the emission; parts are spoken of with names of fields in the destination
  induction h with
  | nil => exact fun _ _ => everywhere_nil
  | cons chosen filled others ihf iho =>
    rintro ⟨level, sources, dests⟩ start
    obtain ⟨⟨known, within⟩, rest⟩ := List.forall_mem_cons.1 dests
    refine everywhere_append.2 ⟨ihf ⟨level.table, ⟨?_, ?_⟩, within, ?_⟩ _, ?_⟩
    · exact level.path.field known
    · exact level.dest.field known
    · exact level.choose sources chosen
    · exact iho ⟨level, sources, rest⟩ _
  | @copied _ slot _ type name _ named _ =>
    rintro ⟨_, written, within, sources⟩ start
    refine spoken_assignChoice written.place sources (fun _ => rfl) fun _ found mem => ?_
    obtain rfl := Option.mem_some.1 mem
    exact ⟨slot.path, type, within, named⟩
  | binary =>
    rintro ⟨_, written, _, sources⟩ start
    exact spoken_assignChoice written.place sources (fun _ => rfl) nofun
  | struct _ ih =>
    rintro ⟨table, written, within, sources⟩ start
    refine everywhere_structBlock (fun _ _ c mem _ _ => spoken_present (sources c mem).place)
      (fun _ _ => spoken_assign written.place nofun nofun) fun site _ c mem => ?_
    exact ih c mem ⟨table, written, within, sources c mem⟩ site
  | @elements level slot choice type part shape name element kind _ _ named sources =>
    rintro ⟨_, written, within, spoken⟩ start
    have inside := within.part (Ty.mem_parts_of_elements? kind)
    have found : cv.NamesIn dest name := ⟨slot.path, part, inside, named⟩
    refine spoken_aggregateBlock written spoken found fun site => everywhere_assign.2 ?_
    refine spoken_assign written.element.place ?_ fun _ mem => Option.mem_some.1 mem ▸ found
    exact List.forall_mem_singleton.2 (Place.spoken_var (.setting (by simp)))
  | @structs level slot choice type s shape name element turn kind named sources turns ih =>
    rintro ⟨table, written, within, spoken⟩ start
    have inside := within.part (Ty.mem_parts_of_elements? kind)
    -- a turn reads the element, whose type is part of the source's
    have each : ∀ c ∈ choice.candidates, ∀ site,
        Everywhere (fun _ st => st.Spoken cv v dest) site (turn c) := by
      intro c mem site
      have type := (spoken c mem).type.resolved.part (Ty.mem_parts_of_elements? (sources c mem))
      exact ih c mem ⟨table, written.element, inside,
        ⟨Place.spoken_var (.setting (by simp)), type⟩⟩ site
    refine spoken_aggregateBlock written spoken ⟨slot.path, s.toTy, inside, named⟩ fun site => ?_
    refine everywhere_structTurn (fun _ _ => ?_) (fun _ => each _ Choice.primary_mem site) ?_
    · exact spoken_flag (Settings.word_overrideFlagVar written.path)
    · intro fallback two
      exact ⟨each _ Choice.primary_mem _, each _ (Choice.fallback_mem two) _⟩
  | @body level s slot c name file type fields block struct named _ ih =>
    rintro ⟨table, written, within, source⟩ start
    refine everywhere_cons.2 ⟨everywhere_allocate.2 ?_, ih ⟨?_, ?_, ?_⟩ _⟩
    · refine spoken_allocate written.place nofun fun _ mem => ?_
      obtain rfl := Option.mem_some.1 mem
      exact ⟨slot.path, s.toTy, within, named⟩
    · exact ⟨table, written.path, source.place, written.place⟩
    · exact fun f mem => source.type.field struct mem
    -- the names of the struct's fields are covered as the struct is a part of the destination
    · intro f mem
      have known := ((covers.within within).field rfl mem).1
      exact ⟨known, within.part (List.mem_map_of_mem mem)⟩

/-! ## The words of a module -/

/-- A function of a module, with the block that it is written from. -/
structure Catalog.HasFunction (c : Catalog) (cv : Converter) (x : Conversion) (block : Block) :
    Prop where
  mem : x ∈ c.conversions
  generated : cv.generates x = true
  filled : ∃ table, MappingTable.ofMappings x.mappings = .ok table ∧
    cv.convert x.source.fields x.dest.fields table = .ok block

/-- A file whose namespace a function names: that of one of its ends, or of a type in its block. -/
inductive Conversion.NamesFile (x : Conversion) (cv : Converter) (block : Block) : String → Prop
  | source : NamesFile x cv block x.source.file
  | dest : NamesFile x cv block x.dest.file
  | type {site : Site} {st : Statement} {name file : String} {path : Path} {part : Ty}
      (occurs : Occurs .start block site st) (written : name ∈ st.type?)
      (within : part.Within x.dest.toTy) (named : cv.typeName path part = .ok name)
      (declared : file ∈ part.file?) : NamesFile x cv block file

/-- The identifiers that the functions of a module take from the document and the settings. -/
inductive Catalog.Takes (c : Catalog) (cv : Converter) : String → Prop
  | function {x : Conversion} {block : Block} (h : c.HasFunction cv x block) :
      Takes c cv (Code.identifier x.name)
  | source {x : Conversion} {block : Block} (h : c.HasFunction cv x block) :
      Takes c cv cv.settings.source
  | dest {x : Conversion} {block : Block} (h : c.HasFunction cv x block) :
      Takes c cv cv.settings.dest
  | inside {x : Conversion} {block : Block} {site : Site} {st : Statement} {w : String}
      (h : c.HasFunction cv x block) (occurs : Occurs .start block site st)
      (mem : w ∈ st.words cv.settings) : Takes c cv w
  | segment {x : Conversion} {block : Block} {root file w : String} {names : List String}
      (h : c.HasFunction cv x block) (namespaces : cv.namespaces = .modulePath root)
      (named : x.NamesFile cv block file)
      (segments : Namespaces.moduleNames (Namespaces.components file.toList) = .ok names)
      (mem : w ∈ names) : Takes c cv w

namespace Document

/-- The name of a field or of a conversion. -/
def IsNamed (d : Document) (n : String) : Prop :=
  d.vocabulary.field n ∨ ∃ x ∈ d.conversions, x.name = n

/-- A keyword that can get into generated code: as a setting, as a name that is one of the keywords
which are not escaped, or as a component of a file. -/
inductive LetsIn (d : Document) (s : Settings) : String → Prop
  | setting {w : String} (mem : w ∈ [s.source, s.dest, s.index, s.key, s.value])
      (keyword : w ∈ Code.reserved) : LetsIn d s w
  | name {n : String} (named : d.IsNamed n) (keyword : Text.snakeCase n ∈ Code.unescaped) :
      LetsIn d s (Text.snakeCase n)
  | segment {schema : Schema} {names : List String} {w : String} (mem : schema ∈ d.schemas)
      (segments : Namespaces.moduleNames (Namespaces.components schema.file.toList) = .ok names)
      (among : w ∈ names) (keyword : w ∈ Code.reserved) : LetsIn d s w

/-- A word can be used exactly if it is not a keyword that is let in. -/
def Accounts (d : Document) (s : Settings) (w : String) : Prop :=
  Code.Usable w ↔ ¬ d.LetsIn s w

variable {d : Document} {s : Settings} {w : String}

/-- Only keywords are let in. -/
theorem LetsIn.reserved (h : d.LetsIn s w) : w ∈ Code.reserved := by
  cases h with
  | setting _ keyword => exact keyword
  | name _ keyword => exact (Code.mem_unescaped_iff.1 keyword).1
  | segment _ _ _ keyword => exact keyword

/-- An identifier is accounted for if it is let in whenever it is a keyword. -/
theorem accounts_of_isIdentifier (h : isIdentifier w = true)
    (letIn : w ∈ Code.reserved → d.LetsIn s w) : d.Accounts s w := by
  rw [Accounts, Code.usable_iff_of_isIdentifier h]
  exact not_congr ⟨letIn, LetsIn.reserved⟩

/-- Names of fields and conversions are escaped, but for the keywords that the escape does not know.
-/
theorem accounts_identifier {n : String} (names : ∀ n, d.IsNamed n → IsName n)
    (named : d.IsNamed n) : d.Accounts s (Code.identifier n) := by
  obtain ⟨usable, keyword⟩ := Code.usable_identifier_iff (names n named)
  rw [Accounts, usable]
  refine not_congr ⟨fun mem => ?_, LetsIn.reserved⟩
  obtain ⟨same, unescaped⟩ := keyword mem
  rw [same]
  exact .name named unescaped

/-- Names of modules are identifiers, and nothing keeps them from being keywords. -/
theorem accounts_segment {file : String} {names : List String} (known : d.vocabulary.file file)
    (segments : Namespaces.moduleNames (Namespaces.components file.toList) = .ok names)
    (mem : w ∈ names) : d.Accounts s w := by
  obtain ⟨schema, among, rfl⟩ := known
  obtain ⟨_, _, found⟩ := exists_of_forall₂ (Namespaces.moduleNames_eq_ok segments).flip mem
  exact accounts_of_isIdentifier (Namespaces.isIdentifier_of_moduleName found)
    (.segment among segments mem)

end Document

/-- The check of the settings looks at each in turn, so every one is an identifier if it passes. -/
theorem Settings.isIdentifier_of_checkIdentifiers {seen : List String}
    {items : List (Setting × String)} (h : checkIdentifiers seen items = .ok ()) :
    ∀ item ∈ items, isIdentifier item.2 = true := by
  induction items generalizing seen with
  | nil => exact nofun
  | cons item rest ih =>
    obtain ⟨setting, text⟩ := item
    rw [checkIdentifiers] at h
    split at h
    · cases h
    · next word =>
      split at h
      · cases h
      · exact List.forall_mem_cons.2 ⟨by simpa using word, ih h⟩

/-- The words that valid settings are made of are identifiers. -/
theorem Settings.isIdentifier_of_mem_words {s : Settings} (h : s.validate = .ok ()) :
    ∀ w ∈ s.words, isIdentifier w = true := by
  intro w mem
  obtain ⟨item, among, rfl⟩ := List.mem_map.1 mem
  obtain ⟨_, checked, _⟩ := bind_eq_ok.1 h
  exact isIdentifier_of_checkIdentifiers checked item among

/-- Words of statements are accounted for. What is put together goes on with an underscore behind a
setting, as no keyword does. -/
theorem Settings.Word.accounts {d : Document} {s : Settings} {w : String}
    (valid : s.validate = .ok ()) (names : ∀ n, d.IsNamed n → IsName n)
    (h : s.Word d.vocabulary w) : d.Accounts s w := by
  cases h with
  | setting mem =>
    have word := isIdentifier_of_mem_words valid w (fixed_subset_words mem)
    exact Document.accounts_of_isIdentifier word (.setting mem)
  | field known => exact Document.accounts_identifier names (.inl known)
  | @staged lead path mem known =>
    have word := isIdentifier_of_mem_words valid lead (leads_subset_words mem)
    have rest : ∀ c ∈ path.ident.toList, Text.isWordChar c = true :=
      path.isWordChar_ident fun n mem => names n (.inl (known n mem))
    have underscore : ∀ c ∈ "_".toList, Text.isWordChar c = true :=
      List.all_eq_true.1 (by decide)
    have joined : isIdentifier (lead ++ "_" ++ path.ident) = true :=
      isIdentifier_append (isIdentifier_append word underscore) rest
    have free : lead ++ "_" ++ path.ident ∉ Code.reserved :=
      Code.not_reserved_of_underscore (by simp)
    exact Document.accounts_of_isIdentifier joined fun mem => absurd mem free

/-- Every statement of a function speaks of the document. -/
theorem Catalog.HasFunction.spoken {d : Document} {c : Catalog} {cv : Converter} {x : Conversion}
    {block : Block} (resolved : Catalog.ofDocument d = .ok c) (h : c.HasFunction cv x block) :
    Everywhere (fun _ st => st.Spoken cv d.vocabulary x.dest.toTy) .start block := by
  obtain ⟨table, tabled, converted⟩ := h.filled
  obtain ⟨source, dest⟩ := covers resolved h.mem
  refine (emits_of_convert converted).spoken dest ⟨⟨?_, nofun, ?_, ?_⟩, ?_, ?_⟩ .start
  · intro path e found
    obtain ⟨m, among, rfl⟩ := MappingTable.exists_mapping_of_get? tabled found
    exact Mapping.spoken_entry source (leadsFrom resolved h.mem among)
  · exact Place.spoken_input
  · exact Place.spoken_output
  · exact fun f mem => source.field rfl mem
  · exact fun f mem => ⟨(dest.field rfl mem).1, .deeper (List.mem_map_of_mem mem) .here⟩

/-- Files whose namespaces a function names are files of schemas. -/
theorem Conversion.NamesFile.known {d : Document} {c : Catalog} {cv : Converter} {x : Conversion}
    {block : Block} {file : String} (resolved : Catalog.ofDocument d = .ok c)
    (mem : x ∈ c.conversions) (h : x.NamesFile cv block file) : d.vocabulary.file file := by
  obtain ⟨source, dest⟩ := Catalog.covers resolved mem
  cases h with
  | source => exact source.names.2 _ rfl
  | dest => exact dest.names.2 _ rfl
  | type _ _ within _ declared => exact (dest.within within).names.2 file declared

/-- Whatever its way into a module, an identifier is accounted for. -/
theorem Catalog.Takes.accounts {d : Document} {c : Catalog} {cv : Converter} {w : String}
    (resolved : Catalog.ofDocument d = .ok c) (valid : cv.settings.validate = .ok ())
    (names : ∀ n, d.IsNamed n → IsName n) (taken : c.Takes cv w) : d.Accounts cv.settings w := by
  have setting : ∀ w ∈ [cv.settings.source, cv.settings.dest], d.Accounts cv.settings w := by
    intro w mem
    refine Settings.Word.accounts valid names (.setting ?_)
    exact List.mem_append_left _ mem
  cases taken with
  | @function x _ h =>
    obtain ⟨decl, declared, same, _⟩ := Catalog.exists_decl resolved h.mem
    exact Document.accounts_identifier names (.inr ⟨decl, declared, same.symm⟩)
  | source => exact setting _ (by simp)
  | dest => exact setting _ (by simp)
  | inside h occurs mem =>
    exact Settings.Word.accounts valid names ((h.spoken resolved _ _ occurs).word mem)
  | segment h _ named segments mem =>
    exact Document.accounts_segment (named.known resolved h.mem) segments mem

/-- An identifier that a module takes from a document with proper names and from valid settings can
be used, exactly if it is no keyword that they let in. -/
theorem usable_iff_not_let_in {d : Document} {c : Catalog} {cv : Converter} {w : String}
    (resolved : Catalog.ofDocument d = .ok c) (valid : cv.settings.validate = .ok ())
    (names : ∀ n, d.IsNamed n → IsName n) (taken : c.Takes cv w) :
    Code.Usable w ↔ ¬ d.LetsIn cv.settings w :=
  taken.accounts resolved valid names

namespace Exam

/-! A struct with one field is copied. The names of the field and of the file are left open, and so
is that of the parameter. -/

def document (file field : String) : Document where
  schemas := [⟨"api", file, [.struct "Grade" [⟨field, .primitive .string, true⟩]]⟩]
  conversions := [⟨"CopyGrade", "api.Grade", "api.Grade", []⟩]

def converter (source : String) : Converter where
  namespaces := .modulePath "crate"
  settings := { source }

/-- The document is valid whatever the names are. -/
theorem document_valid {file field : String} : (document file field).validate = .ok () := by
  have fields : (Definition.struct "Grade" [⟨field, .primitive .string, true⟩]).validate =
      .ok () := by
    simp [Definition.validate, checkNames_eq_ok_iff]
  rw [Document.validate_eq_ok_iff]
  simp [document, ConversionDecl.validate_eq_ok_iff, Schema.validate_eq_ok_iff, fields]

/-- The names in the document are that of the field and that of the conversion. -/
theorem isName {file field : String} (h : IsName field) :
    ∀ n, (document file field).IsNamed n → IsName n := by
  rintro n (⟨s, home, x, among, mem⟩ | ⟨x, mem, rfl⟩)
  · obtain rfl := List.mem_singleton.1 home
    obtain rfl := List.mem_singleton.1 among
    obtain rfl := List.mem_singleton.1 mem
    exact h
  · obtain rfl := List.mem_singleton.1 mem
    decide

/-- The module, given how the names are written. -/
def text (file space source field : String) : String :=
  let grade := space ++ "::Grade"
  "// Code generated by gatekit. DO NOT EDIT.\n//\n// schema api: " ++ file ++ "\n\n" ++
  "/// Converts `" ++ grade ++ "` into `" ++ grade ++ "`.\n#[allow(non_snake_case)]\n" ++
  "pub fn copy_grade(" ++ source ++ ": &" ++ grade ++ ") -> " ++ grade ++ " \x7b\n" ++
  "    let mut out = <" ++ grade ++ ">::default();\n" ++
  "    out." ++ field ++ " = <String>::from(" ++ source ++ "." ++ field ++ ".clone());\n" ++
  "    out\n\x7d\n"

/-- Whether the module has a text, and a function from a file with a word in a statement. -/
def writes (d : Document) (cv : Converter) (text file word : String) : Bool :=
  (Catalog.ofDocument d).toOption.any fun c =>
    decide ((c.generate cv).toOption = some text) && c.conversions.any fun x =>
      cv.generates x && decide (x.source.file = file) &&
        (MappingTable.ofMappings x.mappings).toOption.any fun table =>
          (cv.convert x.source.fields x.dest.fields table).toOption.any fun block =>
            block.any fun st => decide (word ∈ st.words cv.settings)

/-- A computed check of the whole module gives what a statement about its words needs. -/
theorem exists_taken {d : Document} {cv : Converter} {text file word : String}
    (h : writes d cv text file word = true) :
    ∃ c x block, Catalog.ofDocument d = .ok c ∧ c.generate cv = .ok text ∧
      c.HasFunction cv x block ∧ x.NamesFile cv block file ∧ c.Takes cv word := by
  simp only [writes, Option.any_eq_true, List.any_eq_true, Bool.and_eq_true, decide_eq_true_eq,
    toOption_eq_some] at h
  obtain ⟨c, resolved, generated, x, mem, ⟨one, rfl⟩, table, tabled, block, converted, st, among,
    word⟩ := h
  have function : c.HasFunction cv x block := ⟨mem, one, table, tabled, converted⟩
  obtain ⟨before, after, rfl⟩ := List.append_of_mem among
  exact ⟨c, x, _, resolved, generated, function, .source,
    .inside function (.append_right .here) word⟩

/-- Three keywords stand as they are in the module of a valid document. -/
theorem keywords_let_in :
    (document "type.thrift" "final").validate = .ok () ∧
      (converter "fn").settings.validate = .ok () ∧
      (∀ n, (document "type.thrift" "final").IsNamed n → IsName n) ∧
      ∃ c, Catalog.ofDocument (document "type.thrift" "final") = .ok c ∧
        c.generate (converter "fn") = .ok (text "type.thrift" "crate::type" "fn" "final") ∧
        ∀ w ∈ ["type", "fn", "final"], c.Takes (converter "fn") w ∧ ¬ Code.Usable w := by
  have written : writes (document "type.thrift" "final") (converter "fn")
      (text "type.thrift" "crate::type" "fn" "final") "type.thrift" "final" = true := by
    decide +kernel
  obtain ⟨c, x, block, resolved, generated, function, named, field⟩ := exists_taken written
  have segments : Namespaces.moduleNames (Namespaces.components "type.thrift".toList) =
      .ok ["type"] := by decide +kernel
  have taken : ∀ w ∈ ["type", "fn", "final"], c.Takes (converter "fn") w := by
    have segment : c.Takes (converter "fn") "type" :=
      .segment function rfl named segments List.mem_cons_self
    simpa using ⟨segment, .source function, field⟩
  have keyword : ∀ w ∈ ["type", "fn", "final"], isIdentifier w = true ∧ w ∈ Code.reserved := by
    decide
  refine ⟨document_valid, by decide, isName (by decide), c, resolved, generated, fun w mem => ?_⟩
  obtain ⟨word, reserved⟩ := keyword w mem
  exact ⟨taken w mem, fun usable => (Code.usable_iff_of_isIdentifier word).1 usable reserved⟩

/-- The name of a field is a keyword, which is escaped. -/
theorem type_usable :
    ∃ c, Catalog.ofDocument (document "api.thrift" "type") = .ok c ∧
      c.generate (converter "input") = .ok (text "api.thrift" "crate::api" "input" "r#type") ∧
      c.Takes (converter "input") "r#type" ∧ Code.Usable "r#type" := by
  have written : writes (document "api.thrift" "type") (converter "input")
      (text "api.thrift" "crate::api" "input" "r#type") "api.thrift" "r#type" = true := by
    decide +kernel
  obtain ⟨c, _, _, resolved, generated, _, _, field⟩ := exists_taken written
  have free : "r#type" ∉ Code.reserved := by decide
  have usable : Code.Usable "r#type" ↔ _ :=
    usable_iff_not_let_in resolved (by decide) (isName (by decide)) field
  exact ⟨c, resolved, generated, field, usable.2 fun keyword => free keyword.reserved⟩

end Exam

end Crosswalk
