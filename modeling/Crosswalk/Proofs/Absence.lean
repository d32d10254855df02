import Crosswalk.Proofs.Emission.Complete
import Crosswalk.Proofs.Mapped
import Crosswalk.Proofs.Reach
import Crosswalk.Proofs.Run.Outcome

/-!
# Absent mapped sources

A mapped source whose final field is optional is absent wherever a field on its way is, and then the
destination gets its fallback or stays absent. Where the final field is required, absent parents are
read as their defaults and the source counts as present.

Whether a place is present in a run is read off the accesses on its way (`Env.holds_isPresent_iff`),
where only marked ones can be absent. `TellsSources` is what the block of a value has to do for the
two sources of its choice, in whichever role the mapped one stands, and `Emits.tellsSources` shows
it for each kind of value.
-/

namespace Crosswalk
set_option autoImplicit false
open Converter

/-- The data is absent at the place or somewhere on the way to it. -/
def Env.AbsentAlong (env : Env) (p : Place) : Prop :=
  ∃ lead, lead <+: p.accesses ∧ (env.root p.root).follow (lead.map env.step) = .absent

/-- Reading a place finds nothing exactly if the data is absent along the way to it. -/
theorem Env.absentAlong_iff {env : Env} {p : Place} : env.AbsentAlong p ↔ env.get p = .absent := by
  constructor
  · rintro ⟨lead, ⟨rest, whole⟩, absent⟩
    rw [Env.get, Env.location, ← whole, List.map_append, Data.follow_append, absent,
      Data.follow_absent]
  · exact fun absent => ⟨p.accesses, List.prefix_refl _, absent⟩

/-- The test of an optional place fails exactly if the data is absent along the way. -/
theorem Env.holds_isPresent_iff {env : Env} {p : Place} (optional : p.optional = true) :
    env.holds (.isPresent p) = true ↔ ¬ env.AbsentAlong p := by
  rw [absentAlong_iff, ← Data.isAbsent_iff]
  simp [Env.holds, optional]

/-! ## Levels that are reached -/

/-- What a level reads and writes goes by the variables of loops. -/
structure Level.Regular (s : Settings) (l : Level) : Prop where
  output : l.dest.root = .output
  source : l.source.Over s.loopNames
  dest : l.dest.Over s.loopNames

/-- A level below is regular if its places are. -/
theorem Level.Regular.descend {s : Settings} {l : Level} {path : Path} {dest source : Place}
    (output : dest.root = .output) (hs : source.Over s.loopNames) (hd : dest.Over s.loopNames) :
    (l.descend path dest source).Regular s :=
  ⟨output, hs, hd⟩

/-- All levels that are reached from a regular one are regular and have its table. -/
theorem Reached.regular {cv : Converter} {level deep : Level} {sources dests given : List Field}
    {f : Field} {choice : Choice} (h : Reached cv level sources dests deep given f choice) :
    level.Regular cv.settings → deep.Regular cv.settings ∧ deep.table = level.table := by
  induction h with
  | here mem chosen => exact fun regular => ⟨regular, rfl⟩
  | struct mem chosen kind source struct below ih =>
    intro regular
    exact ih (.descend regular.output (Level.over_of_choose regular.source chosen source)
      regular.dest.field)
  | element mem chosen kind source held struct below ih =>
    intro regular
    refine ih (.descend (elementSlot_root.trans regular.output) (.var ?_)
      (elementSlot_over regular.dest.field (Settings.loopNames_counter _ _)))
    simp [Settings.loopNames]

/-- Chosen sources are optional exactly as their places are. -/
theorem Level.coherent_of_choose {source : Ty} {l : Level} {given : List Field} {name : String}
    {choice : Choice} {c : Candidate}
    (table : ∀ path e, l.table.get? path = some e → e.Reads source)
    (h : l.choose given name = .ok choice) (mem : c ∈ choice.candidates) : c.Coherent := by
  rcases candidate_of_choose h mem with ⟨f, _, rfl⟩ | ⟨path, e, found, rfl⟩
  · rfl
  · exact (table path e found).2.2

/-! ## The roles of a mapped source -/

namespace Level
variable {l : Level} {given : List Field} {name : String} {choice : Choice} {e : Entry}
  {same : Candidate}

/-- The source of the same name is the fallback of a mapped source exactly if the field that the
mapping ends at may be absent. -/
theorem fallback_of_mapped (h : l.choose given name = .ok choice)
    (mapped : l.mapping? (l.path.field name) = some e) (primary : choice.primary = e.candidate)
    (found : l.sameName? given name = some same) :
    choice.fallback? = if e.field.isOptional then some same else none := by
  -- three ways to choose; only in the last are there a field of the name and an entry
  rcases choose_eq_ok h with ⟨_, _, none, _⟩ | ⟨_, none, _, _⟩ | ⟨same', e', hs, hm, rfl⟩
  · simp [mapped] at none
  · simp [found] at none
  · obtain rfl : same' = same := by simpa [found] using hs.symm
    obtain rfl : e' = e := by simpa [mapped] using hm.symm
    split at primary
    · next overrides =>
      rw [if_pos overrides]
      rfl
    · next overrides =>
      obtain rfl : same' = e'.candidate := primary
      rw [if_neg overrides]
      rfl

/-- A mapped source is left aside only for one of the same name that is required. -/
theorem direct_of_not_mem (h : l.choose given name = .ok choice)
    (mapped : l.mapping? (l.path.field name) = some e) (aside : e.candidate ∉ choice.candidates) :
    ∃ same, l.sameName? given name = some same ∧ same.optional = false ∧ e.overrides = false ∧
      choice = .direct same := by
  -- a mapped source that is no candidate stands behind a required one of the same name
  rcases choose_eq_ok h with ⟨_, _, none, _⟩ | ⟨e', _, hm, rfl⟩ | ⟨same, e', found, hm, rfl⟩
  · simp [mapped] at none
  · obtain rfl : e' = e := by simpa [mapped] using hm.symm
    exact absurd Choice.primary_mem aside
  · obtain rfl : e' = e := by simpa [mapped] using hm.symm
    cases overrides : e'.overrides with
    | true =>
      simp only [overrides, if_true] at aside
      exact absurd Choice.primary_mem aside
    | false =>
      simp only [overrides, Bool.false_eq_true, if_false] at aside ⊢
      cases optional : same.optional with
      | true =>
        -- an optional source of the same name would have the mapped one as its fallback
        exact absurd (Choice.fallback_mem (by simp [Choice.withFallback, optional])) aside
      | false =>
        have alone : Choice.withFallback same e'.candidate = .direct same := by
          simp [Choice.withFallback, Choice.direct, optional]
        exact ⟨same, found, optional, trivial, alone⟩

/-- Where a mapped source that may be absent is used, so may the primary: it is that source, or one
that has it as fallback. -/
theorem optional_of_mapped (h : l.choose given name = .ok choice)
    (used : e.candidate ∈ choice.candidates) (optional : e.field.isOptional = true) :
    choice.primary.optional = true := by
  rcases List.mem_cons.1 used with primary | fallback
  · rw [← primary]
    exact optional
  · exact optional_of_choose h (Option.mem_toList.1 fallback)

end Level

/-! ## Programs that tell absence -/

/-- A program for a slot acts like that for one source alone, wherever a condition holds. -/
def ActsLike (cv : Converter) (level : Level) (slot : Slot) (type : Ty) (part : Block)
    (source : Candidate) (condition : Env → Prop) : Prop :=
  ∃ alone, cv.convertType level slot (.direct source) type = .ok alone ∧
    ∀ env, condition env → (Block.run part env).out = (Block.run alone env).out

/-- A program for a slot tells which of its sources are absent, for whichever fields on the way to
them. -/
structure TellsSources (cv : Converter) (level : Level) (slot : Slot) (type : Ty) (choice : Choice)
    (part : Block) : Prop where
  /-- Where the primary is present it is what counts. -/
  primary : ActsLike cv level slot type part choice.primary
    (¬ ·.AbsentAlong choice.primary.place)
  /-- Where the primary is absent the fallback is what counts. -/
  fallback : ∀ c, choice.fallback? = some c →
    ActsLike cv level slot type part c (·.AbsentAlong choice.primary.place)
  /-- Where all sources are absent, none of them required, so is the destination. -/
  absent : (∀ c ∈ choice.candidates, c.optional = true) → ∀ env : Env,
    (∀ c ∈ choice.candidates, env.AbsentAlong c.place) →
      (Block.run part env).out = absentOutput env slot type

/-- The program that is emitted for a primary source that may be absent tells its sources. -/
theorem Emits.tellsSources {cv : Converter} {level : Level} {slot : Slot} {type : Ty}
    {choice : Choice} {part : Block} (h : Emits cv (.value level slot choice type) part)
    (apart : choice.fallback? ≠ none → type.isAggregate = true → cv.settings.StagedApart)
    (tells : TellsAbsence slot type) (output : slot.place.root = .output)
    (ne : slot.path.segments ≠ []) (scope : Task.Over cv.settings (.value level slot choice type))
    (optional : choice.primary.optional = true) (coherent : ∀ c ∈ choice.candidates, c.Coherent) :
    TellsSources cv level slot type choice part := by
  -- testing a source that can be absent is asking whether it is absent along its way
  have check : ∀ c ∈ choice.candidates, c.optional = true → ∀ env : Env,
      env.holds (.isPresent c.place) = true ↔ ¬ env.AbsentAlong c.place := fun c mem optional env =>
    Env.holds_isPresent_iff ((coherent c mem).trans optional)
  have missing : ∀ c ∈ choice.candidates, c.optional = true → ∀ env : Env,
      env.AbsentAlong c.place → env.holds (.isPresent c.place) = false :=
    fun c mem optional env absent =>
      Bool.eq_false_iff.2 fun holds => (check c mem optional env).1 holds absent
  obtain ⟨primary, fallback?⟩ := choice
  have first : primary.Coherent := coherent _ Choice.primary_mem
  cases fallback? with
  | none =>
    refine ⟨⟨part, emits_iff.1 h, fun env _ => rfl⟩, nofun, fun _ env absent => ?_⟩
    exact h.absent tells output first
      (missing _ Choice.primary_mem optional env (absent _ Choice.primary_mem))
  | some fallback =>
    have second : fallback.Coherent := coherent _ (Choice.fallback_mem rfl)
    obtain ⟨alone, each, selects⟩ := h.selects (apart nofun) tells output ne scope
      (first.trans optional) ⟨first, second⟩
    have ofPrimary := each primary List.mem_cons_self
    have ofFallback := each fallback (List.mem_cons_of_mem _ List.mem_cons_self)
    -- where the primary is absent the run is that of the program for the fallback alone
    have taken : ∀ env : Env, env.AbsentAlong primary.place →
        (Block.run part env).out = (Block.run (alone fallback) env).out := fun env absent => by
      rw [selects, Env.taken_of_absent (missing _ Choice.primary_mem optional env absent)]
    refine ⟨⟨_, emits_iff.1 ofPrimary, fun env there => ?_⟩, ?_, fun optionals env absent => ?_⟩
    · rw [selects, Env.taken_of_present ((check _ Choice.primary_mem optional env).2 there)]
    · rintro c found
      obtain rfl : fallback = c := Option.some.inj found
      exact ⟨_, emits_iff.1 ofFallback, taken⟩
    · have mem : fallback ∈ (Choice.mk primary (some fallback)).candidates :=
        Choice.fallback_mem rfl
      rw [taken env (absent _ Choice.primary_mem)]
      exact ofFallback.absent tells output second
        (missing _ mem (optionals _ mem) env (absent _ mem))

/-- A mapped source of a resolved conversion is used unless there is a source of the same name that
is required and not overridden. As the primary it has the source of the same name as its fallback if
it ends at an optional field. In either role the program then tells its absence from its presence,
for whichever field on its way: where the primary is absent it acts like the fallback alone, and
where nothing is present it leaves the destination absent. -/
theorem mapped_source_absentable {d : Document} {catalog : Catalog} {c : Conversion}
    {table : MappingTable} {cv : Converter} {block : Block}
    (resolved : Catalog.ofDocument d = .ok catalog) (mem : c ∈ catalog.conversions)
    (tabled : MappingTable.ofMappings c.mappings = .ok table)
    (h : cv.convert c.source.fields c.dest.fields table = .ok block) {level : Level}
    {given : List Field} {f : Field} {choice : Choice} {e : Entry}
    (apart : choice.fallback? ≠ none → f.type.isAggregate = true → cv.settings.StagedApart)
    (reached : Reached cv (.top table) c.source.fields c.dest.fields level given f choice)
    (mapped : level.mapping? (level.path.field f.name) = some e) :
    (e.candidate ∉ choice.candidates → ∃ same, level.sameName? given f.name = some same ∧
      same.optional = false ∧ e.overrides = false ∧ choice = .direct same) ∧
    (choice.primary = e.candidate → ∀ same, level.sameName? given f.name = some same →
      choice.fallback? = if e.field.isOptional then some same else none) ∧
    (e.candidate ∈ choice.candidates → e.field.isOptional = true →
      TellsAbsence (level.slot f) f.type →
        ∃ part, cv.convertType level (level.slot f) choice f.type = .ok part ∧ part.Within block ∧
          TellsSources cv level (level.slot f) f.type choice part) := by
  -- the place in the program is where the level is reached, and the rules say what stands there
  have chosen := reached.chosen
  refine ⟨Level.direct_of_not_mem chosen mapped,
    fun primary same => Level.fallback_of_mapped chosen mapped primary, ?_⟩
  intro used optional tells
  obtain ⟨regular, tables⟩ := reached.regular ⟨rfl, .input, .output⟩
  have reads : ∀ path e, level.table.get? path = some e → e.Reads c.source.toTy := by
    rw [tables]
    exact fun path e found => Catalog.entry_reads resolved mem tabled found
  have coherent : ∀ c ∈ choice.candidates, c.Coherent := fun c hc =>
    Level.coherent_of_choose reads chosen hc
  have scope : Task.Over cv.settings (.value level (level.slot f) choice f.type) :=
    ⟨regular.dest.field, fun c hc => Level.over_of_choose regular.source chosen hc⟩
  have ne : (level.slot f).path.segments ≠ [] := by
    simp [Level.slot, Path.field, Path.extend]
  obtain ⟨part, emitted, within⟩ := reached.emits (emits_of_convert h)
  exact ⟨part, emits_iff.1 emitted, within, emitted.tellsSources apart tells regular.output ne scope
    (Level.optional_of_mapped chosen used optional) coherent⟩

namespace Account

/-! An account whose user takes the name from an optional profile, before or behind the account's
own. If the profile's name is optional the two names are each other's fallback. If it is required,
the profile's name has no fallback, and it is the default where an account has no profile. -/

/-- A name, required or not. -/
def name (required : Bool) : Field :=
  ⟨"Name", .primitive .string, required, "api.thrift"⟩

/-- The declarations, with the profile's name required or not and the mapping before or behind the
account's own name. -/
def document (required : Bool) (overrides : Bool := true) : Document where
  schemas := [⟨"api", "api.thrift", [
    .struct "Profile" [⟨"Name", .primitive .string, required⟩],
    .struct "Account" [⟨"Name", .primitive .string, false⟩, ⟨"Profile", .named "Profile", false⟩],
    .struct "User" [⟨"Name", .primitive .string, false⟩]]⟩]
  conversions :=
    [⟨"AccountToUser", "api.Account", "api.User", [⟨"Name", "Profile.Name", overrides⟩]⟩]

/-- The resolved mapping. -/
def mapping (required : Bool) (overrides : Bool := true) : Mapping :=
  ⟨"Name", ["Profile", "Name"], name required, [true], overrides⟩

/-- The resolved conversion. -/
def conversion (required : Bool) (overrides : Bool := true) : Conversion where
  name := "AccountToUser"
  source := ⟨"Account", "api.thrift", [name false,
    ⟨"Profile", .struct "Profile" "api.thrift" [name required], false, "api.thrift"⟩]⟩
  dest := ⟨"User", "api.thrift", [name false]⟩
  mappings := [mapping required overrides]

/-- The table of the conversion. -/
def table (required : Bool) (overrides : Bool := true) : MappingTable :=
  ⟨[(Path.root.field "Name", (mapping required overrides).entry)]⟩

def converter : Converter :=
  { namespaces := .registry [("api.thrift", "crate::api")] }

/-- The account's own name. -/
def own : Candidate :=
  .ofField (name false) (Place.input.field "Name" true)

/-- The two names in the order in which they are tried. -/
def choice (required : Bool) (overrides : Bool := true) : Choice :=
  if overrides then .withFallback (mapping required).entry.candidate own
  else .withFallback own (mapping required).entry.candidate

/-- The conversion is in the catalog of the document. -/
theorem resolved (required : Bool) (overrides : Bool := true) : ∃ catalog,
    Catalog.ofDocument (document required overrides) = .ok catalog ∧
      conversion required overrides ∈ catalog.conversions := by
  have conversions :
      (Catalog.ofDocument (document required overrides)).toOption.map Catalog.conversions =
        some [conversion required overrides] := by
    cases required <;> cases overrides <;> with_unfolding_all rfl
  obtain ⟨catalog, found, only⟩ := Option.map_eq_some_iff.1 conversions
  exact ⟨catalog, toOption_eq_some.1 found, only ▸ List.mem_cons_self⟩

/-- The table is that of the conversion's mappings. -/
theorem tabled (required : Bool) (overrides : Bool := true) :
    MappingTable.ofMappings (conversion required overrides).mappings =
      .ok (table required overrides) := by
  cases required <;> cases overrides <;> rfl

/-- The name of the user is reached, with both names as its sources. -/
theorem reached (required : Bool) (overrides : Bool := true) :
    Reached converter (.top (table required overrides))
      (conversion required overrides).source.fields (conversion required overrides).dest.fields
      (.top (table required overrides)) (conversion required overrides).source.fields (name false)
      (choice required overrides) := by
  refine .here List.mem_cons_self ?_
  cases required <;> cases overrides <;> rfl

/-- The mapped name is told from the own one before it and behind it. -/
theorem optional_source_absentable :
    (∃ catalog block part, Catalog.ofDocument (document false) = .ok catalog ∧
      conversion false ∈ catalog.conversions ∧
      converter.convert (conversion false).source.fields (conversion false).dest.fields
        (table false) = .ok block ∧
      (choice false).primary = (mapping false).entry.candidate ∧
      (choice false).fallback? = some own ∧ part.Within block ∧
      TellsSources converter (.top (table false)) ((Level.top (table false)).slot (name false))
        (name false).type (choice false) part) ∧
    ∃ catalog block part, Catalog.ofDocument (document false false) = .ok catalog ∧
      conversion false false ∈ catalog.conversions ∧
      converter.convert (conversion false false).source.fields
        (conversion false false).dest.fields (table false false) = .ok block ∧
      (choice false false).primary = own ∧
      (choice false false).fallback? = some (mapping false).entry.candidate ∧ part.Within block ∧
      TellsSources converter (.top (table false false))
        ((Level.top (table false false)).slot (name false)) (name false).type (choice false false)
        part := by
  have tells : ∀ overrides : Bool,
      TellsAbsence ((Level.top (table false overrides)).slot (name false)) (name false).type :=
    fun _ => ⟨by simp [name], fun _ => rfl⟩
  have scalar : ∀ overrides : Bool, (choice false overrides).fallback? ≠ none →
      (name false).type.isAggregate = true → converter.settings.StagedApart :=
    fun _ _ _ => Settings.default_stagedApart
  -- the profile's name in front of the own name
  constructor
  · obtain ⟨catalog, found, mem⟩ := resolved false
    have converts : ∃ block, converter.convert (conversion false).source.fields
        (conversion false).dest.fields (table false) = .ok block := ⟨_, rfl⟩
    obtain ⟨block, h⟩ := converts
    obtain ⟨_, fallback, told⟩ := mapped_source_absentable found mem (tabled false) h (scalar true)
      (reached false) (e := (mapping false).entry) rfl
    obtain ⟨part, _, within, sources⟩ := told List.mem_cons_self rfl (tells true)
    exact ⟨catalog, block, part, found, mem, h, rfl, fallback rfl own rfl, within, sources⟩
  -- the profile's name behind the own name
  · obtain ⟨catalog, found, mem⟩ := resolved false false
    have converts : ∃ block, converter.convert (conversion false false).source.fields
        (conversion false false).dest.fields (table false false) = .ok block := ⟨_, rfl⟩
    obtain ⟨block, h⟩ := converts
    have behind : (choice false false).fallback? = some (mapping false).entry.candidate := rfl
    obtain ⟨_, _, told⟩ := mapped_source_absentable found mem (tabled false false) h (scalar false)
      (reached false false) (e := (mapping false false).entry) rfl
    obtain ⟨part, _, within, sources⟩ := told (Choice.fallback_mem behind) rfl (tells false)
    exact ⟨catalog, block, part, found, mem, h, rfl, behind, within, sources⟩

/-- An account with a name and without a profile. -/
def env : Env :=
  ⟨.struct [("Name", .scalar "ann")], fun _ => none, fun _ => none⟩

/-- An account without name or profile. -/
def blank : Env :=
  ⟨.struct [], fun _ => none, fun _ => none⟩

end Account

namespace Sheet

/-! Rows whose cells are mapped from the sheet, where the index has the name of the variable that
the cells are staged in. The rows behind the first get no cells. -/

/-- A list of texts that can be absent. -/
def cells : Field :=
  ⟨"Cells", .list (.primitive .string), false, "api.thrift"⟩

/-- Rows of cells. -/
def rows : Field :=
  ⟨"Rows", .list (.struct "Row" "api.thrift" [cells]), true, "api.thrift"⟩

/-- A sheet has rows and cells of its own, which the rows' cells are mapped from. -/
def document : Document where
  schemas := [⟨"api", "api.thrift", [
    .struct "Row" [⟨"Cells", .list (.primitive .string), false⟩],
    .struct "Sheet" [⟨"Rows", .list (.named "Row"), true⟩,
      ⟨"Cells", .list (.primitive .string), false⟩]]⟩]
  conversions := [⟨"Copy", "api.Sheet", "api.Sheet", [⟨"Rows[index].Cells", "Cells", true⟩]⟩]

def mapping : Mapping :=
  ⟨"Rows[index].Cells", ["Cells"], cells, [], true⟩

def conversion : Conversion :=
  ⟨"Copy", ⟨"Sheet", "api.thrift", [rows, cells]⟩, ⟨"Sheet", "api.thrift", [rows, cells]⟩,
    [mapping]⟩

def table : MappingTable :=
  ⟨[((Path.root.field "Rows").index.field "Cells", mapping.entry)]⟩

def converter : Converter where
  namespaces := .registry [("api.thrift", "crate::api")]
  settings := { index := "source_list_rows__item__cells" }

/-- The level of the rows. -/
def level : Level :=
  (Level.top table).descend (Path.root.field "Rows").index
    (elementSlot converter.settings ((Level.top table).slot rows) .list).place converter.elementVar

/-- The cells of a row. -/
def own : Candidate :=
  .ofField cells (converter.elementVar.field "Cells" true)

/-- A sheet without cells that has two rows with one cell each. -/
def env : Env where
  input := .struct [("Rows", .list [.struct [("Cells", .list [.scalar "a"])],
    .struct [("Cells", .list [.scalar "b"])]])]
  vars := fun _ => none
  out := fun _ => none

/-- The conversion of sheets is in the catalog. -/
theorem resolved : ∃ catalog, Catalog.ofDocument document = .ok catalog ∧
    conversion ∈ catalog.conversions := by
  have conversions : (Catalog.ofDocument document).toOption.map Catalog.conversions =
      some [conversion] := by
    with_unfolding_all rfl
  obtain ⟨catalog, found, only⟩ := Option.map_eq_some_iff.1 conversions
  exact ⟨catalog, toOption_eq_some.1 found, only ▸ List.mem_cons_self⟩

/-- The cells of the rows are reached, with the sheet's cells before the row's own. -/
theorem reached : Reached converter (.top table) conversion.source.fields conversion.dest.fields
    level [cells] cells ⟨mapping.entry.candidate, some own⟩ := by
  have below : Reached converter level [cells] [cells] level [cells] cells
      ⟨mapping.entry.candidate, some own⟩ := .here List.mem_cons_self rfl
  have chosen : (Level.top table).choose conversion.source.fields rows.name =
      .ok (.direct (.ofField rows (Place.input.field "Rows" false))) := rfl
  have kind : rows.type.elements? = some (.list, (Struct.mk "Row" "api.thrift" [cells]).toTy) :=
    rfl
  exact .element List.mem_cons_self chosen kind Choice.primary_mem kind rfl below

end Sheet

/-- A mapping that ends at a required field gives a default where a parent is absent, be it the
primary or the fallback, and one into elements gives nothing where the index is named like the
variable its source is staged in. -/
theorem mapped_sources_defaulted :
    (∃ catalog block, Catalog.ofDocument (Account.document true) = .ok catalog ∧
      Account.conversion true ∈ catalog.conversions ∧
      MappingTable.ofMappings (Account.conversion true).mappings = .ok (Account.table true) ∧
      Account.converter.convert (Account.conversion true).source.fields
        (Account.conversion true).dest.fields (Account.table true) = .ok block ∧
      Reached Account.converter (.top (Account.table true))
        (Account.conversion true).source.fields (Account.conversion true).dest.fields
        (.top (Account.table true)) (Account.conversion true).source.fields (Account.name false)
        (Account.choice true) ∧
      (Level.top (Account.table true)).mapping? (Path.root.field "Name") =
        some (Account.mapping true).entry ∧
      true ∈ (Account.mapping true).entry.parentsOptional ∧
      (Account.choice true).primary = (Account.mapping true).entry.candidate ∧
      (Level.top (Account.table true)).sameName? (Account.conversion true).source.fields "Name" =
        some Account.own ∧
      (Account.choice true).fallback? = none ∧
      Account.env.AbsentAlong (Account.mapping true).entry.place ∧
      (Block.run block Account.env).out [.field "Name"] = some (.cast "String" .absent true)) ∧
    (∃ catalog block, Catalog.ofDocument (Account.document true false) = .ok catalog ∧
      Account.conversion true false ∈ catalog.conversions ∧
      MappingTable.ofMappings (Account.conversion true false).mappings =
        .ok (Account.table true false) ∧
      Account.converter.convert (Account.conversion true false).source.fields
        (Account.conversion true false).dest.fields (Account.table true false) = .ok block ∧
      Reached Account.converter (.top (Account.table true false))
        (Account.conversion true false).source.fields (Account.conversion true false).dest.fields
        (.top (Account.table true false)) (Account.conversion true false).source.fields
        (Account.name false) (Account.choice true false) ∧
      (Level.top (Account.table true false)).mapping? (Path.root.field "Name") =
        some (Account.mapping true false).entry ∧
      true ∈ (Account.mapping true false).entry.parentsOptional ∧
      (Account.choice true false).fallback? =
        some (Account.mapping true false).entry.candidate ∧
      Account.blank.AbsentAlong Account.own.place ∧
      Account.blank.AbsentAlong (Account.mapping true false).entry.place ∧
      (Block.run block Account.blank).out [.field "Name"] = some (.cast "String" .absent true)) ∧
    ∃ catalog block, Catalog.ofDocument Sheet.document = .ok catalog ∧
      Sheet.conversion ∈ catalog.conversions ∧
      MappingTable.ofMappings Sheet.conversion.mappings = .ok Sheet.table ∧
      Sheet.converter.settings.validate = .ok () ∧
      Sheet.converter.convert Sheet.conversion.source.fields Sheet.conversion.dest.fields
        Sheet.table = .ok block ∧
      Reached Sheet.converter (.top Sheet.table) Sheet.conversion.source.fields
        Sheet.conversion.dest.fields Sheet.level [Sheet.cells] Sheet.cells
        ⟨Sheet.mapping.entry.candidate, some Sheet.own⟩ ∧
      Sheet.level.mapping? (Sheet.level.path.field "Cells") = some Sheet.mapping.entry ∧
      Sheet.mapping.entry.field.isOptional = true ∧
      Sheet.env.AbsentAlong Sheet.mapping.entry.place ∧
      (Sheet.env.input.follow [.field "Rows", .index 1, .field "Cells"]).isAbsent = false ∧
      (Block.run block Sheet.env).out [.field "Rows", .index 1, .field "Cells"] = none := by
  -- one case for each cause of absence, and one with two sources that share a variable
  refine ⟨?_, ?_, ?_⟩
  · obtain ⟨catalog, found, mem⟩ := Account.resolved true
    refine ⟨catalog, _, found, mem, Account.tabled true, rfl, Account.reached true, rfl,
      List.mem_cons_self, rfl, rfl, rfl, ?_, rfl⟩
    exact ⟨[.field "Profile" true], ⟨[.field "Name" false], rfl⟩, rfl⟩
  · obtain ⟨catalog, found, mem⟩ := Account.resolved true false
    refine ⟨catalog, _, found, mem, Account.tabled true false, rfl, Account.reached true false, rfl,
      List.mem_cons_self, rfl, ?_, ?_, rfl⟩
    · exact ⟨[.field "Name" true], List.prefix_refl _, rfl⟩
    · exact ⟨[.field "Profile" true], ⟨[.field "Name" false], rfl⟩, rfl⟩
  · obtain ⟨catalog, found, mem⟩ := Sheet.resolved
    refine ⟨catalog, _, found, mem, rfl, rfl, rfl, Sheet.reached, rfl, rfl, ?_, rfl, rfl⟩
    exact ⟨[.field "Cells" true], List.prefix_refl _, rfl⟩

end Crosswalk
