import Crosswalk.Proofs.Choice
import Crosswalk.Proofs.Demand

/-!
# Which source goes first

Of a source field of its name and a mapped one, a destination field takes the one that goes first.
If that one is required, the other is not looked at: its type is not checked, and nothing is emitted
for it at the field or below.
-/

namespace Crosswalk
set_option autoImplicit false

/-! ## Tables without an entry -/

namespace MappingTable
variable {t t' : MappingTable} {path : Path} {name : String}

/-- Takes out what is at a path. -/
def erase (t : MappingTable) (path : Path) : MappingTable :=
  ⟨t.entries.filter fun (p, _) => p ≠ path⟩

/-- Nothing is left at the path. -/
theorem get?_erase_self : (t.erase path).get? path = none := by
  show (t.entries.filter fun (p, _) => p ≠ path).lookup path = none
  rw [List.lookup_eq_none_iff]
  rintro ⟨p, e⟩ mem
  obtain ⟨_, kept⟩ := List.mem_filter.1 mem
  have other : p ≠ path := of_decide_eq_true kept
  exact bne_iff_ne.2 other.symm

/-- All other paths keep their entries. -/
theorem get?_erase_of_ne {p : Path} (other : p ≠ path) : (t.erase path).get? p = t.get? p := by
  show (t.entries.filter fun (p, _) => p ≠ path).lookup p = t.entries.lookup p
  induction t.entries with
  | nil => rfl
  | cons first rest ih =>
    obtain ⟨q, e⟩ := first
    by_cases same : q = path
    · have new : (p == q) = false := by simpa [same] using other
      rw [List.filter_cons_of_neg (by simpa using same), ih, List.lookup_cons, new]
    · rw [List.filter_cons_of_pos (by simpa using same), List.lookup_cons, List.lookup_cons, ih]

/-- Tables that differ only at a field of the whole destination have the same entries below all of
its fields. -/
theorem agreeIn_of_top (same : ∀ path, path ≠ Path.root.field name → t.get? path = t'.get? path)
    (f : Field) : t.AgreeIn t' (Path.root.field f.name) f.type := by
  have deep : ∀ segments : List Segment, segments ≠ [] →
      t.get? ⟨.field f.name :: segments⟩ = t'.get? ⟨.field f.name :: segments⟩ := by
    intro segments some
    apply same
    intro top
    exact some (List.cons.inj (Path.mk.inj top)).2
  constructor
  · intro s _ segments g found
    exact deep segments found.ne_nil
  · intro shape s _ segments g found
    exact deep (shape.marker :: segments) (List.cons_ne_nil _ _)

end MappingTable

/-! ## The source that is taken -/

/-- A required source has no fallback. -/
theorem Choice.withFallback_of_required {primary secondary : Candidate}
    (required : primary.optional = false) : withFallback primary secondary = direct primary := by
  unfold withFallback direct
  rw [if_neg (by simp [required])]

namespace Level
variable {l : Level} {sources : List Field} {name : String} {e : Entry} {same : Candidate}

theorem mapping?_top (table : MappingTable) (name : String) :
    (Level.top table).mapping? (Path.root.field name) = table.get? (Path.root.field name) := by
  have under : (Path.root.field name).isUnder Path.root = true :=
    Path.isUnder_extend .root (.field name)
  exact if_pos under

/-- A required mapped source that goes first is taken, whatever the sources are. -/
theorem choose_of_overrides (mapped : l.mapping? (l.path.field name) = some e)
    (overrides : e.overrides = true) (required : e.field.required = true) :
    l.choose sources name = .ok (.direct e.candidate) := by
  have present : e.candidate.optional = false := by
    simp [Entry.candidate, Candidate.ofField, FieldOf.isOptional, required]
  unfold choose
  cases l.sameName? sources name with
  | none => simp only [mapped, Option.map_some, Entry.candidate]
  | some same =>
    simp only [mapped, Option.map_some, overrides]
    exact congrArg Except.ok (Choice.withFallback_of_required present)

/-- A required source of the name is taken, whatever is mapped without going first. -/
theorem choose_of_sameName (found : l.sameName? sources name = some same)
    (required : same.optional = false)
    (behind : ∀ e, l.mapping? (l.path.field name) = some e → e.overrides = false) :
    l.choose sources name = .ok (.direct same) := by
  unfold choose
  rw [found]
  cases mapped : l.mapping? (l.path.field name) with
  | none => simp only [mapped, Option.map_none]
  | some e =>
    simp only [mapped, Option.map_some, behind e mapped]
    exact congrArg Except.ok (Choice.withFallback_of_required required)

/-- A mapped source that stands alone is taken, whether it would go first or not. -/
theorem choose_of_alone (alone : l.sameName? sources name = none)
    (mapped : l.mapping? (l.path.field name) = some e) :
    l.choose sources name = .ok (.direct e.candidate) := by
  unfold choose
  simp only [alone, mapped, Option.map_some, Entry.candidate]

end Level

/-! ## Two runs that differ in the sources of one field -/

/-- Taking out a field hides no other name. -/
theorem findField?_filter_of_ne {sources : List Field} {name other : String} (h : other ≠ name) :
    findField? (sources.filter (·.name ≠ name)) other = findField? sources other := by
  unfold findField?
  rw [List.find?_filter]
  congr 1
  funext f
  by_cases same : f.name = other
  · simp [same, h]
  · simp [same]

namespace Converter
variable {cv : Converter} {sources sources' dests : List Field} {table table' : MappingTable}
  {name : String}

/-- Runs whose sources and tables differ for one field of the whole destination give the same
result if the field takes the same source in both. -/
theorem convert_eq_of_choose (names : ∀ other, other ≠ name →
      findField? sources other = findField? sources' other)
    (entries : ∀ path, path ≠ Path.root.field name → table.get? path = table'.get? path)
    (chosen : (Level.top table).choose sources name = (Level.top table').choose sources' name) :
    cv.convert sources dests table = cv.convert sources' dests table' := by
  -- the two runs choose alike at all names, that of the field by assumption
  have choices : ∀ other,
      (Level.top table).choose sources other = (Level.top table').choose sources' other := by
    intro other
    by_cases same : other = name
    · rw [same, chosen]
    · apply Level.choose_congr
      · apply entries
        intro top
        have head := congrArg Path.segments top
        exact same (by simpa [Level.top, Path.root, Path.field, Path.extend] using head)
      · exact names other same
  have field : ∀ f, cv.convertField (.top table) sources f =
      cv.convertField (.top table') sources' f := by
    rintro ⟨dest, type, required, file⟩
    rw [convertField, convertField, choices dest]
    congr 1
    funext choice
    exact convertType_congr type (MappingTable.agreeIn_of_top entries ⟨dest, type, required, file⟩)
  show cv.convertFields (.top table) sources dests = cv.convertFields (.top table') sources' dests
  induction dests with
  | nil => rfl
  | cons f rest ih => rw [convertFields, convertFields, field f, ih]

end Converter

/-- A source that is not taken is irrelevant: a conversion gives the same block or the same error
without the source fields of a name that a required mapped source goes before, without an entry that
a required source field goes before, and with an entry that goes before nothing or does not. -/
theorem losing_source_irrelevant (cv : Converter) (sources dests : List Field)
    (table : MappingTable) (name : String) {e : Entry}
    (mapped : table.get? (Path.root.field name) = some e) :
    (e.overrides = true → e.field.required = true →
      cv.convert (sources.filter (·.name ≠ name)) dests table = cv.convert sources dests table) ∧
    (∀ f, e.overrides = false → findField? sources name = some f → f.required = true →
      cv.convert sources dests (table.erase (Path.root.field name)) =
        cv.convert sources dests table) ∧
    ((∀ f ∈ sources, f.name ≠ name) →
      cv.convert sources dests
          (table.insert (Path.root.field name) { e with overrides := !e.overrides }) =
        cv.convert sources dests table) := by
  have seen : (Level.top table).mapping? (Path.root.field name) = some e := by
    rw [Level.mapping?_top, mapped]
  -- one run for each loser: a field of the name, an entry, and the preference of an entry alone
  refine ⟨fun overrides required => ?_, fun f behind found required => ?_, fun absent => ?_⟩
  · apply Converter.convert_eq_of_choose
    · exact fun other => findField?_filter_of_ne
    · exact fun _ _ => rfl
    · rw [Level.choose_of_overrides seen overrides required,
        Level.choose_of_overrides seen overrides required]
  · have same (t : MappingTable) : (Level.top t).sameName? sources name =
        some (.ofField f (Place.input.field f.name f.isOptional)) := by
      rw [Level.sameName?, found]
      rfl
    have present : (Candidate.ofField f (Place.input.field f.name f.isOptional)).optional =
        false := by
      simp [Candidate.ofField, FieldOf.isOptional, required]
    apply Converter.convert_eq_of_choose
    · exact fun _ _ => rfl
    · exact fun path other => MappingTable.get?_erase_of_ne other
    · rw [Level.choose_of_sameName (same _) present, Level.choose_of_sameName (same _) present]
      · intro e' seen'
        obtain rfl : e = e' := Option.some.inj (seen.symm.trans seen')
        exact behind
      · intro e' seen'
        have erased : (table.erase (Path.root.field name)).get? (Path.root.field name) = some e' :=
          Level.get?_of_mapping? seen'
        rw [MappingTable.get?_erase_self] at erased
        cases erased
  -- where no field has the name, the entry is taken whatever it prefers
  · have alone (t : MappingTable) : (Level.top t).sameName? sources name = none := by
      have missing : findField? sources name = none := by
        rw [findField?, List.find?_eq_none]
        intro f mem
        simpa using absent f mem
      rw [Level.sameName?, missing]
      rfl
    have flipped : (Level.top (table.insert (Path.root.field name)
        { e with overrides := !e.overrides })).mapping? (Path.root.field name) =
          some { e with overrides := !e.overrides } := by
      rw [Level.mapping?_top, MappingTable.get?_insert_self]
    apply Converter.convert_eq_of_choose
    · exact fun _ _ => rfl
    · exact fun path other => MappingTable.get?_insert_of_ne other
    · rw [Level.choose_of_alone (alone _) flipped, Level.choose_of_alone (alone _) seen]
      rfl

namespace Badge

/-! A name that is mapped first, a grade that is mapped second and a note that is only mapped. The
sources that are not taken are lists, which would be refused. -/

/-- A type that a text is not compatible with. -/
def names : Ty := .list (.primitive .string)

/-- The badge's own name is of the wrong type. -/
def sources : List Field :=
  [⟨"Name", names, true, "a.thrift"⟩, ⟨"Grade", .primitive .i32, true, "a.thrift"⟩]

def dests : List Field :=
  [⟨"Name", .primitive .string, true, "b.thrift"⟩, ⟨"Grade", .primitive .i32, true, "b.thrift"⟩,
    ⟨"Note", .primitive .string, false, "b.thrift"⟩]

/-- An entry that goes before the name and is required. -/
def nickname : Entry :=
  ⟨.ofFields ["Alias"], ⟨"Alias", .primitive .string, true, "a.thrift"⟩, [], true⟩

/-- An entry that goes behind the grade and is of the wrong type. -/
def grades : Entry := ⟨.ofFields ["Grades"], ⟨"Grades", names, false, "a.thrift"⟩, [], false⟩

/-- An entry for a field that the source does not have. -/
def remark : Entry :=
  ⟨.ofFields ["Remark"], ⟨"Remark", .primitive .string, false, "a.thrift"⟩, [], false⟩

def table : MappingTable :=
  ((MappingTable.empty.insert (Path.root.field "Name") nickname).insert
    (Path.root.field "Grade") grades).insert (Path.root.field "Note") remark

def converter : Converter :=
  { namespaces := .registry [] }

/-- The block is the same without the name, without the entry for the grade, and with the preference
of the remark turned around. -/
theorem convert_same_without_losers :
    ∃ block, converter.convert sources dests table = .ok block ∧
      converter.convert (sources.filter (·.name ≠ "Name")) dests table = .ok block ∧
      converter.convert sources dests (table.erase (Path.root.field "Grade")) = .ok block ∧
      converter.convert sources dests
        (table.insert (Path.root.field "Note") { remark with overrides := true }) = .ok block := by
  have converts : ∃ block, converter.convert sources dests table = .ok block := ⟨_, rfl⟩
  obtain ⟨block, h⟩ := converts
  have name := losing_source_irrelevant converter sources dests table "Name" (e := nickname) rfl
  have grade := losing_source_irrelevant converter sources dests table "Grade" (e := grades) rfl
  have note := losing_source_irrelevant converter sources dests table "Note" (e := remark) rfl
  have only : ∀ f ∈ sources, f.name ≠ "Note" := by decide
  exact ⟨block, h, (name.1 rfl rfl).trans h, (grade.2.1 _ rfl rfl rfl).trans h,
    (note.2.2 only).trans h⟩

end Badge

end Crosswalk
