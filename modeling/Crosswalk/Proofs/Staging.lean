import Crosswalk.Proofs.Loop
import Crosswalk.Proofs.Reach
import Crosswalk.Proofs.Run.Keep
import Crosswalk.Proofs.Tree

/-!
# What a conversion writes

A conversion writes places of the output, and the variables that it makes for lists and maps with
two sources. Both belong to destination fields: the places are at or below those of the fields that
are filled, and the variables are named after the paths of fields that are reached.
-/

namespace Crosswalk
set_option autoImplicit false
open Converter

/-! ## Reached fields -/

/-- What is reached for some fields is reached for more of them. -/
theorem Reached.mono {cv : Converter} {level deep : Level} {sources fewer dests given : List Field}
    {f : Field} {choice : Choice} (h : Reached cv level sources fewer deep given f choice)
    (among : ∀ g ∈ fewer, g ∈ dests) : Reached cv level sources dests deep given f choice := by
  cases h with
  | here mem chosen => exact .here (among _ mem) chosen
  | struct mem chosen kind source struct below =>
    exact .struct (among _ mem) chosen kind source struct below
  | element mem chosen kind source held struct below =>
    exact .element (among _ mem) chosen kind source held struct below

/-- The paths of the fields of a level that is entered lead to them from those of the first. -/
theorem Entered.fieldAt {cv : Converter} {level deep : Level}
    {sources dests given inner : List Field} (h : Entered cv level sources dests deep given inner)
    {f : Field} (among : f ∈ inner) :
    ∃ below, (deep.slot f).path.segments = level.path.segments ++ below ∧
      FieldAt dests below f := by
  induction h with
  | here => exact ⟨_, rfl, .here among⟩
  | struct mem chosen kind source struct below ih =>
    obtain ⟨rest, path, leads⟩ := ih among
    refine ⟨_, ?_, .struct mem kind leads⟩
    rw [path]
    simp [Level.descend, Level.slot, Path.field, Path.extend]
  | element mem chosen kind source held struct below ih =>
    obtain ⟨rest, path, leads⟩ := ih among
    refine ⟨_, ?_, .element mem kind leads⟩
    rw [path]
    simp [Level.descend, elementSlot_path, Level.slot, Path.field, Path.extend]

/-- The path of a field that is reached leads to it from the fields of the first level. -/
theorem Reached.fieldAt {cv : Converter} {level deep : Level} {sources dests given : List Field}
    {f : Field} {choice : Choice} (h : Reached cv level sources dests deep given f choice) :
    ∃ below, (deep.slot f).path.segments = level.path.segments ++ below ∧
      FieldAt dests below f := by
  obtain ⟨inner, entered, among⟩ := h.entered
  exact entered.fieldAt among

/-! ## Variables -/

/-- The variable is the root of what is written. -/
theorem target?_of_assigned? {t : Statement} {name : String} (h : t.assigned? = some name) :
    ∃ p, t.target? = some p ∧ p.root = .var name := by
  cases t with
  | assign target value =>
    refine ⟨target, rfl, ?_⟩
    simp only [Statement.assigned?] at h
    split at h
    · next other root =>
      cases h
      exact root
    · cases h
  | _ => cases h

/-- The variables for the list or map at a path; only those of structs have a flag. -/
def stagedVars (s : Settings) (path : Path) (boxed : Bool) : List String :=
  sourceListVar s path :: if boxed then [overrideFlagVar s path] else []

theorem sourceListVar_or_overrideFlagVar {s : Settings} {path : Path} {boxed : Bool} {name : String}
    (h : name ∈ stagedVars s path boxed) :
    name = sourceListVar s path ∨ name = overrideFlagVar s path := by
  rcases List.mem_cons.1 h with rfl | h
  · exact .inl rfl
  · cases boxed with
    | false => cases h
    | true => exact .inr (List.mem_singleton.1 h)

/-- A field is a list or map with two sources, at a path and of structs or not. -/
def Level.Stages (l : Level) (f : Field) (choice : Choice) (path : Path) (boxed : Bool) : Prop :=
  path = (l.slot f).path ∧ choice.fallback?.isSome = true ∧
    ∃ shape element, f.type.elements? = some (shape, element) ∧ boxed = element.isStruct

/-- The lists and maps for which a conversion makes variables. -/
def Staged (cv : Converter) (table : MappingTable) (sources dests : List Field) (path : Path)
    (boxed : Bool) : Prop :=
  ∃ deep given f choice, Reached cv (.top table) sources dests deep given f choice ∧
    deep.Stages f choice path boxed

/-- A staged path leads to a field of the destination. -/
theorem Staged.fieldAt {cv : Converter} {table : MappingTable} {sources dests : List Field}
    {path : Path} {boxed : Bool} (h : Staged cv table sources dests path boxed) :
    ∃ f, FieldAt dests path.segments f := by
  obtain ⟨deep, given, f, choice, reached, rfl, _⟩ := h
  obtain ⟨below, path, leads⟩ := reached.fieldAt
  exact ⟨f, path ▸ leads⟩

/-! ## What a task writes -/

/-- The places at or below what a task fills. -/
def Task.Covers (p : Place) : Task → Prop
  | .fields level _ dests => ∃ f ∈ dests, p.Extends (level.slot f).place
  | .value _ slot _ _ => p.Extends slot.place
  | .body _ _ slot _ => p.Extends slot.place

/-- A task reaches a field of a kind. The field that a value is for counts among those reached. -/
def Task.Finds (cv : Converter) (Q : Level → Field → Choice → Prop) : Task → Prop
  | .fields level sources dests =>
    ∃ deep given g inner, Reached cv level sources dests deep given g inner ∧ Q deep g inner
  | .value level slot choice type =>
    ∀ sources dests f, f ∈ dests → level.choose sources f.name = .ok choice →
      slot = level.slot f → type = f.type →
      ∃ deep given g inner, Reached cv level sources dests deep given g inner ∧ Q deep g inner
  | .body level s slot source =>
    ∃ name file fields deep given g inner, source.type.resolved = .struct name file fields ∧
      Reached cv (level.descend slot.path slot.place source.place) fields s.fields deep given g
        inner ∧ Q deep g inner

/-- A place is covered by a task, or it is a variable for a field that the task reaches. -/
def Task.Owns (cv : Converter) (task : Task) (p : Place) : Prop :=
  task.Covers p ∨ ∃ name optional, p = .var name optional ∧
    task.Finds cv fun deep f choice =>
      ∃ path boxed, deep.Stages f choice path boxed ∧ name ∈ stagedVars cv.settings path boxed

/-- A statement writes only what a task owns. -/
def WritesOwn (cv : Converter) (task : Task) (t : Statement) : Prop :=
  ∀ p, t.target? = some p → task.Owns cv p

section
variable {cv : Converter} {task inner : Task} {t : Statement} {level : Level} {slot : Slot}
  {choice : Choice} {type : Ty} {target : Place}

/-- What a part writes is the task's own, if the task covers and finds what the part does. -/
theorem WritesOwn.of_part (h : WritesOwn cv inner t) (covers : ∀ p, inner.Covers p → task.Covers p)
    (finds : ∀ Q, inner.Finds cv Q → task.Finds cv Q) : WritesOwn cv task t := by
  intro p written
  rcases h p written with covered | ⟨name, optional, same, found⟩
  · exact .inl (covers p covered)
  · exact .inr ⟨name, optional, same, finds _ found⟩

theorem writesOwn_of_target?_eq_none (h : t.target? = none) : WritesOwn cv task t := by
  intro p written
  simp [h] at written

/-- A write at a place that the task covers is its own. -/
theorem writesOwn_of_covers (written : t.target? = some target) (h : task.Covers target) :
    WritesOwn cv task t := by
  intro p same
  obtain rfl : target = p := by simpa [written] using same
  exact .inl h

/-- The variables for the aggregate that is filled. -/
theorem writesOwn_staged {shape : Shape} {element : Ty} {name : String} {optional : Bool}
    {value : Expr} (kind : type.elements? = some (shape, element))
    (two : choice.fallback?.isSome = true)
    (named : name ∈ stagedVars cv.settings slot.path element.isStruct) :
    WritesOwn cv (.value level slot choice type) (.assign (.var name optional) value) := by
  intro p same
  obtain rfl : Place.var name optional = p := by simpa [Statement.target?] using same
  refine .inr ⟨name, optional, rfl, ?_⟩
  rintro sources dests f mem chosen rfl rfl
  exact ⟨level, sources, f, choice, .here mem chosen, _, _, ⟨rfl, two, shape, element, kind, rfl⟩,
    named⟩

/-- The variables that are assigned while sources are staged belong to the path that is filled. -/
theorem writesOwn_stage {start : Site} {shape : Shape} {element : Ty}
    (kind : type.elements? = some (shape, element)) :
    Everywhere (fun _ => WritesOwn cv (.value level slot choice type)) start
      (stage cv.settings slot.path element.isStruct choice).block := by
  cases hf : choice.fallback? with
  | none => simp [stage, hf]
  | some fallback =>
    have two : choice.fallback?.isSome = true := by rw [hf]; rfl
    have take : ∀ site (c : Candidate) taken,
        Everywhere (fun _ => WritesOwn cv (.value level slot choice type)) site
          (takeBlock cv.settings slot.path element.isStruct fallback.optional taken c) := by
      intro site c taken
      refine everywhere_cons.2 ⟨everywhere_assign.2 (writesOwn_staged kind two
        List.mem_cons_self), ?_⟩
      split
      · next boxed =>
        exact everywhere_assign.2 (writesOwn_staged kind two (by simp [stagedVars, boxed]))
      · exact everywhere_nil
    obtain ⟨primary, fallback?⟩ := choice
    obtain rfl : fallback? = some fallback := hf
    rw [stage_block, everywhere_append, Statement.guarded, everywhere_branch]
    exact ⟨take _ _ _, writesOwn_of_target?_eq_none rfl, take _ _ _, everywhere_nil⟩

/-- A list or map writes its own target and variables, and what its turns write. -/
theorem writesOwn_aggregateBlock {start : Site} {shape : Shape} {element : Ty} {name : String}
    {turn : Block} (kind : type.elements? = some (shape, element))
    (inside : ∀ site, Everywhere (fun _ => WritesOwn cv (.value level slot choice type)) site
      turn) :
    Everywhere (fun _ => WritesOwn cv (.value level slot choice type)) start
      (aggregateBlock cv.settings slot shape choice name element.isStruct turn) := by
  have self : (Task.value level slot choice type).Covers slot.place := ⟨rfl, List.prefix_rfl⟩
  rw [everywhere_aggregateBlock rfl]
  exact ⟨writesOwn_stage kind,
    fun _ => ⟨writesOwn_of_target?_eq_none rfl, writesOwn_of_covers rfl self⟩,
    writesOwn_of_covers rfl self, writesOwn_of_target?_eq_none rfl, inside _⟩

end

/-- A conversion writes nothing that it does not own. -/
theorem Emits.writesOwn {cv : Converter} {task : Task} {block : Block} (h : Emits cv task block) :
    ∀ start, Everywhere (fun _ => WritesOwn cv task) start block := by
  have self : ∀ slot : Slot, slot.place.Extends slot.place := fun _ => ⟨rfl, List.prefix_rfl⟩
  induction h with
  | nil => exact fun start => everywhere_nil
  | @cons level sources rest f choice block later chosen filled others ihf iho =>
    intro start
    refine everywhere_append.2 ⟨fun site t at_ => ?_, fun site t at_ => ?_⟩
    · refine (ihf start site t at_).of_part (fun p h => ⟨f, List.mem_cons_self, h⟩) fun Q h => ?_
      exact h sources (f :: rest) f List.mem_cons_self chosen rfl rfl
    · refine (iho _ site t at_).of_part ?_ ?_
      · rintro p ⟨g, mem, h⟩
        exact ⟨g, List.mem_cons_of_mem f mem, h⟩
      · rintro Q ⟨deep, given, g, inner, reached, h⟩
        exact ⟨deep, given, g, inner, reached.mono fun _ => List.mem_cons_of_mem f, h⟩
  | copied kind named agree =>
    intro start
    exact everywhere_assignChoice (fun _ _ _ _ _ _ => writesOwn_of_target?_eq_none rfl)
      fun _ _ _ _ => writesOwn_of_covers rfl (self _)
  | binary agree =>
    intro start
    exact everywhere_assignChoice (fun _ _ _ _ _ _ => writesOwn_of_target?_eq_none rfl)
      fun _ _ _ _ => writesOwn_of_covers rfl (self _)
  | struct bodies ih =>
    intro start
    refine everywhere_structBlock (fun _ _ _ _ _ _ => writesOwn_of_target?_eq_none rfl)
      (fun _ _ => writesOwn_of_covers rfl (self _)) fun site _ c hc at_ t ho => ?_
    refine (ih c hc site at_ t ho).of_part (fun p h => h) ?_
    -- what the struct's level reaches from this source is reached through the field
    rintro Q ⟨name, file, fields, deep, given, g, inner, struct, reached, h⟩
    rintro sources dests f mem chosen rfl kind
    exact ⟨deep, given, g, inner, .struct mem chosen kind.symm hc struct reached, h⟩
  | @elements level slot choice type dest shape name element kind whole plain named sources =>
    intro start
    rw [← whole]
    refine writesOwn_aggregateBlock kind fun site => everywhere_assign.2 ?_
    exact writesOwn_of_covers rfl (Place.extends_elementSlot _ _ _)
  | @structs level slot choice type s shape name element turn kind named sources turns ih =>
    intro start
    have inside : ∀ c ∈ choice.candidates, ∀ site,
        Everywhere (fun _ => WritesOwn cv (.value level slot choice type)) site (turn c) := by
      intro c hc site at_ t ho
      refine (ih c hc site at_ t ho).of_part
        (fun p h => h.trans (Place.extends_elementSlot _ _ _)) ?_
      rintro Q ⟨name, file, fields, deep, given, g, inner, struct, reached, h⟩
      rintro given' dests f mem chosen rfl rfl
      exact ⟨deep, given, g, inner, .element mem chosen kind hc (sources c hc) struct reached, h⟩
    refine writesOwn_aggregateBlock kind fun site => everywhere_structTurn
      (fun _ _ => writesOwn_of_target?_eq_none rfl) (fun _ => inside _ Choice.primary_mem _) ?_
    exact fun fallback hf => ⟨inside _ Choice.primary_mem _,
      inside fallback (Choice.fallback_mem hf) _⟩
  | @body level s slot source name file type fields block struct named filled ih =>
    intro start
    refine everywhere_cons.2 ⟨everywhere_allocate.2 (writesOwn_of_covers rfl (self _)), ?_⟩
    refine fun site t at_ => (ih _ site t at_).of_part ?_ ?_
    · rintro p ⟨f, _, h⟩
      exact h.trans (Place.extends_field _ _ _)
    · rintro Q ⟨deep, given, g, inner, reached, h⟩
      exact ⟨name, file, fields, deep, given, g, inner, struct, reached, h⟩

namespace Shelf

/-! Lists of rows, each taken from the source's list of its name or from an extra one. -/

def row : Struct :=
  ⟨"Row", "a.thrift", [⟨"Name", .primitive .string, true, "a.thrift"⟩]⟩

def rows (required : Bool) (name : String) : Field :=
  ⟨name, .list row.toTy, required, "a.thrift"⟩

def extra : Entry where
  source := .ofFields ["Extra"]
  field := rows true "Extra"
  parentsOptional := []
  overrides := false

/-- A mapping for each of the named fields, which reads the extra rows. -/
def table (names : List String) : MappingTable :=
  ⟨names.map fun name => (Path.root.field name, extra)⟩

def sources (names : List String) : List Field :=
  rows true "Extra" :: names.map (rows false)

def dests (names : List String) : List Field :=
  names.map (rows true)

def converter (settings : Settings) : Converter :=
  { namespaces := .registry [("a.thrift", "crate::a")], settings }

theorem eachStruct {P : List Field → Prop} {names : List String} (top : P (dests names))
    (inRow : P row.fields) : EachStruct P (dests names) := by
  refine ⟨top, fun f mem inner has => ?_⟩
  obtain ⟨name, _, rfl⟩ := List.mem_map.1 mem
  cases has with
  | element he has =>
    obtain ⟨_, rfl⟩ : _ ∧ row.toTy = _ := by simpa [rows, Ty.elements?] using he
    cases has with
    | here => exact inRow
    | field mem has =>
      obtain rfl := List.mem_singleton.1 mem
      cases has with
      | element he => cases he
    | element he => cases he

end Shelf

end Crosswalk
