import Crosswalk.Code
import Crosswalk.Proofs.Absence
import Crosswalk.Proofs.Typing

/-!
# Marks of optional values

A place, a source and a cast each carry a mark that says whether the value may be absent. The marks
of a program agree: a place has the mark of its last access, a cast that of its target, and a check
whether a value is present has two sides only if the place is marked. So the code, in which a check
of a required value is left out, has a line for every other statement.

`Statement.Agrees` is what a single statement has to satisfy, and `Emits.agrees` shows it of every
statement at its site. `Checked` is the shape of the blocks that are emitted, shown by
`Emits.checked`; `Checked.firstLines_eq` is the induction on it that counts the lines of the code.
Both inductions over emission follow the rules of `Emits`.
-/

namespace Crosswalk
set_option autoImplicit false
open Converter

/-! ## Places -/

/-- Only a field can lead to an absent value; elements are there. -/
def Access.isOptional : Access → Bool
  | .field _ optional => optional
  | .index _ => false
  | .key _ => false

/-- A place with accesses has the mark of the last one. -/
def Place.Marked (p : Place) : Prop :=
  ∀ access ∈ p.accesses.getLast?, p.optional = access.isOptional

/-- A field is marked by the access that leads to it. -/
theorem Place.marked_field {p : Place} {name : String} {optional : Bool} :
    (p.field name optional).Marked := by
  intro access last
  obtain rfl : Access.field name optional = access := by simpa [field] using last
  rfl

/-- Variables are marked by themselves. -/
theorem Place.marked_var {name : String} {optional : Bool} : (var name optional).Marked := by
  intro access last
  cases last

/-- An element has a mark of its own: none, for elements are not optional. -/
theorem Converter.marked_elementSlot {s : Settings} {slot : Slot} {shape : Shape} :
    (elementSlot s slot shape).place.Marked := by
  intro access last
  cases shape with
  | list =>
    obtain rfl : Access.index s.index = access := by simpa [elementSlot, Place.index] using last
    rfl
  | map =>
    obtain rfl : Access.key s.key = access := by simpa [elementSlot, Place.key] using last
    rfl

/-- Elements of lists and maps are always there. -/
theorem Converter.optional_elementSlot {s : Settings} {slot : Slot} {shape : Shape} :
    (elementSlot s slot shape).place.optional = false := by
  cases shape <;> rfl

/-- The mark of a source is that of the place it is read from. -/
def Candidate.Marked (c : Candidate) : Prop :=
  c.place.Marked ∧ c.place.optional = c.optional

/-- The entries of a table lead to marked places. -/
def MappingTable.Marked (t : MappingTable) : Prop :=
  ∀ path e, t.get? path = some e → e.candidate.Marked

/-- Sources that are chosen have their marks from the fields they are, or from the table. -/
theorem Level.marked_of_choose {level : Level} {sources : List Field} {name : String}
    {choice : Choice} (table : level.table.Marked) (chosen : level.choose sources name = .ok choice)
    {c : Candidate} (mem : c ∈ choice.candidates) : c.Marked := by
  rcases Level.candidate_of_choose chosen mem with ⟨f, _, rfl⟩ | ⟨path, e, found, rfl⟩
  · exact ⟨Place.marked_field, rfl⟩
  · exact table path e found

/-- The source that a mapping names is marked like the field that it ends at. -/
theorem Mapping.marked_candidate {source : Struct} {m : Mapping} (h : m.LeadsFrom source) :
    m.entry.candidate.Marked := by
  obtain ⟨passed, along, _⟩ := h
  have some : Entry.fieldNames m.entry.source ≠ [] := by
    rw [Mapping.entry, Entry.fieldNames_ofFields]
    exact (fieldsAlong?_ne_nil along).1
  obtain ⟨before, name, place⟩ := Entry.placeAlong_eq_field m.entry.field.isOptional some
    .input m.entry.parentsOptional
  rw [Entry.candidate, Candidate.ofField, Entry.place, place]
  exact ⟨Place.marked_field, rfl⟩

/-- All sources in the table of a resolved conversion are marked. -/
theorem Catalog.marked_table {d : Document} {catalog : Catalog} {c : Conversion}
    {table : MappingTable} (h : Catalog.ofDocument d = .ok catalog)
    (mem : c ∈ catalog.conversions) (tabled : MappingTable.ofMappings c.mappings = .ok table) :
    table.Marked := by
  intro path e found
  obtain ⟨m, among, rfl⟩ := MappingTable.exists_mapping_of_get? tabled found
  exact Mapping.marked_candidate (Catalog.leadsFrom h mem among)

/-! ## Statements -/

/-- The marks of a statement agree: those of its places with their accesses, and that of a cast with
that of the target. -/
structure Statement.Agrees (s : Statement) : Prop where
  marked : ∀ p ∈ s.places, p.Marked
  cast : ∀ target type source optional, s = .assign target (.cast type source optional) →
    optional = target.optional

namespace Statement
variable {target p : Place} {value : Expr} {storage : Storage} {hint? : Option Place}
  {yes no body : Block} {binding : Binding}

/-- An assignment agrees if its places are marked and a cast wraps exactly what is optional. -/
theorem agrees_assign (ht : target.Marked) (hv : ∀ q ∈ value.places, q.Marked)
    (cast : ∀ type source optional, value = .cast type source optional →
      optional = target.optional) : (assign target value).Agrees where
  marked q mem := by
    rcases List.mem_cons.1 mem with rfl | mem
    · exact ht
    · exact hv q mem
  cast t type source optional same := by
    cases same
    exact cast type source optional rfl

/-- Nothing is read where the absent value is assigned. -/
theorem agrees_null (ht : target.Marked) : (assign target .null).Agrees :=
  agrees_assign ht (fun q mem => by cases mem) fun _ _ _ same => by cases same

/-- An allocation agrees if the places in it are marked. -/
theorem agrees_allocate (ht : target.Marked) (hh : ∀ q ∈ hint?, q.Marked) :
    (allocate target storage hint?).Agrees where
  marked q mem := by
    rcases List.mem_cons.1 mem with rfl | mem
    · exact ht
    · exact hh q (Option.mem_toList.1 mem)
  cast _ _ _ _ same := by cases same

/-- A presence check agrees if the place is marked. -/
theorem agrees_present (hp : p.Marked) : (branch (.isPresent p) yes no).Agrees where
  marked q mem := by
    obtain rfl := List.mem_singleton.1 mem
    exact hp
  cast _ _ _ _ same := by cases same

/-- A check of a flag reads no place. -/
theorem agrees_flag {name : String} : (branch (.flag name) yes no).Agrees where
  marked q mem := by cases mem
  cast _ _ _ _ same := by cases same

/-- A loop agrees if the place that it runs over is marked. -/
theorem agrees_loop (hp : p.Marked) : (loop p binding body).Agrees where
  marked q mem := by
    obtain rfl := List.mem_singleton.1 mem
    exact hp
  cast _ _ _ _ same := by cases same

end Statement

/-! ## Emitted statements -/

/-- The sources of a task are marked, also those of the mapping table, and so are its targets. -/
def Task.Marked : Task → Prop
  | .fields level _ _ => level.table.Marked
  | .value level slot choice _ =>
    level.table.Marked ∧ slot.place.Marked ∧ ∀ c ∈ choice.candidates, c.Marked
  | .body level _ slot source =>
    level.table.Marked ∧ slot.place.Marked ∧ source.place.Marked

/-- An aggregate is filled from its primary source or from a variable, and both are marked. -/
theorem marked_iterable {s : Settings} {path : Path} {boxed : Bool} {choice : Choice}
    (primary : choice.primary.place.Marked) : (stage s path boxed choice).iterable.Marked := by
  obtain ⟨c, fallback?⟩ := choice
  cases fallback? with
  | none => exact primary
  | some fallback => exact Place.marked_var

/-- The program for a list or a map agrees at every site: the statements that stage its sources, the
check around the loop and the loop itself have marked places, and what is done at a turn agrees by
assumption. -/
theorem agrees_aggregateBlock {s : Settings} {start : Site} {slot : Slot} {shape : Shape}
    {choice : Choice} {name : String} {boxed : Bool} {turn : Block} (target : slot.place.Marked)
    (sources : ∀ c ∈ choice.candidates, c.Marked)
    (inside : ∀ site, Everywhere (fun _ t => t.Agrees) site turn) :
    Everywhere (fun _ t => t.Agrees) start (aggregateBlock s slot shape choice name boxed turn) := by
  have primary := (sources _ Choice.primary_mem).1
  have iterable : (stage s slot.path boxed choice).iterable.Marked := marked_iterable primary
  rw [everywhere_aggregateBlock rfl]
  refine ⟨?_, fun _ => ⟨Statement.agrees_present iterable, Statement.agrees_null target⟩, ?_,
    Statement.agrees_loop iterable, inside _⟩
  · refine everywhere_stage (fun _ _ c hc _ => ?_) (fun _ _ _ => ?_) fun _ _ _ _ =>
      Statement.agrees_present primary
    · refine Statement.agrees_assign Place.marked_var (fun q mem => ?_) fun _ _ _ same => by cases same
      obtain rfl := List.mem_singleton.1 mem
      exact (sources c hc).1
    · exact Statement.agrees_assign Place.marked_var (fun q mem => by cases mem)
        fun _ _ _ same => by cases same
  · refine Statement.agrees_allocate target fun q mem => ?_
    obtain rfl := Option.mem_some.1 mem
    exact iterable

/-- All statements that are emitted agree on what is optional. The induction is on the emission,
where fields and elements below a marked task are marked again. -/
theorem Emits.agrees {cv : Converter} {task : Task} {block : Block} (h : Emits cv task block) :
    task.Marked → ∀ start, Everywhere (fun _ s => s.Agrees) start block := by
  -- induction on the emission; what a level reads and writes is marked as its table and fields say
  induction h with
  | nil => exact fun _ _ => everywhere_nil
  | cons chosen filled others ihf iho =>
    intro table start
    exact everywhere_append.2 ⟨ihf ⟨table, Place.marked_field,
      fun c hc => Level.marked_of_choose table chosen hc⟩ start, iho table _⟩
  | copied kind named agree =>
    rintro ⟨_, target, sources⟩ start
    -- a cast has the mark of its target, and the other values have none
    refine everywhere_assignChoice (fun _ _ c hc _ _ => Statement.agrees_present (sources c hc).1)
      fun _ _ c hc => Statement.agrees_assign target (fun q mem => ?_) fun _ _ _ same => ?_
    · obtain rfl := List.mem_singleton.1 mem
      exact (sources c hc).1
    · cases same
      rfl
  | binary agree =>
    rintro ⟨_, target, sources⟩ start
    refine everywhere_assignChoice (fun _ _ c hc _ _ => Statement.agrees_present (sources c hc).1)
      fun _ _ c hc => Statement.agrees_assign target (fun q mem => ?_) fun _ _ _ same => by cases same
    obtain rfl := List.mem_singleton.1 mem
    exact (sources c hc).1
  | struct bodies ih =>
    rintro ⟨table, target, sources⟩ start
    exact everywhere_structBlock
      (fun _ _ c hc _ _ => Statement.agrees_present (sources c hc).1)
      (fun _ _ => Statement.agrees_null target)
      fun site _ c hc => ih c hc ⟨table, target, (sources c hc).1⟩ site
  | elements kind whole plain named given =>
    rintro ⟨_, target, sources⟩ start
    refine agrees_aggregateBlock target sources fun site => everywhere_assign.2 ?_
    refine Statement.agrees_assign marked_elementSlot (fun q mem => ?_) fun _ _ _ same => ?_
    · obtain rfl := List.mem_singleton.1 mem
      exact Place.marked_var
    · cases same
      exact optional_elementSlot.symm
  | structs kind named given turns ih =>
    rintro ⟨table, target, sources⟩ start
    refine agrees_aggregateBlock target sources fun site => ?_
    -- an element is always there, so neither its place nor its variable is marked
    have inside := fun c hc => ih c hc ⟨table, marked_elementSlot, Place.marked_var⟩
    exact everywhere_structTurn (fun _ _ => Statement.agrees_flag)
      (fun _ => inside _ Choice.primary_mem _)
      fun fallback some => ⟨inside _ Choice.primary_mem _, inside _ (Choice.fallback_mem some) _⟩
  | body struct named filled ih =>
    rintro ⟨table, target, _⟩ start
    exact everywhere_cons.2 ⟨everywhere_allocate.2
      (Statement.agrees_allocate target fun q mem => by cases mem), ih table _⟩

/-! ## Checks -/

/-- Casts to optional values stand alone behind a check of what they read, and a check of a required
value does nothing otherwise. -/
inductive Checked : Block → Prop
  | nil : Checked []
  | assign {target : Place} {value : Expr} {rest : Block}
      (plain : ∀ type source, value ≠ .cast type source true) (later : Checked rest) :
      Checked (.assign target value :: rest)
  | allocate {target : Place} {storage : Storage} {hint? : Option Place} {rest : Block}
      (later : Checked rest) : Checked (.allocate target storage hint? :: rest)
  | lone {target source : Place} {type : String} {rest : Block} (later : Checked rest) :
      Checked (.branch (.isPresent source) [.assign target (.cast type source true)] [] :: rest)
  | present {p : Place} {yes no rest : Block} (flat : p.optional = false → no = [])
      (inYes : Checked yes) (inNo : Checked no) (later : Checked rest) :
      Checked (.branch (.isPresent p) yes no :: rest)
  | flag {name : String} {yes no rest : Block} (inYes : Checked yes) (inNo : Checked no)
      (later : Checked rest) : Checked (.branch (.flag name) yes no :: rest)
  | loop {iterable : Place} {binding : Binding} {body rest : Block} (inside : Checked body)
      (later : Checked rest) : Checked (.loop iterable binding body :: rest)

namespace Checked
variable {a b : Block}

/-- Checked blocks may stand behind each other: the check of a cast is in one statement with it. -/
theorem append (h : Checked a) (h' : Checked b) : Checked (a ++ b) := by
  induction h with
  | nil => exact h'
  | assign plain _ ih => exact .assign plain ih
  | allocate _ ih => exact .allocate ih
  | lone _ ih => exact .lone ih
  | present flat inYes inNo _ _ _ ih => exact .present flat inYes inNo ih
  | flag inYes inNo _ _ _ ih => exact .flag inYes inNo ih
  | loop inside _ _ ih => exact .loop inside ih

/-- The absent value is no cast, so it may be assigned anywhere. -/
theorem assignNull {target : Place} : Checked [.assign target .null] :=
  .assign (fun _ _ same => by cases same) .nil

/-- A program with two sides is written only for an optional source, whose place is marked so. -/
theorem ifPresent {source : Candidate} (marked : source.Marked) (h : Checked a) (h' : Checked b) :
    Checked (Converter.ifPresent source a b) := by
  unfold Converter.ifPresent
  split
  · next optional =>
    refine .present (fun required => ?_) h h' .nil
    rw [marked.2, optional] at required
    cases required
  · exact h

end Checked

/-- Casts to an optional target stand alone behind the check of their source, and those to a
required one may stand anywhere. -/
theorem checked_casts {target : Place} {name : String} {choice : Choice} :
    Checked (assignChoice target.optional target (fun c => .cast name c.place target.optional)
      choice) := by
  obtain ⟨primary, fallback?⟩ := choice
  cases optional : target.optional with
  | true =>
    cases fallback? with
    | none => exact .lone .nil
    | some fallback => exact .lone (.lone .nil)
  | false =>
    have plain : ∀ c : Candidate, ∀ type source,
        Expr.cast name c.place false ≠ .cast type source true := fun c type source same => by
      cases same
    cases fallback? with
    | none => exact .assign (plain _) .nil
    | some fallback =>
      exact .assign (plain _) (.present (fun _ => rfl) (.assign (plain _) .nil) .nil .nil)

/-- Bytes are not cast, so they may be assigned anywhere. -/
theorem checked_bytes {target : Place} {choice : Choice} :
    Checked (assignChoice false target (fun c => .bytes c.place) choice) := by
  have plain : ∀ c : Candidate, ∀ type source, Expr.bytes c.place ≠ .cast type source true :=
    fun c type source same => by cases same
  obtain ⟨primary, fallback?⟩ := choice
  cases fallback? with
  | none => exact .assign (plain _) .nil
  | some fallback =>
    exact .assign (plain _) (.present (fun _ => rfl) (.assign (plain _) .nil) .nil .nil)

/-- The checks around what fills a struct are of its sources, and two-sided only for optional ones.
-/
theorem checked_structBlock {slot : Slot} {choice : Choice} {body : Candidate → Block}
    (sources : ∀ c ∈ choice.candidates, c.Marked)
    (bodies : ∀ c ∈ choice.candidates, Checked (body c)) :
    Checked (structBlock slot choice body) := by
  obtain ⟨primary, fallback?⟩ := choice
  have hp : primary ∈ (Choice.mk primary fallback?).candidates := Choice.primary_mem
  refine .ifPresent (sources _ hp) (bodies _ hp) ?_
  cases fallback? with
  | none => exact .assignNull
  | some fallback =>
    have hf : fallback ∈ (Choice.mk primary (some fallback)).candidates := Choice.fallback_mem rfl
    exact .ifPresent (sources _ hf) (bodies _ hf) .assignNull

/-- A list or map is taken as it is, without a cast. -/
theorem checked_takeBlock {s : Settings} {path : Path} {boxed optional taken : Bool}
    {source : Candidate} : Checked (takeBlock s path boxed optional taken source) := by
  refine .assign (fun _ _ same => by cases same) ?_
  cases boxed with
  | true => exact .assign (fun _ _ same => by cases same) .nil
  | false => exact .nil

/-- The program for a list or a map is checked if what it does at a turn is. -/
theorem checked_aggregateBlock {s : Settings} {slot : Slot} {shape : Shape} {choice : Choice}
    {name : String} {boxed : Bool} {turn : Block} (inside : Checked turn) :
    Checked (aggregateBlock s slot shape choice name boxed turn) := by
  refine .append ?_ ?_
  · obtain ⟨primary, fallback?⟩ := choice
    cases fallback? with
    | none => exact .nil
    | some fallback =>
      rw [stage_block]
      exact checked_takeBlock.append (.present (fun _ => rfl) checked_takeBlock .nil .nil)
  · split
    · next optional =>
      refine .present (fun required => ?_) (.allocate (.loop inside .nil)) .assignNull .nil
      rw [optional] at required
      cases required
    · exact .allocate (.loop inside .nil)

/-- All that is emitted is checked. Casts to optional values come from copied fields alone, for the
turns of loops cast to elements, which are required. -/
theorem Emits.checked {cv : Converter} {task : Task} {block : Block} (h : Emits cv task block) :
    task.Marked → Checked block := by
  -- induction on the emission; every block is put together from pieces with sound checks
  induction h with
  | nil => exact fun _ => .nil
  | cons chosen filled others ihf iho =>
    intro table
    exact (ihf ⟨table, Place.marked_field,
      fun c hc => Level.marked_of_choose table chosen hc⟩).append (iho table)
  | copied kind named agree => exact fun _ => checked_casts
  | binary agree => exact fun _ => checked_bytes
  | struct bodies ih =>
    rintro ⟨table, target, sources⟩
    exact checked_structBlock sources fun c hc => ih c hc ⟨table, target, (sources c hc).1⟩
  | elements kind whole plain named given =>
    exact fun _ => checked_aggregateBlock (.assign (fun _ _ same => by cases same) .nil)
  | @structs level slot choice type s shape name element turn kind named given turns ih =>
    rintro ⟨table, _, _⟩
    refine checked_aggregateBlock ?_
    have inside := fun c hc => ih c hc ⟨table, marked_elementSlot, Place.marked_var⟩
    obtain ⟨primary, fallback?⟩ := choice
    cases fallback? with
    -- with two sources a flag tells the turns apart
    | none => exact inside _ Choice.primary_mem
    | some fallback =>
      exact .flag (inside _ Choice.primary_mem) (inside _ (Choice.fallback_mem rfl)) .nil
  | body struct named filled ih =>
    rintro ⟨table, _, _⟩
    exact .allocate (ih table)

/-- A cast to an optional value is all that the branch does in which it stands, and the branch is
taken if the value that it reads is present. -/
theorem Checked.lone_of_occurs {block : Block} (h : Checked block) {start site : Site}
    {target source : Place} {type : String}
    (at_ : Occurs start block site (.assign target (.cast type source true))) :
    ∃ check, Occurs start block check
        (.branch (.isPresent source) [.assign target (.cast type source true)] []) ∧
      site = check.yes (.isPresent source) := by
  -- induction on the shape of the block; a cast of an optional value stands alone under its check
  induction h generalizing start with
  | nil => cases at_
  | assign plain _ ih =>
    cases at_ with
    | here => exact absurd rfl (plain _ _)
    | later at_ => exact (ih at_).imp fun _ found => ⟨.later found.1, found.2⟩
  | allocate _ ih =>
    cases at_ with
    | later at_ => exact (ih at_).imp fun _ found => ⟨.later found.1, found.2⟩
  | lone _ ih =>
    cases at_ with
    | later at_ => exact (ih at_).imp fun _ found => ⟨.later found.1, found.2⟩
    | yes at_ =>
      cases at_ with
      -- the check and its cast, which is where the search ends
      | here => exact ⟨start, .here, rfl⟩
      | later at_ => cases at_
    | no at_ => cases at_
  | present _ _ _ _ ihy ihn ih =>
    cases at_ with
    | later at_ => exact (ih at_).imp fun _ found => ⟨.later found.1, found.2⟩
    | yes at_ => exact (ihy at_).imp fun _ found => ⟨.yes found.1, found.2⟩
    | no at_ => exact (ihn at_).imp fun _ found => ⟨.no found.1, found.2⟩
  | flag _ _ _ ihy ihn ih =>
    cases at_ with
    | later at_ => exact (ih at_).imp fun _ found => ⟨.later found.1, found.2⟩
    | yes at_ => exact (ihy at_).imp fun _ found => ⟨.yes found.1, found.2⟩
    | no at_ => exact (ihn at_).imp fun _ found => ⟨.no found.1, found.2⟩
  | loop _ _ ihb ih =>
    cases at_ with
    | later at_ => exact (ih at_).imp fun _ found => ⟨.later found.1, found.2⟩
    | loop at_ => exact (ihb at_).imp fun _ found => ⟨.loop found.1, found.2⟩

/-- The check of a required value has nothing on its other side, wherever it stands in a checked
block. -/
theorem Checked.flat_of_occurs {block : Block} (h : Checked block) {start site : Site} {p : Place}
    {yes no : Block} (at_ : Occurs start block site (.branch (.isPresent p) yes no))
    (required : p.optional = false) : no = [] := by
  -- induction on the shape of the block; only a check for a required place has one side
  induction h generalizing start with
  | nil => cases at_
  | assign _ _ ih | allocate _ ih =>
    cases at_ with
    | later at_ => exact ih at_
  | lone _ ih =>
    cases at_ with
    | here => rfl
    | later at_ => exact ih at_
    | yes at_ =>
      cases at_ with
      | later at_ => cases at_
    | no at_ => cases at_
  | present flat _ _ _ ihy ihn ih =>
    cases at_ with
    | here => exact flat required
    | later at_ => exact ih at_
    | yes at_ => exact ihy at_
    | no at_ => exact ihn at_
  | flag _ _ _ ihy ihn ih =>
    cases at_ with
    | later at_ => exact ih at_
    | yes at_ => exact ihy at_
    | no at_ => exact ihn at_
  | loop _ _ ihb ih =>
    cases at_ with
    | later at_ => exact ih at_
    | loop at_ => exact ihb at_

/-! ## The code of a program -/

/-- Whether the statement is written without a line of its own. -/
def Statement.isFlat : Statement → Bool
  | branch condition _ _ => Code.holds condition
  | _ => false

/-- The number of statements of a block and inside it that are to have lines. -/
def Block.lined (block : Block) : Nat :=
  block.walk.countP (!·.isFlat)

theorem Block.lined_nil : lined [] = 0 := by
  simp [lined, walk]

/-- Blocks are lined one after the other. -/
theorem Block.lined_append (a b : Block) : lined (a ++ b) = a.lined + b.lined := by
  rw [lined, walk_append, List.countP_append]
  rfl

/-- A statement has a line of its own unless it is a check that always holds, and the blocks inside
it have theirs. -/
theorem Block.lined_cons (s : Statement) (rest : Block) :
    lined (s :: rest) = (!s.isFlat).toNat + lined s.children.flatten + rest.lined := by
  rw [lined, walk_cons, List.countP_cons, List.countP_append]
  cases s.isFlat with
  | true => simp [lined]
  | false =>
    simp only [lined, Bool.not_false, if_true, Bool.toNat_true]
    omega

namespace Code

/-- Whether a statement begins with the line. -/
def Line.isFirst : Line → Bool
  | otherwise => false
  | close => false
  | _ => true

/-- The lines that begin a statement: not the middle or the end of a block. -/
def firstLines (lines : List Indented) : Nat :=
  lines.countP (·.line.isFirst)

theorem firstLines_nil : firstLines [] = 0 := rfl

/-- Lines are counted one after the other. -/
theorem firstLines_append (a b : List Indented) :
    firstLines (a ++ b) = firstLines a + firstLines b :=
  List.countP_append

/-- A line counts if it begins a statement. -/
theorem firstLines_cons (l : Indented) (rest : List Indented) :
    firstLines (l :: rest) = l.line.isFirst.toNat + firstLines rest := by
  rw [firstLines, List.countP_cons, Nat.add_comm]
  cases l.line.isFirst <;> rfl

/-- An assignment is one line, with a declaration or without. -/
theorem isFirst_assignLine (s : Settings) (declared : List String) (target : Place)
    (value : String) : (assignLine s declared target value).1.isFirst = true := by
  unfold assignLine
  split
  · split <;> rfl
  · rfl

theorem firstLines_assign (s : Settings) (depth : Nat) (declared : List String) (target : Place)
    (value : Expr) :
    firstLines (statementLines s depth declared (.assign target value)).1 = 1 := by
  have first := isFirst_assignLine s declared target (exprText s target value)
  simp [statementLines, firstLines_cons, firstLines_nil, first]

/-- The head of a loop is one line. -/
theorem isFirst_loopLine (s : Settings) (iterable : Place) (binding : Binding) :
    (loopLine s iterable binding).isFirst = true := by
  cases binding <;> rfl

theorem firstLines_blockLines_nil (s : Settings) (depth : Nat) (declared : List String) :
    firstLines (blockLines s depth declared []).1 = Block.lined [] := by
  rw [Block.lined_nil, blockLines, firstLines_nil]

theorem firstLines_blockLines_cons (s : Settings) (depth : Nat) (declared : List String)
    (t : Statement) (rest : Block) :
    firstLines (blockLines s depth declared (t :: rest)).1 =
      firstLines (statementLines s depth declared t).1 +
        firstLines (blockLines s depth (statementLines s depth declared t).2 rest).1 := by
  rw [blockLines, firstLines_append]

/-- A flat check has only one side, and any other branch is written with both. -/
theorem firstLines_branch {s : Settings} {c : Condition} {yes no : Block}
    (flat : holds c = true → no = [])
    (inYes : ∀ depth declared, firstLines (blockLines s depth declared yes).1 = yes.lined)
    (inNo : ∀ depth declared, firstLines (blockLines s depth declared no).1 = no.lined)
    (depth : Nat) (declared : List String) :
    firstLines (statementLines s depth declared (.branch c yes no)).1 =
      (!holds c).toNat + yes.lined + no.lined := by
  rw [statementLines]
  split
  · next always => simp [always, inYes, flat always, Block.lined_nil]
  · next open_ =>
    cases no with
    | nil => simp [open_, firstLines_append, firstLines_cons, firstLines_nil, inYes, Line.isFirst,
        Block.lined_nil]
    | cons t rest =>
      simp [open_, firstLines_append, firstLines_cons, firstLines_nil, inYes, inNo, Line.isFirst,
        Nat.add_assoc]

end Code

/-- Every statement has its line, but for the checks of required values. -/
theorem Checked.firstLines_eq {block : Block} (h : Checked block) (s : Settings) (depth : Nat)
    (declared : List String) :
    Code.firstLines (Code.blockLines s depth declared block).1 = block.lined := by
  -- a check that always holds is written without a block, and then it has no other side
  have check : ∀ {p : Place} {no : Block}, (p.optional = false → no = []) →
      Code.holds (.isPresent p) = true → no = [] :=
    fun flat always => flat (by simpa [Code.holds] using always)
  -- induction on the shape of the block; the first lines are those of its statements
  induction h generalizing depth declared with
  | nil => exact Code.firstLines_blockLines_nil ..
  | assign _ _ ih =>
    rw [Code.firstLines_blockLines_cons, ih, Code.firstLines_assign, Block.lined_cons]
    simp [Statement.children, Statement.isFlat, Block.lined_nil]
  | allocate _ ih =>
    rw [Code.firstLines_blockLines_cons, ih, Block.lined_cons]
    simp [Code.statementLines, Code.firstLines_cons, Code.firstLines_nil, Code.Line.isFirst,
      Statement.children, Statement.isFlat, Block.lined_nil]
  | present flat _ _ _ ihy ihn ih =>
    rw [Code.firstLines_blockLines_cons, ih, Block.lined_cons,
      Code.firstLines_branch (check flat) ihy ihn]
    simp [Statement.children, Statement.isFlat, Block.lined_append, Nat.add_assoc]
  | flag _ _ _ ihy ihn ih =>
    rw [Code.firstLines_blockLines_cons, ih, Block.lined_cons,
      Code.firstLines_branch (fun always => by cases always) ihy ihn]
    simp [Statement.children, Statement.isFlat, Block.lined_append, Nat.add_assoc]
  | @loop iterable binding body rest _ _ ihb ih =>
    have head : (Code.loopLine s iterable binding).isFirst = true := Code.isFirst_loopLine ..
    have close : Code.Line.close.isFirst = false := rfl
    rw [Code.firstLines_blockLines_cons, ih, Block.lined_cons]
    simp [Code.statementLines, Code.firstLines_cons, Code.firstLines_append, Code.firstLines_nil,
      head, close, ihb, Statement.children, Statement.isFlat]
  | @lone target source type rest _ ih =>
    have cast : ∀ depth declared, Code.firstLines (Code.blockLines s depth declared
        [.assign target (.cast type source true)]).1 =
          Block.lined [.assign target (.cast type source true)] := by
      intro depth declared
      rw [Code.firstLines_blockLines_cons, Code.firstLines_assign, Block.lined_cons]
      simp [Code.blockLines, Code.firstLines_nil, Statement.children, Statement.isFlat,
        Block.lined_nil]
    have nothing := Code.firstLines_blockLines_nil s
    rw [Code.firstLines_blockLines_cons, ih, Block.lined_cons,
      Code.firstLines_branch (fun _ => rfl) cast nothing]
    simp [Statement.children, Statement.isFlat, Block.lined_nil]

/-! ## Converted structs -/

/-- The marks in the program of a conversion agree: those of places with their last accesses, those
of casts with their targets. A cast to an optional value stands alone where what it reads is known
to be present, and no code is lost where a check of a required value is left out. -/
theorem marks_agree {d : Document} {catalog : Catalog} {c : Conversion} {table : MappingTable}
    {cv : Converter} {block : Block} (resolved : Catalog.ofDocument d = .ok catalog)
    (mem : c ∈ catalog.conversions) (tabled : MappingTable.ofMappings c.mappings = .ok table)
    (converted : cv.convert c.source.fields c.dest.fields table = .ok block) :
    (∀ start, Everywhere (fun _ s => s.Agrees) start block) ∧
      (∀ start site target source type,
        Occurs start block site (.assign target (.cast type source true)) →
          ∃ check, Occurs start block check
              (.branch (.isPresent source) [.assign target (.cast type source true)] []) ∧
            site = check.yes (.isPresent source)) ∧
      (∀ start site p yes no, Occurs start block site (.branch (.isPresent p) yes no) →
        p.optional = false → no = []) ∧
      ∀ depth declared,
        Code.firstLines (Code.blockLines cv.settings depth declared block).1 = block.lined := by
  have table : (Task.fields (.top table) c.source.fields c.dest.fields).Marked :=
    Catalog.marked_table resolved mem tabled
  have emitted := emits_of_convert converted
  have checked := emitted.checked table
  exact ⟨emitted.agrees table, fun _ _ _ _ _ => checked.lone_of_occurs,
    fun _ _ _ _ _ => checked.flat_of_occurs, checked.firstLines_eq cv.settings⟩

/-- The user's optional name is cast from that of the optional profile or else from the account's
own, each behind its check. -/
theorem Account.marks_agree_name : ∃ catalog block,
    Catalog.ofDocument (Account.document false) = .ok catalog ∧
    Account.conversion false ∈ catalog.conversions ∧
    Account.converter.convert (Account.conversion false).source.fields
      (Account.conversion false).dest.fields (Account.table false) = .ok block ∧
    (∀ start, Everywhere (fun _ s => s.Agrees) start block) ∧
    (∀ start site target source type,
      Occurs start block site (.assign target (.cast type source true)) →
        ∃ check, Occurs start block check
            (.branch (.isPresent source) [.assign target (.cast type source true)] []) ∧
          site = check.yes (.isPresent source)) ∧
    (∀ start site p yes no, Occurs start block site (.branch (.isPresent p) yes no) →
      p.optional = false → no = []) ∧
    ∀ depth declared,
      Code.firstLines (Code.blockLines Account.converter.settings depth declared block).1 =
        block.lined := by
  obtain ⟨catalog, found, mem⟩ := Account.resolved false
  exact ⟨catalog, _, found, mem, rfl, marks_agree found mem (Account.tabled false) rfl⟩

end Crosswalk
