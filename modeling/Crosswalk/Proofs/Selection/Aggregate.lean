import Crosswalk.Proofs.Selection

/-!
# The source that a list or map is filled from

Of two sources a run takes the first that is present into a variable, and for structs it marks which
that is. The loop goes over the variable. It leaves the variable and the mark alone, so each of its
turns is the one for the source that was taken. Where neither source is present, there is no loop and
the destination is null.

`Selected` is what a run has in its variables once the sources are staged. It is shown of the
staging (`Selected.of_stage`) and kept by every turn (`Selected.of_mem_starts`), so each turn acts
as the body for the source that was taken (`Selected.actsAs_structTurn`).
-/

namespace Crosswalk
set_option autoImplicit false
open Converter

/-! ## Taking a source -/

section
variable {s : Settings} {path : Path} {boxed : Bool} {env : Env}

/-- Taking a source assigns the variables of the list or map and no others. -/
theorem assigned_takeBlock {optional taken : Bool} {c : Candidate} {p : Env × Statement}
    (h : p ∈ Block.history (takeBlock s path boxed optional taken c) env) :
    ∃ name ∈ stagedVars s path boxed, p.2.assigned? = some name := by
  cases boxed with
  | false =>
    obtain rfl : p = _ := by simpa [takeBlock, Statement.history] using h
    exact ⟨_, List.mem_cons_self, rfl⟩
  | true =>
    obtain rfl | rfl : p = _ ∨ p = _ := by simpa [takeBlock, Statement.history] using h
    · exact ⟨_, List.mem_cons_self, rfl⟩
    · exact ⟨overrideFlagVar s path, by simp [stagedVars], rfl⟩

/-- All that is performed before the loop is to assign the variables for it. -/
theorem assigned_stage {choice : Choice} {p : Env × Statement}
    (h : p ∈ Block.history (stage s path boxed choice).block env) :
    ∃ name ∈ stagedVars s path boxed, p.2.assigned? = some name := by
  obtain ⟨primary, fallback?⟩ := choice
  cases fallback? with
  | none => simp [stage] at h
  | some fallback =>
    rw [stage_block, Block.history_append, List.mem_append, Block.history_singleton,
      Statement.guarded, Statement.history] at h
    rcases h with h | h
    · exact assigned_takeBlock h
    · split at h
      · exact assigned_takeBlock h
      · simp at h

end

/-- The source that is read into the variable is the one that is present. -/
theorem Env.taken_of_source? {env : Env} {primary fallback c : Candidate} (tells : env.Tells primary)
    (h : env.source? ⟨primary, some fallback⟩ = some c) : env.taken primary fallback = c := by
  rw [taken, tells.check]
  rcases source?_eq_some h with ⟨present, rfl⟩ | ⟨absent, rfl⟩
  · simp [present]
  · simp [absent]

/-- The variables for the list or map at a path hold what a source held in an earlier state, and
whether the primary was there. -/
structure Selected (s : Settings) (path : Path) (boxed : Bool) (env : Env) (choice : Choice)
    (c : Candidate) (e : Env) : Prop where
  list : ∀ optional, e.get (.var (sourceListVar s path) optional) = env.get c.place
  flag : boxed = true → e.holds (.flag (overrideFlagVar s path)) = env.present choice.primary

namespace Selected
variable {s : Settings} {path : Path} {boxed : Bool} {env e : Env} {choice : Choice}
  {c : Candidate}

/-- A state with the same variables has the same selection. -/
theorem of_vars (h : Selected s path boxed env choice c e) {later : Env}
    (same : ∀ name ∈ stagedVars s path boxed, later.vars name = e.vars name) :
    Selected s path boxed env choice c later where
  list optional := by
    have held : later.root (.var (sourceListVar s path)) = e.root (.var (sourceListVar s path)) := by
      simp only [Env.root, same _ List.mem_cons_self]
    exact held.trans (h.list optional)
  flag isBoxed := by
    have mem : overrideFlagVar s path ∈ stagedVars s path boxed := by simp [stagedVars, isBoxed]
    rw [← h.flag isBoxed]
    simp only [Env.holds, same _ mem]

/-- Behind the staging the variable holds the source that is present. -/
theorem of_stage {primary fallback : Candidate} (apart : s.StagedApart)
    (scope : primary.place.Over s.loopNames) (tells : env.Tells primary)
    (taken : env.source? ⟨primary, some fallback⟩ = some c) :
    Selected s path boxed env ⟨primary, some fallback⟩ c
      (Block.run (stage s path boxed ⟨primary, some fallback⟩).block env) := by
  obtain ⟨_, list, flag⟩ := run_stage path boxed fallback env apart scope rfl
  rw [Env.taken_of_source? tells taken] at list
  refine ⟨list, fun isBoxed => ?_⟩
  simp only [Env.holds, flag isBoxed]
  exact tells.check

end Selected

/-! ## Filling from the source that was taken -/

section
variable {env : Env} {iterable target : Place} {filling : Block}

/-- A variable that holds something is gone over. -/
theorem actsAs_ifFilled (present : env.holds (.isPresent iterable) = true) :
    Block.ActsAs env (ifFilled iterable target filling) filling := by
  unfold ifFilled
  split
  · exact .of_holds present
  · exact .refl

/-- A variable that holds nothing gives a null. -/
theorem actsAs_ifFilled_of_absent (absent : env.holds (.isPresent iterable) = false) :
    Block.ActsAs env (ifFilled iterable target filling) [.assign target .null] := by
  have optional : iterable.optional = true := by
    by_contra required
    simp [Env.holds, required] at absent
  rw [ifFilled, if_pos optional]
  exact .of_not_holds absent

end

section
variable {s : Settings} {slot : Slot} {shape : Shape} {name : String} {boxed : Bool}
  {primary fallback c : Candidate} {turn : Block} {env : Env}

/-- The state in which the program for a list or map has taken one of two sources. -/
def Env.staged (env : Env) (s : Settings) (path : Path) (boxed : Bool) (choice : Choice) : Env :=
  Block.run (stage s path boxed choice).block env

/-- The variable that the loop for a list or map with two sources goes over. -/
def stagedList (s : Settings) (path : Path) (fallback : Candidate) : Place :=
  .var (sourceListVar s path) fallback.optional

/-- With two sources the block is a staging and then the filling. -/
theorem aggregateBlock_eq : aggregateBlock s slot shape ⟨primary, some fallback⟩ name boxed turn =
    (stage s slot.path boxed ⟨primary, some fallback⟩).block ++
      ifFilled (stagedList s slot.path fallback) slot.place
        (fillBlock s slot shape name boxed (stagedList s slot.path fallback) turn) := rfl

/-- A source that is present is in the variable, so the run goes on to the loop. -/
theorem actsAs_filling {filling : Block} {target : Place} {path : Path} (apart : s.StagedApart)
    (scope : primary.place.Over s.loopNames) (tells : env.Tells primary)
    (taken : env.source? ⟨primary, some fallback⟩ = some c) :
    Block.ActsAs (env.staged s path boxed ⟨primary, some fallback⟩)
      (ifFilled (stagedList s path fallback) target filling) filling := by
  have selected : Selected s path boxed env ⟨primary, some fallback⟩ c
      (env.staged s path boxed ⟨primary, some fallback⟩) := .of_stage apart scope tells taken
  refine actsAs_ifFilled ?_
  have there : (env.get c.place).isAbsent = false := by
    simpa [Env.present] using Env.present_of_source? taken
  simp [Env.holds, stagedList, selected.list, there]

/-- Where neither source is present the filling is a null. -/
theorem actsAs_null {filling : Block} {target : Place} {path : Path} (apart : s.StagedApart)
    (scope : primary.place.Over s.loopNames) (first : env.Tells primary)
    (second : env.Tells fallback) (none : env.source? ⟨primary, some fallback⟩ = none) :
    Block.ActsAs (env.staged s path boxed ⟨primary, some fallback⟩)
      (ifFilled (stagedList s path fallback) target filling) [.assign target .null] := by
  have absent := Env.source?_eq_none_iff.1 none
  have noPrimary := absent primary Choice.primary_mem
  have noFallback := absent fallback (Choice.fallback_mem rfl)
  have optional : fallback.optional = true := by
    by_contra required
    have present := second.required (Bool.eq_false_iff.2 required)
    simp [noFallback] at present
  -- without the primary the variable holds the fallback, which is not there either
  obtain ⟨_, list, _⟩ := run_stage path boxed fallback env apart scope rfl
  rw [Env.taken_of_absent (first.check.trans noPrimary), Env.get_of_not_present noFallback] at list
  have empty : (env.staged s path boxed ⟨primary, some fallback⟩).get
      (stagedList s path fallback) = .absent := list fallback.optional
  have marked : (stagedList s path fallback).optional = true := optional
  exact actsAs_ifFilled_of_absent (by simp [Env.holds, marked, empty, Data.isAbsent])

end

/-! ## The turns -/

namespace Selected
variable {s : Settings} {path : Path} {boxed : Bool} {env e start : Env}
  {primary fallback c : Candidate} {turns : Candidate → Block}

/-- The variable and the mark stay as they are from turn to turn, if the loop and its turns leave
them alone. -/
theorem of_mem_starts {choice : Choice} {binding : Binding} {turn : Block}
    (h : Selected s path boxed env choice c e)
    (free : ∀ name ∈ stagedVars s path boxed, name ∉ binding.names ∧
      Everywhere (fun _ t => t.assigned? ≠ some name) .start turn)
    {items : List (Local × Data)} (mem : start ∈ Env.starts binding turn items e) :
    Selected s path boxed env choice c start :=
  h.of_vars fun name staged => Env.vars_of_mem_starts (free name staged).1 (free name staged).2 mem

/-- Each turn is the one for the source that was taken. -/
theorem actsAs_structTurn (h : Selected s path true env ⟨primary, some fallback⟩ c e)
    (taken : env.source? ⟨primary, some fallback⟩ = some c) :
    Block.ActsAs e (structTurn (overrideFlagVar s path) ⟨primary, some fallback⟩ turns)
      (turns c) := by
  have flag := h.flag rfl
  rcases Env.source?_eq_some taken with ⟨present, rfl⟩ | ⟨absent, rfl⟩
  · exact .of_holds (flag.trans present)
  · exact .of_not_holds (flag.trans absent)

end Selected

/-- A loop does not bind what an aggregate is staged in. -/
theorem Settings.StagedApart.not_bound {s : Settings} (apart : s.StagedApart) {path : Path}
    {boxed : Bool} {shape : Shape} {var : String} (mem : var ∈ stagedVars s path boxed) :
    var ∉ (loopBinding s shape).names := by
  intro bound
  have loops : s.loopNames var := Settings.loopNames_of_mem bound
  rcases sourceListVar_or_overrideFlagVar mem with rfl | rfl
  · exact apart.sourceList path loops
  · exact apart.overrideFlag path loops

/-! ## Runs -/

section
variable {s : Settings} {slot : Slot} {shape : Shape} {name : String} {boxed : Bool}
  {primary fallback c : Candidate} {turn : Block} {env : Env}

/-- From a source that is present, an aggregate is filled by a loop that never loses it. -/
theorem history_aggregateBlock (apart : s.StagedApart) (scope : primary.place.Over s.loopNames)
    (tells : env.Tells primary)
    (free : ∀ var ∈ stagedVars s slot.path boxed, var ∉ (loopBinding s shape).names ∧
      Everywhere (fun _ t => t.assigned? ≠ some var) .start turn)
    (taken : env.source? ⟨primary, some fallback⟩ = some c) :
    ∃ (entry : Env) (starts : List Env),
      starts = Env.starts (loopBinding s shape) turn (env.get c.place).turns entry ∧
      Block.history (aggregateBlock s slot shape ⟨primary, some fallback⟩ name boxed turn) env =
        Block.history (stage s slot.path boxed ⟨primary, some fallback⟩).block env ++
          (env.staged s slot.path boxed ⟨primary, some fallback⟩,
            .allocate slot.place (storage name boxed shape)
              (some (stagedList s slot.path fallback))) ::
          (entry, .loop (stagedList s slot.path fallback) (loopBinding s shape) turn) ::
          starts.flatMap (Block.history turn) ∧
      ∀ e ∈ entry :: starts, Selected s slot.path boxed env ⟨primary, some fallback⟩ c e := by
  -- two states: before the filling, and behind the allocation, where the loop begins
  let before := env.staged s slot.path boxed ⟨primary, some fallback⟩
  let entry := before.allocate slot.place (storage name boxed shape)
    (some (stagedList s slot.path fallback))
  have selected : Selected s slot.path boxed env ⟨primary, some fallback⟩ c before :=
    .of_stage apart scope tells taken
  -- the allocation before the loop writes no variable
  have atEntry : Selected s slot.path boxed env ⟨primary, some fallback⟩ c entry :=
    selected.of_vars fun var _ => by rw [Env.vars_allocate]
  have items : entry.get (stagedList s slot.path fallback) = env.get c.place := atEntry.list _
  refine ⟨entry, _, rfl, ?_,
    List.forall_mem_cons.2 ⟨atEntry, fun start mem => atEntry.of_mem_starts free mem⟩⟩
  rw [aggregateBlock_eq, Block.history_append]
  refine congrArg _ ((actsAs_filling apart scope tells taken).history.trans ?_)
  simp [fillBlock, Statement.history, Statement.run, items, entry, before]

/-- Without a source that is present, an aggregate is null. -/
theorem run_aggregateBlock_null (apart : s.StagedApart) (scope : primary.place.Over s.loopNames)
    (output : slot.place.root = .output) (dest : slot.place.Over s.loopNames)
    (first : env.Tells primary) (second : env.Tells fallback)
    (none : env.source? ⟨primary, some fallback⟩ = none) :
    Block.history (aggregateBlock s slot shape ⟨primary, some fallback⟩ name boxed turn) env =
        Block.history (stage s slot.path boxed ⟨primary, some fallback⟩).block env ++
          [(env.staged s slot.path boxed ⟨primary, some fallback⟩, .assign slot.place .null)] ∧
      (Block.run (aggregateBlock s slot shape ⟨primary, some fallback⟩ name boxed turn) env).out =
        env.out.put (env.location slot.place) .null := by
  have acts : Block.ActsAs (env.staged s slot.path boxed ⟨primary, some fallback⟩)
      (ifFilled (stagedList s slot.path fallback) slot.place
        (fillBlock s slot shape name boxed (stagedList s slot.path fallback) turn))
      [.assign slot.place .null] := actsAs_null apart scope first second none
  obtain ⟨agree, _⟩ := run_stage slot.path boxed fallback env apart scope rfl
  rw [aggregateBlock_eq, Block.history_append, Block.run_append]
  constructor
  · exact congrArg _ (acts.history.trans (by simp [Statement.history]))
  · refine (congrArg Env.out acts.run).trans ?_
    rw [Block.run_singleton, Statement.run, Env.assign, output]
    exact (agree.put dest .null).out

end

/-! ## Programs -/

/-- How a turn fills an element from the sources of the aggregate: an element that is no struct is
cast, and for structs there is a body for each source. -/
inductive FillsElement (cv : Converter) (level : Level) (slot : Slot) (choice : Choice)
    (shape : Shape) (name : String) : Ty → Block → Prop
  | cast {element : Ty} (whole : element.isStruct = false) :
      FillsElement cv level slot choice shape name element
        [.assign (elementSlot cv.settings slot shape).place (.cast name cv.elementVar false)]
  | struct {s : Struct} {held : Candidate → Ty} {turns : Candidate → Block}
      (sources : ∀ c ∈ choice.candidates, c.type.resolved.elements? = some (shape, held c))
      (bodies : ∀ c ∈ choice.candidates,
        Emits cv (.body level s (elementSlot cv.settings slot shape)
          (.ofElement (held c) cv.elementVar)) (turns c)) :
      FillsElement cv level slot choice shape name s.toTy
        (structTurn (overrideFlagVar cv.settings slot.path) choice turns)

/-- A type with elements of a shape is of the kind of the shape. -/
theorem Ty.kind_of_elements? {type element : Ty} {shape : Shape}
    (h : type.elements? = some (shape, element)) : type.kind = shape.kind := by
  rcases elements?_eq_some h with ⟨rfl, rfl⟩ | ⟨rfl, key, _, rfl⟩
  · rfl
  · rfl

section
variable {cv : Converter} {level : Level} {slot : Slot} {choice : Choice} {shape : Shape}
  {block turn : Block} {element : Ty} {name : String}

/-- What a conversion gives for a list or map is an aggregate whose turn fills the element. -/
theorem Emits.of_aggregate {type : Ty} (h : Emits cv (.value level slot choice type) block)
    (kind : type.kind = shape.kind) : ∃ element name turn,
      type.elements? = some (shape, element) ∧
      FillsElement cv level slot choice shape name element turn ∧
      block = aggregateBlock cv.settings slot shape choice name element.isStruct turn := by
  have same : ∀ {a b : Shape}, a.kind = b.kind → a = b := by
    intro a b h
    cases a <;> cases b <;> first | rfl | cases h
  -- only the last two rules fill a list or map
  cases h with
  | copied copied => cases type <;> cases copied <;> cases shape <;> cases kind
  | binary => cases shape <;> cases kind
  | struct => cases shape <;> cases kind
  | @elements _ _ _ _ dest _ name _ aggregate whole =>
    obtain rfl := same ((Ty.kind_of_elements? aggregate).symm.trans kind)
    exact ⟨dest, name, _, aggregate, .cast whole, by rw [whole]⟩
  | @structs _ _ _ _ s _ name _ _ aggregate _ sources bodies =>
    obtain rfl := same ((Ty.kind_of_elements? aggregate).symm.trans kind)
    exact ⟨s.toTy, name, _, aggregate, .struct sources bodies, rfl⟩

/-- A turn leaves the variables alone that the aggregate is taken into. -/
theorem FillsElement.not_assigned {fallback : Candidate} {var : String}
    (h : FillsElement cv level slot choice shape name element turn)
    (two : choice.fallback? = some fallback) (apart : cv.settings.StagedApart)
    (output : slot.place.root = .output) (ne : slot.path.segments ≠ [])
    (mem : var ∈ stagedVars cv.settings slot.path element.isStruct) :
    Everywhere (fun _ t => t.assigned? ≠ some var) .start turn := by
  have root : (elementSlot cv.settings slot shape).place.root = .output :=
    elementSlot_root.trans output
  cases h with
  | cast => simp [Statement.assigned?, root]
  | struct sources bodies =>
    have inside := fun c hc => (bodies c hc).not_assigned apart root
      (elementSlot_path _ _ _) ne mem
    rw [structTurn, two, everywhere_branch]
    exact ⟨by simp [Statement.assigned?], inside _ Choice.primary_mem _,
      inside _ (Choice.fallback_mem two) _⟩

/-- Where a source is selected, a turn is what the body for the elements of that source is. -/
theorem FillsElement.exists_body {primary fallback c : Candidate} {env : Env} {s : Struct}
    (h : FillsElement cv level slot ⟨primary, some fallback⟩ shape name element turn)
    (struct : element = s.toTy) (taken : env.source? ⟨primary, some fallback⟩ = some c) :
    ∃ held body, c.type.resolved.elements? = some (shape, held) ∧
      cv.emit (.body level s (elementSlot cv.settings slot shape)
        (.ofElement held cv.elementVar)) = .ok body ∧
      ∀ e, Selected cv.settings slot.path element.isStruct env ⟨primary, some fallback⟩ c e →
        Block.ActsAs e turn body := by
  have mem := Env.mem_of_source? taken
  cases h with
  | cast whole => simp [struct, Struct.toTy, Ty.isStruct] at whole
  | struct sources bodies =>
    obtain rfl := Struct.toTy_inj struct
    exact ⟨_, _, sources c mem, emits_iff.1 (bodies c mem),
      fun e selected => selected.actsAs_structTurn taken⟩

end

/-- A run takes a list or map with two sources from the first that is present: before the loop it
does no more than to assign the variables for it, which then hold that source and whether it is the
primary. They are not assigned in the loop, so at every turn they do so still, and a struct is filled
by the body that is made for the elements of that source. Without a source there is no loop, and the
destination is null. -/
theorem loops_over_present_source {cv : Converter} {sources dests : List Field}
    {table : MappingTable} {block : Block} (apart : cv.settings.StagedApart)
    (h : cv.convert sources dests table = .ok block) {level : Level} {given : List Field}
    {f : Field} {choice : Choice} {fallback : Candidate} {shape : Shape}
    (reached : Reached cv (.top table) sources dests level given f choice)
    (two : choice.fallback? = some fallback) (kind : f.type.kind = shape.kind) :
    ∃ element name part turn, f.type.elements? = some (shape, element) ∧
      cv.convertType level (level.slot f) choice f.type = .ok part ∧ part.Within block ∧
      (∀ var ∈ stagedVars cv.settings (level.slot f).path element.isStruct,
        var ∉ (loopBinding cv.settings shape).names ∧
          Everywhere (fun _ t => t.assigned? ≠ some var) .start turn) ∧
      ∀ env : Env, env.Supplies choice → ∃ (staged : History) (before : Env),
        (∀ p ∈ staged, ∃ var ∈ stagedVars cv.settings (level.slot f).path element.isStruct,
          p.2.assigned? = some var) ∧
        (∀ c, env.source? choice = some c → ∃ (entry : Env) (starts : List Env),
          starts = Env.starts (loopBinding cv.settings shape) turn (env.get c.place).turns entry ∧
          Block.history part env = staged ++
            (before, .allocate (level.slot f).place (storage name element.isStruct shape)
              (some (stagedList cv.settings (level.slot f).path fallback))) ::
            (entry, .loop (stagedList cv.settings (level.slot f).path fallback)
              (loopBinding cv.settings shape) turn) :: starts.flatMap (Block.history turn) ∧
          (∀ e ∈ entry :: starts,
            Selected cv.settings (level.slot f).path element.isStruct env choice c e) ∧
          ∀ s : Struct, element = s.toTy → ∃ held body,
            c.type.resolved.elements? = some (shape, held) ∧
            cv.emit (.body level s (elementSlot cv.settings (level.slot f) shape)
              (.ofElement held cv.elementVar)) = .ok body ∧
            ∀ start ∈ starts, Block.ActsAs start turn body) ∧
        (env.source? choice = none →
          Block.history part env = staged ++ [(before, .assign (level.slot f).place .null)] ∧
          (Block.run part env).out =
            env.out.put (env.location (level.slot f).place) .null) := by
  obtain ⟨primary, fallback?⟩ := choice
  obtain rfl : fallback? = some fallback := two
  have chosen := reached.chosen
  have regular := (reached.regular ⟨rfl, .input, .output⟩).1
  have scope : primary.place.Over cv.settings.loopNames :=
    Level.over_of_choose regular.source chosen Choice.primary_mem
  have output := reached.output
  have ne : (level.slot f).path.segments ≠ [] := by simp [Level.slot, Path.field, Path.extend]
  have dest : (level.slot f).place.Over cv.settings.loopNames := regular.dest.field
  -- one program for all inputs; what it does is told for each
  obtain ⟨part, emitted, within⟩ := reached.emits (emits_of_convert h)
  generalize level.slot f = slot at *
  have converted := emits_iff.1 emitted
  obtain ⟨element, name, turn, elements, fills, rfl⟩ := emitted.of_aggregate kind
  have free : ∀ var ∈ stagedVars cv.settings slot.path element.isStruct,
      var ∉ (loopBinding cv.settings shape).names ∧
        Everywhere (fun _ t => t.assigned? ≠ some var) .start turn :=
    fun var mem => ⟨apart.not_bound mem, fills.not_assigned rfl apart output ne mem⟩
  refine ⟨element, name, _, turn, elements, converted, within, free, fun env supplies => ?_⟩
  have first := supplies.tells chosen Choice.primary_mem
  have second := supplies.tells chosen (Choice.fallback_mem rfl)
  refine ⟨_, _, fun p mem => assigned_stage mem, fun c taken => ?_,
    run_aggregateBlock_null apart scope output dest first second⟩
  obtain ⟨entry, starts, which, history, selected⟩ :=
    history_aggregateBlock apart scope first free taken
  refine ⟨entry, starts, which, history, selected, fun s struct => ?_⟩
  obtain ⟨held, body, source, made, acts⟩ := fills.exists_body struct taken
  exact ⟨held, body, source, made,
    fun start mem => acts start (selected start (List.mem_cons_of_mem _ mem))⟩

namespace Club

/-! A club whose members are its users if there are any, and else the members of before. -/

/-- A struct of texts. -/
def person (struct : String) (details : List String) : Struct :=
  ⟨struct, "a.thrift", details.map (⟨·, .primitive .string, true, "a.thrift"⟩)⟩

/-- A list of people that can be absent. -/
def people (name : String) (s : Struct) : Field :=
  ⟨name, .list s.toTy, false, "a.thrift"⟩

def member : Struct :=
  person "Member" ["Name"]

/-- Users have a mail address too. -/
def user : Struct :=
  person "User" ["Mail", "Name"]

/-- The users go before the members. -/
def entry : Entry :=
  ⟨.ofFields ["Users"], people "Users" user, [], true⟩

def table : MappingTable :=
  ⟨[(Path.root.field "Members", entry)]⟩

def own : Candidate :=
  .ofField (people "Members" member) (Place.input.field "Members" true)

/-- The users, else the members of before. -/
def members : Choice :=
  ⟨entry.candidate, some own⟩

def fields : List Field :=
  [people "Members" member]

def converter : Converter :=
  { namespaces := .registry [("a.thrift", "crate::a")] }

theorem supplies : ∀ lists, (Env.initial lists).Supplies members :=
  Env.initial_supplies (by decide)

def ann : Data :=
  .struct [("Name", .scalar "ann")]

/-- The variable that the people are staged in. -/
def list : Place :=
  stagedList {} (Path.root.field "Members") own

/-- The mark of the users. -/
def flag : String :=
  overrideFlagVar {} (Path.root.field "Members")

/-- The loop goes over the users, else over the members of before, each marked; without either there
are no members. -/
theorem members_from_first_present :
    ∃ block, ∃ part turn : Block, converter.convert fields fields table = .ok block ∧
      part.Within block ∧
      (∃ entry, (entry, .loop list (.index "index" "value") turn) ∈
          Block.history part (.initial [("Users", .list [ann, ann]), ("Members", .list [ann])]) ∧
        entry.get list = .list [ann, ann] ∧ entry.holds (.flag flag) = true) ∧
      (∃ entry, (entry, .loop list (.index "index" "value") turn) ∈
          Block.history part (.initial [("Members", .list [ann])]) ∧
        entry.get list = .list [ann] ∧ entry.holds (.flag flag) = false) ∧
      (Block.run part (.initial [])).out [.field "Members"] = some .null := by
  have converts : ∃ block, converter.convert fields fields table = .ok block := ⟨_, rfl⟩
  obtain ⟨block, h⟩ := converts
  have reached : Reached converter (.top table) fields fields (.top table) fields
      (people "Members" member) members := .here List.mem_cons_self rfl
  have kind : (people "Members" member).type.kind = Shape.list.kind := rfl
  obtain ⟨element, _, part, turn, struct, _, within, _, runs⟩ :=
    loops_over_present_source Settings.default_stagedApart h reached rfl kind
  obtain rfl : member.toTy = element := by
    simpa [people, Ty.elements?] using struct
  -- a loop that goes over what the source holds, and tells which it is
  have loops : ∀ lists c, (Env.initial lists).source? members = some c → ∃ entry,
      (entry, .loop list (.index "index" "value") turn) ∈ Block.history part (.initial lists) ∧
        entry.get list = (Env.initial lists).get c.place ∧
        entry.holds (.flag flag) = (Env.initial lists).present members.primary := by
    intro lists c taken
    obtain ⟨_, _, _, looped, _⟩ := runs _ (supplies lists)
    obtain ⟨entry, _, _, history, selected, _⟩ := looped c taken
    have here := selected entry List.mem_cons_self
    refine ⟨entry, ?_, here.list _, here.flag rfl⟩
    rw [history]
    exact List.mem_append_right _ (List.mem_cons_of_mem _ List.mem_cons_self)
  obtain ⟨_, _, _, _, null⟩ := runs _ (supplies [])
  refine ⟨block, part, turn, h, within, loops _ entry.candidate rfl, loops _ own rfl, ?_⟩
  rw [(null rfl).2]
  rfl

end Club

end Crosswalk
