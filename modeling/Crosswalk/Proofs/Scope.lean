import Crosswalk.Proofs.Emission.Sound
import Crosswalk.Proofs.Run.Carry
import Crosswalk.Proofs.Staging
import Crosswalk.Proofs.Typing

/-!
# Scope

A variable is in scope where a loop around binds it, or where a statement assigns it before, in the
same block or before a statement around. Conversions read nothing else: the places of a task go by
the variables of the loops around it, and the variables for a list or map are assigned right before
it is filled.

`Scoped` is what a statement needs at its site. There is one `scoped_` lemma for each statement, one
for the block of an aggregate (`scoped_aggregateBlock`), and `Emits.scoped` is the induction on the
emission, for tasks that go by the variables of the loops around (`Task.GoesBy`).
-/

namespace Crosswalk
set_option autoImplicit false
open Converter

/-! ## What is in scope -/

namespace Site

/-- A loop around binds the variable. -/
def Bound (site : Site) (name : String) : Prop :=
  ∃ f ∈ site.frames, name ∈ f.names

/-- A loop around binds the variable, or a statement before, here or further out, assigns it. -/
def InScope (site : Site) (name : String) : Prop :=
  site.Bound name ∨
    ∃ block ∈ site.before :: site.frames.map Frame.before, ∃ s ∈ block, s.assigned? = some name

variable {start site : Site} {name : String} {block : Block} {c : Condition} {iterable : Place}
  {binding : Binding}

/-- What a loop binds stays bound behind presence checks. -/
theorem Bound.of_behind (h : start.Bound name) (behind : start.Behind site) : site.Bound name := by
  obtain ⟨f, mem, binds⟩ := h
  obtain ⟨checks, frames, _⟩ := behind
  exact ⟨f, frames ▸ List.mem_append_right checks mem, binds⟩

theorem Bound.inScope (h : site.Bound name) : site.InScope name :=
  .inl h

/-- What is in scope stays so further on in the block. -/
theorem InScope.after (h : site.InScope name) : (site.after block).InScope name := by
  rcases h with bound | ⟨before, mem, s, hs, assigned⟩
  · exact .inl bound
  · rcases List.mem_cons.1 mem with rfl | mem
    · exact .inr ⟨_, List.mem_cons_self, s, List.mem_append_left _ hs, assigned⟩
    · exact .inr ⟨before, List.mem_cons_of_mem _ mem, s, hs, assigned⟩

/-- What is in scope of a statement is in scope inside of it. -/
theorem InScope.inside {f : Frame} (h : site.InScope name) (before : f.before = site.before) :
    InScope ⟨f :: site.frames, []⟩ name := by
  rcases h with ⟨g, mem, binds⟩ | ⟨block, mem, assigned⟩
  · exact .inl ⟨g, List.mem_cons_of_mem f mem, binds⟩
  · refine .inr ⟨block, List.mem_cons_of_mem _ ?_, assigned⟩
    rwa [List.map_cons, before]

/-- What is in scope of a check is in scope on the side where it holds. -/
theorem InScope.yes (h : site.InScope name) : (site.yes c).InScope name :=
  h.inside rfl

/-- What is in scope of a loop is in scope in its body. -/
theorem InScope.loop (h : site.InScope name) : (site.loop iterable binding).InScope name :=
  h.inside rfl

end Site

/-! ## What is read -/

/-- The places that a statement reads, without the statements inside it. -/
def Statement.reads : Statement → List Place
  | assign _ value => value.places
  | allocate _ _ hint? => hint?.toList
  | branch condition _ _ => condition.places
  | loop iterable _ _ => [iterable]

/-- The variable that a branch depends on. -/
def Statement.flag? : Statement → Option String
  | branch (.flag name) _ _ => some name
  | _ => none

/-- All variables that a statement reads are in scope, and so are those that name the elements in
what it writes. -/
structure Scoped (site : Site) (s : Statement) : Prop where
  reads : ∀ p ∈ s.reads, p.Over site.InScope
  flag : ∀ name, s.flag? = some name → site.InScope name
  target : ∀ p, s.target? = some p → ∀ access ∈ p.accesses, ∀ name,
    access.binding? = some name → site.InScope name

section
variable {site start : Site} {p iterable : Place} {slot : Slot} {choice : Choice}

/-- An assignment is scoped if what it reads and what names its target are in scope. -/
theorem scoped_assign {value : Expr} (target : p.Over site.InScope)
    (reads : ∀ q ∈ value.places, q.Over site.InScope) : Scoped site (.assign p value) where
  reads := reads
  flag _ h := by cases h
  target _ h := by cases h; exact target.2

/-- A variable may be assigned anywhere: only what is read has to be in scope. -/
theorem scoped_staging {name : String} {optional : Bool} {value : Expr}
    (reads : ∀ q ∈ value.places, q.Over site.InScope) :
    Scoped site (.assign (.var name optional) value) where
  reads := reads
  flag _ h := by cases h
  target _ h := by cases h; exact fun _ mem => by cases mem

/-- An allocation is scoped if its target and its size hint are in scope. -/
theorem scoped_allocate {storage : Storage} {hint? : Option Place} (target : p.Over site.InScope)
    (reads : ∀ q ∈ hint?, q.Over site.InScope) : Scoped site (.allocate p storage hint?) where
  reads q mem := reads q (Option.mem_toList.1 mem)
  flag _ h := by cases h
  target _ h := by cases h; exact target.2

/-- A presence check is scoped if the place is in scope. -/
theorem scoped_present {yes no : Block} (read : p.Over site.InScope) :
    Scoped site (.branch (.isPresent p) yes no) where
  reads q mem := by rwa [List.mem_singleton.1 mem]
  flag _ h := by cases h
  target _ h := by cases h

/-- A check of a flag is scoped where the flag is. -/
theorem scoped_flag {name : String} {yes no : Block} (read : site.InScope name) :
    Scoped site (.branch (.flag name) yes no) where
  reads _ mem := by cases mem
  flag _ h := by cases h; exact read
  target _ h := by cases h

/-- A loop is scoped if what it runs over is in scope. -/
theorem scoped_loop {binding : Binding} {body : Block} (read : iterable.Over site.InScope) :
    Scoped site (.loop iterable binding body) where
  reads q mem := by rwa [List.mem_singleton.1 mem]
  flag _ h := by cases h
  target _ h := by cases h

/-- A place over bound variables is one over variables in scope, also behind presence checks. -/
theorem Place.Over.inScope (h : p.Over start.Bound) (behind : start.Behind site) :
    p.Over site.InScope :=
  h.mono fun _ bound => (bound.of_behind behind).inScope

/-! ## Blocks that fill a slot -/

/-- Sources that are bound around a block are in scope where the block reads them. -/
theorem scoped_assignChoice {guard : Bool} {value : Candidate → Expr}
    (target : p.Over start.Bound) (sources : ∀ c ∈ choice.candidates, c.place.Over start.Bound)
    (read : ∀ c, (value c).places = [c.place]) :
    Everywhere Scoped start (assignChoice guard p value choice) := by
  refine everywhere_assignChoice
    (fun site behind c hc _ _ => scoped_present ((sources c hc).inScope behind))
    fun site behind c hc => scoped_assign (target.inScope behind) ?_
  simpa [read] using (sources c hc).inScope behind

/-- The variables for an aggregate are in scope behind the staging. -/
theorem inScope_stage {s : Settings} {path : Path} {boxed : Bool} {name : String}
    (two : choice.fallback?.isSome = true) (mem : name ∈ stagedVars s path boxed) :
    (start.after (stage s path boxed choice).block).InScope name := by
  obtain ⟨primary, fallback?⟩ := choice
  obtain ⟨fallback, rfl⟩ := Option.isSome_iff_exists.1 two
  rw [stage_block]
  refine .inr ⟨_, List.mem_cons_self, ?_⟩
  rcases List.mem_cons.1 mem with rfl | mem
  · exact ⟨.assign (.var (sourceListVar s path) fallback.optional) (.read fallback.place),
      by simp [takeBlock], rfl⟩
  · cases boxed with
    | false => simp at mem
    | true =>
      obtain rfl := List.mem_singleton.1 mem
      exact ⟨.assign (.var (overrideFlagVar s path) false) (.bool false), by simp [takeBlock], rfl⟩

/-- A list or map is in scope behind its staging: its sources are, or else the variable that every
branch of the staging assigns. -/
theorem iterable_inScope (s : Settings) (path : Path) (boxed : Bool)
    (sources : ∀ c ∈ choice.candidates, c.place.Over start.Bound) :
    (stage s path boxed choice).iterable.Over
      (start.after (stage s path boxed choice).block).InScope := by
  cases hf : choice.fallback? with
  | none =>
    have single : (stage s path boxed choice).iterable = choice.primary.place := by simp [stage, hf]
    rw [single]
    exact (sources _ Choice.primary_mem).inScope Site.Behind.refl.after
  | some fallback =>
    have selected : (stage s path boxed choice).iterable =
        .var (sourceListVar s path) fallback.optional := by simp [stage, hf]
    rw [selected]
    exact .var (inScope_stage (by rw [hf]; rfl) List.mem_cons_self)

/-- The variable for an element is bound by the loop over the elements. -/
theorem value_mem_names (s : Settings) (shape : Shape) :
    s.value ∈ (loopBinding s shape).names := by
  cases shape <;> simp [loopBinding, Binding.names, Binding.value]

/-- The turn of the loop has the loop's variables in scope, and the flag if there is one. -/
theorem scoped_aggregateBlock {s : Settings} {shape : Shape} {element : String} {boxed : Bool}
    {turn : Block} (target : slot.place.Over start.Bound)
    (sources : ∀ c ∈ choice.candidates, c.place.Over start.Bound)
    (inside : ∀ site : Site, (∀ n, start.Bound n → site.Bound n) →
      (∀ n ∈ (loopBinding s shape).names, site.Bound n) →
      (choice.fallback?.isSome = true → boxed = true → site.InScope (overrideFlagVar s slot.path)) →
      Everywhere Scoped site turn) :
    Everywhere Scoped start (aggregateBlock s slot shape choice element boxed turn) := by
  rw [everywhere_aggregateBlock rfl]
  have iterable := iterable_inScope s slot.path boxed sources
  -- what is in scope behind the staging is in scope where the aggregate is filled
  have filling : ∀ n, (start.after (stage s slot.path boxed choice).block).InScope n →
      (fillSite start (stage s slot.path boxed choice)).InScope n := by
    intro n h
    unfold fillSite
    split
    · exact h.yes
    · exact h
  have here : start.Behind start := .refl
  have fill := behind_fillSite start (stage s slot.path boxed choice)
  -- the staging, the null where nothing was taken, the allocation, the loop and the turn
  refine ⟨everywhere_stage ?_ ?_ ?_, fun _ => ⟨scoped_present iterable, ?_⟩, ?_, ?_,
    inside _ ?_ ?_ ?_⟩
  · intro site behind c hc optional
    refine scoped_staging fun q mem => ?_
    obtain rfl := List.mem_singleton.1 mem
    exact (sources c hc).inScope behind
  · exact fun site _ taken => scoped_staging fun q mem => by cases mem
  · exact fun site behind _ _ => scoped_present ((sources _ Choice.primary_mem).inScope behind)
  · exact scoped_assign (target.inScope here.after.no) fun q mem => by cases mem
  · refine scoped_allocate (target.inScope fill) fun q mem => ?_
    obtain rfl := Option.mem_some.1 mem
    exact iterable.mono filling
  · exact scoped_loop (iterable.mono fun n h => (filling n h).after)
  -- in a turn the same variables are bound as before
  · rintro n bound
    obtain ⟨f, mem, binds⟩ := bound.of_behind fill
    exact ⟨f, List.mem_cons_of_mem _ mem, binds⟩
  · exact fun n binds => ⟨_, List.mem_cons_self, binds⟩
  -- the flag was assigned in the staging, if there is a choice between structs
  · intro two structs
    refine (filling _ (inScope_stage two ?_)).after.loop
    simp [stagedVars, structs]

end

/-! ## Conversions -/

/-- The places that a task reads and writes go by given variables. -/
def Task.GoesBy (names : String → Prop) : Task → Prop
  | .fields level _ _ => level.source.Over names ∧ level.dest.Over names
  | .value _ slot choice _ => slot.place.Over names ∧ ∀ c ∈ choice.candidates, c.place.Over names
  | .body _ _ slot c => slot.place.Over names ∧ c.place.Over names

/-- What is emitted for a task is scoped if the loops around bind all variables that its places go
by. Levels only add fields to places, and a loop binds what its element adds. -/
theorem Emits.scoped {cv : Converter} {task : Task} {block : Block} (h : Emits cv task block) :
    ∀ start : Site, task.GoesBy start.Bound → Everywhere Scoped start block := by
  -- induction on the emission; a part is scoped wherever its places go by the variables bound there
  induction h with
  | nil => exact fun _ _ => everywhere_nil
  | cons chosen filled others ihf iho =>
    rintro start ⟨source, dest⟩
    refine everywhere_append.2 ⟨ihf start ⟨dest.field, fun c hc => ?_⟩, iho _ ⟨source, dest⟩⟩
    exact Level.over_of_choose source chosen hc
  | copied kind named agree =>
    rintro start ⟨target, sources⟩
    exact scoped_assignChoice target sources fun _ => rfl
  | binary agree =>
    rintro start ⟨target, sources⟩
    exact scoped_assignChoice target sources fun _ => rfl
  | struct bodies ih =>
    rintro start ⟨target, sources⟩
    refine everywhere_structBlock
      (fun site behind c hc _ _ => scoped_present ((sources c hc).inScope behind))
      (fun site behind => scoped_assign (target.inScope behind) fun q mem => by cases mem)
      fun site behind c hc => ih c hc site ⟨?_, ?_⟩
    · exact target.mono fun n bound => bound.of_behind behind
    · exact (sources c hc).mono fun n bound => bound.of_behind behind
  | @elements level slot choice type dest shape name element kind whole plain named given =>
    rintro start ⟨target, sources⟩
    refine scoped_aggregateBlock target sources fun site outer binds _ => everywhere_assign.2 ?_
    have counter := binds _ (Binding.counter_mem_names _)
    refine scoped_assign (elementSlot_over (target.mono fun n h => (outer n h).inScope)
      counter.inScope) fun q mem => ?_
    obtain rfl := List.mem_singleton.1 mem
    exact .var (binds _ (value_mem_names _ _)).inScope
  | @structs level slot choice type inner shape name element turn kind named given turns ih =>
    rintro start ⟨target, sources⟩
    refine scoped_aggregateBlock target sources fun site outer binds flag => ?_
    have value : site.Bound cv.settings.value := binds _ (value_mem_names _ _)
    -- the turns for both sources are scoped, also inside a flag
    have each : ∀ c ∈ choice.candidates, ∀ inTurn : Site, (∀ n, site.Bound n → inTurn.Bound n) →
        Everywhere Scoped inTurn (turn c) := by
      intro c hc inTurn more
      refine ih c hc inTurn ⟨elementSlot_over ?_ ?_, .var (more _ value)⟩
      · exact target.mono fun n h => more n (outer n h)
      · exact more _ (binds _ (Binding.counter_mem_names _))
    obtain ⟨primary, fallback?⟩ := choice
    cases fallback? with
    | none => exact each primary Choice.primary_mem site fun _ h => h
    | some fallback =>
      have further : ∀ {f : Frame} n, site.Bound n → Site.Bound ⟨f :: site.frames, []⟩ n := by
        rintro f n ⟨g, mem, h⟩
        exact ⟨g, List.mem_cons_of_mem f mem, h⟩
      exact everywhere_branch.2 ⟨scoped_flag (flag rfl rfl),
        each primary Choice.primary_mem _ further,
        each fallback (Choice.fallback_mem rfl) _ further⟩
  | body struct named filled ih =>
    rintro start ⟨target, source⟩
    refine everywhere_cons.2 ⟨everywhere_allocate.2 (scoped_allocate ?_ fun q mem => by cases mem),
      ih _ ⟨source, target⟩⟩
    exact target.inScope .refl

/-- A place of the output, or a variable as a whole that is named after a path of the
destination. -/
def Place.Writable (s : Settings) (dests : List Field) (p : Place) : Prop :=
  p.root = .output ∨ ∃ path optional f, FieldAt dests path.segments f ∧
    (p = .var (sourceListVar s path) optional ∨ p = .var (overrideFlagVar s path) optional)

/-- All that a program reads is in scope, and it writes only the output and the variables for lists
and maps. -/
theorem well_scoped {cv : Converter} {sources dests : List Field} {table : MappingTable}
    {block : Block} (h : cv.convert sources dests table = .ok block) :
    Everywhere Scoped .start block ∧
      Everywhere (fun _ s => ∀ p, s.target? = some p → p.Writable cv.settings dests) .start
        block := by
  have emitted := emits_of_convert h
  refine ⟨emitted.scoped .start ⟨.input, .output⟩, fun site s at_ p written => ?_⟩
  rcases emitted.writesOwn .start site s at_ p written with ⟨f, _, output, _⟩ | own
  · exact .inl output
  · obtain ⟨name, optional, rfl, deep, given, g, inner, reached, path, boxed, staged, mem⟩ := own
    have found : Staged cv table sources dests path boxed :=
      ⟨deep, given, g, inner, reached, staged⟩
    obtain ⟨f, leads⟩ := found.fieldAt
    refine .inr ⟨path, optional, f, leads, ?_⟩
    exact (sourceListVar_or_overrideFlagVar mem).imp (congrArg (Place.var · optional))
      (congrArg (Place.var · optional))

namespace Shelf

/-! The branch inside of the loop reads the flag that is assigned before the loop. -/

theorem well_scoped_rows :
    ∃ block, (converter {}).convert (sources ["Rows"]) (dests ["Rows"]) (table ["Rows"]) =
        .ok block ∧
      (∃ site s, Occurs .start block site s ∧ s.flag? = some "is_overridden_rows") ∧
      Everywhere Scoped .start block ∧
      Everywhere (fun _ s => ∀ p, s.target? = some p → p.Writable {} (dests ["Rows"])) .start
        block := by
  have flagged : ∃ block, (converter {}).convert (sources ["Rows"]) (dests ["Rows"])
      (table ["Rows"]) = .ok block ∧
        ∃ site s, Occurs .start block site s ∧ s.flag? = some "is_overridden_rows" :=
    ⟨_, rfl, _, _, .later (.later (.later (.later (.loop .here)))), rfl⟩
  obtain ⟨block, h, flagged⟩ := flagged
  exact ⟨block, h, flagged, well_scoped h⟩

end Shelf

end Crosswalk
