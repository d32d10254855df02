import Crosswalk.Proofs.Choice
import Crosswalk.Proofs.Nesting
import Crosswalk.Proofs.Run.Agree

/-!
# What conversions depend on

What a conversion does depends on the input, on the output and on the variables of loops, and on no
variable that is staged around it: what it stages it assigns before it reads it.
-/

namespace Crosswalk
set_option autoImplicit false
open Converter

/-- The variables of loops. -/
def Settings.loopNames (s : Settings) (name : String) : Prop :=
  name ∈ [s.index, s.key, s.value]

/-- The places that a task reads and writes go by the variables of loops. -/
def Task.Over (s : Settings) : Task → Prop
  | .fields level _ _ => level.source.Over s.loopNames ∧ level.dest.Over s.loopNames
  | .value _ slot choice _ =>
    slot.place.Over s.loopNames ∧ ∀ c ∈ choice.candidates, c.place.Over s.loopNames
  | .body _ _ slot c => slot.place.Over s.loopNames ∧ c.place.Over s.loopNames

section
variable {names : String → Prop} {a b : Env}

/-- Environments that agree on some names, at least those of loops, do so after a block. -/
def Carries (s : Settings) (block : Block) : Prop :=
  ∀ names : String → Prop, (∀ n, s.loopNames n → names n) → ∀ a b : Env, a.Agree names b →
    (Block.run block a).Agree names (Block.run block b)

theorem agree_put {p : Place} {content content' : Content} (h : a.Agree names b)
    (scope : p.Over names) (same : content = content') :
    (a.put p content).Agree names (b.put p content') :=
  same ▸ h.put scope content

/-- A check of one result in both states keeps agreement if its branches do. -/
theorem agree_branch {c : Condition} {yes no yes' no' : Block}
    (same : a.holds c = b.holds c)
    (inYes : (Block.run yes a).Agree names (Block.run yes' b))
    (inNo : (Block.run no a).Agree names (Block.run no' b)) :
    ((Statement.branch c yes no).run a).Agree names ((Statement.branch c yes' no').run b) := by
  rw [Statement.run, Statement.run, same]
  split
  · exact inYes
  · exact inNo

end

/-- A mapped source is read from the input through fields alone, so it needs no name. -/
theorem Entry.place_over {names : String → Prop} (e : Entry) : e.place.Over names := by
  have along : ∀ (path parents : _) (last : Bool) (p : Place), p.Over names →
      (placeAlong last p parents path).Over names := by
    intro path
    induction path with
    | nil => exact fun _ _ _ h => h
    | cons name rest ih =>
      intro parents last p h
      cases rest with
      | nil => exact h.field
      | cons next names => exact ih _ _ _ h.field
  exact along _ _ _ _ .input

theorem Settings.loopNames_of_mem {s : Settings} {shape : Shape} {name : String}
    (h : name ∈ (loopBinding s shape).names) : s.loopNames name := by
  have bound : name = (loopBinding s shape).counter ∨ name = (loopBinding s shape).value := by
    simpa [Binding.names] using h
  cases shape <;> rcases bound with rfl | rfl <;>
    simp [loopNames, loopBinding, Binding.counter, Binding.value]

theorem Settings.loopNames_counter (s : Settings) (shape : Shape) :
    s.loopNames (loopBinding s shape).counter :=
  loopNames_of_mem (Binding.counter_mem_names _)

/-- The place of the elements goes by one name more, that of the counter. -/
theorem elementSlot_over {names : String → Prop} {s : Settings} {slot : Slot} {shape : Shape}
    (h : slot.place.Over names) (binds : names (loopBinding s shape).counter) :
    (elementSlot s slot shape).place.Over names := by
  cases shape with
  | list => exact h.snoc fun n access => by cases access; exact binds
  | map => exact h.snoc fun n access => by cases access; exact binds

/-- All sources of a choice go by the names of the level's source. -/
theorem Level.over_of_choose {names : String → Prop} {l : Level} {sources : List Field}
    {name : String} {choice : Choice} {c : Candidate} (source : l.source.Over names)
    (h : l.choose sources name = .ok choice) (mem : c ∈ choice.candidates) :
    c.place.Over names := by
  rcases candidate_of_choose h mem with ⟨f, _, rfl⟩ | ⟨path, e, _, rfl⟩
  · exact source.field
  · exact e.place_over

/-! ## Blocks that fill a slot -/

section
variable {s : Settings} {names : String → Prop} {a b : Env}

/-- An assignment to the output keeps agreement if the value is the same in both states. -/
theorem agree_assign {p : Place} {value : Expr} (h : a.Agree names b) (output : p.root = .output)
    (scope : p.Over names) (same : a.content value = b.content value) :
    (Block.run [.assign p value] a).Agree names (Block.run [.assign p value] b) := by
  simp only [Block.run_cons, Block.run_nil, Statement.run, Env.assign, output]
  exact agree_put h scope same

/-- Assigning from the sources of a choice, where each is read the same in both environments. -/
theorem carries_assignChoice {guard : Bool} {target : Place} {value : Candidate → Expr}
    {choice : Choice} (output : target.root = .output) (scope : target.Over s.loopNames)
    (sources : ∀ c ∈ choice.candidates, c.place.Over s.loopNames)
    (content : ∀ (c : Candidate) (a b : Env), a.get c.place = b.get c.place →
      a.content (value c) = b.content (value c)) :
    Carries s (assignChoice guard target value choice) := by
  intro names loops a b h
  -- an assignment writes the same at the same location, since its source is read alike
  have assign : ∀ c ∈ choice.candidates, ∀ a b : Env, a.Agree names b →
      (Block.run [.assign target (value c)] a).Agree names
        (Block.run [.assign target (value c)] b) := by
    intro c hc a b h
    refine agree_assign h output (scope.mono loops) ?_
    exact content c a b (h.get ((sources c hc).mono loops))
  have present : ∀ c ∈ choice.candidates, ∀ a b : Env, a.Agree names b →
      (Block.run [assignPresent target value c] a).Agree names
        (Block.run [assignPresent target value c] b) := by
    intro c hc a b h
    rw [Block.run_singleton, Block.run_singleton]
    exact agree_branch (h.isPresent ((sources c hc).mono loops)) (assign c hc a b h)
      (by simpa using h)
  have first : ∀ c ∈ choice.candidates, ∀ a b : Env, a.Agree names b →
      (Block.run [if guard then assignPresent target value c else .assign target (value c)] a).Agree
        names (Block.run [if guard then assignPresent target value c else .assign target (value c)]
          b) := by
    intro c hc a b h
    split
    · exact present c hc a b h
    · exact assign c hc a b h
  obtain ⟨primary, fallback?⟩ := choice
  have hp : primary ∈ (Choice.mk primary fallback?).candidates := Choice.primary_mem
  -- with two sources the second statement starts where the first has led
  cases fallback? with
  | none => exact first primary hp a b h
  | some fallback =>
    have hf : fallback ∈ (Choice.mk primary (some fallback)).candidates := Choice.fallback_mem rfl
    have done := present primary hp _ _ (first fallback hf a b h)
    simpa only [assignChoice, Block.run_cons, Block.run_nil] using done

/-- A check for a source in scope carries agreement through, if its branches do. -/
theorem carries_ifPresent {source : Candidate} {block otherwise : Block}
    (scope : source.place.Over s.loopNames) (inside : Carries s block)
    (outside : Carries s otherwise) : Carries s (ifPresent source block otherwise) := by
  intro names loops a b h
  unfold ifPresent
  split
  · rw [Block.run_singleton, Block.run_singleton]
    exact agree_branch (h.isPresent (scope.mono loops)) (inside names loops a b h)
      (outside names loops a b h)
  · exact inside names loops a b h

theorem carries_null {target : Place} (output : target.root = .output)
    (scope : target.Over s.loopNames) : Carries s [.assign target .null] :=
  fun _ loops _ _ h => agree_assign h output (scope.mono loops) rfl

/-- So does the block of a struct, if the bodies for its sources do. -/
theorem carries_structBlock {slot : Slot} {choice : Choice} {body : Candidate → Block}
    (output : slot.place.root = .output) (scope : slot.place.Over s.loopNames)
    (sources : ∀ c ∈ choice.candidates, c.place.Over s.loopNames)
    (bodies : ∀ c ∈ choice.candidates, Carries s (body c)) :
    Carries s (structBlock slot choice body) := by
  obtain ⟨primary, fallback?⟩ := choice
  have hp : primary ∈ (Choice.mk primary fallback?).candidates := Choice.primary_mem
  refine carries_ifPresent (sources _ hp) (bodies _ hp) ?_
  cases fallback? with
  | none => exact carries_null output scope
  | some fallback =>
    have hf : fallback ∈ (Choice.mk primary (some fallback)).candidates := Choice.fallback_mem rfl
    exact carries_ifPresent (sources _ hf) (bodies _ hf) (carries_null output scope)

/-! ## Aggregates -/

/-- After a source is taken, the variables that were assigned agree too. -/
theorem agree_takeBlock (s : Settings) (path : Path) (boxed optional taken : Bool)
    {c : Candidate} (scope : c.place.Over names) (h : a.Agree names b) :
    (Block.run (takeBlock s path boxed optional taken c) a).Agree
      (fun n => n = overrideFlagVar s path ∧ boxed = true ∨ n = sourceListVar s path ∨ names n)
      (Block.run (takeBlock s path boxed optional taken c) b) := by
  have read := h.set (sourceListVar s path) (.data (a.get c.place))
  cases boxed with
  | false =>
    simpa [takeBlock, Statement.run, Env.assign, Place.var, Env.held, h.get scope] using read
  | true =>
    have marked := read.set (overrideFlagVar s path) (.bool taken)
    simpa [takeBlock, Statement.run, Env.assign, Place.var, Env.held, h.get scope] using marked

/-- The staging of sources keeps agreement and extends it by the variables that it assigns, so that
the loop behind it runs over the same in both states. -/
theorem agree_stage (s : Settings) (path : Path) (boxed : Bool) {choice : Choice}
    (sources : ∀ c ∈ choice.candidates, c.place.Over names) (h : a.Agree names b) :
    ∃ more : String → Prop, (∀ n, names n → more n) ∧
      (Block.run (stage s path boxed choice).block a).Agree more
        (Block.run (stage s path boxed choice).block b) ∧
      (stage s path boxed choice).iterable.Over more ∧
      (boxed = true → choice.fallback?.isSome = true → more (overrideFlagVar s path)) := by
  obtain ⟨primary, fallback?⟩ := choice
  have hp : primary ∈ (Choice.mk primary fallback?).candidates := Choice.primary_mem
  cases fallback? with
  | none => exact ⟨names, fun _ mem => mem, h, sources _ hp, fun _ some => by cases some⟩
  | some fallback =>
    have hf : fallback ∈ (Choice.mk primary (some fallback)).candidates := Choice.fallback_mem rfl
    have among : ∀ n, names n →
        n = overrideFlagVar s path ∧ boxed = true ∨ n = sourceListVar s path ∨ names n :=
      fun n mem => .inr (.inr mem)
    have first := agree_takeBlock s path boxed fallback.optional false (sources _ hf) h
    refine ⟨_, among, ?_, .var (.inr (.inl rfl)), fun isBoxed _ => .inl ⟨rfl, isBoxed⟩⟩
    rw [stage_block, Block.run_append, Block.run_append, Block.run_singleton, Block.run_singleton]
    refine agree_branch ((first.mono among).isPresent (sources _ hp)) ?_ (by simpa using first)
    exact agree_takeBlock s path boxed fallback.optional true (sources _ hp) (first.mono among)

/-- An aggregate is filled the same, if each turn is under a flag that is. -/
theorem carries_aggregateBlock {slot : Slot} {shape : Shape} {choice : Choice} {element : String}
    {boxed : Bool} {turn : Block} (output : slot.place.root = .output)
    (scope : slot.place.Over s.loopNames)
    (sources : ∀ c ∈ choice.candidates, c.place.Over s.loopNames)
    (inside : ∀ names : String → Prop, (∀ n, s.loopNames n → names n) →
      (boxed = true → choice.fallback?.isSome = true → names (overrideFlagVar s slot.path)) →
      ∀ a b : Env, a.Agree names b → (Block.run turn a).Agree names (Block.run turn b)) :
    Carries s (aggregateBlock s slot shape choice element boxed turn) := by
  intro names loops a b h
  -- the staging makes the two environments agree on what it assigns, so `more` is carried through
  -- the filling
  obtain ⟨more, among, staged, iterable, flag⟩ := agree_stage s slot.path boxed
    (fun c hc => (sources c hc).mono loops) h
  have target := scope.mono fun n mem => among n (loops n mem)
  have fill : ∀ a b : Env, a.Agree more b →
      (Block.run (fillBlock s slot shape element boxed (stage s slot.path boxed choice).iterable
        turn) a).Agree more (Block.run (fillBlock s slot shape element boxed
          (stage s slot.path boxed choice).iterable turn) b) := by
    -- turn by turn, the environments agree behind the allocation
    intro a b h
    have allocated := h.allocate target (h.get iterable) (storage element boxed shape)
    have looped := run_loop_related (R := Env.Agree more) (loopBinding s shape)
      (fun a b t h => h.leave (inside more (fun n mem => among n (loops n mem)) flag _ _
        (h.enter _ t)) _) allocated (allocated.get iterable)
    simpa [fillBlock, Statement.run] using looped
  refine Env.Agree.mono ?_ among
  rw [aggregateBlock, Block.run_append, Block.run_append]
  split
  · rw [Block.run_singleton, Block.run_singleton]
    refine agree_branch (staged.isPresent iterable) (fill _ _ staged) ?_
    exact agree_assign staged output target rfl
  · exact fill _ _ staged

end

/-! ## Conversions -/

theorem Emits.carries {cv : Converter} {task : Task} {block : Block} (h : Emits cv task block) :
    task.target.root = .output → task.Over cv.settings → Carries cv.settings block := by
  -- induction on the emission; the names that are agreed on grow around an aggregate and are given
  -- back
  -- behind it
  induction h with
  | nil =>
    intro _ _ names loops a b h
    simpa using h
  | cons chosen filled others ihf iho =>
    intro output scope names loops a b h
    obtain ⟨source, dest⟩ := scope
    rw [Block.run_append, Block.run_append]
    refine iho output ⟨source, dest⟩ names loops _ _ (ihf output ⟨dest.field, ?_⟩ names loops _ _ h)
    exact fun c hc => Level.over_of_choose source chosen hc
  | copied kind named agree =>
    intro output scope
    exact carries_assignChoice output scope.1 scope.2 fun c a b same => by simp [Env.content, same]
  | binary agree =>
    intro output scope
    exact carries_assignChoice output scope.1 scope.2 fun c a b same => by simp [Env.content, same]
  | struct bodies ih =>
    intro output scope
    refine carries_structBlock output scope.1 scope.2 fun c hc => ?_
    exact ih c hc output ⟨scope.1, scope.2 c hc⟩
  | @elements level slot choice type dest shape name element kind whole plain named sources =>
    intro output scope
    refine carries_aggregateBlock output scope.1 scope.2 fun names loops _ a b h => ?_
    have element_over : cv.elementVar.Over names := .var (loops _ (by simp [Settings.loopNames]))
    have target := elementSlot_over scope.1 (cv.settings.loopNames_counter shape)
    exact agree_assign h (elementSlot_root.trans output) (target.mono loops)
      (by simp only [Env.content, h.get element_over])
  | @structs level slot choice type s shape name element turn kind named sources turns ih =>
    intro output scope
    have element_over : cv.elementVar.Over cv.settings.loopNames :=
      .var (by simp [Settings.loopNames])
    have turn : ∀ c ∈ choice.candidates, Carries cv.settings (turn c) := fun c hc =>
      ih c hc (elementSlot_root.trans output)
        ⟨elementSlot_over scope.1 (cv.settings.loopNames_counter shape), element_over⟩
    refine carries_aggregateBlock output scope.1 scope.2 fun names loops flag a b h => ?_
    obtain ⟨primary, fallback?⟩ := choice
    have hp : primary ∈ (Choice.mk primary fallback?).candidates := Choice.primary_mem
    cases fallback? with
    | none => exact turn _ hp names loops a b h
    | some fallback =>
      have hf : fallback ∈ (Choice.mk primary (some fallback)).candidates := Choice.fallback_mem rfl
      -- the flag was assigned with the list, so both environments take the same side
      simp only [structTurn, Block.run_cons, Block.run_nil]
      exact agree_branch (h.flag (flag rfl rfl)) (turn _ hp names loops a b h)
        (turn _ hf names loops a b h)
  | body struct named filled ih =>
    intro output scope names loops a b h
    obtain ⟨dest, source⟩ := scope
    rw [Block.run_cons, Block.run_cons]
    refine ih output ⟨source, dest⟩ names loops _ _ ?_
    simp only [Statement.run, Env.allocate]
    split
    · exact h.put (dest.mono loops) _
    · exact h

end Crosswalk
