import Crosswalk.Proofs.Run.Carry
import Crosswalk.Proofs.Run.Staged

/-!
# Which source is taken

Of two sources a program takes the primary if it is present and else the fallback: its output is
that of the program for the one source alone.
-/

namespace Crosswalk
set_option autoImplicit false
open Converter

/-- The source that is taken, if the primary may be absent. -/
def Env.taken (env : Env) (primary fallback : Candidate) : Candidate :=
  if env.holds (.isPresent primary.place) then primary else fallback

theorem Env.taken_of_present {env : Env} {primary fallback : Candidate}
    (h : env.holds (.isPresent primary.place) = true) : env.taken primary fallback = primary :=
  if_pos h

theorem Env.taken_of_absent {env : Env} {primary fallback : Candidate}
    (h : env.holds (.isPresent primary.place) = false) : env.taken primary fallback = fallback :=
  if_neg (Bool.eq_false_iff.1 h)

/-- A source whose place is optional as it is itself. -/
def Candidate.Coherent (c : Candidate) : Prop :=
  c.place.optional = c.optional

section
variable {env : Env}

@[simp] theorem Env.holds_put {p : Place} {content : Content} {c : Condition} :
    (env.put p content).holds c = env.holds c := by
  cases c <;> rfl

@[simp] theorem Env.content_put {p : Place} {content : Content} {value : Expr} :
    (env.put p content).content value = env.content value := by
  cases value <;> rfl

theorem Env.out_put_put {p : Place} {a b : Content} :
    ((env.put p a).put p b).out = (env.put p b).out :=
  Output.put_put ..

/-! ## Whole values -/

/-- Under its check a value is assigned where its source is present, and nothing happens elsewhere.
-/
theorem run_assignPresent {target : Place} {value : Candidate → Expr} {c : Candidate}
    (output : target.root = .output) : (assignPresent target value c).run env =
      if env.holds (.isPresent c.place) then env.put target (env.content (value c)) else env := by
  rw [assignPresent, Statement.guarded, Statement.run]
  simp only [Block.run_cons, Block.run_nil, Statement.run, Env.assign, output]

/-- Of two sources the output has the one that is taken. -/
theorem out_assignChoice {target : Place} {value : Candidate → Expr} {primary fallback : Candidate}
    (output : target.root = .output) :
    (Block.run (assignChoice true target value ⟨primary, some fallback⟩) env).out =
      (Block.run (assignChoice true target value (.direct (env.taken primary fallback)))
        env).out := by
  simp only [assignChoice, Choice.direct, if_true, Block.run_cons, Block.run_nil,
    run_assignPresent output, Env.taken]
  by_cases present : env.holds (.isPresent primary.place) = true
  · by_cases other : env.holds (.isPresent fallback.place) = true
    · simp [present, other, Env.out_put_put]
    · simp [present, other]
  · by_cases other : env.holds (.isPresent fallback.place) = true
    · simp [present, other]
    · simp [present, other]

/-- Without its only source, an optional value is not written. -/
theorem out_assignChoice_absent {target : Place} {value : Candidate → Expr} {primary : Candidate}
    (output : target.root = .output) (absent : env.holds (.isPresent primary.place) = false) :
    (Block.run (assignChoice true target value ⟨primary, none⟩) env).out = env.out := by
  simp [assignChoice, run_assignPresent output, absent]

/-! ## Structs -/

/-- The block for a source acts by the presence of the source, also where the check is left out
because the source is always there. -/
theorem run_ifPresent {source : Candidate} {block otherwise : Block} (h : source.Coherent) :
    Block.run (ifPresent source block otherwise) env =
      if env.holds (.isPresent source.place) then Block.run block env
      else Block.run otherwise env := by
  unfold ifPresent
  split
  · rw [Block.run_singleton, Statement.run]
  · next required =>
    have present : env.holds (.isPresent source.place) = true := by
      simp [Env.holds, h.trans (Bool.eq_false_iff.2 required)]
    rw [if_pos present]

/-- The block of a struct with two sources acts like that for the one that is taken. -/
theorem run_structBlock {slot : Slot} {body : Candidate → Block} {primary fallback : Candidate}
    (coherent : primary.Coherent ∧ fallback.Coherent) :
    Block.run (structBlock slot ⟨primary, some fallback⟩ body) env =
      Block.run (structBlock slot (.direct (env.taken primary fallback)) body) env := by
  simp only [structBlock, Choice.direct, Env.taken, run_ifPresent coherent.1]
  by_cases present : env.holds (.isPresent primary.place) = true
  · rw [if_pos present, if_pos present, run_ifPresent coherent.1, if_pos present]
  · rw [if_neg present, if_neg present]

/-- Without its only source, a struct becomes null. -/
theorem run_structBlock_absent {slot : Slot} {body : Candidate → Block} {primary : Candidate}
    (coherent : primary.Coherent) (output : slot.place.root = .output)
    (absent : env.holds (.isPresent primary.place) = false) :
    Block.run (structBlock slot ⟨primary, none⟩ body) env = env.put slot.place .null := by
  simp [structBlock, run_ifPresent coherent, absent, Statement.run, Env.assign, output, Env.content]

/-! ## Aggregates -/

/-- Staging a source sets the variable and, for structs, the flag, and nothing else. -/
theorem run_take {s : Settings} (path : Path) (boxed optional taken : Bool) (c : Candidate)
    (env : Env) {after : Env} (apart : s.StagedApart)
    (h : Block.run (takeBlock s path boxed optional taken c) env = after) :
    after.Agree s.loopNames env ∧
      (∀ o, after.get (.var (sourceListVar s path) o) = env.get c.place) ∧
      (boxed = true → after.vars (overrideFlagVar s path) = some (.bool taken)) := by
  -- the variables of loops are not those that are assigned here
  have list : ∀ n, s.loopNames n → n ≠ sourceListVar s path := by
    rintro n mem rfl
    exact apart.sourceList path mem
  have flag : ∀ n, s.loopNames n → n ≠ overrideFlagVar s path := by
    rintro n mem rfl
    exact apart.overrideFlag path mem
  have each := apart.each path path
  subst h
  -- with structs there is a flag as well, which is another variable than the list
  cases boxed with
  | false =>
    refine ⟨⟨rfl, rfl, fun n mem => ?_⟩, fun o => ?_, fun h => by cases h⟩
    · simp [takeBlock, Statement.run, Env.assign, Place.var, Env.set, list n mem]
    · simp [takeBlock, Statement.run, Env.assign, Place.var, Env.set, Env.held, Env.get, Env.root,
        Env.location, Data.follow]
  | true =>
    refine ⟨⟨rfl, rfl, fun n mem => ?_⟩, fun o => ?_, fun _ => ?_⟩
    · simp [takeBlock, Statement.run, Env.assign, Place.var, Env.set, list n mem, flag n mem]
    · simp [takeBlock, Statement.run, Env.assign, Place.var, Env.set, Env.held, Env.get, Env.root,
        Env.location, Data.follow, each]
    · simp [takeBlock, Statement.run, Env.assign, Place.var, Env.set, Env.held]

/-- After staging the variable holds the source that is taken, and the flag tells which it is. -/
theorem run_stage {s : Settings} (path : Path) (boxed : Bool) {primary : Candidate}
    (fallback : Candidate) (env : Env) {after : Env} (apart : s.StagedApart)
    (scope : primary.place.Over s.loopNames)
    (h : Block.run (stage s path boxed ⟨primary, some fallback⟩).block env = after) :
    after.Agree s.loopNames env ∧
      (∀ o, after.get (.var (sourceListVar s path) o) =
        env.get (env.taken primary fallback).place) ∧
      (boxed = true → after.vars (overrideFlagVar s path) =
        some (.bool (env.holds (.isPresent primary.place)))) := by
  obtain ⟨agree, list, flag⟩ := run_take path boxed fallback.optional false fallback env
    apart rfl
  have same := agree.isPresent scope
  subst h
  rw [stage_block, Block.run_append, Block.run_singleton, Statement.guarded, Statement.run]
  by_cases present : env.holds (.isPresent primary.place) = true
  · rw [if_pos (same.trans present)]
    obtain ⟨agree', list', flag'⟩ := run_take path boxed fallback.optional true primary _
      apart rfl
    refine ⟨agree'.trans agree, fun o => ?_, fun isBoxed => ?_⟩
    · rw [list', Env.taken, if_pos present, agree.get scope]
    · rw [flag' isBoxed, present]
  · rw [if_neg (by rw [same]; exact present), Block.run_nil]
    refine ⟨agree, fun o => ?_, fun isBoxed => ?_⟩
    · rw [list, Env.taken, if_neg present]
    · rw [flag isBoxed, Bool.eq_false_iff.2 present]

/-- Filling from equal data agrees if turns do, which may look at one variable that they keep. -/
theorem fill_related {s : Settings} {slot : Slot} {shape : Shape} {name kept : String}
    {boxed : Bool} {i j : Place} {p q : Block} {a b : Env} (held : Option Local)
    (scope : slot.place.Over s.loopNames) (apart : ¬ s.loopNames kept)
    (turns : ∀ a b : Env, a.Agree s.loopNames b → a.vars kept = held →
      (Block.run p a).Agree s.loopNames (Block.run q b) ∧ (Block.run p a).vars kept = held)
    (h : a.Agree s.loopNames b) (marked : a.vars kept = held) (same : a.get i = b.get j) :
    (Block.run (fillBlock s slot shape name boxed i p) a).Agree s.loopNames
      (Block.run (fillBlock s slot shape name boxed j q) b) := by
  have free : kept ∉ (loopBinding s shape).names :=
    fun mem => apart (Settings.loopNames_of_mem mem)
  have looped := run_loop_related (loopBinding s shape) (p := p) (q := q) (i := i) (j := j)
    (R := fun a b => a.Agree s.loopNames b ∧ a.vars kept = held)
    (fun a b t related => by
      obtain ⟨h, marked⟩ := related
      obtain ⟨agree, keeps⟩ := turns _ _ (h.enter (loopBinding s shape) t)
        ((Env.vars_enter free).trans marked)
      refine ⟨h.leave agree _, ?_⟩
      rw [Env.vars_leave fun _ => keeps.trans marked.symm]
      exact marked)
    ⟨h.allocate scope same (storage name boxed shape), by rw [Env.vars_allocate]; exact marked⟩
    (by rw [Env.get_allocate, Env.get_allocate]; exact same)
  simpa [fillBlock, Statement.run] using looped.1

/-- A block under a presence check of an optional place, and else null. -/
def ifFilled (iterable target : Place) (filling : Block) : Block :=
  if iterable.optional then [.branch (.isPresent iterable) filling [.assign target .null]]
  else filling

/-- A list or map is filled where what it is filled from is present, and becomes null elsewhere. -/
theorem run_ifFilled {iterable target : Place} {filling : Block} (output : target.root = .output) :
    Block.run (ifFilled iterable target filling) env =
      if env.holds (.isPresent iterable) then Block.run filling env else env.put target .null := by
  unfold ifFilled
  split
  · rw [Block.run_singleton, Statement.run, Block.run_singleton, Statement.run, Env.assign, output]
    rfl
  · next required =>
    rw [if_pos (by simp [Env.holds, required])]

/-- Of two aggregates the output is filled from the one that is taken. -/
theorem out_aggregateBlock {s : Settings} {slot : Slot} {shape : Shape} {name : String}
    {boxed : Bool} {primary fallback : Candidate} {turn alone : Block} (apart : s.StagedApart)
    (output : slot.place.root = .output) (target : slot.place.Over s.loopNames)
    (scope : primary.place.Over s.loopNames) (optional : primary.place.optional = true)
    (coherent : fallback.Coherent)
    (turns : ∀ a b : Env, a.Agree s.loopNames b →
      (boxed = true → a.vars (overrideFlagVar s slot.path) =
        some (.bool (env.holds (.isPresent primary.place)))) →
      (Block.run turn a).Agree s.loopNames (Block.run alone b) ∧
        (Block.run turn a).vars (overrideFlagVar s slot.path) =
          a.vars (overrideFlagVar s slot.path)) :
    (Block.run (aggregateBlock s slot shape ⟨primary, some fallback⟩ name boxed turn) env).out =
      (Block.run (aggregateBlock s slot shape (.direct (env.taken primary fallback)) name boxed
        alone) env).out := by
  obtain ⟨agree, list, flag⟩ := run_stage slot.path boxed fallback env apart scope rfl
  let after := Block.run (stage s slot.path boxed ⟨primary, some fallback⟩).block env
  let staged := Place.var (sourceListVar s slot.path) fallback.optional
  let source := (env.taken primary fallback).place
  have filled : (Block.run (fillBlock s slot shape name boxed staged turn) after).out =
      (Block.run (fillBlock s slot shape name boxed source alone) env).out := by
    refine (fill_related (after.vars (overrideFlagVar s slot.path)) target
      (apart.overrideFlag slot.path) (fun a b h marked => ?_) agree rfl (list _)).out
    obtain ⟨agree', keeps⟩ := turns a b h fun isBoxed => marked.trans (flag isBoxed)
    exact ⟨agree', keeps.trans marked⟩
  -- the variable is present when the source that is taken is
  have check : after.holds (.isPresent staged) = env.holds (.isPresent source) := by
    have data : after.get staged = env.get source := list _
    simp only [Env.holds, data]
    by_cases present : env.holds (.isPresent primary.place) = true
    · have some : (env.get primary.place).isAbsent = false := by
        simpa [Env.holds, optional] using present
      simp [staged, source, Env.taken, present, some]
    · simp [staged, source, Env.taken, present, Place.var, coherent.symm]
  show (Block.run (_ ++ ifFilled staged slot.place _) env).out =
    (Block.run ([] ++ ifFilled source slot.place _) env).out
  rw [Block.run_append, List.nil_append, run_ifFilled output, run_ifFilled output, check]
  split
  · exact filled
  · exact (agree.put target .null).out

/-- Without its only source, a list or map becomes null. -/
theorem run_aggregateBlock_absent {s : Settings} {slot : Slot} {shape : Shape} {name : String}
    {boxed : Bool} {primary : Candidate} {turn : Block} (output : slot.place.root = .output)
    (absent : env.holds (.isPresent primary.place) = false) :
    Block.run (aggregateBlock s slot shape ⟨primary, none⟩ name boxed turn) env =
      env.put slot.place .null := by
  show Block.run ([] ++ ifFilled primary.place slot.place _) env = _
  rw [List.nil_append, run_ifFilled output, if_neg (by simp [absent])]

end

end Crosswalk
