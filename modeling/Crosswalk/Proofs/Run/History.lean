import Crosswalk.Proofs.Run.Keep

/-!
# What a run performs

The history of a run has what the run performs, in order: what it assigns, what it allocates and
which loops it comes to, each with the state before it. A branch is not in it, but only what is
performed on the side that is taken.
-/

namespace Crosswalk
set_option autoImplicit false

/-- The states in which the turns of a loop begin. -/
def Env.starts (binding : Binding) (body : Block) : List (Local × Data) → Env → List Env
  | [], _ => []
  | turn :: rest, env =>
    env.enter binding turn ::
      starts binding body rest (env.leave binding (Block.run body (env.enter binding turn)))

abbrev History := List (Env × Statement)

mutual

/-- The statements that a statement performs in a run, each with the state it is performed in. A
check performs one of its branches and a loop its body once for each element, from the states in
which the turns begin. -/
def Statement.history : Statement → Env → History
  | .assign target value, env => [(env, .assign target value)]
  | .allocate target storage hint?, env => [(env, .allocate target storage hint?)]
  | .branch condition yes no, env =>
    if env.holds condition then Block.history yes env else Block.history no env
  | .loop iterable binding body, env =>
    (env, .loop iterable binding body) ::
      (Env.starts binding body (env.get iterable).turns env).flatMap (Block.history body)

/-- What the statements of a block perform from an environment. -/
def Block.history : List Statement → Env → History
  | [], _ => []
  | s :: rest, env => s.history env ++ Block.history rest (s.run env)

end

namespace Block

@[simp] theorem history_nil (env : Env) : history [] env = [] := by
  rw [history]

/-- A block performs its first statement and then the others, in the state that the first leaves. -/
@[simp] theorem history_cons (s : Statement) (rest : Block) (env : Env) :
    history (s :: rest) env = s.history env ++ history rest (s.run env) := by
  rw [history]

theorem history_singleton (s : Statement) (env : Env) : history [s] env = s.history env := by
  simp

/-- Blocks in a row perform one after the other, the second in the state that the first leaves. -/
@[simp] theorem history_append (a b : Block) (env : Env) :
    history (a ++ b) env = history a env ++ history b (run a env) := by
  induction a generalizing env with
  | nil => simp
  | cons s rest ih => simp [ih]

/-- From a state a block performs what another performs, and ends in the same state. -/
structure ActsAs (env : Env) (a b : Block) : Prop where
  history : history a env = history b env
  run : run a env = run b env

namespace ActsAs
variable {env : Env} {a b c : Block}

theorem refl : ActsAs env a a :=
  ⟨rfl, rfl⟩

theorem trans (h : ActsAs env a b) (h' : ActsAs env b c) : ActsAs env a c :=
  ⟨h.history.trans h'.history, h.run.trans h'.run⟩

/-- A check that holds performs its first branch. -/
theorem of_holds {condition : Condition} (h : env.holds condition = true) :
    ActsAs env [.branch condition a b] a where
  history := by rw [history_singleton, Statement.history, if_pos h]
  run := by rw [run_singleton, Statement.run, if_pos h]

/-- A check that does not hold performs its second branch. -/
theorem of_not_holds {condition : Condition} (h : env.holds condition = false) :
    ActsAs env [.branch condition a b] b where
  history := by rw [history_singleton, Statement.history, if_neg (by simp [h])]
  run := by rw [run_singleton, Statement.run, if_neg (by simp [h])]

end ActsAs

end Block

/-- A variable that a loop neither binds nor assigns is the same wherever a turn begins. -/
theorem Env.vars_of_mem_starts {binding : Binding} {body : Block} {name : String} {site : Site}
    (free : name ∉ binding.names)
    (unassigned : Everywhere (fun _ t => t.assigned? ≠ some name) site body)
    {turns : List (Local × Data)} {env start : Env} (mem : start ∈ starts binding body turns env) :
    start.vars name = env.vars name := by
  induction turns generalizing env with
  | nil => cases mem
  | cons turn rest ih =>
    rcases List.mem_cons.1 mem with rfl | mem
    · exact vars_enter free
    · rw [ih mem]
      refine vars_leave fun _ => ?_
      rw [Block.run_keeps body unassigned, vars_enter free]

end Crosswalk
