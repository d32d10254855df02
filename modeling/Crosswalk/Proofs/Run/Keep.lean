import Crosswalk.Proofs.Run

/-!
# Variables that are kept

A program keeps every variable that none of its statements assigns, whatever its loops bind.
-/

namespace Crosswalk
set_option autoImplicit false

/-- The variable that a statement assigns. -/
def Statement.assigned? : Statement → Option String
  | assign target _ =>
    match target.root with
    | .var name => some name
    | _ => none
  | _ => none

namespace Env
variable {env inner : Env} {name : String}

theorem vars_assign {target : Place} {value : Expr}
    (h : (Statement.assign target value).assigned? ≠ some name) :
    (env.assign target value).vars name = env.vars name := by
  unfold assign
  cases hr : target.root with
  | input => rfl
  | output => rfl
  | var n =>
    have other : name ≠ n := by
      rintro rfl
      simp [Statement.assigned?, hr] at h
    simp [set, other]

theorem vars_enter {binding : Binding} {turn : Local × Data} (h : name ∉ binding.names) :
    (env.enter binding turn).vars name = env.vars name := by
  simp only [Binding.names, List.mem_cons, List.not_mem_nil, or_false, not_or] at h
  simp [enter, set, h]

theorem vars_leave {binding : Binding}
    (h : name ∉ binding.names → inner.vars name = env.vars name) :
    (env.leave binding inner).vars name = env.vars name := by
  simp only [leave]
  split
  · rfl
  · next other => exact h other

end Env

mutual

theorem Statement.run_keeps {name : String} : ∀ (s : Statement) {site : Site},
    Everywhere (fun _ s => s.assigned? ≠ some name) site [s] →
      ∀ env, (s.run env).vars name = env.vars name
  | .assign target value, _, h, env => Env.vars_assign (everywhere_assign.1 h)
  | .allocate target storage hint?, _, _, env => by
    rw [Statement.run, Env.vars_allocate]
  | .branch condition yes no, _, h, env => by
    obtain ⟨_, inYes, inNo⟩ := everywhere_branch.1 h
    rw [Statement.run]
    split
    · exact Block.run_keeps yes inYes env
    · exact Block.run_keeps no inNo env
  | .loop iterable binding body, _, h, env => by
    obtain ⟨_, inside⟩ := everywhere_loop.1 h
    -- by the turns: a loop variable of the same name is put back when the turn ends
    have turns : ∀ (l : List (Local × Data)) (env : Env),
        (l.foldl (fun env turn => env.leave binding (Block.run body (env.enter binding turn)))
          env).vars name = env.vars name := by
      intro l
      induction l with
      | nil => exact fun env => rfl
      | cons turn rest ih =>
        intro env
        rw [List.foldl_cons, ih]
        refine Env.vars_leave fun other => ?_
        rw [Block.run_keeps body inside, Env.vars_enter other]
    exact turns _ env

theorem Block.run_keeps {name : String} : ∀ (block : List Statement) {site : Site},
    Everywhere (fun _ s => s.assigned? ≠ some name) site block →
      ∀ env, (Block.run block env).vars name = env.vars name
  | [], _, _, env => by rw [Block.run]
  | s :: rest, _, h, env => by
    obtain ⟨first, others⟩ := everywhere_cons.1 h
    rw [Block.run, Block.run_keeps rest others, Statement.run_keeps s first]

end

end Crosswalk
