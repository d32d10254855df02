import Crosswalk.Proofs.Run

/-!
# Environments that agree

Two environments that agree on some variables, and on the input and the output, are not told apart
by places over these variables.
-/

namespace Crosswalk
set_option autoImplicit false

/-- The variable that an access goes by. -/
def Access.binding? : Access → Option String
  | .field .. => none
  | .index binding => some binding
  | .key binding => some binding

/-- A place whose variables are all among some names. -/
def Place.Over (names : String → Prop) (p : Place) : Prop :=
  (∀ name, p.root = .var name → names name) ∧
    ∀ access ∈ p.accesses, ∀ name, access.binding? = some name → names name

/-- Two states in which the same is read by the given names: input and output are the same, and so
are the variables of these names. Other variables may differ. -/
structure Env.Agree (names : String → Prop) (a b : Env) : Prop where
  input : a.input = b.input
  out : a.out = b.out
  vars : ∀ name, names name → a.vars name = b.vars name

namespace Place.Over
variable {names more : String → Prop} {p : Place}

theorem mono (h : p.Over names) (among : ∀ n, names n → more n) : p.Over more :=
  ⟨fun name root => among name (h.1 name root),
    fun access mem name binds => among name (h.2 access mem name binds)⟩

theorem input : Place.input.Over names :=
  ⟨fun _ root => (by cases root), fun _ mem => (by cases mem)⟩

theorem output : Place.output.Over names :=
  ⟨fun _ root => (by cases root), fun _ mem => (by cases mem)⟩

theorem var {name : String} {optional : Bool} (h : names name) :
    (Place.var name optional).Over names := by
  refine ⟨fun n root => ?_, fun access mem => by cases mem⟩
  cases root
  exact h

/-- A place one access below another goes by the same names, and by the one that the access binds.
-/
theorem snoc {access : Access} {optional : Bool} (h : p.Over names)
    (binds : ∀ n, access.binding? = some n → names n) :
    Place.Over names ⟨p.root, p.accesses ++ [access], optional⟩ := by
  refine ⟨h.1, fun other mem => ?_⟩
  rcases List.mem_append.1 mem with mem | mem
  · exact h.2 other mem
  · obtain rfl := List.mem_singleton.1 mem
    exact binds

/-- A field binds no name, so a place goes down to it in any scope. -/
theorem field {name : String} {optional : Bool} (h : p.Over names) :
    (p.field name optional).Over names :=
  h.snoc fun n binds => by cases binds

end Place.Over

namespace Env.Agree
variable {names : String → Prop} {a b : Env} {p : Place}

theorem trans {c : Env} (h : Agree names a b) (h' : Agree names b c) : Agree names a c :=
  ⟨h.input.trans h'.input, h.out.trans h'.out, fun n mem => (h.vars n mem).trans (h'.vars n mem)⟩

theorem mono {fewer : String → Prop} (h : Agree names a b) (among : ∀ n, fewer n → names n) :
    Agree fewer a b :=
  ⟨h.input, h.out, fun name mem => h.vars name (among name mem)⟩

/-- The accesses of a place lead to the same path in both states, for the counters in it are in
scope. -/
theorem location (h : Agree names a b) (scope : p.Over names) : a.location p = b.location p := by
  refine List.map_congr_left fun access mem => ?_
  cases access with
  | field name optional => rfl
  | index binding => simp only [Env.step, h.vars binding (scope.2 _ mem binding rfl)]
  | key binding => simp only [Env.step, h.vars binding (scope.2 _ mem binding rfl)]

/-- A place in scope holds the same in both states. -/
theorem get (h : Agree names a b) (scope : p.Over names) : a.get p = b.get p := by
  rw [Env.get, Env.get, h.location scope]
  congr 1
  cases hr : p.root with
  | input => exact h.input
  | output => rfl
  | var name => simp only [Env.root, h.vars name (scope.1 name hr)]

/-- A check of a place in scope has one result in both states. -/
theorem isPresent (h : Agree names a b) (scope : p.Over names) :
    a.holds (.isPresent p) = b.holds (.isPresent p) := by
  simp only [Env.holds, h.get scope]

theorem flag (h : Agree names a b) {name : String} (mem : names name) :
    a.holds (.flag name) = b.holds (.flag name) := by
  simp only [Env.holds, h.vars name mem]

/-- What is written at a place in scope is written at the same path of the output. -/
theorem put (h : Agree names a b) (scope : p.Over names) (content : Content) :
    Agree names (a.put p content) (b.put p content) :=
  ⟨h.input, by simp only [Env.put, h.out, h.location scope], h.vars⟩

/-- Of a variable that is set in both states, the name comes into scope. -/
theorem set (h : Agree names a b) (name : String) (value : Local) :
    Agree (fun n => n = name ∨ names n) (a.set name value) (b.set name value) := by
  refine ⟨h.input, h.out, fun n mem => ?_⟩
  simp only [Env.set]
  split
  · rfl
  · next other => exact h.vars n (mem.resolve_left other)

/-- Storage for as many elements is allocated if the places that are counted hold the same. -/
theorem allocate (h : Agree names a b) {q q' : Place} (scope : p.Over names)
    (same : a.get q = b.get q') (storage : Storage) :
    Agree names (a.allocate p storage (some q)) (b.allocate p storage (some q')) := by
  unfold Env.allocate
  split
  · simp only [Option.elim_some, same]
    exact h.put scope _
  · exact h

/-- At the beginning of a turn the variables of the loop are the same. -/
theorem enter (h : Agree names a b) (binding : Binding) (turn : Local × Data) :
    Agree names (a.enter binding turn) (b.enter binding turn) := by
  exact ((h.set _ _).set _ _).mono fun n mem => .inr (.inr mem)

/-- Behind a turn the variables of the loop are those from before it, and what the turn has written
stays. -/
theorem leave {inner inner' : Env} (h : Agree names a b) (h' : Agree names inner inner')
    (binding : Binding) : Agree names (a.leave binding inner) (b.leave binding inner') := by
  refine ⟨h'.input, h'.out, fun n mem => ?_⟩
  simp only [Env.leave, h.vars n mem, h'.vars n mem]

end Env.Agree

/-! ## Loops -/

/-- A relation of environments that turns preserve is preserved by loops over the same data. -/
theorem run_loop_related {R : Env → Env → Prop} (binding : Binding) {p q : Block} {i j : Place}
    (turn : ∀ a b t, R a b → R (a.leave binding (Block.run p (a.enter binding t)))
      (b.leave binding (Block.run q (b.enter binding t))))
    {a b : Env} (h : R a b) (same : a.get i = b.get j) :
    R ((Statement.loop i binding p).run a) ((Statement.loop j binding q).run b) := by
  rw [Statement.run, Statement.run, same]
  generalize (b.get j).turns = turns
  clear same
  induction turns generalizing a b with
  | nil => exact h
  | cons t rest ih => exact ih (turn a b t h)

end Crosswalk
