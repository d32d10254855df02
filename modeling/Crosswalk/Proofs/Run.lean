import Crosswalk.Proofs.Site

/-!
# Running programs

What a program does to its output, on data of any shape. Absence passes from a value to all below
it. A place that is required counts as present: where its parents are absent it reads as absent data
and so as the default.
-/

namespace Crosswalk
set_option autoImplicit false

/-- Run-time values; a struct has the fields that are present. -/
inductive Data
  | absent
  | scalar (text : String)
  | struct (fields : List (String × Data))
  | list (items : List Data)
  | map (entries : List (String × Data))

/-- An access whose binding is replaced by the position or the key it stands for. -/
inductive Step
  | field (name : String)
  | index (position : Nat)
  | key (text : String)
  deriving DecidableEq

/-- What a variable holds. -/
inductive Local
  | data (value : Data)
  | bool (value : Bool)
  | index (position : Nat)
  | key (text : String)

namespace Data

/-- Whether there is no value. -/
def isAbsent : Data → Bool
  | absent => true
  | _ => false

/-- What stands one step below a value; absent where nothing does. -/
def step : Data → Step → Data
  | struct fields, .field name => (fields.lookup name).getD absent
  | list items, .index position => items[position]?.getD absent
  | map entries, .key text => (entries.lookup text).getD absent
  | _, _ => absent

/-- What stands some steps below a value. -/
def follow (d : Data) (steps : List Step) : Data :=
  steps.foldl step d

/-- The turns of a loop: what its counter and its element are. -/
def turns : Data → List (Local × Data)
  | list items => items.zipIdx.map fun (d, position) => (.index position, d)
  | map entries => entries.map fun (text, d) => (.key text, d)
  | _ => []

/-- Below what is absent all is absent. -/
@[simp] theorem follow_absent (steps : List Step) : follow absent steps = absent := by
  induction steps with
  | nil => rfl
  | cons first rest ih => exact ih

theorem follow_append (d : Data) (a b : List Step) : d.follow (a ++ b) = (d.follow a).follow b := by
  simp [follow]

theorem isAbsent_iff {d : Data} : d.isAbsent = true ↔ d = absent := by
  cases d <;> simp [isAbsent]

end Data

/-- What stands at a location of the output. -/
inductive Content
  | read (value : Data)
  | cast (type : String) (value : Data) (optional : Bool)
  | bytes (value : Data)
  | bool (value : Bool)
  | null
  /-- Fresh storage for a number of elements. -/
  | fresh (storage : Storage) (size : Nat)

/-- What has been written, location by location. -/
abbrev Output := List Step → Option Content

/-- Writes at a location; what was below it is gone. -/
def Output.put (out : Output) (location : List Step) (content : Content) : Output := fun l =>
  if l = location then some content else if location.isPrefixOf l then none else out l

/-- The last of two writes at a location counts. -/
@[simp] theorem Output.put_put (out : Output) (location : List Step) (a b : Content) :
    (out.put location a).put location b = out.put location b := by
  funext l
  simp only [put]
  split
  · rfl
  · split <;> rfl

/-- What a program reads and writes. -/
structure Env where
  input : Data
  vars : String → Option Local
  out : Output

namespace Env

/-- Sets a variable. -/
def set (env : Env) (name : String) (value : Local) : Env :=
  { env with vars := fun n => if n = name then some value else env.vars n }

/-- The step that an access stands for; a variable that is not bound counts as the first position or
the empty key. -/
def step (env : Env) : Access → Step
  | .field name _ => .field name
  | .index binding =>
    match env.vars binding with
    | some (.index position) => .index position
    | _ => .index 0
  | .key binding =>
    match env.vars binding with
    | some (.key text) => .key text
    | _ => .key ""

/-- The value at the root of a place. The output is not read. -/
def root (env : Env) : Root → Data
  | .input => env.input
  | .output => .absent
  | .var name =>
    match env.vars name with
    | some (.data d) => d
    | _ => .absent

/-- The steps from the root to a place. -/
def location (env : Env) (p : Place) : List Step :=
  p.accesses.map env.step

/-- The value that is read at a place. -/
def get (env : Env) (p : Place) : Data :=
  (env.root p.root).follow (env.location p)

/-- Whether a condition holds. A required place always counts as present. -/
def holds (env : Env) : Condition → Bool
  | .isPresent p => !p.optional || !(env.get p).isAbsent
  | .flag name =>
    match env.vars name with
    | some (.bool b) => b
    | _ => false

/-- What an expression leaves at a location of the output. -/
def content (env : Env) : Expr → Content
  | .read p => .read (env.get p)
  | .cast type p optional => .cast type (env.get p) optional
  | .bytes p => .bytes (env.get p)
  | .bool b => .bool b
  | .null => .null

/-- What a variable holds after an assignment. -/
def held (env : Env) : Expr → Local
  | .read p => .data (env.get p)
  | .cast _ p _ => .data (env.get p)
  | .bytes p => .data (env.get p)
  | .bool b => .bool b
  | .null => .data .absent

/-- Writes at a place of the output. -/
def put (env : Env) (p : Place) (content : Content) : Env :=
  { env with out := env.out.put (env.location p) content }

/-- Assigns a place, or a variable. The input is not written. -/
def assign (env : Env) (target : Place) (value : Expr) : Env :=
  match target.root with
  | .input => env
  | .output => env.put target (env.content value)
  | .var name => env.set name (env.held value)

/-- Allocates storage at a place of the output, for as many elements as the hint has. -/
def allocate (env : Env) (target : Place) (storage : Storage) (hint? : Option Place) : Env :=
  match target.root with
  | .output => env.put target (.fresh storage (hint?.elim 0 fun p => (env.get p).turns.length))
  | _ => env

/-- Allocations are not read. -/
@[simp] theorem get_allocate {env : Env} {target q : Place} {storage : Storage}
    {hint? : Option Place} :
    (env.allocate target storage hint?).get q = env.get q := by
  unfold allocate
  split <;> rfl

/-- Allocations set no variables. -/
@[simp] theorem vars_allocate {env : Env} {target : Place} {storage : Storage}
    {hint? : Option Place} :
    (env.allocate target storage hint?).vars = env.vars := by
  unfold allocate
  split <;> rfl

/-- Binds the variables of a loop for a turn. -/
def enter (env : Env) (binding : Binding) (turn : Local × Data) : Env :=
  (env.set binding.counter turn.1).set binding.value (.data turn.2)

/-- After a turn, the variables of the loop are again what they were before. -/
def leave (env : Env) (binding : Binding) (inner : Env) : Env :=
  { inner with vars := fun n => if n ∈ binding.names then env.vars n else inner.vars n }

end Env

mutual

/-- The environment after a statement. A loop runs its body once for each element of what it goes
over, and what is written in a turn is there in the next. -/
def Statement.run : Statement → Env → Env
  | .assign target value, env => env.assign target value
  | .allocate target storage hint?, env => env.allocate target storage hint?
  | .branch condition yes no, env =>
    if env.holds condition then Block.run yes env else Block.run no env
  | .loop iterable binding body, env =>
    (env.get iterable).turns.foldl
      (fun env turn => env.leave binding (Block.run body (env.enter binding turn))) env

/-- The environment after the statements of a block. -/
def Block.run : List Statement → Env → Env
  | [], env => env
  | s :: rest, env => Block.run rest (s.run env)

end

namespace Block

@[simp] theorem run_nil (env : Env) : run [] env = env := by
  rw [run]

@[simp] theorem run_cons (s : Statement) (rest : Block) (env : Env) :
    run (s :: rest) env = run rest (s.run env) := by
  rw [run]

theorem run_singleton (s : Statement) (env : Env) : run [s] env = s.run env := by
  rw [run_cons, run_nil]

@[simp] theorem run_append (a b : Block) (env : Env) : run (a ++ b) env = run b (run a env) := by
  induction a generalizing env with
  | nil => simp
  | cons s rest ih => simp [ih]

end Block

end Crosswalk
