import Crosswalk.Place

/-!
# Statements

A conversion is a block of statements over places, independent of the language it is written out
in. `walk` lists the statements of a block in depth-first order with an explicit list of what is
still to be visited.
-/

namespace Crosswalk
set_option autoImplicit false

/-- A value that is assigned. -/
inductive Expr
  | read (source : Place)
  /-- The value converted to a type, wrapped if the destination is optional. -/
  | cast (type : String) (source : Place) (optional : Bool)
  | bytes (source : Place)
  | bool (value : Bool)
  /-- The absent value. -/
  | null
  deriving DecidableEq, Repr

/-- What a branch is taken on. -/
inductive Condition
  | isPresent (place : Place)
  | flag (name : String)
  deriving DecidableEq, Repr

/-- The variables of a loop over a list or over a map. -/
inductive Binding
  | index (index value : String)
  | key (key value : String)
  deriving DecidableEq, Repr

/-- What an allocation creates; a boxed aggregate holds structs. -/
inductive Storage
  | struct (type : String)
  | list (element : String) (boxed : Bool)
  | map (value : String) (boxed : Bool)
  deriving DecidableEq, Repr

/-- A statement, with the blocks inside it. -/
inductive Statement
  | assign (target : Place) (value : Expr)
  /-- Fresh storage, as large as the aggregate at `sizeHint?`. -/
  | allocate (target : Place) (storage : Storage) (sizeHint? : Option Place)
  | branch (condition : Condition) (yes no : List Statement)
  | loop (iterable : Place) (binding : Binding) (body : List Statement)
  deriving Repr

/-- Statements that run one after the other. -/
abbrev Block := List Statement

namespace Statement

/-- A branch with nothing to do otherwise. -/
def guarded (condition : Condition) (yes : Block) : Statement :=
  branch condition yes []

/-- The blocks inside a statement, in order. -/
def children : Statement → List Block
  | assign .. => []
  | allocate .. => []
  | branch _ yes no => [yes, no]
  | loop _ _ body => [body]

mutual

/-- The number of statements in a statement, itself included. -/
def size : Statement → Nat
  | assign .. => 1
  | allocate .. => 1
  | branch _ yes no => 1 + sizeAll yes + sizeAll no
  | loop _ _ body => 1 + sizeAll body

/-- The number of statements in a block, with all those inside them. -/
def sizeAll : List Statement → Nat
  | [] => 0
  | s :: rest => s.size + sizeAll rest

end

/-- Blocks are counted one after the other. -/
@[simp] theorem sizeAll_append (a b : Block) : sizeAll (a ++ b) = sizeAll a + sizeAll b := by
  induction a with
  | nil => simp [sizeAll]
  | cons s rest ih => simp [sizeAll, ih, Nat.add_assoc]

/-- A statement counts for one more than the blocks inside it. -/
theorem sizeAll_children (s : Statement) : sizeAll s.children.flatten + 1 = s.size := by
  cases s <;> simp [children, size, sizeAll] <;> omega

end Statement

namespace Block

/-- The statements of a block with those inside them, each before what it holds. -/
def walk : Block → List Statement
  | [] => []
  | s :: rest => s :: walk (s.children.flatten ++ rest)
termination_by pending => Statement.sizeAll pending
decreasing_by
  have := Statement.sizeAll_children s
  simp only [Statement.sizeAll_append, Statement.sizeAll]
  omega

end Block

end Crosswalk
