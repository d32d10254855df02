import Crosswalk.Code
import Crosswalk.Proofs.Preorder

/-!
# Variables that are visible in code

Read line by line, code opens and closes blocks, and a variable is visible from the line that
declares it to the end of the block that this line stands in. Wherever blocks are nested, and
whether a check has a block of its own or not, a variable is declared where it is not visible and
assigned again where it is.

`Models` ties the scopes of a reader of the lines to the variables that the writer of the code has
declared. `Written` says that lines keep this, and it is closed under `append` and under nesting in
a block of its own (`Written.inner`); `statementFits` and `written_blockLines` are the mutual
induction on statements and blocks.
-/

namespace Crosswalk
set_option autoImplicit false

mutual

/-- The variables that are set where a statement is written, in order. Nothing is written for the
other side of a check that always holds. -/
def Statement.setVars : Statement → List String
  | .assign target _ => target.asVar?.toList
  | .allocate .. => []
  | .branch condition yes no =>
    Block.setVars yes ++ if Code.holds condition then [] else Block.setVars no
  | .loop _ _ body => Block.setVars body

/-- The variables that are set in a block, in order. -/
def Block.setVars : Block → List String
  | [] => []
  | s :: rest => s.setVars ++ Block.setVars rest

end

namespace Code

/-! ## Reading blocks as scopes -/

namespace Line

/-- The variable that a line sets as a whole. -/
def var? : Line → Option String
  | declare name _ => some name
  | reassign name _ => some name
  | _ => none

/-- What is declared behind a line in each block around it, from the innermost on. -/
def scopesBehind (scopes : List (List String)) : Line → List (List String)
  | declare name _ => scopes.modifyHead (name :: ·)
  | reassign _ _ => scopes
  | store _ _ => scopes
  | openBranch _ => [] :: scopes
  | otherwise => [] :: scopes.tail
  | openLoop _ _ => [] :: scopes
  | close => scopes.tail

/-- A line does not declare what is visible, and assigns nothing else again. -/
def Fits (visible : List String) : Line → Prop
  | declare name _ => name ∉ visible
  | reassign name _ => name ∈ visible
  | _ => True

end Line

/-- What is declared behind lines in each block around them. -/
def scopesBehind (scopes : List (List String)) (lines : List Indented) : List (List String) :=
  lines.foldl (fun scopes l => l.line.scopesBehind scopes) scopes

/-- Every line fits what is visible behind the lines before it. -/
def EachFits (scopes : List (List String)) : List Indented → Prop
  | [] => True
  | l :: rest => l.line.Fits scopes.flatten ∧ EachFits (l.line.scopesBehind scopes) rest

section
variable {scopes outer : List (List String)} {own declared : List String}
  {a b : List Indented} {depth : Nat} {head : Line}

/-- The scopes behind lines in a row. -/
theorem scopesBehind_append :
    scopesBehind scopes (a ++ b) = scopesBehind (scopesBehind scopes a) b :=
  List.foldl_append

/-- Lines in a row fit if the second ones fit behind the first. -/
theorem eachFits_append :
    EachFits scopes (a ++ b) ↔ EachFits scopes a ∧ EachFits (scopesBehind scopes a) b := by
  induction a generalizing scopes with
  | nil => exact iff_of_eq (true_and _).symm
  | cons l rest ih => exact (and_congr_right' ih).trans and_assoc.symm

/-! ## Lines inside a block -/

/-- Lines that stand between the head and the end of a block. -/
structure Inner (scopes : List (List String)) (lines : List Indented) : Prop where
  fits : EachFits ([] :: scopes) lines
  outer : (scopesBehind ([] :: scopes) lines).tail = scopes

/-- The two blocks of a check are lines inside a block each. -/
theorem Inner.otherwise (depth : Nat) (ha : Inner scopes a) (hb : Inner scopes b) :
    Inner scopes (a ++ ⟨depth, .otherwise⟩ :: b) := by
  have behind : Line.otherwise.scopesBehind (scopesBehind ([] :: scopes) a) = [] :: scopes := by
    rw [Line.scopesBehind, ha.outer]
  constructor
  · refine eachFits_append.2 ⟨ha.fits, trivial, ?_⟩
    rw [behind]
    exact hb.fits
  · rw [scopesBehind_append, scopesBehind, List.foldl_cons, behind]
    exact hb.outer

/-- A whole block fits where its lines do, and nothing declared in it is visible behind it. -/
theorem Inner.enclosed (depth : Nat) (h : Inner scopes a)
    (opens : head.scopesBehind scopes = [] :: scopes) (plain : head.var? = none) :
    EachFits scopes (⟨depth, head⟩ :: a ++ [⟨depth, .close⟩]) ∧
      scopesBehind scopes (⟨depth, head⟩ :: a ++ [⟨depth, .close⟩]) = scopes := by
  have fits : head.Fits scopes.flatten := by
    cases head with
    | declare => cases plain
    | reassign => cases plain
    | _ => trivial
  constructor
  · refine ⟨fits, ?_⟩
    rw [opens]
    exact eachFits_append.2 ⟨h.fits, trivial, trivial⟩
  · rw [scopesBehind, List.cons_append, List.foldl_cons, opens, ← scopesBehind,
      scopesBehind_append]
    exact h.outer

/-! ## What is taken to be declared -/

/-- The variables taken to be declared are those that are visible. -/
def Models (declared : List String) (scopes : List (List String)) : Prop :=
  ∀ name, name ∈ declared ↔ name ∈ scopes.flatten

/-- In a new block the same variables are visible. -/
theorem Models.enter (h : Models declared scopes) : Models declared ([] :: scopes) :=
  h

/-- Lines written in a block, with the variables taken to be declared behind them. They fit, leave
the blocks around theirs as they are, and take nothing else to be declared than what is visible. -/
structure Written (own : List String) (outer : List (List String))
    (result : List Indented × List String) : Prop where
  fits : EachFits (own :: outer) result.1
  models : ∃ own', scopesBehind (own :: outer) result.1 = own' :: outer ∧
    Models result.2 (own' :: outer)

/-- Lines that are written in a new block stand inside of it. -/
theorem Written.inner {result : List Indented × List String} (h : Written [] scopes result) :
    Inner scopes result.1 := by
  obtain ⟨fits, own', behind, _⟩ := h
  exact ⟨fits, by rw [behind]; rfl⟩

/-- Without lines nothing changes. -/
theorem written_nil (h : Models declared (own :: outer)) : Written own outer ([], declared) :=
  ⟨trivial, own, rfl, h⟩

/-- Lines in a row are written if the second ones are, wherever the first ones lead. -/
theorem Written.append {first second : List Indented × List String}
    (h : Written own outer first)
    (next : ∀ own', Models first.2 (own' :: outer) → Written own' outer second) :
    Written own outer (first.1 ++ second.1, second.2) := by
  obtain ⟨fits, own', behind, models⟩ := h
  have later := next own' models
  constructor
  · rw [eachFits_append, behind]
    exact ⟨fits, later.fits⟩
  · rw [scopesBehind_append, behind]
    exact later.models

/-- A whole block leaves everything as it was. -/
theorem Inner.written (depth : Nat) (h : Inner (own :: outer) a)
    (opens : head.scopesBehind (own :: outer) = [] :: own :: outer) (plain : head.var? = none)
    (models : Models declared (own :: outer)) :
    Written own outer (⟨depth, head⟩ :: a ++ [⟨depth, .close⟩], declared) := by
  obtain ⟨fits, behind⟩ := h.enclosed depth opens plain
  exact ⟨fits, own, behind, models⟩

variable {s : Settings}

/-- A store declares nothing. -/
theorem written_store {target value : String} (models : Models declared (own :: outer)) :
    Written own outer ([⟨depth, .store target value⟩], declared) :=
  ⟨⟨trivial, trivial⟩, own, rfl, models⟩

/-- An assignment declares its variable if that is not visible yet. -/
theorem written_assignLine (target : Place) (value : String)
    (models : Models declared (own :: outer)) :
    Written own outer ([⟨depth, (assignLine s declared target value).1⟩],
      (assignLine s declared target value).2) := by
  unfold assignLine
  cases target.asVar? with
  | none => exact written_store models
  | some name =>
    by_cases known : name ∈ declared
    · simp only [known, if_true]
      exact ⟨⟨(models name).1 known, trivial⟩, own, rfl, models⟩
    · simp only [known, if_false]
      refine ⟨⟨fun visible => known ((models name).2 visible), trivial⟩, name :: own, rfl, ?_⟩
      intro other
      rw [List.mem_cons, models other, List.flatten_cons, List.flatten_cons, List.cons_append,
        List.mem_cons]

/-! ## Programs -/

/-- The lines of a statement fit wherever the visible variables are known. -/
def StatementFits (s : Settings) (t : Statement) : Prop :=
  ∀ depth declared own outer, Models declared (own :: outer) →
    Written own outer (statementLines s depth declared t)

/-- A block fits if its statements do. -/
theorem written_blockLines_of {block : Block} (h : ∀ t ∈ block, StatementFits s t)
    (models : Models declared (own :: outer)) :
    Written own outer (blockLines s depth declared block) := by
  induction block generalizing declared own with
  | nil => exact written_nil models
  | cons t rest ih =>
    obtain ⟨first, others⟩ := List.forall_mem_cons.1 h
    exact (first depth declared own outer models).append fun own' later => ih others later

/-- Every statement fits. -/
theorem statementFits (s : Settings) (t : Statement) : StatementFits s t := by
  -- induction on the statements inside; what a statement declares inside a block is gone behind it
  induction t using Statement.inside_induction with
  | step t ih =>
    intro depth declared own outer models
    have inside : ∀ block ∈ t.children, Inner (own :: outer)
        (blockLines s (depth + 1) declared block).1 :=
      fun block mem => (written_blockLines_of (ih block mem) models.enter).inner
    cases t with
    | assign target value => exact written_assignLine target _ models
    | allocate target storage sizeHint? => exact written_store models
    | branch condition yes no =>
      rw [statementLines]
      -- a check that always holds has no block of its own
      split
      · exact written_blockLines_of (ih yes List.mem_cons_self) models
      · have taken := inside yes List.mem_cons_self
        cases no with
        | nil => simpa using taken.written depth rfl rfl models
        | cons t rest =>
          have both := taken.otherwise depth
            (inside (t :: rest) (List.mem_cons_of_mem _ List.mem_cons_self))
          exact both.written depth rfl rfl models
    | loop iterable binding body =>
      have turn := inside body List.mem_cons_self
      rw [statementLines]
      exact turn.written depth (by cases binding <;> rfl) (by cases binding <;> rfl) models

/-- Every block fits. -/
theorem written_blockLines (block : Block) (models : Models declared (own :: outer)) :
    Written own outer (blockLines s depth declared block) :=
  written_blockLines_of (fun t _ => statementFits s t) models

/-- The variables that lines set. -/
def linesVars (lines : List Indented) : List String :=
  lines.filterMap (·.line.var?)

/-- The variables that lines in a row set. -/
theorem linesVars_append : linesVars (a ++ b) = linesVars a ++ linesVars b :=
  List.filterMap_append

/-- The lines of a block set what is set in it. -/
theorem linesVars_enclosed (depth : Nat) (a : List Indented) (plain : head.var? = none) :
    linesVars (⟨depth, head⟩ :: a ++ [⟨depth, .close⟩]) = linesVars a := by
  rw [linesVars_append, linesVars, List.filterMap_cons, plain]
  exact List.append_nil _

theorem linesVars_assignLine (target : Place) (value : String) :
    linesVars [⟨depth, (assignLine s declared target value).1⟩] = target.asVar?.toList := by
  unfold assignLine
  cases target.asVar? with
  | none => rfl
  | some name => by_cases known : name ∈ declared <;> simp [known, linesVars, Line.var?]

/-- A block sets its variables if its statements do. -/
theorem linesVars_blockLines_of {block : Block}
    (h : ∀ t ∈ block, ∀ depth declared,
      linesVars (statementLines s depth declared t).1 = t.setVars) :
    linesVars (blockLines s depth declared block).1 = block.setVars := by
  induction block generalizing declared with
  | nil => rfl
  | cons t rest ih =>
    obtain ⟨first, others⟩ := List.forall_mem_cons.1 h
    rw [blockLines, linesVars_append, first, ih others, Block.setVars]

/-- The lines of a statement set its variables. -/
theorem linesVars_statementLines (s : Settings) (t : Statement) (depth : Nat)
    (declared : List String) : linesVars (statementLines s depth declared t).1 = t.setVars := by
  -- induction on the statements inside; heads and ends of blocks set nothing
  induction t using Statement.inside_induction generalizing depth declared with
  | step t ih =>
    have inside : ∀ block ∈ t.children, ∀ depth declared,
        linesVars (blockLines s depth declared block).1 = block.setVars :=
      fun block mem _ _ => linesVars_blockLines_of (ih block mem)
    cases t with
    | assign target value => exact linesVars_assignLine target _
    | allocate target storage sizeHint? => rfl
    | branch condition yes no =>
      have taken := inside yes List.mem_cons_self
      have other := inside no (List.mem_cons_of_mem _ List.mem_cons_self)
      rw [statementLines, Statement.setVars]
      cases holds condition with
      | true => simpa using taken depth declared
      | false =>
        rw [if_neg Bool.false_ne_true, if_neg Bool.false_ne_true]
        cases no with
        | nil =>
          rw [← taken (depth + 1) declared, Block.setVars, List.append_nil]
          have plain : (Line.openBranch (conditionText s condition)).var? = none := rfl
          simpa using linesVars_enclosed depth _ plain
        | cons t rest =>
          rw [← taken (depth + 1) declared, ← other (depth + 1) declared]
          exact (linesVars_enclosed depth _ rfl).trans linesVars_append
    | loop iterable binding body =>
      rw [statementLines, Statement.setVars, ← inside body List.mem_cons_self (depth + 1) declared]
      exact linesVars_enclosed depth _ (by cases binding <;> rfl)

/-- The text of a block is that of its lines. Of these, one sets a variable for each assignment to a
variable that is written, in order. It assigns the variable again if that is visible from a line
before it, and declares it otherwise. -/
theorem declared_before_reassigned (s : Settings) (depth : Nat) (block : Block) :
    let lines := (blockLines s depth [] block).1
    blockText s depth block = linesText s.indent lines ∧
      lines.filterMap (·.line.var?) = block.setVars ∧
      ∀ before l behind, lines = before ++ l :: behind → ∀ name value,
        (l.line = .reassign name value → name ∈ (scopesBehind [[]] before).flatten) ∧
          (l.line = .declare name value → name ∉ (scopesBehind [[]] before).flatten) := by
  -- nothing is declared or visible in front of the code
  intro lines
  have models : Models [] [[]] := fun name => by simp
  have written : Written [] [] (blockLines s depth [] block) := written_blockLines block models
  refine ⟨rfl, linesVars_blockLines_of fun t _ => linesVars_statementLines s t, ?_⟩
  intro before l behind split name value
  have each : EachFits [[]] lines := written.fits
  rw [split] at each
  have fits : l.line.Fits (scopesBehind [[]] before).flatten := (eachFits_append.1 each).2.1
  constructor
  · intro sets
    rwa [sets] at fits
  · intro sets
    rwa [sets] at fits

end

namespace Stand

/-! A stand with a list of bids and an offer. The check of a required value has no block of its own,
so the list that is declared under it is visible behind it. What is declared on a side of another
check is not. -/

/-- A list of bids. -/
def bids : Place := .var "bids" false

/-- Whether there is an offer. -/
def offer : Place := .var "offer" false

/-- The stand as statements. -/
def block : Block :=
  [.branch (.isPresent .input) [.assign bids (.read .input)] [],
    .branch (.flag "open") [.assign bids .null, .assign offer (.bool true)]
      [.assign offer (.bool false)]]

/-- The stand as lines. -/
def lines : List Indented :=
  (blockLines {} 0 [] block).1

/-- The bids are assigned again on one side of the check, and the offer is declared on both. -/
theorem bids_reassigned_offer_declared :
    blockText {} 0 block = "let mut bids = input.clone();\nif open \x7b\n" ++
        "    bids = Default::default();\n    let mut offer = true;\n\x7d else \x7b\n" ++
        "    let mut offer = false;\n\x7d\n" ∧
      lines = lines.take 2 ++ ⟨1, .reassign "bids" "Default::default()"⟩ :: lines.drop 3 ∧
      "bids" ∈ (scopesBehind [[]] (lines.take 2)).flatten ∧
      lines = lines.take 5 ++ ⟨1, .declare "offer" "false"⟩ :: lines.drop 6 ∧
      "offer" ∉ (scopesBehind [[]] (lines.take 5)).flatten := by
  have fits := (declared_before_reassigned {} 0 block).2.2
  have again : lines = lines.take 2 ++ ⟨1, .reassign "bids" "Default::default()"⟩ ::
      lines.drop 3 := by decide
  have new : lines = lines.take 5 ++ ⟨1, .declare "offer" "false"⟩ :: lines.drop 6 := by decide
  exact ⟨by decide, again, (fits _ _ _ again _ _).1 rfl, new, (fits _ _ _ new _ _).2 rfl⟩

end Stand

end Code

end Crosswalk
