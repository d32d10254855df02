import Crosswalk.Proofs.Emission
import Crosswalk.Proofs.Site

/-!
# The sites of emitted blocks

What has to be known to speak of all statements of the blocks that fill a slot.

There is one lemma for each kind of block that the converter puts together. Each reduces
`Everywhere` of the block to the statements that the block has itself and to what is put into it, so
a fact about all emitted statements is an induction on `Emits` with one of these lemmas in each
case.
-/

namespace Crosswalk
set_option autoImplicit false

namespace Converter

section
variable {P : Site → Statement → Prop} {start : Site}

/-! ## Whole values -/

/-- What holds of the checks for the sources, and of the assignments, holds in the block of a value.
-/
theorem everywhere_assignChoice {guard : Bool} {target : Place} {value : Candidate → Expr}
    {choice : Choice}
    (checks : ∀ site, start.Behind site → ∀ c ∈ choice.candidates, ∀ yes no,
      P site (.branch (.isPresent c.place) yes no))
    (assigns : ∀ site, start.Behind site → ∀ c ∈ choice.candidates,
      P site (.assign target (value c))) :
    Everywhere P start (assignChoice guard target value choice) := by
  -- a value under a guard has a site behind the start, one check deeper
  have present : ∀ site, start.Behind site → ∀ c ∈ choice.candidates,
      Everywhere P site [assignPresent target value c] := by
    intro site hs c hc
    rw [assignPresent, Statement.guarded, everywhere_branch]
    exact ⟨checks _ hs c hc _ _, everywhere_assign.2 (assigns _ hs.yes c hc), everywhere_nil⟩
  have first : ∀ c ∈ choice.candidates, Everywhere P start
      [if guard then assignPresent target value c else .assign target (value c)] := by
    intro c hc
    split
    · exact present _ .refl c hc
    · exact everywhere_assign.2 (assigns _ .refl c hc)
  obtain ⟨primary, fallback?⟩ := choice
  have hp : primary ∈ (Choice.mk primary fallback?).candidates := Choice.primary_mem
  cases fallback? with
  | none => exact first _ hp
  | some fallback =>
    rw [assignChoice, everywhere_cons]
    exact ⟨first fallback (Choice.fallback_mem rfl), present _ Site.Behind.refl.after _ hp⟩

/-! ## Structs -/

/-- All statements of a block under a guard, by whether there is one. -/
theorem everywhere_ifPresent {source : Candidate} {block otherwise : Block} :
    Everywhere P start (ifPresent source block otherwise) ↔
      if source.optional = true then
        P start (.branch (.isPresent source.place) block otherwise) ∧
          Everywhere P (start.yes (.isPresent source.place)) block ∧
          Everywhere P (start.no (.isPresent source.place)) otherwise
      else Everywhere P start block := by
  unfold ifPresent
  split <;> simp

/-- A property of all presence checks, of the null assignment and of all bodies, wherever behind
presence checks they stand, is one of the whole block. -/
theorem everywhere_structBlock {slot : Slot} {choice : Choice} {body : Candidate → Block}
    (checks : ∀ site, start.Behind site → ∀ c ∈ choice.candidates, ∀ yes no,
      P site (.branch (.isPresent c.place) yes no))
    (absent : ∀ site, start.Behind site → P site (.assign slot.place .null))
    (bodies : ∀ site, start.Behind site → ∀ c ∈ choice.candidates, Everywhere P site (body c)) :
    Everywhere P start (structBlock slot choice body) := by
  obtain ⟨primary, fallback?⟩ := choice
  -- three ways through the block: the primary is there, the fallback is, or none is
  have hp : primary ∈ (Choice.mk primary fallback?).candidates := Choice.primary_mem
  have here : start.Behind start := .refl
  simp only [structBlock, everywhere_ifPresent]
  split
  · refine ⟨checks _ here _ hp _ _, bodies _ here.yes _ hp, ?_⟩
    cases fallback? with
    | none => exact everywhere_assign.2 (absent _ here.no)
    | some fallback =>
      have hf : fallback ∈ (Choice.mk primary (some fallback)).candidates := Choice.fallback_mem rfl
      simp only [everywhere_ifPresent]
      split
      · exact ⟨checks _ here.no _ hf _ _, bodies _ here.no.yes _ hf,
          everywhere_assign.2 (absent _ here.no.no)⟩
      · exact bodies _ here.no _ hf
  · exact bodies _ here _ hp

/-- The primary's body is part of the block. -/
theorem Everywhere.of_structBlock {slot : Slot} {choice : Choice} {body : Candidate → Block}
    (h : Everywhere P start (structBlock slot choice body)) :
    ∃ site, start.Behind site ∧ Everywhere P site (body choice.primary) := by
  rw [structBlock, everywhere_ifPresent] at h
  split at h
  · exact ⟨_, Site.Behind.refl.yes, h.2.1⟩
  · exact ⟨_, .refl, h⟩

/-! ## Aggregates -/

/-- Staging reads all sources into one variable and marks which of them was taken. -/
theorem everywhere_stage {s : Settings} {path : Path} {ofStructs : Bool} {choice : Choice}
    (reads : ∀ site, start.Behind site → ∀ c ∈ choice.candidates, ∀ optional,
      P site (.assign (.var (sourceListVar s path) optional) (.read c.place)))
    (marks : ∀ site, start.Behind site → ∀ taken,
      P site (.assign (.var (overrideFlagVar s path) false) (.bool taken)))
    (checks : ∀ site, start.Behind site → ∀ yes no,
      P site (.branch (.isPresent choice.primary.place) yes no)) :
    Everywhere P start (stage s path ofStructs choice).block := by
  obtain ⟨primary, fallback?⟩ := choice
  have hp : primary ∈ (Choice.mk primary fallback?).candidates := Choice.primary_mem
  have here : start.Behind start := .refl
  cases fallback? with
  | none => exact everywhere_nil
  | some fallback =>
    have hf : fallback ∈ (Choice.mk primary (some fallback)).candidates := Choice.fallback_mem rfl
    -- taking a source writes the variable and, for structs, the flag
    have take : ∀ site, start.Behind site → ∀ c ∈ (Choice.mk primary (some fallback)).candidates,
        ∀ taken, Everywhere P site (takeBlock s path ofStructs fallback.optional taken c) := by
      intro site hs c hc taken
      refine everywhere_cons.2 ⟨everywhere_assign.2 (reads _ hs c hc _), ?_⟩
      split
      · exact everywhere_assign.2 (marks _ hs.after taken)
      · exact everywhere_nil
    rw [stage_block, everywhere_append, Statement.guarded, everywhere_branch]
    exact ⟨take _ here _ hf false, checks _ here.after _ _, take _ here.after.yes _ hp true,
      everywhere_nil⟩

/-- The site where an aggregate is allocated. -/
def fillSite (start : Site) (staging : Staging) : Site :=
  if staging.iterable.optional then
    (start.after staging.block).yes (.isPresent staging.iterable)
  else start.after staging.block

/-- An aggregate is allocated behind the start. -/
theorem behind_fillSite (start : Site) (staging : Staging) :
    start.Behind (fillSite start staging) := by
  unfold fillSite
  split
  · exact Site.Behind.refl.after.yes
  · exact Site.Behind.refl.after

/-- The site of a turn of the loop that fills an aggregate. -/
def turnSite (s : Settings) (start : Site) (slot : Slot) (shape : Shape) (staging : Staging)
    (element : String) (boxed : Bool) : Site :=
  ((fillSite start staging).after
    [.allocate slot.place (storage element boxed shape) (some staging.iterable)]).loop
      staging.iterable (loopBinding s shape)

/-- All statements of the block of an aggregate: staging, the branch that the staging can need,
allocation, loop and turn. -/
theorem everywhere_aggregateBlock {s : Settings} {slot : Slot} {shape : Shape} {choice : Choice}
    {element : String} {boxed : Bool} {turn : Block} {staging : Staging}
    (hs : stage s slot.path boxed choice = staging) :
    Everywhere P start (aggregateBlock s slot shape choice element boxed turn) ↔
      Everywhere P start staging.block ∧
      (staging.iterable.optional = true →
        P (start.after staging.block) (.branch (.isPresent staging.iterable)
            (fillBlock s slot shape element boxed staging.iterable turn)
            [.assign slot.place .null]) ∧
          P ((start.after staging.block).no (.isPresent staging.iterable))
            (.assign slot.place .null)) ∧
      P (fillSite start staging)
        (.allocate slot.place (storage element boxed shape) (some staging.iterable)) ∧
      P ((fillSite start staging).after
          [.allocate slot.place (storage element boxed shape) (some staging.iterable)])
        (.loop staging.iterable (loopBinding s shape) turn) ∧
      Everywhere P (turnSite s start slot shape staging element boxed) turn := by
  subst hs
  rw [aggregateBlock, everywhere_append, turnSite]
  by_cases h : (stage s slot.path boxed choice).iterable.optional = true
  · simp only [if_pos h, fillSite, everywhere_branch, fillBlock, everywhere_assign]
    rw [everywhere_cons]
    simp only [everywhere_allocate, everywhere_loop]
    grind
  · simp only [if_neg h, fillSite, fillBlock]
    rw [everywhere_cons]
    simp only [everywhere_allocate, everywhere_loop]
    grind

/-- The turn of a single source, or those of two sources on the sides of the override flag. -/
theorem everywhere_structTurn {flag : String} {choice : Choice} {turn : Candidate → Block}
    (check : ∀ yes no, P start (.branch (.flag flag) yes no))
    (single : choice.fallback? = none → Everywhere P start (turn choice.primary))
    (either : ∀ fallback, choice.fallback? = some fallback →
      Everywhere P (start.yes (.flag flag)) (turn choice.primary) ∧
        Everywhere P (start.no (.flag flag)) (turn fallback)) :
    Everywhere P start (structTurn flag choice turn) := by
  obtain ⟨primary, fallback?⟩ := choice
  cases fallback? with
  | none => exact single rfl
  | some fallback => exact everywhere_branch.2 ⟨check _ _, either fallback rfl⟩

/-- The turn for the primary is in the turn over structs, perhaps under a flag. -/
theorem Everywhere.of_structTurn {flag : String} {choice : Choice} {turn : Candidate → Block}
    (h : Everywhere P start (structTurn flag choice turn)) :
    ∃ site flags, site.frames = flags ++ start.frames ∧
      Everywhere P site (turn choice.primary) := by
  obtain ⟨primary, fallback?⟩ := choice
  cases fallback? with
  | none => exact ⟨start, [], rfl, h⟩
  | some fallback => exact ⟨_, [_], rfl, (everywhere_branch.1 h).2.1⟩

end

end Converter

end Crosswalk
