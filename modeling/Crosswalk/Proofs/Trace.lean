import Crosswalk.Proofs.Emission
import Crosswalk.Proofs.Loop

/-!
# Control paths

A control path takes one side of each branch and every loop once; it is the list of the statements
that write. `Lays` says what the paths of a conversion do: variables are staged, a struct is
allocated and its fields are filled in order, and an aggregate is allocated and an element filled.
It knows the destination only. Where the values come from makes no difference to what is written.
-/

namespace Crosswalk
set_option autoImplicit false
open Converter

/-- A control path through a block, given by the statements that write. -/
inductive Block.Takes : Block → List Statement → Prop
  | nil : Takes [] []
  | assign {target : Place} {value : Expr} {rest : Block} {later : List Statement}
      (others : Takes rest later) :
      Takes (.assign target value :: rest) (.assign target value :: later)
  | allocate {target : Place} {storage : Storage} {hint? : Option Place} {rest : Block}
      {later : List Statement} (others : Takes rest later) :
      Takes (.allocate target storage hint? :: rest) (.allocate target storage hint? :: later)
  | yes {c : Condition} {yes no rest : Block} {taken later : List Statement}
      (side : Takes yes taken) (others : Takes rest later) :
      Takes (.branch c yes no :: rest) (taken ++ later)
  | no {c : Condition} {yes no rest : Block} {taken later : List Statement}
      (side : Takes no taken) (others : Takes rest later) :
      Takes (.branch c yes no :: rest) (taken ++ later)
  | loop {iterable : Place} {binding : Binding} {body rest : Block} {turn later : List Statement}
      (once : Takes body turn) (others : Takes rest later) :
      Takes (.loop iterable binding body :: rest) (turn ++ later)

/-- Every block has a path. -/
theorem Block.exists_takes : (block : Block) → ∃ t, block.Takes t
  | [] => ⟨[], .nil⟩
  | .assign _ _ :: rest => (exists_takes rest).elim fun _ later => ⟨_, .assign later⟩
  | .allocate _ _ _ :: rest => (exists_takes rest).elim fun _ later => ⟨_, .allocate later⟩
  | .branch _ yes _ :: rest => by
    obtain ⟨_, side⟩ := exists_takes yes
    obtain ⟨_, later⟩ := exists_takes rest
    exact ⟨_, .yes side later⟩
  | .loop _ _ body :: rest => by
    obtain ⟨_, once⟩ := exists_takes body
    obtain ⟨_, later⟩ := exists_takes rest
    exact ⟨_, .loop once later⟩

namespace Block.Takes
variable {t : List Statement}

/-- A path through two blocks is one through the first and one through the second. -/
theorem of_append {a b : Block} (h : Takes (a ++ b) t) :
    ∃ u v, Takes a u ∧ Takes b v ∧ t = u ++ v := by
  induction a generalizing t with
  | nil => exact ⟨[], t, .nil, h, rfl⟩
  | cons s rest ih =>
    cases h with
    | assign others =>
      obtain ⟨u, v, hu, hv, rfl⟩ := ih others
      exact ⟨_, v, .assign hu, hv, rfl⟩
    | allocate others =>
      obtain ⟨u, v, hu, hv, rfl⟩ := ih others
      exact ⟨_, v, .allocate hu, hv, rfl⟩
    | yes side others =>
      obtain ⟨u, v, hu, hv, rfl⟩ := ih others
      exact ⟨_, v, .yes side hu, hv, (List.append_assoc _ _ _).symm⟩
    | no side others =>
      obtain ⟨u, v, hu, hv, rfl⟩ := ih others
      exact ⟨_, v, .no side hu, hv, (List.append_assoc _ _ _).symm⟩
    | loop once others =>
      obtain ⟨u, v, hu, hv, rfl⟩ := ih others
      exact ⟨_, v, .loop once hu, hv, (List.append_assoc _ _ _).symm⟩

theorem of_nil (h : Takes [] t) : t = [] := by
  cases h
  rfl

theorem of_assign {target : Place} {value : Expr} (h : Takes [.assign target value] t) :
    t = [.assign target value] := by
  cases h with
  | assign others => rw [others.of_nil]

/-- A path through a check goes through one of the branches. -/
theorem of_branch {c : Condition} {yes no : Block} (h : Takes [.branch c yes no] t) :
    Takes yes t ∨ Takes no t := by
  cases h with
  | yes side others =>
    rw [others.of_nil, List.append_nil]
    exact .inl side
  | no side others =>
    rw [others.of_nil, List.append_nil]
    exact .inr side

/-- A path through a check without alternative goes through the block or past it. -/
theorem of_guarded {c : Condition} {yes : Block} (h : Takes [.guarded c yes] t) :
    Takes yes t ∨ t = [] :=
  h.of_branch.imp_right of_nil

end Block.Takes

/-! ## Paths through the blocks that fill a slot -/

section
variable {slot : Slot} {choice : Choice} {t : List Statement}

/-- On all paths through the block of a value only its target is written, and it is written on each
if there is no guard. -/
theorem takes_assignChoice {guard : Bool} {target : Place} {value : Candidate → Expr}
    (h : (assignChoice guard target value choice).Takes t) :
    (∀ w ∈ t, ∃ value, w = .assign target value) ∧ (guard = false → t ≠ []) := by
  -- under a guard the assignment is made or not
  have present : ∀ c t, Block.Takes [assignPresent target value c] t →
      ∀ w ∈ t, ∃ value, w = .assign target value := by
    intro c t h w mem
    rcases h.of_guarded with h | rfl
    · obtain rfl := h.of_assign
      obtain rfl := List.mem_singleton.1 mem
      exact ⟨_, rfl⟩
    · cases mem
  have first : ∀ c t, Block.Takes
      [if guard then assignPresent target value c else .assign target (value c)] t →
      (∀ w ∈ t, ∃ value, w = .assign target value) ∧ (guard = false → t ≠ []) := by
    intro c t h
    cases guard with
    | true => exact ⟨present c t h, fun unguarded => by cases unguarded⟩
    | false =>
      obtain rfl := Block.Takes.of_assign h
      exact ⟨fun w mem => ⟨_, List.mem_singleton.1 mem⟩, fun _ => List.cons_ne_nil _ _⟩
  -- with two sources the primary may be assigned over the fallback
  obtain ⟨primary, fallback?⟩ := choice
  cases fallback? with
  | none => exact first primary t h
  | some fallback =>
    obtain ⟨u, v, hu, hv, rfl⟩ := Block.Takes.of_append (a := [_]) h
    obtain ⟨assigns, some⟩ := first fallback u hu
    refine ⟨fun w mem => ?_, fun unguarded empty => ?_⟩
    · exact (List.mem_append.1 mem).elim (assigns w) (present primary v hv w)
    · exact some unguarded (List.append_eq_nil_iff.1 empty).1

theorem takes_ifPresent {source : Candidate} {block otherwise : Block}
    (h : (ifPresent source block otherwise).Takes t) : block.Takes t ∨ otherwise.Takes t := by
  unfold ifPresent at h
  split at h
  · exact h.of_branch
  · exact .inl h

/-- A path through the block of a struct goes through the body for one of the sources, or makes the
struct null. -/
theorem takes_structBlock {body : Candidate → Block}
    (h : (structBlock slot choice body).Takes t) :
    (∃ c ∈ choice.candidates, (body c).Takes t) ∨ t = [.assign slot.place .null] := by
  obtain ⟨primary, fallback?⟩ := choice
  rcases takes_ifPresent h with h | h
  · exact .inl ⟨primary, Choice.primary_mem, h⟩
  · cases fallback? with
    | none => exact .inr h.of_assign
    | some fallback =>
      rcases takes_ifPresent h with h | h
      · exact .inl ⟨fallback, Choice.fallback_mem rfl, h⟩
      · exact .inr h.of_assign

/-- A path through a turn goes through the turn for one of the sources. -/
theorem takes_structTurn {flag : String} {turn : Candidate → Block}
    (h : (structTurn flag choice turn).Takes t) : ∃ c ∈ choice.candidates, (turn c).Takes t := by
  obtain ⟨primary, fallback?⟩ := choice
  cases fallback? with
  | none => exact ⟨primary, Choice.primary_mem, h⟩
  | some fallback =>
    rcases h.of_branch with h | h
    · exact ⟨primary, Choice.primary_mem, h⟩
    · exact ⟨fallback, Choice.fallback_mem rfl, h⟩

/-- A statement assigns a variable and nothing in it. -/
def Statement.IsStaging (w : Statement) : Prop :=
  ∃ name optional value, w = .assign (.var name optional) value

/-- On all paths through the staging only variables are assigned. -/
theorem takes_stage {s : Settings} {path : Path} {boxed : Bool}
    (h : (stage s path boxed choice).block.Takes t) : ∀ w ∈ t, w.IsStaging := by
  -- each source is taken by assignments to variables alone
  have take : ∀ optional taken source t, (takeBlock s path boxed optional taken source).Takes t →
      ∀ w ∈ t, w.IsStaging := by
    intro optional taken source t h w mem
    obtain ⟨u, v, hu, hv, rfl⟩ := Block.Takes.of_append (a := [_]) h
    obtain rfl := hu.of_assign
    rcases List.mem_append.1 mem with mem | mem
    · exact ⟨_, _, _, List.mem_singleton.1 mem⟩
    · cases boxed with
      | false =>
        obtain rfl := hv.of_nil
        cases mem
      | true =>
        obtain rfl := hv.of_assign
        exact ⟨_, _, _, List.mem_singleton.1 mem⟩
  obtain ⟨primary, fallback?⟩ := choice
  intro w mem
  cases fallback? with
  | none =>
    obtain rfl := h.of_nil
    cases mem
  | some fallback =>
    rw [stage_block] at h
    obtain ⟨u, v, hu, hv, rfl⟩ := h.of_append
    rcases List.mem_append.1 mem with mem | mem
    · exact take _ _ _ u hu w mem
    · rcases hv.of_guarded with hv | rfl
      · exact take _ _ _ v hv w mem
      · cases mem

/-- Behind the staging an aggregate is either made absent or allocated and filled. -/
theorem takes_aggregateBlock {s : Settings} {shape : Shape} {element : String} {boxed : Bool}
    {turn : Block} (h : (aggregateBlock s slot shape choice element boxed turn).Takes t) :
    ∃ vars filling, t = vars ++ filling ∧ (∀ w ∈ vars, w.IsStaging) ∧
      (filling = [.assign slot.place .null] ∨
        ∃ hint? inside, turn.Takes inside ∧
          filling = .allocate slot.place (storage element boxed shape) hint? :: inside) := by
  obtain ⟨vars, filling, staged, filled, rfl⟩ := Block.Takes.of_append h
  refine ⟨vars, filling, rfl, takes_stage staged, ?_⟩
  have fill : ∀ {iterable : Place}, (fillBlock s slot shape element boxed iterable turn).Takes
      filling → ∃ hint? inside, turn.Takes inside ∧
        filling = .allocate slot.place (storage element boxed shape) hint? :: inside := by
    intro iterable h
    cases h with
    | allocate others =>
      cases others with
      | loop once others =>
        rw [others.of_nil, List.append_nil]
        exact ⟨_, _, once, rfl⟩
  split at filled
  · rcases filled.of_branch with filled | filled
    · exact .inr (fill filled)
    · exact .inl filled.of_assign
  · exact .inr (fill filled)

end

/-! ## What is laid out -/

/-- What is to be filled, as far as the destination goes. -/
inductive Goal
  | fields (place : Place) (dests : List Field)
  | value (place : Place) (type : Ty)

/-- What a task fills: the fields below a place, or the value at a place. -/
def Task.goal : Task → Goal
  | .fields level _ dests => .fields level.dest dests
  | .value _ slot _ type => .value slot.place type
  | .body _ s slot _ => .value slot.place s.toTy

/-- The statements that fill a goal along a control path. -/
inductive Lays (s : Settings) : Goal → List Statement → Prop
  | nil {p : Place} : Lays s (.fields p []) []
  | cons {p : Place} {f : Field} {rest : List Field} {t later : List Statement}
      (filled : Lays s (.value (p.field f.name f.isOptional) f.type) t)
      (others : Lays s (.fields p rest) later) : Lays s (.fields p (f :: rest)) (t ++ later)
  | whole {p : Place} {type : Ty} {t : List Statement}
      (assigns : ∀ w ∈ t, ∃ value, w = .assign p value)
      (written : (type.isCopied && p.optional) = false → t ≠ []) : Lays s (.value p type) t
  | staged {p : Place} {type : Ty} {vars t : List Statement} (staging : ∀ w ∈ vars, w.IsStaging)
      (filled : Lays s (.value p type) t) : Lays s (.value p type) (vars ++ t)
  | struct {p : Place} {inner : Struct} {name : String} {t : List Statement}
      (filled : Lays s (.fields p inner.fields) t) :
      Lays s (.value p inner.toTy) (.allocate p (.struct name) none :: t)
  | element {p : Place} {type dest : Ty} {shape : Shape} {name : String} {boxed : Bool}
      {hint? : Option Place} {t : List Statement} (kind : type.elements? = some (shape, dest))
      (filled : Lays s (.value ((loopBinding s shape).element p) dest) t) :
      Lays s (.value p type) (.allocate p (storage name boxed shape) hint? :: t)

theorem lays_assign {s : Settings} {p : Place} {type : Ty} {value : Expr} :
    Lays s (.value p type) [.assign p value] :=
  .whole (fun _ mem => ⟨value, List.mem_singleton.1 mem⟩) fun _ => List.cons_ne_nil _ _

/-- A path through the block of a list or map stages the sources, and then makes it null or
allocates it and goes through a turn. -/
theorem lays_aggregateBlock {s : Settings} {slot : Slot} {choice : Choice} {shape : Shape}
    {type dest : Ty} {element : String} {boxed : Bool} {turn : Block} {t : List Statement}
    (kind : type.elements? = some (shape, dest))
    (inside : ∀ t, turn.Takes t → Lays s (.value (elementSlot s slot shape).place dest) t)
    (path : (aggregateBlock s slot shape choice element boxed turn).Takes t) :
    Lays s (.value slot.place type) t := by
  obtain ⟨vars, filling, rfl, staging, rfl | ⟨hint?, t, taken, rfl⟩⟩ := takes_aggregateBlock path
  · exact .staged staging lays_assign
  · exact .staged staging (.element kind (elementSlot_place s slot shape ▸ inside t taken))

/-- Every path through what is emitted for a task fills its goal. -/
theorem Emits.lays {cv : Converter} {task : Task} {block : Block} (h : Emits cv task block) :
    ∀ t, block.Takes t → Lays cv.settings task.goal t := by
  -- induction on the emission; a path through the block takes one of the ways of each branch
  induction h with
  | nil =>
    intro t path
    obtain rfl := path.of_nil
    exact .nil
  | cons chosen filled others ihf iho =>
    intro t path
    obtain ⟨u, v, hu, hv, rfl⟩ := path.of_append
    exact .cons (ihf u hu) (iho v hv)
  | copied kind named agree =>
    intro t path
    obtain ⟨assigns, written⟩ := takes_assignChoice path
    exact .whole assigns (by simpa [kind] using written)
  | binary agree =>
    intro t path
    obtain ⟨assigns, written⟩ := takes_assignChoice path
    exact .whole assigns fun _ => written rfl
  | struct bodies ih =>
    intro t path
    rcases takes_structBlock path with ⟨c, hc, taken⟩ | rfl
    · exact ih c hc t taken
    · exact lays_assign
  | elements kind whole plain named sources =>
    intro t path
    refine lays_aggregateBlock kind (fun t taken => ?_) path
    obtain rfl := taken.of_assign
    exact lays_assign
  | structs kind named sources turns ih =>
    intro t path
    refine lays_aggregateBlock kind (fun t taken => ?_) path
    obtain ⟨c, hc, taken⟩ := takes_structTurn taken
    exact ih c hc t taken
  | body struct named filled ih =>
    intro t path
    cases path with
    | allocate others => exact .struct (ih _ others)

end Crosswalk
