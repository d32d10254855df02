import Crosswalk.Proofs.Run.Select

/-!
# Programs for two sources

The program for a destination with two sources does what the program for one of them does. Without
a fallback, the destination stays absent where its source is.
-/

namespace Crosswalk
set_option autoImplicit false
open Converter

/-- Destinations that tell absence: all but bytes and required values that are copied whole. -/
def TellsAbsence (slot : Slot) (type : Ty) : Prop :=
  type ≠ .binary ∧ (type.isCopied = true → slot.place.optional = true)

/-- The output where a destination stays absent: optional values that are copied whole are not
written, others are null. -/
def absentOutput (env : Env) (slot : Slot) (type : Ty) : Output :=
  if type.isCopied then env.out else env.out.put (env.location slot.place) .null

section
variable {cv : Converter} {level : Level} {slot : Slot} {type : Ty} {block : Block}
  {primary fallback : Candidate}

/-- With two sources a program does what it would with the one that is taken. Only lists and maps are
staged in variables, so only for them these have to be apart. -/
theorem Emits.selects (h : Emits cv (.value level slot ⟨primary, some fallback⟩ type) block)
    (apart : type.isAggregate = true → cv.settings.StagedApart) (tells : TellsAbsence slot type)
    (output : slot.place.root = .output) (ne : slot.path.segments ≠ [])
    (scope : Task.Over cv.settings (.value level slot ⟨primary, some fallback⟩ type))
    (optional : primary.place.optional = true) (coherent : primary.Coherent ∧ fallback.Coherent) :
    ∃ alone : Candidate → Block,
      (∀ c ∈ [primary, fallback], Emits cv (.value level slot (.direct c) type) (alone c)) ∧
      ∀ env, (Block.run block env).out =
        (Block.run (alone (env.taken primary fallback)) env).out := by
  obtain ⟨target, sources⟩ := scope
  have source := sources primary List.mem_cons_self
  cases h with
  | @copied _ _ _ _ name kind named agree =>
    refine ⟨fun c => assignChoice slot.place.optional slot.place
      (fun c => .cast name c.place slot.place.optional) (.direct c), fun c hc => ?_, fun env => ?_⟩
    · exact .copied kind named (Choice.forall_direct (agree c hc))
    · rw [tells.2 kind]
      exact out_assignChoice output
  | binary agree => exact absurd rfl tells.1
  | @struct _ _ _ s body bodies =>
    refine ⟨fun c => structBlock slot (.direct c) body, fun c hc => ?_, fun env => ?_⟩
    · exact .struct (Choice.forall_direct (bodies c hc))
    · rw [run_structBlock coherent]
  | @elements _ _ _ _ dest shape name element kind whole plain named held =>
    refine ⟨fun c => aggregateBlock cv.settings slot shape (.direct c) name false
      [.assign (elementSlot cv.settings slot shape).place (.cast name cv.elementVar false)],
      fun c hc => ?_, fun env => ?_⟩
    · exact .elements kind whole plain named (Choice.forall_direct (held c hc))
    · refine out_aggregateBlock (apart (Ty.isAggregate_of_elements? kind)) output target source
        optional coherent.2 fun a b h _ => ?_
      have var : cv.elementVar.Over cv.settings.loopNames := .var (by simp [Settings.loopNames])
      have root : (elementSlot cv.settings slot shape).place.root = .output :=
        elementSlot_root.trans output
      have inside := elementSlot_over target (cv.settings.loopNames_counter shape)
      refine ⟨agree_assign h root inside ?_, ?_⟩
      · simp only [Env.content, h.get var]
      · rw [Block.run_singleton, Statement.run]
        exact Env.vars_assign (by simp [Statement.assigned?, root])
  | @structs _ _ _ _ s shape name element turn kind named held turns =>
    refine ⟨fun c => aggregateBlock cv.settings slot shape (.direct c) name true
      (structTurn (overrideFlagVar cv.settings slot.path) (.direct c) turn),
      fun c hc => ?_, fun env => ?_⟩
    · exact .structs kind named (Choice.forall_direct (held c hc))
        (Choice.forall_direct (turns c hc))
    · have apart := apart (Ty.isAggregate_of_elements? kind)
      refine out_aggregateBlock apart output target source optional coherent.2 fun a b h flag => ?_
      have var : cv.elementVar.Over cv.settings.loopNames := .var (by simp [Settings.loopNames])
      have root : (elementSlot cv.settings slot shape).place.root = .output :=
        elementSlot_root.trans output
      have below := elementSlot_path cv.settings slot shape
      have agrees : ∀ c ∈ [primary, fallback], (Block.run (turn c) a).Agree cv.settings.loopNames
          (Block.run (turn c) b) := fun c hc =>
        (turns c hc).carries root
          ⟨elementSlot_over target (cv.settings.loopNames_counter shape), var⟩ _ (fun _ mem => mem)
          a b h
      -- a turn assigns variables of longer paths only, so the flag is the same in each
      have keeps : ∀ c ∈ [primary, fallback], (Block.run (turn c) a).vars _ = a.vars _ :=
        fun c hc => (turns c hc).keeps_flag apart root below ne a
      have tested : a.holds (.flag (overrideFlagVar cv.settings slot.path)) =
          env.holds (.isPresent primary.place) := by
        simp only [Env.holds, flag rfl]
      show (Block.run [_] a).Agree _ _ ∧ (Block.run [_] a).vars _ = _
      rw [Block.run_singleton, Statement.run, tested, Env.taken]
      split
      · exact ⟨agrees primary (by simp), keeps primary (by simp)⟩
      · exact ⟨agrees fallback (by simp), keeps fallback (by simp)⟩

/-- With a single source that is absent, the destination is absent. -/
theorem Emits.absent (h : Emits cv (.value level slot ⟨primary, none⟩ type) block)
    (tells : TellsAbsence slot type) (output : slot.place.root = .output)
    (coherent : primary.Coherent) {env : Env}
    (absent : env.holds (.isPresent primary.place) = false) :
    (Block.run block env).out = absentOutput env slot type := by
  -- a value stays unset or becomes the default, a struct or aggregate becomes null
  cases h with
  | copied kind named agree =>
    rw [absentOutput, if_pos kind, tells.2 kind]
    exact out_assignChoice_absent output absent
  | binary agree => exact absurd rfl tells.1
  | struct bodies =>
    rw [run_structBlock_absent coherent output absent]
    rfl
  | elements kind whole plain named held =>
    rw [run_aggregateBlock_absent output absent, absentOutput, if_neg]
    · rfl
    · intro copied
      rw [Ty.elements?_of_isCopied copied] at kind
      cases kind
  | structs kind named held turns =>
    rw [run_aggregateBlock_absent output absent, absentOutput, if_neg]
    · rfl
    · intro copied
      rw [Ty.elements?_of_isCopied copied] at kind
      cases kind

end

end Crosswalk
