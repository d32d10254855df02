import Crosswalk.Proofs.Emission.Sound
import Crosswalk.Proofs.Loop
import Crosswalk.Proofs.Nesting

/-!
# Loops around a site

A conversion without nested aggregates of one shape has at most one loop of each shape around a
site. `Apart` says so of the sites in a task's block, relative to where the block begins.
-/

namespace Crosswalk
set_option autoImplicit false
open Converter

/-- The loops between two sites are of different shapes, all of them filled by a task. -/
def Apart (s : Settings) (task : Task) (start site : Site) : Prop :=
  ∃ (inner : List Frame) (shapes : List Shape), site.frames = inner ++ start.frames ∧
    inner.filterMap Frame.binding? = shapes.map (loopBinding s) ∧ shapes.Nodup ∧
      ∀ shape ∈ shapes, task.Fills (Ty.Loops shape)

/-- A flag that is checked binds no variable. -/
theorem binding?_of_isCheck {f : Frame} (h : f.isCheck = true) : f.binding? = none := by
  cases f <;> simp_all [Frame.isCheck, Frame.binding?]

/-- Flags that are checked bind no variables. -/
theorem filterMap_checks {checks : List Frame} (h : ∀ f ∈ checks, f.isCheck = true) :
    checks.filterMap Frame.binding? = [] := by
  rw [List.filterMap_eq_nil_iff]
  exact fun f hf => binding?_of_isCheck (h f hf)

namespace Apart
variable {s : Settings} {task inner : Task} {start between site : Site}

/-- Flags add no loops. -/
theorem of_behind (h : start.Behind site) : Apart s task start site := by
  obtain ⟨checks, hf, hc⟩ := h
  exact ⟨checks, [], hf, by simp [filterMap_checks hc], List.nodup_nil, by simp⟩

/-- There are no loops between a site and itself. -/
theorem here (s : Settings) (task : Task) (start : Site) : Apart s task start start :=
  of_behind .refl

/-- Sites inside of a part of a task that stands behind presence checks. -/
theorem of_part (h : Apart s inner between site) (behind : start.Behind between)
    (part : ∀ shape, inner.Fills (Ty.Loops shape) → task.Fills (Ty.Loops shape)) :
    Apart s task start site := by
  obtain ⟨frames, shapes, hf, hb, distinct, filled⟩ := h
  obtain ⟨checks, hs, hc⟩ := behind
  refine ⟨frames ++ checks, shapes, by simp [hf, hs], ?_, distinct,
    fun shape hm => part shape (filled shape hm)⟩
  rw [List.filterMap_append, hb, filterMap_checks hc, List.append_nil]

/-- Sites inside of a turn of a loop over elements without loops of its shape. -/
theorem of_turn {shape : Shape} {before : Block} {iterable : Place} {flags : List Frame}
    {fill : Site} (h : Apart s inner between site) (behind : start.Behind fill)
    (hb : between.frames = flags ++ .loop before iterable (loopBinding s shape) :: fill.frames)
    (hflags : flags.filterMap Frame.binding? = [])
    (loop : task.Fills (Ty.Loops shape))
    (part : ∀ shape, inner.Fills (Ty.Loops shape) → task.Fills (Ty.Loops shape))
    (flat : ¬ inner.Fills (Ty.Loops shape)) : Apart s task start site := by
  obtain ⟨frames, shapes, hf, hbs, distinct, filled⟩ := h
  obtain ⟨checks, hs, hc⟩ := behind
  -- the new loop stands between the inner ones and those that are already around the start
  refine ⟨frames ++ flags ++ .loop before iterable (loopBinding s shape) :: checks,
    shapes ++ [shape], by simp [hf, hb, hs], ?_, ?_, ?_⟩
  · simp [List.filterMap_append, hbs, hflags, Frame.binding?, filterMap_checks hc]
  · rw [List.nodup_append]
    refine ⟨distinct, by simp, ?_⟩
    rintro a ha b hb rfl
    -- the shape is new: the part that is filled in a turn has no loop of it
    exact flat (List.mem_singleton.1 hb ▸ filled a ha)
  · intro a ha
    rcases List.mem_append.1 ha with ha | ha
    · exact part a (filled a ha)
    · exact List.mem_singleton.1 ha ▸ loop

/-- Around its turns an aggregate has no other loop. -/
theorem of_aggregateBlock {slot : Slot} {shape : Shape} {choice : Choice} {element : String}
    {boxed : Bool} {turn : Block}
    (h : Everywhere (fun site _ => Apart s task start site)
      (turnSite s start slot shape (stage s slot.path boxed choice) element boxed) turn) :
    Everywhere (fun site _ => Apart s task start site) start
      (aggregateBlock s slot shape choice element boxed turn) := by
  rw [everywhere_aggregateBlock rfl]
  refine ⟨?_, fun _ => ⟨of_behind Site.Behind.refl.after, of_behind Site.Behind.refl.after.no⟩,
    of_behind (behind_fillSite _ _), of_behind (behind_fillSite _ _).after, h⟩
  exact everywhere_stage (fun _ hs _ _ _ => of_behind hs) (fun _ hs _ => of_behind hs)
    fun _ hs _ _ => of_behind hs

end Apart

/-- Where no aggregate of a task is below the elements of another of its shape, the loops around
each site of its block are of different shapes. -/
theorem Emits.loops_apart {cv : Converter} {task : Task} {block : Block} (h : Emits cv task block) :
    ¬ task.Fills Ty.Nests →
      ∀ start, Everywhere (fun site _ => Apart cv.settings task start site) start block := by
  -- induction on the emission; `start` is general since a part begins where its task does
  induction h with
  | nil =>
    intro _ start
    exact everywhere_nil
  | @cons level sources rest f choice block later chosen filled others ihf iho =>
    intro flat start
    rw [everywhere_append]
    constructor
    · intro site s at_
      refine (ihf (fun h => flat ⟨_, List.mem_cons_self, h⟩) start site s at_).of_part .refl ?_
      exact fun shape h => ⟨_, List.mem_cons_self, h⟩
    · intro site s at_
      have flatRest : ¬ Task.Fills Ty.Nests (.fields level sources rest) :=
        fun ⟨g, hg, h⟩ => flat ⟨g, List.mem_cons_of_mem _ hg, h⟩
      refine (iho flatRest _ site s at_).of_part Site.Behind.refl.after ?_
      exact fun shape ⟨g, hg, h⟩ => ⟨g, List.mem_cons_of_mem _ hg, h⟩
  | copied kind named agree =>
    intro _ start
    exact everywhere_assignChoice (fun _ hs _ _ _ _ => .of_behind hs) fun _ hs _ _ => .of_behind hs
  | binary agree =>
    intro _ start
    exact everywhere_assignChoice (fun _ hs _ _ _ _ => .of_behind hs) fun _ hs _ _ => .of_behind hs
  | struct bodies ih =>
    intro flat start
    refine everywhere_structBlock (fun _ hs _ _ _ _ => .of_behind hs) (fun _ hs => .of_behind hs) ?_
    intro site hs c hc at_ s ho
    exact (ih c hc flat site at_ s ho).of_part hs fun _ h => h
  | @elements level slot choice type dest shape name element kind whole plain named sources =>
    -- one loop and no more, since the elements are filled by an assignment
    intro _ start
    refine Apart.of_aggregateBlock (everywhere_assign.2 ?_)
    refine (Apart.here _ (.value level slot choice dest) _).of_turn (behind_fillSite _ _)
      (List.nil_append _).symm rfl (.here kind) (fun _ => .element kind) ?_
    exact Ty.not_loops whole (Ty.elements?_of_not_isAggregate plain)
  | @structs level slot choice type s shape name element turn kind named sources turns ih =>
    intro flat start
    -- the elements have no loop of this shape, so a turn adds one that is not around it yet
    obtain ⟨noLoops, noNests⟩ := not_or.1 fun h => flat ((Ty.nests_iff_of_elements? kind).2 h)
    have inner : ∀ c ∈ choice.candidates, ∀ site flags,
        site.frames = flags ++ (turnSite cv.settings start slot shape
          (stage cv.settings slot.path true choice) name true).frames →
        flags.filterMap Frame.binding? = [] →
        Everywhere (fun site _ => Apart cv.settings (.value level slot choice type) start site)
          site (turn c) := by
      intro c hc site flags hf hflags at_ t ho
      exact (ih c hc noNests site at_ t ho).of_turn (behind_fillSite _ _) hf hflags (.here kind)
        (fun _ => .element kind) noLoops
    have single : choice.primary ∈ choice.candidates := Choice.primary_mem
    refine Apart.of_aggregateBlock (everywhere_structTurn (fun _ _ => ?_)
      (fun _ => inner _ single _ [] rfl rfl) fun fallback hf => ?_)
    · exact (Apart.here _ (.value level slot choice s.toTy) _).of_turn (behind_fillSite _ _)
        (List.nil_append _).symm rfl (.here kind) (fun _ => .element kind) noLoops
    · exact ⟨inner _ single _ [_] rfl rfl,
        inner fallback (Choice.fallback_mem hf) _ [_] rfl rfl⟩
  | body struct named filled ih =>
    intro flat start
    rw [everywhere_cons]
    refine ⟨everywhere_allocate.2 (.of_behind .refl), fun site s at_ => ?_⟩
    refine (ih ?_ _ site s at_).of_part Site.Behind.refl.after ?_
    · exact fun h => flat (Ty.nests_struct_iff.2 h)
    · exact fun shape h => Ty.loops_struct_iff.2 h

end Crosswalk
