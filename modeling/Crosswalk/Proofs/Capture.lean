import Crosswalk.Proofs.Apart

/-!
# Capture of loop variables

All loops over lists bind one name for the position and all loops over maps one for the key. So a
write is captured in exactly those conversions that fill an aggregate below the elements of another
of its shape.

A site lists the loops around a statement. `Emits.writes_in_loop` finds a write that stands in a
loop of a shape, and `Emits.captured` one that stands in two, of which the inner binds the counter
again; both are inductions on the emission. In the other direction the loops at a site are of
different shapes, and `Apart.uncaptured` shows that they do not hide each other.
-/

namespace Crosswalk
set_option autoImplicit false
open Converter

/-! ## Nested aggregates are captured -/

/-- The variable that names the elements in loops of a shape. -/
def Settings.counter (s : Settings) (shape : Shape) : String :=
  (loopBinding s shape).counter

/-- A turn of a loop stands in a frame that binds the loop's counter. -/
theorem turnSite_binds (start : Site) {s : Settings} {slot : Slot} {shape : Shape}
    {staging : Staging} {element : String} {boxed : Bool} :
    ∃ inner, (turnSite s start slot shape staging element boxed).frames = inner ++ start.frames ∧
      ∃ f ∈ inner, s.counter shape ∈ f.names := by
  obtain ⟨checks, hf, _⟩ := behind_fillSite start staging
  let loop : Frame := .loop ((fillSite start staging).before ++
    [.allocate slot.place (storage element boxed shape) (some staging.iterable)])
    staging.iterable (loopBinding s shape)
  refine ⟨loop :: checks, ?_, loop, List.mem_cons_self, Binding.counter_mem_names _⟩
  rw [turnSite, Site.frames_loop, Site.frames_after, hf]
  rfl

/-- A task with a loop of a shape writes its target, or below, inside of such a loop. -/
theorem Emits.writes_in_loop {cv : Converter} {task : Task} {block : Block} {shape : Shape}
    (h : Emits cv task block) (loops : task.Fills (Ty.Loops shape)) :
    ∀ {P : Site → Statement → Prop} {start : Site}, Everywhere P start block →
      ∃ site s target inner, P site s ∧ s.target? = some target ∧ target.Extends task.target ∧
        site.frames = inner ++ start.frames ∧ ∃ f ∈ inner, cv.settings.counter shape ∈ f.names := by
  -- induction on the emission; the frames `inner` grow at their outer end, one part at a time
  induction h with
  | nil => exact absurd loops (by simp [Task.Fills])
  | @cons level sources rest f choice block later chosen filled others ihf iho =>
    intro P start all
    obtain ⟨first, second⟩ := everywhere_append.1 all
    obtain ⟨g, hg, hl⟩ := loops
    rcases List.mem_cons.1 hg with rfl | hg
    · obtain ⟨site, s, target, inner, hp, ht, below, hs, hf⟩ := ihf hl first
      exact ⟨site, s, target, inner, hp, ht, below.trans (Place.extends_field _ _ _), hs, hf⟩
    · obtain ⟨site, s, target, inner, hp, ht, below, hs, hf⟩ := iho ⟨g, hg, hl⟩ second
      exact ⟨site, s, target, inner, hp, ht, below, hs, hf⟩
  | copied kind named agree =>
    exact absurd loops (Ty.not_loops (Ty.isStruct_of_isCopied kind) (Ty.elements?_of_isCopied kind))
  | binary agree => exact absurd loops (Ty.not_loops rfl rfl)
  | @struct level slot choice s body bodies ih =>
    intro P start all
    obtain ⟨between, ⟨checks, hb, _⟩, all⟩ := Everywhere.of_structBlock all
    obtain ⟨site, t, target, inner, hp, ht, below, hs, g, hg, hn⟩ :=
      ih choice.primary List.mem_cons_self loops all
    exact ⟨site, t, target, inner ++ checks, hp, ht, below, by simp [hs, hb], g, by simp [hg], hn⟩
  | @elements level slot choice type dest outer name element kind whole plain named sources =>
    intro P start all
    obtain ⟨_, _, _, _, turn⟩ := (everywhere_aggregateBlock rfl).1 all
    obtain ⟨inner, hs, hf⟩ := turnSite_binds start
    rcases (Ty.loops_iff_of_elements? kind).1 loops with rfl | loops
    · exact ⟨_, _, _, inner, everywhere_assign.1 turn, rfl,
        Place.extends_elementSlot _ _ _, hs, hf⟩
    · exact absurd loops (Ty.not_loops whole (Ty.elements?_of_not_isAggregate plain))
  | @structs level slot choice type s outer name element turn kind named sources turns ih =>
    intro P start all
    obtain ⟨_, _, _, _, all⟩ := (everywhere_aggregateBlock rfl).1 all
    obtain ⟨between, flags, hb, all⟩ := Everywhere.of_structTurn all
    obtain ⟨inner, hs, hf⟩ := turnSite_binds start
    rw [hs, ← List.append_assoc] at hb
    have single : choice.primary ∈ choice.candidates := Choice.primary_mem
    -- either this loop is of the shape, and the element's allocation is the write, or an inner one
    rcases (Ty.loops_iff_of_elements? kind).1 loops with rfl | loops
    · obtain ⟨_, _, _, type, filling, _, _, _, he⟩ := (turns _ single).body_inv
      rw [he, everywhere_cons] at all
      obtain ⟨f, hi, hn⟩ := hf
      exact ⟨between, _, _, flags ++ inner, everywhere_allocate.1 all.1, rfl,
        Place.extends_elementSlot _ _ _, hb, f, List.mem_append_right _ hi, hn⟩
    · obtain ⟨site, t, target, deeper, hp, ht, below, hd, f, hi, hn⟩ := ih _ single loops all
      exact ⟨site, t, target, deeper ++ (flags ++ inner), hp, ht,
        below.trans (Place.extends_elementSlot _ _ _), by simp [hd, hb], f,
        List.mem_append_left _ hi, hn⟩
  | body struct named filled ih =>
    intro P start all
    obtain ⟨site, s, target, inner, hp, ht, below, hs, hf⟩ :=
      ih (Ty.loops_struct_iff.1 loops) (everywhere_cons.1 all).2
    exact ⟨site, s, target, inner, hp, ht, below, hs, hf⟩

/-- A turn of a loop fills the element that the loop's counter names. -/
theorem turnSite_fills (s : Settings) (start : Site) (slot : Slot) (shape : Shape)
    (staging : Staging) (element : String) (boxed : Bool) :
    ∃ f outer, (turnSite s start slot shape staging element boxed).frames = f :: outer ∧
      f.fills? = some (s.counter shape, (elementSlot s slot shape).place) := by
  refine ⟨_, _, rfl, ?_⟩
  simp only [Frame.fills?, Frame.allocated?, Site.before_after, List.getLast?_concat]
  cases shape <;> rfl

/-- Where an aggregate of a task is below the elements of another of its shape, a write is captured.
-/
theorem Emits.captured {cv : Converter} {task : Task} {block : Block} (h : Emits cv task block)
    (nests : task.Fills Ty.Nests) : ∀ {P : Site → Statement → Prop} {start : Site},
      Everywhere P start block → ∃ site s, P site s ∧ ¬ Uncaptured site s := by
  -- induction on the emission: the nesting is somewhere below, until the two loops of one shape are
  -- met
  induction h with
  | nil => exact absurd nests (by simp [Task.Fills])
  | cons chosen filled others ihf iho =>
    intro P start all
    obtain ⟨first, second⟩ := everywhere_append.1 all
    obtain ⟨g, hg, hn⟩ := nests
    rcases List.mem_cons.1 hg with rfl | hg
    · exact ihf hn first
    · exact iho ⟨g, hg, hn⟩ second
  | copied kind named agree =>
    exact absurd nests (Ty.not_nests (Ty.isStruct_of_isCopied kind) (Ty.elements?_of_isCopied kind))
  | binary agree => exact absurd nests (Ty.not_nests rfl rfl)
  | struct bodies ih =>
    intro P start all
    obtain ⟨between, _, all⟩ := Everywhere.of_structBlock all
    exact ih _ Choice.primary_mem nests all
  | elements kind whole plain named sources =>
    intro P start all
    have none := Ty.elements?_of_not_isAggregate plain
    rcases (Ty.nests_iff_of_elements? kind).1 nests with loops | nests
    · exact absurd loops (Ty.not_loops whole none)
    · exact absurd nests (Ty.not_nests whole none)
  | @structs level slot choice type s outer name element turn kind named sources turns ih =>
    intro P start all
    obtain ⟨_, _, _, _, all⟩ := (everywhere_aggregateBlock rfl).1 all
    obtain ⟨between, flags, hb, all⟩ := Everywhere.of_structTurn all
    have single : choice.primary ∈ choice.candidates := Choice.primary_mem
    -- a loop of the same shape in the turn binds the counter again and hides this one
    rcases (Ty.nests_iff_of_elements? kind).1 nests with loops | nests
    · obtain ⟨site, t, target, deeper, hp, ht, below, hd, g, hg, hn⟩ :=
        (turns _ single).writes_in_loop loops all
      obtain ⟨f, around, hf, fills⟩ := turnSite_fills cv.settings start slot outer
        (stage cv.settings slot.path true choice) name true
      rw [hf] at hb
      have hs : site.frames = (deeper ++ flags) ++ f :: around := by simp [hd, hb]
      refine ⟨site, t, hp, fun uncaptured => ?_⟩
      have found := uncaptured _ _ _ _ _ _ ht hs fills below
      have further := length_lt_binderOf (f :: around) ⟨g, List.mem_append_left flags hg, hn⟩
      rw [hs] at found
      rw [found] at further
      exact absurd further (Nat.lt_irrefl _)
    · exact ih _ single nests all
  | body struct named filled ih =>
    intro P start all
    exact ih (Ty.nests_struct_iff.1 nests) (everywhere_cons.1 all).2

/-! ## Where captures are -/

/-- The names that loops bind differ from each other. -/
def Settings.LoopNamesDiffer (s : Settings) : Prop :=
  s.index ≠ s.key ∧ s.index ≠ s.value ∧ s.key ≠ s.value

/-- A loop does not bind the name that counts the loops of the other shape. -/
theorem counter_not_mem_names {s : Settings} (differ : s.LoopNamesDiffer) {a b : Shape}
    (h : a ≠ b) : s.counter a ∉ (loopBinding s b).names := by
  obtain ⟨ik, iv, kv⟩ := differ
  cases a <;> cases b <;>
    simp_all [Settings.counter, loopBinding, Binding.counter, Binding.value, Binding.names, Ne.symm]

/-- Loops of different shapes around a site do not hide each other. -/
theorem Apart.uncaptured {s : Settings} {task : Task} {site : Site} {t : Statement}
    (differ : s.LoopNamesDiffer) (h : Apart s task .start site) : Uncaptured site t := by
  intro target inner f outer name element _ hs fills _
  obtain ⟨b, hb, rfl⟩ := fills?_eq_some fills
  obtain ⟨frames, shapes, hf, hbs, distinct, _⟩ := h
  -- the frames split where `f` stands: the loops inside of it are of other shapes than its own
  rw [Site.start, List.append_nil] at hf
  subst hf
  rw [hs, List.filterMap_append, List.filterMap_cons_some hb, eq_comm,
    List.map_eq_append_iff] at hbs
  obtain ⟨inside, around, rfl, hi, ha⟩ := hbs
  obtain ⟨shape, others, rfl, rfl, _⟩ := List.map_eq_cons_iff.1 ha
  have bound : (loopBinding s shape).counter ∈ f.names := by
    simp [Frame.names, hb, Binding.counter_mem_names]
  rw [hs, binderOf_append_of_not_mem, binderOf, if_pos bound]
  intro g hg hn
  cases hgb : g.binding? with
  | none => simp [Frame.names, hgb] at hn
  | some other =>
    have member : other ∈ inside.map (loopBinding s) := hi ▸ List.mem_filterMap.2 ⟨g, hg, hgb⟩
    obtain ⟨a, hm, rfl⟩ := List.mem_map.1 member
    have apart : shape ≠ a := by
      rintro rfl
      exact (List.nodup_append.1 distinct).2.2 _ hm _ List.mem_cons_self rfl
    have bound : s.counter shape ∈ (loopBinding s a).names := by
      simpa [Frame.names, hgb, Settings.counter] using hn
    exact counter_not_mem_names differ apart bound

/-- Every loop fills an aggregate that is allocated before it. -/
theorem Emits.filling {cv : Converter} {task : Task} {block : Block} (h : Emits cv task block) :
    ∀ start, Everywhere Filling start block := by
  have branch : ∀ site c yes no, Filling site (.branch c yes no) := by
    intro _ _ _ _ _ _ _ h
    cases h
  have assign : ∀ site target value, Filling site (.assign target value) := by
    intro _ _ _ _ _ _ h
    cases h
  have allocate : ∀ site target storage hint?, Filling site (.allocate target storage hint?) := by
    intro _ _ _ _ _ _ _ h
    cases h
  -- the loop of an aggregate is the only statement that could fill nothing
  have aggregate : ∀ start (slot : Slot) shape choice element boxed turn,
      Everywhere Filling (turnSite cv.settings start slot shape
        (stage cv.settings slot.path boxed choice) element boxed) turn →
      Everywhere Filling start
        (aggregateBlock cv.settings slot shape choice element boxed turn) := by
    intro start slot shape choice element boxed turn inside
    refine (everywhere_aggregateBlock rfl).2 ⟨?_, fun _ => ⟨branch _ _ _ _, assign _ _ _⟩,
      allocate _ _ _ _, ?_, inside⟩
    · exact everywhere_stage (fun _ _ _ _ _ => assign _ _ _) (fun _ _ _ => assign _ _ _)
        fun _ _ _ _ => branch _ _ _ _
    · intro iterable binding body same
      cases same
      obtain ⟨f, outer, hf, fills⟩ := turnSite_fills cv.settings start slot shape
        (stage cv.settings slot.path boxed choice) element boxed
      obtain ⟨rfl, _⟩ := List.cons.inj hf
      exact Option.isSome_of_mem fills
  induction h with
  | nil =>
    intro start
    exact everywhere_nil
  | cons chosen filled others ihf iho =>
    intro start
    exact everywhere_append.2 ⟨ihf start, iho _⟩
  | copied kind named agree =>
    intro start
    exact everywhere_assignChoice (fun _ _ _ _ _ _ => branch _ _ _ _) fun _ _ _ _ => assign _ _ _
  | binary agree =>
    intro start
    exact everywhere_assignChoice (fun _ _ _ _ _ _ => branch _ _ _ _) fun _ _ _ _ => assign _ _ _
  | struct bodies ih =>
    intro start
    exact everywhere_structBlock (fun _ _ _ _ _ _ => branch _ _ _ _) (fun _ _ => assign _ _ _)
      fun site _ c hc => ih c hc site
  | elements kind whole plain named sources =>
    intro start
    exact aggregate _ _ _ _ _ _ _ (everywhere_assign.2 (assign _ _ _))
  | structs kind named sources turns ih =>
    intro start
    refine aggregate _ _ _ _ _ _ _ (everywhere_structTurn (fun _ _ => branch _ _ _ _) ?_ ?_)
    · exact fun _ => ih _ Choice.primary_mem _
    · exact fun fallback hf => ⟨ih _ Choice.primary_mem _,
        ih fallback (Choice.fallback_mem hf) _⟩
  | body struct named filled ih =>
    intro start
    exact everywhere_cons.2 ⟨everywhere_allocate.2 (allocate _ _ _ _), ih _⟩

/-! ## Which conversions capture -/

/-- The default settings name the variables of loops apart. -/
theorem Settings.default_loopNamesDiffer : ({} : Settings).LoopNamesDiffer := by
  simp [Settings.LoopNamesDiffer]

/-- Every loop of a program fills an aggregate allocated before it, and all writes into elements
find the loops they were emitted for if and only if no destination nests aggregates of a shape. -/
theorem uncaptured_iff_not_nests {namespaces : Namespaces} {sources dests : List Field}
    {table : MappingTable} {block : Block}
    (h : Converter.convert { namespaces } sources dests table = .ok block) :
    Everywhere Filling .start block ∧
      (Everywhere Uncaptured .start block ↔ ∀ f ∈ dests, ¬ f.type.Nests) := by
  have emitted := emits_of_convert h
  refine ⟨emitted.filling .start, ?_, ?_⟩
  · intro uncaptured f hf nests
    obtain ⟨site, s, free, captured⟩ := emitted.captured ⟨f, hf, nests⟩ uncaptured
    exact captured free
  · intro flat site s at_
    have apart := emitted.loops_apart (fun ⟨f, hf, nests⟩ => flat f hf nests) .start site s at_
    exact apart.uncaptured Settings.default_loopNamesDiffer

namespace Grid

/-! Rows of cells: in a map no write is captured, in a list those of the cells are. -/

/-- A row has a list of cells. -/
def row : Struct :=
  ⟨"Row", "a.thrift", [⟨"Cells", .list (.primitive .i32), true, "a.thrift"⟩]⟩

/-- A field for rows, in a list or map of the given type. -/
def rows (type : Ty) : Field :=
  ⟨"Rows", type, true, "a.thrift"⟩

/-- A converter with the default settings. -/
def converter : Converter :=
  { namespaces := .registry [("a.thrift", "crate::a")] }

/-- A row is filled by loops over lists only. -/
theorem row_loops_iff {shape : Shape} : row.toTy.Loops shape ↔ .list = shape := by
  have plain : ¬ (Ty.primitive .i32).Loops shape := Ty.not_loops rfl rfl
  have cells : (Ty.list (.primitive .i32)).elements? = some (.list, .primitive .i32) := rfl
  rw [Ty.loops_struct_iff]
  simp [row, Ty.loops_iff_of_elements? cells, plain]

/-- In a row no aggregate is below the elements of another. -/
theorem row_not_nests : ¬ row.toTy.Nests := by
  have flat : ¬ (Ty.primitive .i32).Loops .list := Ty.not_loops rfl rfl
  have plain : ¬ (Ty.primitive .i32).Nests := Ty.not_nests rfl rfl
  have cells : (Ty.list (.primitive .i32)).elements? = some (.list, .primitive .i32) := rfl
  rw [Ty.nests_struct_iff]
  simp [row, Ty.nests_iff_of_elements? cells, flat, plain]

/-- Rows in a map: the loop over the map binds a key and the one over the cells a position. -/
theorem uncaptured_rows_in_map :
    ∃ block, converter.convert [rows (.map (.primitive .string) row.toTy)]
        [rows (.map (.primitive .string) row.toTy)] .empty = .ok block ∧
      Everywhere Uncaptured .start block := by
  have converts : ∃ block, converter.convert [rows (.map (.primitive .string) row.toTy)]
      [rows (.map (.primitive .string) row.toTy)] .empty = .ok block := ⟨_, rfl⟩
  obtain ⟨block, h⟩ := converts
  refine ⟨block, h, (uncaptured_iff_not_nests h).2.2 fun f hf nests => ?_⟩
  obtain rfl := List.mem_singleton.1 hf
  have kind : (rows (.map (.primitive .string) row.toTy)).type.elements? =
      some (.map, row.toTy) := rfl
  rcases (Ty.nests_iff_of_elements? kind).1 nests with loops | nests
  · exact absurd (row_loops_iff.1 loops) (by decide)
  · exact row_not_nests nests

/-- Rows in a list: the loop over the cells hides the position of the row. -/
theorem captured_rows_in_list :
    ∃ block, converter.convert [rows (.list row.toTy)] [rows (.list row.toTy)] .empty =
        .ok block ∧
      ¬ Everywhere Uncaptured .start block := by
  have converts : ∃ block, converter.convert [rows (.list row.toTy)] [rows (.list row.toTy)]
      .empty = .ok block := ⟨_, rfl⟩
  obtain ⟨block, h⟩ := converts
  have kind : (rows (.list row.toTy)).type.elements? = some (.list, row.toTy) := rfl
  have nests : (rows (.list row.toTy)).type.Nests :=
    .here kind (row_loops_iff.2 rfl)
  refine ⟨block, h, fun uncaptured => ?_⟩
  obtain ⟨site, s, free, captured⟩ :=
    (emits_of_convert h).captured ⟨_, List.mem_cons_self, nests⟩ uncaptured
  exact captured free

end Grid

end Crosswalk
