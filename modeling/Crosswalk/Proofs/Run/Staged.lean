import Crosswalk.Proofs.Staging

/-!
# Staged variables

A conversion assigns variables only for the paths of the destinations that it fills, so what it
fills below an element leaves the variables of the aggregate alone.
-/

namespace Crosswalk
set_option autoImplicit false
open Converter

/-- The variables that filling a struct assigns are for paths below it. -/
theorem Emits.assigns {cv : Converter} {level : Level} {s : Struct} {slot : Slot}
    {source : Candidate} {block : Block} (h : Emits cv (.body level s slot source) block)
    (output : slot.place.root = .output) {start site : Site} {t : Statement} {name : String}
    (at_ : Occurs start block site t) (assigned : t.assigned? = some name) :
    ∃ q : Path, (∃ next rest, q.segments = slot.path.segments ++ next :: rest) ∧
      (name = sourceListVar cv.settings q ∨ name = overrideFlagVar cv.settings q) := by
  obtain ⟨target, written, root⟩ := target?_of_assigned? assigned
  rcases h.writesOwn start site t at_ target written with covered | ⟨var, optional, rfl, found⟩
  · rw [covered.1, output] at root
    cases root
  · obtain ⟨_, _, _, deep, given, g, inner, _, reached, path, boxed, staged, mem⟩ := found
    cases root
    obtain ⟨rfl, _⟩ := staged
    obtain ⟨below, path, leads⟩ := reached.fieldAt
    obtain ⟨next, rest, rfl⟩ := List.exists_cons_of_ne_nil leads.ne_nil
    exact ⟨_, ⟨next, rest, path⟩, sourceListVar_or_overrideFlagVar mem⟩

/-! ## Staged variables of different paths -/

theorem Path.length_ident_lt {p q : Path} {marker : Segment} {rest : List Segment}
    (ne : p.segments ≠ []) (h : q.segments = p.segments ++ marker :: rest) :
    p.ident.length < q.ident.length := by
  have joined : q.ident =
      p.ident ++ "__" ++ "__".intercalate ((marker :: rest).map Segment.ident) := by
    rw [ident, ident, h, List.map_append]
    exact String.intercalate_append_of_ne_nil (by simpa using ne) (by simp)
  rw [joined, String.length_append, String.length_append]
  have separator : "__".length = 2 := rfl
  omega

/-- Variables that are staged do not hide the variables of loops, nor flags the lists. -/
structure Settings.StagedApart (s : Settings) : Prop where
  sourceList : ∀ p, sourceListVar s p ∉ [s.index, s.key, s.value]
  overrideFlag : ∀ p, overrideFlagVar s p ∉ [s.index, s.key, s.value]
  each : ∀ p q, sourceListVar s p ≠ overrideFlagVar s q

theorem Settings.default_stagedApart : ({} : Settings).StagedApart where
  sourceList p := by
    -- these names are longer than any variable of a loop
    have long : 12 ≤ (sourceListVar {} p).length := by
      simp only [sourceListVar, String.length_append]
      have lead : "source_list".length = 11 := rfl
      have mark : "_".length = 1 := rfl
      omega
    intro mem
    have short : ∀ name ∈ ["index", "key", "value"], name.length < 12 := by decide
    exact absurd (short _ mem) (by omega)
  overrideFlag p := by
    have long : 14 ≤ (overrideFlagVar {} p).length := by
      simp only [overrideFlagVar, String.length_append]
      have lead : "is_overridden".length = 13 := rfl
      have mark : "_".length = 1 := rfl
      omega
    intro mem
    have short : ∀ name ∈ ["index", "key", "value"], name.length < 14 := by decide
    exact absurd (short _ mem) (by omega)
  each p q := by
    intro same
    -- the two kinds of names begin with different letters
    have heads := congrArg (fun s => s.toList.head?) same
    simp [sourceListVar, overrideFlagVar] at heads

/-- What is filled below a path does not assign the variables of the path. -/
theorem Emits.not_assigned {cv : Converter} {level : Level} {s : Struct} {slot : Slot}
    {source : Candidate} {block : Block} {path : Path} {marker : Segment} {boxed : Bool}
    {name : String} (apart : cv.settings.StagedApart)
    (h : Emits cv (.body level s slot source) block) (output : slot.place.root = .output)
    (below : slot.path.segments = path.segments ++ [marker]) (ne : path.segments ≠ [])
    (mem : name ∈ stagedVars cv.settings path boxed) (start : Site) :
    Everywhere (fun _ t => t.assigned? ≠ some name) start block := by
  intro site t at_ assigned
  obtain ⟨q, ⟨next, rest, hq⟩, named⟩ := h.assigns output at_ assigned
  have deeper : q.segments = path.segments ++ marker :: next :: rest := by
    rw [hq, below]
    simp
  -- variables of one kind start alike, so their lengths have to tell them apart
  have longer := Path.length_ident_lt ne deeper
  rcases sourceListVar_or_overrideFlagVar mem with rfl | rfl <;> rcases named with named | named
  · have lengths := congrArg String.length named
    simp only [sourceListVar, String.length_append] at lengths
    omega
  · exact apart.each path q named
  · exact apart.each q path named.symm
  · have lengths := congrArg String.length named
    simp only [overrideFlagVar, String.length_append] at lengths
    omega

/-- What is filled below a path leaves the flag of the path as it is. -/
theorem Emits.keeps_flag {cv : Converter} {level : Level} {s : Struct} {slot : Slot}
    {source : Candidate} {block : Block} {path : Path} {marker : Segment}
    (apart : cv.settings.StagedApart) (h : Emits cv (.body level s slot source) block)
    (output : slot.place.root = .output) (below : slot.path.segments = path.segments ++ [marker])
    (ne : path.segments ≠ []) (env : Env) :
    (Block.run block env).vars (overrideFlagVar cv.settings path) =
      env.vars (overrideFlagVar cv.settings path) := by
  have mem : overrideFlagVar cv.settings path ∈ stagedVars cv.settings path true := by
    simp [stagedVars]
  exact Block.run_keeps block (h.not_assigned apart output below ne mem .start) env

end Crosswalk
