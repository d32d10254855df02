import Crosswalk.Conversion.Choice

/-!
# How sources are chosen

A destination has at most two candidates, the field of its name and the source of the entry for its
path. `choose_eq_ok` lists the three ways in which a choice is made; that all candidates are read
from the level or from its table (`candidate_of_choose`), and that only an optional source has a
fallback (`optional_of_choose`), are read off these ways.
-/

namespace Crosswalk
set_option autoImplicit false

/-- The source that an entry maps. -/
def Entry.candidate (e : Entry) : Candidate :=
  .ofField e.field e.place

namespace Choice

/-- The source that is preferred is a candidate. -/
theorem primary_mem {c : Choice} : c.primary ∈ c.candidates :=
  List.mem_cons_self

/-- The source that is used in its absence is a candidate. -/
theorem fallback_mem {c : Choice} {fallback : Candidate} (h : c.fallback? = some fallback) :
    fallback ∈ c.candidates := by
  simp [candidates, h]

/-- There are no candidates but the two that were given. -/
theorem mem_candidates_withFallback {primary secondary c : Candidate}
    (h : c ∈ (withFallback primary secondary).candidates) : c = primary ∨ c = secondary := by
  unfold withFallback at h
  split at h <;> simp_all [candidates]

/-- A second source is kept only where the first can be absent. -/
theorem optional_of_withFallback {primary secondary c : Candidate}
    (h : c ∈ (withFallback primary secondary).fallback?) :
    (withFallback primary secondary).primary.optional = true := by
  unfold withFallback at h ⊢
  split at h
  · assumption
  · cases h

/-- A single source is the only candidate. -/
theorem forall_direct {p : Candidate → Prop} {c : Candidate} (h : p c) :
    ∀ d ∈ (direct c).candidates, p d := by
  simpa [direct, candidates] using h

end Choice

namespace Level
variable {l : Level} {sources : List Field} {name : String} {choice : Choice} {c : Candidate}

/-- A destination has a source of its name, a mapped one, or both in the order that the entry
says. -/
theorem choose_eq_ok (h : l.choose sources name = .ok choice) :
    (∃ same, l.sameName? sources name = some same ∧ l.mapping? (l.path.field name) = none ∧
      choice = .direct same) ∨
    (∃ e, l.sameName? sources name = none ∧ l.mapping? (l.path.field name) = some e ∧
      choice = .direct e.candidate) ∨
    ∃ same e, l.sameName? sources name = some same ∧ l.mapping? (l.path.field name) = some e ∧
      choice = if e.overrides then .withFallback e.candidate same
        else .withFallback same e.candidate := by
  -- four cases: whether a field has the name, and whether an entry maps the path
  unfold choose at h
  cases hs : l.sameName? sources name with
  | none =>
    cases hm : l.mapping? (l.path.field name) with
    | none => simp [hs, hm, Path.fail] at h
    | some e =>
      simp only [hs, hm, Option.map_some, Except.ok.injEq] at h
      exact .inr (.inl ⟨e, rfl, rfl, h.symm⟩)
  | some same =>
    cases hm : l.mapping? (l.path.field name) with
    | none =>
      simp only [hs, hm, Option.map_none, Except.ok.injEq] at h
      exact .inl ⟨same, rfl, rfl, h.symm⟩
    | some e =>
      refine .inr (.inr ⟨same, e, rfl, rfl, ?_⟩)
      cases overrides : e.overrides <;> simpa [hs, hm, overrides, Entry.candidate, eq_comm] using h

/-- Only a source that may be absent has a fallback. -/
theorem optional_of_choose (h : l.choose sources name = .ok choice) (mem : c ∈ choice.fallback?) :
    choice.primary.optional = true := by
  rcases choose_eq_ok h with ⟨same, _, _, rfl⟩ | ⟨e, _, _, rfl⟩ | ⟨same, e, _, _, rfl⟩
  · cases mem
  · cases mem
  · split at mem
    · next overrides =>
      rw [if_pos overrides]
      exact Choice.optional_of_withFallback mem
    · next overrides =>
      rw [if_neg overrides]
      exact Choice.optional_of_withFallback mem

/-- The source of the same name is a field of that name, at its place. -/
theorem sameName?_eq_some (h : l.sameName? sources name = some c) :
    ∃ f, findField? sources f.name = some f ∧ f.name = name ∧
      c = .ofField f (l.source.field f.name f.isOptional) := by
  obtain ⟨f, found, rfl⟩ := Option.map_eq_some_iff.1 h
  obtain rfl := name_of_findField? found
  exact ⟨f, found, rfl, rfl⟩

/-- An entry that applies to a path is in the table under it. -/
theorem get?_of_mapping? {path : Path} {e : Entry} (h : l.mapping? path = some e) :
    l.table.get? path = some e := by
  unfold mapping? at h
  split at h
  · exact h
  · cases h

/-- All sources are read: a field of the level's source, or the field of an entry. -/
theorem candidate_of_choose (h : l.choose sources name = .ok choice) (mem : c ∈ choice.candidates) :
    (∃ f, findField? sources f.name = some f ∧
      c = .ofField f (l.source.field f.name f.isOptional)) ∨
    ∃ path e, l.table.get? path = some e ∧ c = e.candidate := by
  rcases choose_eq_ok h with ⟨same, hs, _, rfl⟩ | ⟨e, _, hm, rfl⟩ | ⟨same, e, hs, hm, rfl⟩
  · obtain rfl : c = same := by simpa [Choice.direct, Choice.candidates] using mem
    obtain ⟨f, found, _, rfl⟩ := sameName?_eq_some hs
    exact .inl ⟨f, found, rfl⟩
  · obtain rfl : c = e.candidate := by simpa [Choice.direct, Choice.candidates] using mem
    exact .inr ⟨_, e, get?_of_mapping? hm, rfl⟩
  · have either : c = same ∨ c = e.candidate := by
      split at mem
      · exact (Choice.mem_candidates_withFallback mem).symm
      · exact Choice.mem_candidates_withFallback mem
    rcases either with rfl | rfl
    · obtain ⟨f, found, _, rfl⟩ := sameName?_eq_some hs
      exact .inl ⟨f, found, rfl⟩
    · exact .inr ⟨_, e, get?_of_mapping? hm, rfl⟩

end Level

end Crosswalk
