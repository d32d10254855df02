import Crosswalk.Conversion
import Crosswalk.Proofs.Except

/-!
# Fields side by side

Filling the fields of a level is filling each of them, in order. What is emitted for a field does
not depend on the fields beside it, so a conversion of some fields and then others is the two
conversions one after the other, and the first field that cannot be filled is the one reported.
-/

namespace Crosswalk
set_option autoImplicit false

namespace Converter

/-- The blocks of the fields, each converted by itself. -/
theorem convertFields_eq_mapM (cv : Converter) (level : Level) (sources dests : List Field) :
    cv.convertFields level sources dests =
      List.flatten <$> dests.mapM (cv.convertField level sources) := by
  induction dests with
  | nil => rfl
  | cons f rest ih =>
    rw [convertFields, ih, List.mapM_cons]
    simp

/-- Fields and then others, at any level. -/
theorem convertFields_append (cv : Converter) (level : Level) (sources first second : List Field) :
    cv.convertFields level sources (first ++ second) = do
      let block ← cv.convertFields level sources first
      let later ← cv.convertFields level sources second
      return block ++ later := by
  simp only [convertFields_eq_mapM, List.mapM_append]
  simp

end Converter

/-- Fields side by side are converted one list after the other: the conversion of both succeeds
exactly if those of the two do, with their statements in order, and fails with the first error. -/
theorem convert_side_by_side (cv : Converter) (sources first second : List Field)
    (table : MappingTable) :
    (cv.convert sources (first ++ second) table = do
      let block ← cv.convert sources first table
      let later ← cv.convert sources second table
      return block ++ later) ∧
    (∀ block, cv.convert sources (first ++ second) table = .ok block ↔
      ∃ a b, cv.convert sources first table = .ok a ∧ cv.convert sources second table = .ok b ∧
        block = a ++ b) ∧
    ∀ e, cv.convert sources (first ++ second) table = .error e ↔
      cv.convert sources first table = .error e ∨
        ∃ a, cv.convert sources first table = .ok a ∧
          cv.convert sources second table = .error e := by
  have split := cv.convertFields_append (.top table) sources first second
  refine ⟨split, fun block => ?_, fun e => ?_⟩
  · rw [Converter.convert, split, bind_eq_ok]
    constructor
    · rintro ⟨a, ha, h⟩
      obtain ⟨b, hb, whole⟩ := bind_eq_ok.1 h
      exact ⟨a, b, ha, hb, (pure_eq_ok.1 whole).symm⟩
    · rintro ⟨a, b, ha, hb, rfl⟩
      exact ⟨a, ha, bind_eq_ok.2 ⟨b, hb, rfl⟩⟩
  · rw [Converter.convert, split, bind_eq_error]
    refine or_congr_right ⟨?_, ?_⟩
    · rintro ⟨a, ha, h⟩
      rcases bind_eq_error.1 h with hb | ⟨b, hb, h⟩
      · exact ⟨a, ha, hb⟩
      · cases h
    · rintro ⟨a, ha, hb⟩
      exact ⟨a, ha, bind_eq_error.2 (.inl hb)⟩

end Crosswalk
