/-!
# Cutting a text at a separator

Texts are lists of characters here. A text with `n` separators has `n + 1` parts, empty ones
included, and joining the parts with the separator gives the text back.
-/

namespace Crosswalk.Text
set_option autoImplicit false

/-- The parts of a text between the occurrences of a separator. -/
def splitOn (sep : Char) : List Char → List (List Char)
  | [] => [[]]
  | c :: rest =>
    if c = sep then [] :: splitOn sep rest
    else match splitOn sep rest with
      | [] => [[c]]
      | part :: parts => (c :: part) :: parts

/-- The parts before and after the first occurrence of a separator. -/
def cut? (sep : Char) : List Char → Option (List Char × List Char)
  | [] => none
  | c :: rest =>
    if c = sep then some ([], rest)
    else (cut? sep rest).map fun (before, after) => (c :: before, after)

/-- The part before the last occurrence of a separator. -/
def beforeLast? (sep : Char) : List Char → Option (List Char)
  | [] => none
  | c :: rest =>
    match beforeLast? sep rest with
    | some before => some (c :: before)
    | none => if c = sep then some [] else none

/-- A text has at least one part. -/
theorem splitOn_ne_nil (sep : Char) (text : List Char) : splitOn sep text ≠ [] := by
  cases text with
  | nil => simp [splitOn]
  | cons c rest =>
    by_cases h : c = sep
    · simp [splitOn, h]
    · simp only [splitOn, h, if_false]
      split <;> simp

/-- Joining the parts with the separator gives the text back. -/
theorem intercalate_splitOn (sep : Char) (text : List Char) :
    List.intercalate [sep] (splitOn sep text) = text := by
  induction text with
  | nil => simp [splitOn]
  | cons c rest ih =>
    by_cases h : c = sep
    · subst h
      match hs : splitOn c rest with
      | [] => exact absurd hs (splitOn_ne_nil _ _)
      | part :: parts => simp [splitOn, hs, List.intercalate_cons_cons, hs ▸ ih]
    · match hs : splitOn sep rest with
      | [] => exact absurd hs (splitOn_ne_nil _ _)
      | [part] => simp_all [splitOn]
      | part :: next :: parts =>
        rw [hs] at ih
        simp_all [splitOn, List.intercalate_cons_cons]

/-- What is cut off in front has no separator, and with the separator and the rest it is the text.
-/
theorem cut?_eq_some {sep : Char} {text before after : List Char}
    (h : cut? sep text = some (before, after)) :
    text = before ++ sep :: after ∧ sep ∉ before := by
  induction text generalizing before after with
  | nil => simp [cut?] at h
  | cons c rest ih =>
    by_cases hc : c = sep
    · simp only [cut?, hc, if_true, Option.some.injEq, Prod.mk.injEq] at h
      obtain ⟨rfl, rfl⟩ := h
      simp [hc]
    · simp only [cut?, hc, if_false, Option.map_eq_some_iff, Prod.mk.injEq] at h
      obtain ⟨⟨b, a⟩, hcut, rfl, rfl⟩ := h
      obtain ⟨rfl, hb⟩ := ih hcut
      exact ⟨rfl, by simp [hb, Ne.symm hc]⟩

/-- A text is cut at the first separator. -/
theorem cut?_append {sep : Char} {before after : List Char} (h : sep ∉ before) :
    cut? sep (before ++ sep :: after) = some (before, after) := by
  induction before with
  | nil => simp [cut?]
  | cons c before ih =>
    obtain ⟨first, rest⟩ := List.ne_and_not_mem_of_not_mem_cons h
    simp [cut?, Ne.symm first, ih rest]

/-- A text is not cut exactly if it has no separator. -/
theorem cut?_eq_none_iff {sep : Char} {text : List Char} : cut? sep text = none ↔ sep ∉ text := by
  induction text with
  | nil => simp [cut?]
  | cons c rest ih =>
    by_cases hc : c = sep
    · simp [cut?, hc]
    · simp [cut?, hc, ih, Ne.symm hc]

end Crosswalk.Text
