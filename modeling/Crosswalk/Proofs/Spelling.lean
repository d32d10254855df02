import Crosswalk.Path
import Mathlib.Data.List.Chain

/-!
# Spelling of paths

The identifier of a path spells its segments two underscores apart. No spelled segment has two
underscores side by side or one at its end, so the segments can be told apart again: paths have the
same identifier exactly if their segments are spelled the same, one by one. Field names of the same
words are spelled the same, as `OwnerTags` and `owner_tags` are.
-/

namespace Crosswalk
set_option autoImplicit false

/-- No underscore at either end, and none next to another. -/
structure Spelled (text : List Char) : Prop where
  first : text.head? ≠ some '_'
  last : text.getLast? ≠ some '_'
  apart : text.IsChain fun a b => a ≠ '_' ∨ b ≠ '_'

/-! ## Words -/

/-- No part of a split text has the separator in it. -/
theorem Text.not_mem_of_mem_splitOn {sep : Char} {text part : List Char}
    (h : part ∈ splitOn sep text) : sep ∉ part := by
  induction text generalizing part with
  | nil =>
    obtain rfl : part = [] := by simpa [splitOn] using h
    exact List.not_mem_nil
  | cons c rest ih =>
    by_cases hc : c = sep
    · rw [splitOn, if_pos hc] at h
      rcases List.mem_cons.1 h with rfl | h
      · exact List.not_mem_nil
      · exact ih h
    · rw [splitOn, if_neg hc] at h
      split at h
      · next none => exact absurd none (splitOn_ne_nil sep rest)
      · next first others parts =>
        rw [parts] at ih
        rcases List.mem_cons.1 h with rfl | h
        · have clear := ih List.mem_cons_self
          simp [Ne.symm hc, clear]
        · exact ih (List.mem_cons_of_mem _ h)

theorem spelled_nil : Spelled [] :=
  ⟨by simp, by simp, .nil⟩

theorem spelled_of_not_mem {word : List Char} (h : '_' ∉ word) : Spelled word := by
  refine ⟨fun first => h (List.mem_of_mem_head? first), fun last => h (List.mem_of_getLast? last),
    List.Pairwise.isChain (List.pairwise_iff_forall_sublist.2 ?_)⟩
  intro a b pair
  have ha : a ∈ word := pair.subset List.mem_cons_self
  exact .inl fun same => h (same ▸ ha)

/-- Words with one underscore between them are spelled, if both are and neither is empty. -/
theorem Spelled.append {word text : List Char} (hw : Spelled word) (ht : Spelled text)
    (first : word ≠ []) (second : text ≠ []) : Spelled (word ++ '_' :: text) := by
  refine ⟨?_, ?_, ?_⟩
  · rw [List.head?_append_of_ne_nil _ first]
    exact hw.first
  · rw [List.getLast?_append_of_ne_nil _ (List.cons_ne_nil _ _),
      List.getLast?_cons_of_ne_nil second]
    exact ht.last
  · refine List.isChain_append.2 ⟨hw.apart, List.isChain_cons.2 ⟨?_, ht.apart⟩, ?_⟩
    · intro b hb
      exact .inr fun same => ht.first (same ▸ hb)
    · intro a ha _ _
      exact .inl fun same => hw.last (same ▸ ha)

/-- Words joined by underscores. -/
theorem spelled_intercalate {words : List (List Char)}
    (h : ∀ word ∈ words, word ≠ [] ∧ '_' ∉ word) : Spelled (['_'].intercalate words) := by
  have joined : Spelled (['_'].intercalate words) ∧
      (words ≠ [] → ['_'].intercalate words ≠ []) := by
    induction words with
    | nil => exact ⟨spelled_nil, fun ne => absurd rfl ne⟩
    | cons word rest ih =>
      obtain ⟨some, clear⟩ := h word List.mem_cons_self
      obtain ⟨spelled, ne⟩ := ih fun w hw => h w (List.mem_cons_of_mem _ hw)
      cases rest with
      | nil =>
        rw [List.intercalate_singleton]
        exact ⟨spelled_of_not_mem clear, fun _ => some⟩
      | cons next rest =>
        rw [List.intercalate_cons_cons, List.append_assoc, List.singleton_append]
        refine ⟨(spelled_of_not_mem clear).append spelled some (ne (List.cons_ne_nil _ _)), ?_⟩
        simp
  exact joined.1

/-- Segments are words joined by single underscores. -/
theorem Segment.spelled (s : Segment) : Spelled s.ident.toList := by
  cases s with
  | field name =>
    rw [ident, String.toList_ofList]
    refine spelled_intercalate fun word mem => ?_
    obtain ⟨split, some⟩ := List.mem_filter.1 mem
    exact ⟨by simpa using some, Text.not_mem_of_mem_splitOn split⟩
  | index => exact spelled_of_not_mem (by decide)
  | key => exact spelled_of_not_mem (by decide)

/-! ## Telling segments apart -/

/-- The parts of a text between pairs of underscores, each pair being taken as early as it comes. -/
def partsApart : List Char → List (List Char)
  | [] => [[]]
  | '_' :: '_' :: rest => [] :: partsApart rest
  | c :: rest => (partsApart rest).modifyHead (c :: ·)

/-- A character that begins no separator belongs to the first part. -/
theorem partsApart_cons {c : Char} {rest : List Char} (h : c = '_' → rest.head? ≠ some '_') :
    partsApart (c :: rest) = (partsApart rest).modifyHead (c :: ·) := by
  rw [partsApart]
  rintro behind rfl rfl
  exact h rfl rfl

/-- No pair begins within a spelled text or at its end, so the text is read up to what follows. -/
theorem Spelled.partsApart_append {text : List Char} (h : Spelled text) (behind : List Char) :
    partsApart (text ++ behind) = (partsApart behind).modifyHead (text ++ ·) := by
  obtain ⟨-, last, apart⟩ := h
  induction text with
  | nil => cases parts : partsApart behind <;> simp [parts]
  | cons c text ih =>
    have alone : c = '_' → (text ++ behind).head? ≠ some '_' := by
      rintro rfl
      cases text with
      | nil => exact absurd rfl last
      | cons d text =>
        rintro ⟨⟩
        simp at apart
    have last' : text.getLast? ≠ some '_' := by
      cases text with
      | nil => simp
      | cons d text => rwa [List.getLast?_cons_of_ne_nil (List.cons_ne_nil d text)] at last
    rw [List.cons_append, partsApart_cons alone, ih last' apart.tail, List.modifyHead_modifyHead]
    rfl

/-- Spelled texts that are written two underscores apart are read back. -/
theorem partsApart_intercalate {text : List Char} {rest : List (List Char)}
    (h : ∀ t ∈ text :: rest, Spelled t) :
    partsApart (['_', '_'].intercalate (text :: rest)) = text :: rest := by
  induction rest generalizing text with
  | nil =>
    have whole := (h text List.mem_cons_self).partsApart_append []
    simpa [partsApart] using whole
  | cons next rest ih =>
    obtain ⟨first, others⟩ := List.forall_mem_cons.1 h
    rw [List.intercalate_cons_cons, List.append_assoc, first.partsApart_append]
    simp [partsApart, ih others]

namespace Path

/-- The segments of two paths are spelled the same, one by one. -/
def Alike (p q : Path) : Prop :=
  p.segments.map Segment.ident = q.segments.map Segment.ident

/-- The identifier of a path is those of its segments with double underscores between them. -/
theorem toList_ident (p : Path) : p.ident.toList =
    ['_', '_'].intercalate ((p.segments.map Segment.ident).map String.toList) := by
  rw [ident, String.toList_intercalate]
  rfl

/-- The identifiers of the segments of a path, read back from that of the path. -/
def identParts (ident : String) : List String :=
  (partsApart ident.toList).map String.ofList

/-- The identifiers of the segments are read off that of the path, since none of them has a double
underscore or an underscore at an end. -/
theorem identParts_ident {p : Path} (hp : p.segments ≠ []) :
    identParts p.ident = p.segments.map Segment.ident := by
  obtain ⟨s, rest, hs⟩ := List.exists_cons_of_ne_nil hp
  have spelled : ∀ text ∈ s.ident.toList :: (rest.map Segment.ident).map String.toList,
      Spelled text := by
    simp [Segment.spelled]
  rw [identParts, toList_ident, hs, List.map_cons, List.map_cons, partsApart_intercalate spelled]
  simp [Function.comp_def]

/-- Two paths below the root have one identifier only if their segments are spelled alike. -/
theorem ident_eq_iff_alike {p q : Path} (hp : p.segments ≠ []) (hq : q.segments ≠ []) :
    p.ident = q.ident ↔ p.Alike q := by
  constructor
  · intro h
    rw [Alike, ← identParts_ident hp, ← identParts_ident hq, h]
  · intro h
    rw [ident, ident, h]

/-- Paths are spelled alike if they are equally long and the segments at each position are. -/
theorem alike_iff {p q : Path} : p.Alike q ↔ p.length = q.length ∧
    ∀ (i : Nat) (s t : Segment), p.segments[i]? = some s → q.segments[i]? = some t →
      s.ident = t.ident := by
  constructor
  · intro h
    have lengths := congrArg List.length h
    simp only [List.length_map] at lengths
    refine ⟨lengths, fun i s t hs ht => ?_⟩
    have here := congrArg (·[i]?) h
    simpa [hs, ht] using here
  · rintro ⟨lengths, each⟩
    refine List.ext_getElem (by simpa [length] using lengths) fun i hi hj => ?_
    rw [List.getElem_map, List.getElem_map]
    exact each i _ _ (List.getElem?_eq_getElem _) (List.getElem?_eq_getElem _)

/-- Below the root the identifier of a path gives back those of its segments, empty ones as well, so
that two paths have one identifier exactly if they are as long as each other and their segments have
the same identifiers, one by one. -/
theorem ident_uniquely_decodable {p q : Path} (hp : p ≠ root) (hq : q ≠ root) :
    identParts p.ident = p.segments.map Segment.ident ∧
      (p.ident = q.ident ↔ p.length = q.length ∧
        ∀ (i : Nat) (s t : Segment), p.segments[i]? = some s → q.segments[i]? = some t →
          s.ident = t.ident) := by
  have below : ∀ {r : Path}, r ≠ root → r.segments ≠ [] := by
    intro r other none
    cases r
    exact other (congrArg Path.mk none)
  exact ⟨identParts_ident (below hp), (ident_eq_iff_alike (below hp) (below hq)).trans alike_iff⟩

/-- Two fields with names of no word, and below them two fields with names of the same words. -/
theorem blank_ident_decodable :
    let p := ((root.field "_").field "OwnerTags").index
    let q := ((root.field "- -").field "owner_tags").index
    (p ≠ root ∧ q ≠ root) ∧ identParts p.ident = ["", "owner_tags", "item"] ∧
      p.ident = q.ident := by
  intro p q
  have hp : p ≠ root := by decide
  have hq : q ≠ root := by decide
  have decodable := ident_uniquely_decodable hp hq
  have spelled : p.segments.map Segment.ident = ["", "owner_tags", "item"] := by decide
  have alike : p.Alike q := by
    unfold Alike
    decide
  exact ⟨⟨hp, hq⟩, decodable.1.trans spelled, decodable.2.2 (alike_iff.1 alike)⟩

/-- The root has the identifier of a field with a name of no word. -/
example : root.ident = (root.field "_").ident := by
  decide

end Path

end Crosswalk
