import Crosswalk.Path.Parser
import Crosswalk.Proofs.Except

/-!
# The texts of paths

A path can be written in more than one way: with white space around it, and with anything in the
brackets of a list element. `Path.tidied` is the text with one word in each bracket, and two texts
are read as one path if their tidied texts are the same.
-/

namespace Crosswalk.Path
set_option autoImplicit false
open Crosswalk.Text

/-! ## Tidy texts -/

/-- The word in brackets for what their content stands for. -/
def bracketWord (chars : List Char) : List Char :=
  if trim chars = "key".toList then "key".toList else "index".toList

/-- The text with such words in its brackets, from outside of a bracket or, given what was read of
one, from inside. -/
def tidyFrom : Option (List Char) → List Char → List Char
  | none, [] => []
  | none, c :: rest => c :: tidyFrom (if c = '[' then some [] else none) rest
  | some chars, [] => chars
  | some chars, c :: rest =>
    if c = ']' then bracketWord chars ++ ']' :: tidyFrom none rest
    else tidyFrom (some (chars ++ [c])) rest

/-- The text without white space around it and with one word in each bracket. -/
def tidied (text : String) : String :=
  String.ofList (tidyFrom none (trim text.toList))

/-! ## Reading and writing -/

namespace ReadState

/-- What the path's text has before what is still to be read. -/
@[simp] def lead : ReadState → List Char
  | name chars => chars
  | bracket _ => ['[']
  | behind => []

@[simp] def inside? : ReadState → Option (List Char)
  | bracket chars => some chars
  | _ => none

@[simp] def isName : ReadState → Bool
  | name _ => true
  | _ => false

/-- The same state with nothing read of a bracket. -/
@[simp] def opened : ReadState → ReadState
  | bracket _ => bracket []
  | state => state

end ReadState

/-- How a text is read: one rule for each step that goes on. -/
inductive Reads : ReadState → List Char → List Segment → Prop
  | nameEnd {name : List Char} (some : name ≠ []) :
      Reads (.name name) [] [.field (String.ofList name)]
  | nameDot {name rest : List Char} {segments : List Segment} (some : name ≠ [])
      (h : Reads (.name []) rest segments) :
      Reads (.name name) ('.' :: rest) (.field (String.ofList name) :: segments)
  | nameBracket {name rest : List Char} {segments : List Segment} (some : name ≠ [])
      (h : Reads (.bracket []) rest segments) :
      Reads (.name name) ('[' :: rest) (.field (String.ofList name) :: segments)
  | nameMore {name rest : List Char} {c : Char} {segments : List Segment} (dot : c ≠ '.')
      (bracket : c ≠ '[') (h : Reads (.name (name ++ [c])) rest segments) :
      Reads (.name name) (c :: rest) segments
  | bracketEnd {content rest : List Char} {segments : List Segment}
      (h : Reads .behind rest segments) :
      Reads (.bracket content) (']' :: rest) (ofBracket content :: segments)
  | bracketMore {content rest : List Char} {c : Char} {segments : List Segment} (close : c ≠ ']')
      (h : Reads (.bracket (content ++ [c])) rest segments) :
      Reads (.bracket content) (c :: rest) segments
  | behindEnd : Reads .behind [] []
  | behindDot {rest : List Char} {segments : List Segment} (h : Reads (.name []) rest segments) :
      Reads .behind ('.' :: rest) segments
  | behindBracket {rest : List Char} {segments : List Segment}
      (h : Reads (.bracket []) rest segments) : Reads .behind ('[' :: rest) segments

variable {state : ReadState} {chars : List Char} {segments : List Segment}

theorem reads_of_readFrom (h : readFrom state chars = .ok segments) :
    Reads state chars segments := by
  -- by the characters, one case for each state
  induction chars generalizing state segments with
  | nil =>
    match state, h with
    | .name (c :: name), h =>
      cases h
      exact .nameEnd (List.cons_ne_nil _ _)
    | .behind, h =>
      cases h
      exact .behindEnd
  | cons c rest ih =>
    match state with
    | .name name =>
      -- a dot or a bracket ends the name, which must not be empty
      by_cases mark : c = '.' ∨ c = '['
      · rw [readFrom, if_pos (by simpa using mark)] at h
        split at h
        · cases h
        · next some =>
          obtain ⟨others, read, rfl⟩ := map_eq_ok.1 h
          rcases mark with rfl | rfl
          · exact .nameDot some (ih read)
          · exact .nameBracket some (ih read)
      · obtain ⟨dot, bracket⟩ := not_or.1 mark
        refine .nameMore dot bracket (ih ?_)
        simpa [readFrom, dot, bracket] using h
    | .bracket content =>
      -- in a bracket only the closing mark counts
      by_cases close : c = ']'
      · subst close
        obtain ⟨others, read, rfl⟩ : ∃ others, readFrom .behind rest = .ok others ∧
            ofBracket content :: others = segments := by simpa [readFrom, map_eq_ok] using h
        exact .bracketEnd (ih read)
      · refine .bracketMore close (ih ?_)
        simpa [readFrom, close] using h
    -- behind a bracket nothing but a dot or another bracket may follow
    | .behind =>
      by_cases dot : c = '.'
      · subst dot
        exact .behindDot (ih (by simpa [readFrom] using h))
      · by_cases bracket : c = '['
        · subst bracket
          exact .behindBracket (ih (by simpa [readFrom] using h))
        · simp [readFrom, dot, bracket] at h

theorem readFrom_of_reads (h : Reads state chars segments) :
    readFrom state chars = .ok segments := by
  induction h with
  | @nameEnd name some =>
    obtain ⟨c, rest, rfl⟩ := List.exists_cons_of_ne_nil some
    rfl
  | nameDot some h ih => simp [readFrom, some, ih, Except.map]
  | nameBracket some h ih => simp [readFrom, some, ih, Except.map]
  | nameMore dot bracket h ih => simp [readFrom, dot, bracket, ih]
  | bracketEnd h ih => simp [readFrom, ih, Except.map]
  | bracketMore close h ih => simp [readFrom, close, ih]
  | behindEnd => rfl
  | behindDot h ih => simp [readFrom, ih]
  | behindBracket h ih => simp [readFrom, ih]

/-- Where a name is read, the first segment is a field. -/
theorem Reads.exists_field {name : List Char} (h : Reads (.name name) chars segments) :
    ∃ name rest, segments = .field name :: rest := by
  generalize same : ReadState.name name = state at h
  induction h generalizing name with
  | nameEnd => exact ⟨_, _, rfl⟩
  | nameDot => exact ⟨_, _, rfl⟩
  | nameBracket => exact ⟨_, _, rfl⟩
  | nameMore _ _ _ ih =>
    cases same
    exact ih rfl
  | _ => cases same

theorem toList_textFrom_ofBracket (content : List Char) (segments : List Segment) :
    (textFrom false (ofBracket content :: segments)).toList =
      '[' :: (bracketWord content ++ ']' :: (textFrom false segments).toList) := by
  unfold ofBracket bracketWord
  split <;> simp [textFrom]

/-- Behind other segments a path that starts with a field has a dot in front. -/
theorem Reads.toList_behind (h : Reads (.name []) chars segments) :
    (textFrom false segments).toList = '.' :: (textFrom true segments).toList := by
  obtain ⟨name, rest, rfl⟩ := h.exists_field
  simp [textFrom]

/-- The path's text is the tidied text that it was read from. -/
theorem Reads.toList_textFrom (h : Reads state chars segments) :
    (textFrom state.isName segments).toList = state.lead ++ tidyFrom state.inside? chars := by
  induction h with
  | nameEnd some => simp [textFrom, tidyFrom]
  | nameDot some h ih =>
    have behind := h.toList_behind
    simp_all [textFrom, tidyFrom]
  | nameBracket some h ih => simp_all [textFrom, tidyFrom]
  | nameMore dot bracket h ih => simp_all [tidyFrom]
  | bracketEnd h ih => simp_all [toList_textFrom_ofBracket, tidyFrom]
  | bracketMore close h ih => simp_all [tidyFrom]
  | behindEnd => rfl
  | behindDot h ih =>
    have behind := h.toList_behind
    simp_all [tidyFrom]
  | behindBracket h ih => simp_all [tidyFrom]

theorem not_mem_bracketWord (content : List Char) : ']' ∉ bracketWord content := by
  unfold bracketWord
  split <;> decide

theorem ofBracket_bracketWord (content : List Char) :
    ofBracket (bracketWord content) = ofBracket content := by
  have key : trim "key".toList = "key".toList := by decide
  have index : trim "index".toList ≠ "key".toList := by decide
  unfold ofBracket bracketWord
  split <;> simp_all

theorem Reads.bracket {content word rest : List Char} (closed : ']' ∉ word)
    (h : Reads .behind rest segments) :
    Reads (.bracket content) (word ++ ']' :: rest) (ofBracket (content ++ word) :: segments) := by
  induction word generalizing content with
  | nil => simpa using Reads.bracketEnd h
  | cons c word ih =>
    obtain ⟨here, later⟩ := List.ne_and_not_mem_of_not_mem_cons closed
    have more := @ih (content ++ [c]) later
    rw [List.append_assoc] at more
    exact .bracketMore (Ne.symm here) more

/-- The tidied text is read as the text is. -/
theorem Reads.tidied (h : Reads state chars segments) :
    Reads state.opened (tidyFrom state.inside? chars) segments := by
  induction h with
  | nameEnd some => exact .nameEnd some
  | nameDot some h ih => exact .nameDot some ih
  | nameBracket some h ih => exact .nameBracket some ih
  | nameMore dot bracket h ih =>
    simp only [ReadState.inside?, tidyFrom, if_neg bracket]
    exact .nameMore dot bracket ih
  | @bracketEnd content rest segments h ih =>
    have word : Reads (.bracket []) _ (ofBracket ([] ++ bracketWord content) :: segments) :=
      .bracket (not_mem_bracketWord content) ih
    rw [List.nil_append, ofBracket_bracketWord] at word
    exact word
  | bracketMore close h ih =>
    simp only [ReadState.inside?, tidyFrom, if_neg close]
    exact ih
  | behindEnd => exact .behindEnd
  | behindDot h ih => exact .behindDot ih
  | behindBracket h ih => exact .behindBracket ih

/-! ## Texts of one path -/

variable {text text' : String} {p p' : Path}

theorem parse_eq_ok (h : parse text = .ok p) :
    (trim text.toList = [] ∧ p = root) ∨ Reads (.name []) (trim text.toList) p.segments := by
  unfold parse at h
  split at h
  · next blank =>
    cases h
    exact .inl ⟨blank, rfl⟩
  · next c rest some =>
    split at h
    · next segments read =>
      cases h
      exact .inr (some ▸ reads_of_readFrom read)
    · cases h

/-- The tidied text is the one that a path is written as. -/
theorem text_eq_tidied (h : parse text = .ok p) : p.text = tidied text := by
  rcases parse_eq_ok h with ⟨blank, rfl⟩ | reads
  · rw [tidied, blank]
    rfl
  · apply String.toList_injective
    rw [tidied, String.toList_ofList]
    exact reads.toList_textFrom

theorem not_reads_nil : ¬ Reads (.name []) [] segments := by
  intro h
  cases h with
  | nameEnd some => exact some rfl

/-- Two texts are read as one path exactly if they are the same when tidied. -/
theorem eq_iff_tidied_eq (h : parse text = .ok p) (h' : parse text' = .ok p') :
    p = p' ↔ tidied text = tidied text' := by
  constructor
  · rintro rfl
    rw [← text_eq_tidied h, ← text_eq_tidied h']
  · intro same
    replace same := congrArg String.toList same
    simp only [tidied, String.toList_ofList] at same
    -- the root is the only path of a blank text, which no other path is read from
    rcases parse_eq_ok h with ⟨blank, rfl⟩ | reads <;>
      rcases parse_eq_ok h' with ⟨blank', rfl⟩ | reads'
    · rfl
    · have read : Reads (.name []) (tidyFrom none (trim text'.toList)) p'.segments :=
        reads'.tidied
      rw [← same, blank] at read
      exact absurd read not_reads_nil
    · have read : Reads (.name []) (tidyFrom none (trim text.toList)) p.segments := reads.tidied
      rw [same, blank'] at read
      exact absurd read not_reads_nil
    · have read : readFrom (.name []) (tidyFrom none (trim text.toList)) = .ok p.segments :=
        readFrom_of_reads reads.tidied
      have read' : readFrom (.name []) (tidyFrom none (trim text'.toList)) = .ok p'.segments :=
        readFrom_of_reads reads'.tidied
      rw [same] at read
      have segments : p.segments = p'.segments := Except.ok.inj (read.symm.trans read')
      exact congrArg Path.mk segments

end Crosswalk.Path
