import Crosswalk.Proofs.PathText

/-!
# The grammar of paths

A path is written as steps with dots between them, and a step as a name with brackets behind it.
Reading accepts what is written so, with white space around it, and nothing else. Inside a bracket
dots and opening brackets are plain characters, and outside of one a closing bracket is.

The text of a path that was read is read as that path. It is the tidied text that the path was read
from, and tidying changes neither end of a text.
-/

namespace Crosswalk
set_option autoImplicit false

/-! ## Trimmed texts -/

namespace Text
variable {text : List Char}

/-- Neither end of the text is white space. -/
structure Solid (text : List Char) : Prop where
  first : ∀ c ∈ text.head?, isBlank c = false
  last : ∀ c ∈ text.getLast?, isBlank c = false

/-- What is left when blanks are dropped does not begin with one. -/
theorem solid_head?_dropBlank (text : List Char) :
    ∀ c ∈ (dropBlank text).head?, isBlank c = false := by
  intro c first
  have solid := List.head?_dropWhile_not isBlank text
  rw [show (text.dropWhile isBlank).head? = some c from first] at solid
  simpa using solid

theorem dropBlank_eq_self (first : ∀ c ∈ text.head?, isBlank c = false) :
    dropBlank text = text := by
  cases text with
  | nil => rfl
  | cons c rest =>
    have solid : ¬isBlank c = true := by simp [first c rfl]
    exact List.dropWhile_cons_of_neg solid

/-- A trimmed text neither begins nor ends with a blank. -/
theorem solid_trim (text : List Char) : Solid (trim text) where
  first := by
    -- what is dropped at the end leaves the beginning as it is
    have front : trim text <+: dropBlank text := by
      rw [← List.reverse_reverse (dropBlank text)]
      exact List.reverse_prefix.2 (List.dropWhile_suffix isBlank)
    obtain ⟨behind, whole⟩ := front
    intro c first
    refine solid_head?_dropBlank text c ?_
    rw [← whole, List.head?_append, Option.mem_def.1 first]
    rfl
  last := by
    rw [trim, List.getLast?_reverse]
    exact solid_head?_dropBlank _

/-- Trimming leaves such a text as it is. -/
theorem Solid.trim (h : Solid text) : Text.trim text = text := by
  have last : dropBlank text.reverse = text.reverse :=
    dropBlank_eq_self (by rw [List.head?_reverse]; exact h.last)
  rw [Text.trim, dropBlank_eq_self h.first, last, List.reverse_reverse]

end Text

namespace Path
open Crosswalk.Text

/-! ## Steps -/

/-- A name, and what is in the brackets behind it. -/
structure Step where
  name : List Char
  brackets : List (List Char)
  named : name ≠ []
  undotted : '.' ∉ name
  unopened : '[' ∉ name
  closed : ∀ content ∈ brackets, ']' ∉ content

/-- The contents in brackets. -/
def bracketsText (contents : List (List Char)) : List Char :=
  contents.flatMap fun content => '[' :: content ++ [']']

namespace Step

def text (s : Step) : List Char :=
  s.name ++ bracketsText s.brackets

/-- The field of the name, and an element or a map value for each bracket. -/
def segments (s : Step) : List Segment :=
  .field (String.ofList s.name) :: s.brackets.map ofBracket

end Step

/-- Steps with dots between them. -/
def stepsText (steps : List Step) : List Char :=
  ['.'].intercalate (steps.map Step.text)

/-- The texts that a path is written as: blank ones for the root, and else steps with white space
around them. -/
def WrittenAs (p : Path) (text : String) : Prop :=
  (trim text.toList = [] ∧ p = root) ∨
    ∃ steps : List Step, steps ≠ [] ∧ trim text.toList = stepsText steps ∧
      p.segments = steps.flatMap Step.segments

/-- What is behind a step: more steps, each with a dot in front. -/
def textBehind (steps : List Step) : List Char :=
  steps.flatMap fun s => '.' :: s.text

theorem stepsText_cons (s : Step) (steps : List Step) :
    stepsText (s :: steps) = s.text ++ textBehind steps := by
  induction steps generalizing s with
  | nil => simp [stepsText, textBehind]
  | cons next steps ih =>
    have later := ih next
    rw [stepsText, List.map_cons] at later
    rw [stepsText, List.map_cons, List.map_cons, List.intercalate_cons_cons, later]
    simp [textBehind]

/-! ## What is read is written in steps -/

/-- What a text has where the reader is, for the segments from there on. -/
def Spells : ReadState → List Char → List Segment → Prop
  | .name begun, chars, segments =>
    '.' ∉ begun → '[' ∉ begun → ∃ (s : Step) (steps : List Step),
      begun ++ chars = s.text ++ textBehind steps ∧
        segments = s.segments ++ steps.flatMap Step.segments
  | .bracket begun, chars, segments =>
    ']' ∉ begun → ∃ (content : List Char) (contents : List (List Char)) (steps : List Step),
      ']' ∉ content ∧ (∀ other ∈ contents, ']' ∉ other) ∧
        begun ++ chars = content ++ ']' :: (bracketsText contents ++ textBehind steps) ∧
        segments = ofBracket content :: (contents.map ofBracket ++ steps.flatMap Step.segments)
  | .behind, chars, segments =>
    ∃ (contents : List (List Char)) (steps : List Step),
      (∀ content ∈ contents, ']' ∉ content) ∧
        chars = bracketsText contents ++ textBehind steps ∧
        segments = contents.map ofBracket ++ steps.flatMap Step.segments

variable {state : ReadState} {chars : List Char} {segments : List Segment}

/-- What is read has been spelled, state by state. -/
theorem spells_of_reads (h : Reads state chars segments) : Spells state chars segments := by
  -- induction on the reading; the characters that a state has taken are put in front of what
  -- follows
  induction h with
  -- a name at the end of the text is the last step
  | @nameEnd name some =>
    intro undotted unopened
    exact ⟨⟨name, [], some, undotted, unopened, by simp⟩, [], by simp [Step.text, bracketsText,
      textBehind], by simp [Step.segments]⟩
  -- a dot ends a step, and another one begins
  | @nameDot name rest segments some h ih =>
    intro undotted unopened
    obtain ⟨s, steps, same, read⟩ := ih (by simp) (by simp)
    refine ⟨⟨name, [], some, undotted, unopened, by simp⟩, s :: steps, ?_, ?_⟩
    · simpa [Step.text, bracketsText, textBehind] using same
    · simp [Step.segments, read]
  -- a bracket belongs to the step whose name is before it
  | @nameBracket name rest segments some h ih =>
    intro undotted unopened
    obtain ⟨content, contents, steps, closed, others, same, read⟩ := ih (by simp)
    refine ⟨⟨name, content :: contents, some, undotted, unopened, ?_⟩, steps, ?_, ?_⟩
    · exact List.forall_mem_cons.2 ⟨closed, others⟩
    · simpa [Step.text, bracketsText] using same
    · simp [Step.segments, read]
  | @nameMore name rest c segments dot bracket h ih =>
    intro undotted unopened
    obtain ⟨s, steps, same, read⟩ := ih (by simp [undotted, Ne.symm dot])
      (by simp [unopened, Ne.symm bracket])
    exact ⟨s, steps, by simpa using same, read⟩
  -- a bracket ends at the first closing mark
  | @bracketEnd content rest segments h ih =>
    intro closed
    obtain ⟨contents, steps, others, rfl, rfl⟩ := ih
    exact ⟨content, contents, steps, closed, others, rfl, rfl⟩
  | @bracketMore content rest c segments close h ih =>
    intro closed
    obtain ⟨whole, contents, steps, closed', others, same, read⟩ :=
      ih (by simp [closed, Ne.symm close])
    exact ⟨whole, contents, steps, closed', others, by simpa using same, read⟩
  -- behind a bracket there is the end, a dot or one more bracket
  | behindEnd => exact ⟨[], [], by simp, rfl, rfl⟩
  | @behindDot rest segments h ih =>
    obtain ⟨s, steps, same, read⟩ := ih (by simp) (by simp)
    refine ⟨[], s :: steps, by simp, ?_, ?_⟩
    · simpa [bracketsText, textBehind] using same
    · simp [read]
  | @behindBracket rest segments h ih =>
    obtain ⟨content, contents, steps, closed, others, same, read⟩ := ih (by simp)
    refine ⟨content :: contents, steps, List.forall_mem_cons.2 ⟨closed, others⟩, ?_, ?_⟩
    · simpa [bracketsText] using same
    · simp [read]

/-! ## What is written in steps is read -/

/-- A name is collected up to a dot or an opening bracket. -/
theorem Reads.name {begun word rest : List Char} (undotted : '.' ∉ word) (unopened : '[' ∉ word)
    (h : Reads (.name (begun ++ word)) rest segments) :
    Reads (.name begun) (word ++ rest) segments := by
  induction word generalizing begun with
  | nil => simpa using h
  | cons c word ih =>
    obtain ⟨dot, undotted⟩ := List.ne_and_not_mem_of_not_mem_cons undotted
    obtain ⟨bracket, unopened⟩ := List.ne_and_not_mem_of_not_mem_cons unopened
    have more : Reads (.name (begun ++ [c])) (word ++ rest) segments :=
      ih undotted unopened (by simpa using h)
    exact .nameMore (Ne.symm dot) (Ne.symm bracket) more

/-- What can be read behind a bracket can be read behind a name. -/
theorem Reads.field {name rest : List Char} (some : name ≠ []) (h : Reads .behind rest segments) :
    Reads (.name name) rest (.field (String.ofList name) :: segments) := by
  cases h with
  | behindEnd => exact .nameEnd some
  | behindDot h => exact .nameDot some h
  | behindBracket h => exact .nameBracket some h

/-- Brackets are read one by one, each up to its closing one. -/
theorem Reads.brackets {contents : List (List Char)} {rest : List Char}
    (closed : ∀ content ∈ contents, ']' ∉ content) (h : Reads .behind rest segments) :
    Reads .behind (bracketsText contents ++ rest) (contents.map ofBracket ++ segments) := by
  induction contents with
  | nil => exact h
  | cons content contents ih =>
    obtain ⟨first, others⟩ := List.forall_mem_cons.1 closed
    have inside : Reads (.bracket []) (content ++ ']' :: (bracketsText contents ++ rest))
        (ofBracket ([] ++ content) :: (contents.map ofBracket ++ segments)) :=
      .bracket first (ih others)
    have text : bracketsText (content :: contents) ++ rest =
        '[' :: (content ++ ']' :: (bracketsText contents ++ rest)) := by
      simp [bracketsText]
    rw [text]
    exact .behindBracket inside

/-- A step is read as its segments: its name and what its brackets stand for. -/
theorem Reads.step (s : Step) {rest : List Char} (h : Reads .behind rest segments) :
    Reads (.name []) (s.text ++ rest) (s.segments ++ segments) := by
  have behind := Reads.brackets s.closed h
  rw [Step.text, List.append_assoc]
  exact .name s.undotted s.unopened (.field s.named behind)

theorem reads_textBehind (steps : List Step) :
    Reads .behind (textBehind steps) (steps.flatMap Step.segments) := by
  induction steps with
  | nil => exact .behindEnd
  | cons s steps ih => exact .behindDot (.step s ih)

/-- A text is read exactly if it is one of steps, of which there is at least one, as the segments of
these. -/
theorem reads_iff_steps :
    Reads (.name []) chars segments ↔ ∃ steps : List Step, steps ≠ [] ∧
      chars = stepsText steps ∧ segments = steps.flatMap Step.segments := by
  constructor
  · intro h
    obtain ⟨s, steps, same, read⟩ := spells_of_reads h (by simp) (by simp)
    exact ⟨s :: steps, by simp, by simpa [stepsText_cons] using same, by simpa using read⟩
  · rintro ⟨steps, some, rfl, rfl⟩
    obtain ⟨s, steps, rfl⟩ := List.exists_cons_of_ne_nil some
    rw [stepsText_cons]
    exact .step s (reads_textBehind steps)

/-! ## Texts of paths -/

variable {text : String} {p : Path}

/-- A text is read as the path that it is written as, and no other text is read. -/
theorem parse_eq_ok_iff : parse text = .ok p ↔ p.WrittenAs text := by
  constructor
  · intro h
    exact (parse_eq_ok h).imp_right reads_iff_steps.1
  · rintro (⟨blank, rfl⟩ | written)
    · rw [parse, blank]
    · have reads := reads_iff_steps.2 written
      rw [parse]
      split
      · next blank => exact absurd (blank ▸ reads) not_reads_nil
      · next c rest some =>
        rw [some] at reads
        rw [readFrom_of_reads reads]

theorem head?_tidyFrom_none (chars : List Char) : (tidyFrom none chars).head? = chars.head? := by
  cases chars <;> rfl

/-- Tidying keeps the last character: a bracket that is closed ends as it did. -/
theorem getLast?_tidyFrom (inside? : Option (List Char)) (chars : List Char) :
    (tidyFrom inside? chars).getLast? = (inside?.getD [] ++ chars).getLast? := by
  induction chars generalizing inside? with
  | nil => cases inside? <;> simp [tidyFrom]
  | cons c rest ih =>
    cases inside? with
    | none =>
      rw [tidyFrom, List.getLast?_cons, ih, Option.getD_none, List.nil_append, List.getLast?_cons]
      split <;> simp
    | some content =>
      rw [tidyFrom, Option.getD_some]
      split
      · next close =>
        rw [List.getLast?_append_cons, List.getLast?_append_cons, List.getLast?_cons, ih, close,
          List.getLast?_cons]
        simp
      · rw [ih]
        simp

/-- Tidying a text leaves no blank at either end of it. -/
theorem solid_tidied (text : String) : Solid (tidied text).toList := by
  have solid := solid_trim text.toList
  rw [tidied, String.toList_ofList]
  refine ⟨?_, ?_⟩
  · rw [head?_tidyFrom_none]
    exact solid.first
  · rw [getLast?_tidyFrom]
    exact solid.last

/-- A path that was read is read again from its own text. -/
theorem parse_text (h : parse text = .ok p) : parse p.text = .ok p := by
  rw [text_eq_tidied h]
  rcases parse_eq_ok h with ⟨blank, rfl⟩ | reads
  · rw [tidied, blank]
    rfl
  · have again : Reads (.name []) (tidied text).toList p.segments := by
      rw [tidied, String.toList_ofList]
      exact reads.tidied
    rw [parse_eq_ok_iff]
    exact .inr (reads_iff_steps.1 (by rw [(solid_tidied text).trim]; exact again))

/-- A text is read if it is blank or consists of steps with dots between them, white space around
it being dropped, and it is read as the path of these steps. The text of that path is read as the
same path, so paths that are read differ in their texts. -/
theorem reads_exactly_steps (text : String) :
    ((∃ p, parse text = .ok p) ↔ trim text.toList = [] ∨
        ∃ steps : List Step, steps ≠ [] ∧ trim text.toList = stepsText steps) ∧
      ∀ p, parse text = .ok p → p.WrittenAs text ∧ parse p.text = .ok p ∧
        ∀ text' p', parse text' = .ok p' → p'.text = p.text → p' = p := by
  refine ⟨⟨?_, ?_⟩, fun p h => ⟨parse_eq_ok_iff.1 h, parse_text h, fun text' p' h' same => ?_⟩⟩
  · rintro ⟨p, h⟩
    rcases parse_eq_ok_iff.1 h with ⟨blank, _⟩ | ⟨steps, some, written, _⟩
    · exact .inl blank
    · exact .inr ⟨steps, some, written⟩
  · rintro (blank | ⟨steps, some, written⟩)
    · exact ⟨root, parse_eq_ok_iff.2 (.inl ⟨blank, rfl⟩)⟩
    · exact ⟨⟨steps.flatMap Step.segments⟩,
        parse_eq_ok_iff.2 (.inr ⟨steps, some, written, rfl⟩)⟩
  · have read := parse_text h'
    rw [same, parse_text h] at read
    exact (Except.ok.inj read).symm

def rooms : Path :=
  ((((root.field "Owner").field "Homes]").index).field "Rooms").key

theorem rooms_path_reread :
    parse " Owner.Homes][ 0 ].Rooms[ key ]\n" = .ok rooms ∧
      rooms.WrittenAs " Owner.Homes][ 0 ].Rooms[ key ]\n" ∧
      parse "Owner.Homes][index].Rooms[key]" = .ok rooms ∧
      ⟨[.field "Owner", .field "Homes]", .index, .field "Rooms", .key]⟩ = rooms := by
  have read : parse " Owner.Homes][ 0 ].Rooms[ key ]\n" = .ok rooms := by decide +kernel
  obtain ⟨written, again, unique⟩ := (reads_exactly_steps _).2 rooms read
  exact ⟨read, written, again, unique "Owner.Homes][].Rooms[key]" _ (by decide +kernel) rfl⟩

end Path

end Crosswalk
