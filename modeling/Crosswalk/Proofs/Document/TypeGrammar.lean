import Crosswalk.Proofs.Document.TypeText
import Crosswalk.Proofs.Except

/-!
# The grammar of type expressions

A type expression is a word, or one of the words for lists, sets and maps with a bracket behind it.
Its words and marks may have white space in front, as the whole text may at its end, and a word goes
on as long as there are characters of words. Reading accepts exactly such texts, and what was read
is legible: so it is read again from its own text.
-/

namespace Crosswalk.TypeExpr
set_option autoImplicit false
open Crosswalk.Text

/-! ## White space -/

/-- No white space is a character of words. -/
theorem isNameChar_of_isBlank {c : Char} (blank : isBlank c = true) : isNameChar c = false := by
  have codes : ∀ r ∈ blankRuns, ∀ n ∈ List.range' r.first (r.last + 1 - r.first),
      inRuns alphanumericRuns n = false ∧ n ≠ '_'.toNat ∧ n ≠ '.'.toNat := by decide +kernel
  obtain ⟨r, mem, within⟩ := exists_mem_of_inRuns blank
  have among : c.toNat ∈ List.range' r.first (r.last + 1 - r.first) := by
    simp only [CodeRun.contains, Bool.and_eq_true, decide_eq_true_eq] at within
    rw [List.mem_range'_1]
    omega
  obtain ⟨letter, underscore, dot⟩ := codes r mem _ among
  have notUnderscore : c ≠ '_' := fun same => underscore (same ▸ rfl)
  have notDot : c ≠ '.' := fun same => dot (same ▸ rfl)
  simp [isNameChar, isAlphanumeric, letter, notUnderscore, notDot]

/-! ## Words and marks -/

/-- A text has words and marks with white space before any of them and at its end. What is behind a
word does not go on with it. -/
inductive Spaced : List Token → List Char → Prop
  | done {blank : List Char} (spaces : blank.all isBlank = true) : Spaced [] blank
  | word {blank word rest : List Char} {others : List Token} (spaces : blank.all isBlank = true)
      (some : word ≠ []) (chars : word.all isNameChar = true) (ends : EndsWord rest)
      (h : Spaced others rest) : Spaced (.name word :: others) (blank ++ word ++ rest)
  | mark {blank rest : List Char} {c : Char} {others : List Token}
      (spaces : blank.all isBlank = true) (other : isNameChar c = false)
      (solid : isBlank c = false) (h : Spaced others rest) :
      Spaced (.mark c :: others) (blank ++ c :: rest)

variable {tokens : List Token} {text : List Char}

theorem Spaced.space {c : Char} (space : isBlank c = true) (h : Spaced tokens text) :
    Spaced tokens (c :: text) := by
  have more : ∀ {blank : List Char}, blank.all isBlank = true →
      (c :: blank).all isBlank = true := by
    intro blank spaces
    rw [List.all_cons, space, spaces]
    rfl
  cases h with
  | done spaces => exact .done (more spaces)
  | word spaces some chars ends h => exact .word (more spaces) some chars ends h
  | mark spaces other solid h => exact .mark (more spaces) other solid h

theorem lex_spaces {blank : List Char} (spaces : blank.all isBlank = true) (rest : List Char) :
    lex none (blank ++ rest) = lex none rest := by
  induction blank with
  | nil => rfl
  | cons c blank ih =>
    rw [List.all_cons, Bool.and_eq_true] at spaces
    obtain ⟨space, spaces⟩ := spaces
    have other : ¬isNameChar c = true := by simp [isNameChar_of_isBlank space]
    rw [List.cons_append, lex, if_neg other, if_pos space, ih spaces]
    rfl

theorem Spaced.lex_eq (h : Spaced tokens text) : lex none text = tokens := by
  induction h with
  | done spaces =>
    have all := lex_spaces spaces []
    rwa [List.append_nil] at all
  | word spaces some chars ends h ih =>
    rw [List.append_assoc, lex_spaces spaces, lex_word some chars ends, ih]
  | mark spaces other solid h ih => rw [lex_spaces spaces, lex_mark other solid, ih]

/-- A text has the words and marks that it is cut into, as it has them behind the beginning of a
word that it may go on with. -/
theorem spaced_lex (text : List Char) :
    Spaced (lex none text) text ∧ ∀ {word : List Char}, word ≠ [] → word.all isNameChar = true →
      Spaced (lex (some word) text) (word ++ text) := by
  -- induction on the text, with and without the beginning of a word in front of it
  induction text with
  | nil =>
    have done : Spaced [] [] := .done List.all_nil
    exact ⟨done, fun some chars => .word List.all_nil some chars (fun _ none => by cases none) done⟩
  | cons c rest ih =>
    obtain ⟨alone, behind⟩ := ih
    by_cases name : isNameChar c = true
    · refine ⟨?_, fun {word} some chars => ?_⟩
      · rw [lex, if_pos name]
        exact behind (List.cons_ne_nil c []) (by simp [name])
      -- the character goes on with the word
      · have longer := @behind (word ++ [c]) (by simp) (by simp [chars, name])
        rw [List.append_assoc] at longer
        rw [lex, if_pos name]
        exact longer
    -- any other character ends the word, be it blank or a mark
    · have here : Spaced (lex none (c :: rest)) (c :: rest) := by
        rw [lex, if_neg name]
        split
        · next space => exact alone.space space
        · next solid => exact .mark List.all_nil (by simpa using name) (by simpa using solid) alone
      refine ⟨here, fun {word} some chars => ?_⟩
      have ends : EndsWord (c :: rest) := endsWord_cons (by simpa using name) rest
      rw [lex_endsWord ends]
      exact .word List.all_nil some chars ends here

theorem lex_eq_iff : lex none text = tokens ↔ Spaced tokens text :=
  ⟨fun same => same ▸ (spaced_lex text).1, Spaced.lex_eq⟩

/-! ## What is read is spelled -/

theorem bracketWord?_eq_some {chars : List Char} {bracket : Pending}
    (h : bracketWord? (String.ofList chars) = some bracket) :
    chars = "list".toList ∧ bracket = .list ∨ chars = "set".toList ∧ bracket = .set ∨
      chars = "map".toList ∧ bracket = .mapKey := by
  have word : ∀ name : String, String.ofList chars = name → chars = name.toList := by
    rintro _ rfl
    rw [String.toList_ofList]
  rw [bracketWord?] at h
  split at h
  · next list => exact .inl ⟨word _ list, (Option.some.inj h).symm⟩
  · split at h
    · next set => exact .inr (.inl ⟨word _ set, (Option.some.inj h).symm⟩)
    · split at h
      · next map => exact .inr (.inr ⟨word _ map, (Option.some.inj h).symm⟩)
      · cases h

theorem readBracket_eq_ok {stop : Nat} {bracket : Pending} {pending : List Pending}
    {placed : List Placed} {e : TypeExpr} (h : readBracket stop bracket pending placed = .ok e) :
    ∃ t inner, placed = t :: inner ∧ t.token = .mark '[' ∧
      readType stop (bracket :: pending) inner = .ok e := by
  cases placed with
  | nil => cases h
  | cons t inner =>
    rw [readBracket] at h
    split at h
    · next opening => exact ⟨t, inner, rfl, opening, h⟩
    · cases h

/-- What is read inside a bracket goes on with what the bracket is closed by. -/
theorem exists_closing {stop : Nat} {bracket : Pending} {pending : List Pending}
    {placed : List Placed} {e e' : TypeExpr}
    (h : readAfter stop (bracket :: pending) e placed = .ok e') :
    ∃ t rest, placed = t :: rest ∧ t.token = .mark bracket.closing := by
  cases placed with
  | nil => cases h
  | cons t rest =>
    by_cases closing : t.token = .mark bracket.closing
    · exact ⟨t, rest, rfl, closing⟩
    · cases bracket <;> simp [readAfter, closing] at h

/-- Where a type is read, a type is spelled, and reading goes on behind it. -/
theorem exists_spelled_of_readType {stop : Nat} {pending : List Pending} {placed : List Placed}
    {e' : TypeExpr} (h : readType stop pending placed = .ok e') :
    ∃ e front rest, placed = front ++ rest ∧ Spelled e (front.map Placed.token) ∧
      readAfter stop pending e rest = .ok e' := by
  -- a type in a bracket begins behind the word that takes the bracket, so there is less to read
  induction size : placed.length using Nat.strongRecOn generalizing placed pending with
  | ind size ih =>
    match placed, h with
    | ⟨offset, .name chars⟩ :: behind, h =>
      rw [readType] at h
      split at h
      · next bracket takes =>
        obtain ⟨opening, inner, rfl, mark, h⟩ := readBracket_eq_ok h
        obtain ⟨e, content, rest, rfl, spelled, h⟩ := ih inner.length (by grind) h rfl
        obtain ⟨t, rest, rfl, closing⟩ := exists_closing h
        rw [readAfter_closing closing] at h
        rcases bracketWord?_eq_some takes with ⟨rfl, rfl⟩ | ⟨rfl, rfl⟩ | ⟨rfl, rfl⟩
        · refine ⟨.list e, ⟨offset, .name "list".toList⟩ :: opening :: content ++ [t], rest,
            by simp, ?_, h⟩
          simpa [mark, closing, Pending.closing] using Spelled.list spelled
        · refine ⟨.set e, ⟨offset, .name "set".toList⟩ :: opening :: content ++ [t], rest,
            by simp, ?_, h⟩
          simpa [mark, closing, Pending.closing] using Spelled.set spelled
        · obtain ⟨value, second, rest, rfl, spelled', h⟩ := ih rest.length (by grind) h rfl
          obtain ⟨u, rest, rfl, closing'⟩ := exists_closing h
          rw [readAfter_closing closing'] at h
          refine ⟨.map e value,
            ⟨offset, .name "map".toList⟩ :: opening :: content ++ t :: second ++ [u], rest,
            by simp, ?_, h⟩
          simpa [mark, closing, closing', Pending.closing] using Spelled.map spelled spelled'
      · next plain =>
        exact ⟨_, [⟨offset, .name chars⟩], behind, rfl,
          .word (bracketWord?_eq_none_iff.1 plain), h⟩

/-! ## Texts of type expressions -/

/-- The texts that a type expression is written as. -/
def WrittenAs (e : TypeExpr) (text : String) : Prop :=
  ∃ spelling, Spaced spelling text.toList ∧ Spelled e spelling

/-- A text is read as a type exactly if it is one of the ways to write the type. -/
theorem parse_eq_ok_iff {text : String} {e : TypeExpr} : parse text = .ok e ↔ e.WrittenAs text := by
  have cut : (tokens text.toList).map Placed.token = lex none text.toList :=
    map_token_tokensFrom none 0 text.toList
  constructor
  · intro h
    obtain ⟨read, front, rest, split, spelled, h⟩ := exists_spelled_of_readType h
    cases rest with
    | cons t rest => cases h
    | nil =>
      obtain rfl : read = e := Except.ok.inj h
      rw [split, List.append_nil] at cut
      exact ⟨_, lex_eq_iff.1 cut.symm, spelled⟩
  · rintro ⟨spelling, spaced, spelled⟩
    rw [lex_eq_iff.2 spaced] at cut
    have read := readType_spelled spelled cut text.utf8ByteSize [] []
    rwa [List.append_nil, readAfter] at read

/-- What a word denotes is no reference to a word of the language. -/
theorem legible_ofWord {name : String} (some : name.toList ≠ [])
    (chars : name.toList.all isNameChar = true) (plain : name ∉ bracketWords) :
    (ofWord name).Legible := by
  unfold ofWord
  split
  · trivial
  · next binary =>
    split
    · trivial
    · next unknown =>
      refine ⟨some, chars, ?_⟩
      simp only [Primitive.ofIdlName?] at unknown
      simp only [bracketWords] at plain
      simp only [reserved]
      grind

/-- The words of a text are runs of characters of words. -/
theorem Spaced.word_of_mem {text : List Char} (h : Spaced tokens text) {chars : List Char}
    (mem : .name chars ∈ tokens) : chars ≠ [] ∧ chars.all isNameChar = true := by
  induction h with
  | done => cases mem
  | word _ some all _ _ ih =>
    rcases List.mem_cons.1 mem with same | later
    · cases same
      exact ⟨some, all⟩
    · exact ih later
  | mark _ _ _ _ ih =>
    rcases List.mem_cons.1 mem with same | later
    · cases same
    · exact ih later

theorem Spelled.legible {e : TypeExpr} (h : Spelled e tokens)
    (words : ∀ chars, .name chars ∈ tokens → chars ≠ [] ∧ chars.all isNameChar = true) :
    e.Legible := by
  induction h with
  | @word chars plain =>
    obtain ⟨some, all⟩ := words chars List.mem_cons_self
    exact legible_ofWord (by rwa [String.toList_ofList]) (by rwa [String.toList_ofList]) plain
  | list h ih => exact ih fun chars mem => words chars (by simp [mem])
  | set h ih => exact ih fun chars mem => words chars (by simp [mem])
  | map hk hv ihk ihv =>
    exact ⟨ihk fun chars mem => words chars (by simp [mem]),
      ihv fun chars mem => words chars (by simp [mem])⟩

/-- A text is read as a type expression if it is one, up to white space before any word or mark and
at the end, and else refused. What is read is read again from its own text, and so is every type
expression whose names are words that the language has not taken. -/
theorem reads_exactly_types :
    (∀ text e, parse text = .ok e ↔ e.WrittenAs text) ∧
      (∀ text e, parse text = .ok e → parse e.text = .ok e) ∧
      ∀ e : TypeExpr, e.Legible → parse e.text = .ok e := by
  refine ⟨fun text e => parse_eq_ok_iff, fun text e h => ?_, fun e => parse_text⟩
  obtain ⟨spelling, spaced, spelled⟩ := parse_eq_ok_iff.1 h
  exact parse_text (spelled.legible fun chars mem => spaced.word_of_mem mem)

def rooms : TypeExpr :=
  .map (.primitive .i8) (.list (.named "list.Room"))

/-- A word for lists takes its bracket only where it is a whole word. -/
theorem rooms_type_reread :
    parse " map [ byte,\tlist[ list.Room ]] " = .ok rooms ∧
      rooms.WrittenAs " map [ byte,\tlist[ list.Room ]] " ∧
      rooms.text = "map[i8, list[list.Room]]" ∧ parse rooms.text = .ok rooms ∧
      rooms.set.Legible ∧ parse rooms.set.text = .ok rooms.set := by
  obtain ⟨grammar, again, inverse⟩ := reads_exactly_types
  have read : parse " map [ byte,\tlist[ list.Room ]] " = .ok rooms := by decide +kernel
  have legible : rooms.set.Legible := by decide +kernel
  exact ⟨read, (grammar _ _).1 read, by decide +kernel, again _ _ read, legible,
    inverse rooms.set legible⟩

end Crosswalk.TypeExpr
