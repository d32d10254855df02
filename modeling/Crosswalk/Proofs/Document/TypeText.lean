import Crosswalk.TypeExpr.Parser

/-!
# The texts of type expressions

A type expression is read back from its text, if the names in it can be told from the words of the
language. Offsets only serve messages, so a text is cut here without them, and reading goes by the
words and marks alone.

`lex` cuts a text into words and marks, and `Spelled` relates a type to the words and marks that are
read as it. The printed text of a type gives its own words (`lex_text`), which spell it
(`Legible.spelled`), and `readType_spelled` is the induction on the spelling, with what is behind it
left general.
-/

namespace Crosswalk.TypeExpr
set_option autoImplicit false
open Crosswalk.Text

/-! ## Words and marks -/

/-- The words and marks of a text, `open?` being the beginning of a word before it. -/
def lex (open? : Option (List Char)) : List Char → List Token
  | [] => open?.toList.map .name
  | c :: rest =>
    if isNameChar c then lex (some (open?.getD [] ++ [c])) rest
    else if isBlank c then open?.toList.map .name ++ lex none rest
    else open?.toList.map .name ++ .mark c :: lex none rest

theorem map_token_flush (open? : Option (Nat × List Char)) :
    (flush open?).map Placed.token = (open?.map Prod.snd).toList.map .name := by
  cases open? <;> rfl

/-- Cutting a text with offsets gives its words and marks. -/
theorem map_token_tokensFrom (open? : Option (Nat × List Char)) (offset : Nat) (text : List Char) :
    (tokensFrom open? offset text).map Placed.token = lex (open?.map Prod.snd) text := by
  induction text generalizing open? offset with
  | nil => exact map_token_flush open?
  | cons c rest ih =>
    simp only [tokensFrom, lex]
    split
    · rw [ih]
      cases open? <;> rfl
    · split
      · rw [List.map_append, map_token_flush, ih]
        rfl
      · rw [List.map_append, map_token_flush, List.map_cons, ih]
        rfl

/-- A text that no word can go on with: it is at its end or begins with another character. -/
def EndsWord (text : List Char) : Prop :=
  ∀ c ∈ text.head?, isNameChar c = false

/-- A word ends where no other character of it follows. -/
theorem lex_endsWord {text : List Char} (ends : EndsWord text) (word : List Char) :
    lex (some word) text = .name word :: lex none text := by
  cases text with
  | nil => rfl
  | cons c rest =>
    have other : ¬isNameChar c = true := by simp [ends c rfl]
    rw [lex, lex, if_neg other, if_neg other]
    split <;> rfl

theorem endsWord_cons {c : Char} (other : isNameChar c = false) (rest : List Char) :
    EndsWord (c :: rest) := by
  intro d first
  obtain rfl : c = d := by simpa using first
  exact other

/-- The characters of a name are one word. -/
theorem lex_name {word rest : List Char} (chars : word.all isNameChar = true)
    (ends : EndsWord rest) (begun : List Char) :
    lex (some begun) (word ++ rest) = .name (begun ++ word) :: lex none rest := by
  induction word generalizing begun with
  | nil => rw [List.nil_append, lex_endsWord ends, List.append_nil]
  | cons c word ih =>
    rw [List.all_cons, Bool.and_eq_true] at chars
    obtain ⟨first, others⟩ := chars
    rw [List.cons_append, lex, if_pos first, Option.getD_some, ih others, List.append_assoc]
    rfl

/-- A word is cut off as a whole. -/
theorem lex_word {word rest : List Char} (some : word ≠ [])
    (chars : word.all isNameChar = true) (ends : EndsWord rest) :
    lex none (word ++ rest) = .name word :: lex none rest := by
  obtain ⟨c, word, rfl⟩ := List.exists_cons_of_ne_nil some
  rw [List.all_cons, Bool.and_eq_true] at chars
  obtain ⟨first, others⟩ := chars
  rw [List.cons_append, lex, if_pos first]
  exact lex_name others ends [c]

/-- Any other character that is not blank is a mark. -/
theorem lex_mark {c : Char} (other : isNameChar c = false) (solid : isBlank c = false)
    (rest : List Char) : lex none (c :: rest) = .mark c :: lex none rest := by
  simp [lex, other, solid]

/-- A word ends before a bracket. -/
theorem lex_bracket {word : List Char} (some : word ≠ [])
    (chars : word.all isNameChar = true) (rest : List Char) :
    lex none (word ++ '[' :: rest) = .name word :: .mark '[' :: lex none rest := by
  rw [lex_word some chars (endsWord_cons (by decide) rest), lex_mark (by decide) (by decide)]

theorem lex_closing (rest : List Char) : lex none (']' :: rest) = .mark ']' :: lex none rest :=
  lex_mark (by decide) (by decide) rest

theorem lex_comma (rest : List Char) :
    lex none (',' :: ' ' :: rest) = .mark ',' :: lex none rest := by
  rw [lex_mark (by decide) (by decide), lex, if_neg (by decide), if_pos (by decide)]
  rfl

/-! ## Reading back -/

/-- The words that are not read as references. -/
def reserved : List String :=
  ["list", "set", "map", "binary", "byte", "bool", "i8", "i16", "i32", "i64", "double", "string"]

/-- Whether the names in a type expression can be told from the words of the language. -/
def Legible : TypeExpr → Prop
  | primitive _ => True
  | binary => True
  | named name => name.toList ≠ [] ∧ name.toList.all isNameChar = true ∧ name ∉ reserved
  | list element => element.Legible
  | set element => element.Legible
  | map key value => key.Legible ∧ value.Legible

/-- Legibility can be decided. -/
instance decidableLegible : DecidablePred Legible
  | primitive _ => inferInstanceAs (Decidable True)
  | binary => inferInstanceAs (Decidable True)
  | named _ => inferInstanceAs (Decidable (_ ∧ _ ∧ _))
  | list element => decidableLegible element
  | set element => decidableLegible element
  | map key value => @instDecidableAnd _ _ (decidableLegible key) (decidableLegible value)

/-- The words and marks of a type expression. -/
def words : TypeExpr → List Token
  | primitive p => [.name p.idlName.toList]
  | binary => [.name "binary".toList]
  | named name => [.name name.toList]
  | list element => .name "list".toList :: .mark '[' :: element.words ++ [.mark ']']
  | set element => .name "set".toList :: .mark '[' :: element.words ++ [.mark ']']
  | map key value =>
    .name "map".toList :: .mark '[' :: key.words ++ .mark ',' :: value.words ++ [.mark ']']

/-- The words of base types are names. -/
theorem isNameChar_idlName (p : Primitive) : p.idlName.toList.all isNameChar = true := by
  cases p <;> decide

/-- The text of a list. -/
theorem toList_text_list (e : TypeExpr) :
    (list e).text.toList = "list".toList ++ '[' :: (e.text.toList ++ [']']) := by
  simp [text]

/-- The text of a set. -/
theorem toList_text_set (e : TypeExpr) :
    (set e).text.toList = "set".toList ++ '[' :: (e.text.toList ++ [']']) := by
  simp [text]

/-- The text of a map. -/
theorem toList_text_map (key value : TypeExpr) :
    (map key value).text.toList =
      "map".toList ++ '[' :: (key.text.toList ++ ',' :: ' ' :: (value.text.toList ++ [']'])) := by
  simp [text]

/-- The words of an element stand between those of its brackets. -/
theorem lex_elements {word inner : List Char} {tokens : List Token} (some : word ≠ [])
    (chars : word.all isNameChar = true)
    (inside : ∀ {rest}, EndsWord rest → lex none (inner ++ rest) = tokens ++ lex none rest)
    (rest : List Char) :
    lex none (word ++ '[' :: (inner ++ [']']) ++ rest) =
      .name word :: .mark '[' :: tokens ++ [.mark ']'] ++ lex none rest := by
  have element := inside (endsWord_cons (c := ']') (by decide) rest)
  rw [List.append_assoc, List.cons_append, List.append_assoc, lex_bracket some chars,
    List.singleton_append, element, lex_closing]
  simp

/-- The text of a type expression has its words and marks, in front of what does not go on with
them. -/
theorem lex_text {e : TypeExpr} (legible : e.Legible) {rest : List Char} (ends : EndsWord rest) :
    lex none (e.text.toList ++ rest) = e.words ++ lex none rest := by
  -- induction on the type; what stands behind a word or an element begins with a mark
  induction e generalizing rest with
  | primitive p => exact lex_word (by cases p <;> decide) (isNameChar_idlName p) ends
  | binary => exact lex_word (by decide) (by decide) ends
  | named name => exact lex_word legible.1 legible.2.1 ends
  | list element ih =>
    rw [toList_text_list, lex_elements (by decide) (by decide) (ih legible), words]
  | set element ih =>
    rw [toList_text_set, lex_elements (by decide) (by decide) (ih legible), words]
  | map key value ihk ihv =>
    have second := ihv legible.2 (endsWord_cons (c := ']') (by decide) rest)
    have first := ihk legible.1 (endsWord_cons (c := ',') (by decide)
      (' ' :: (value.text.toList ++ ']' :: rest)))
    rw [toList_text_map, List.append_assoc, List.cons_append, List.append_assoc,
      lex_bracket (by decide) (by decide), List.cons_append, List.cons_append, List.append_assoc,
      List.singleton_append, first, lex_comma, second, lex_closing]
    simp [words]

/-- A word that is not reserved is read as a name. -/
theorem ofWord_of_not_reserved {name : String} (free : name ∉ reserved) :
    ofWord name = .named name := by
  simp only [reserved, List.mem_cons, List.not_mem_nil, or_false, not_or] at free
  obtain ⟨_, _, _, binary, byte, bool, i8, i16, i32, i64, double, string⟩ := free
  simp [ofWord, Primitive.ofIdlName?, binary, byte, bool, i8, i16, i32, i64, double, string]

/-- The words that take a bracket. -/
def bracketWords : List String :=
  ["list", "set", "map"]

/-- A word takes no bracket if it is none of the three. -/
theorem bracketWord?_eq_none_iff {name : String} :
    bracketWord? name = none ↔ name ∉ bracketWords := by
  simp only [bracketWord?, bracketWords]
  grind

/-- The words and marks that a type expression can be written in. -/
inductive Spelled : TypeExpr → List Token → Prop
  | word {chars : List Char} (plain : String.ofList chars ∉ bracketWords) :
      Spelled (ofWord (String.ofList chars)) [.name chars]
  | list {e : TypeExpr} {inner : List Token} (h : Spelled e inner) :
      Spelled (.list e) (.name "list".toList :: .mark '[' :: inner ++ [.mark ']'])
  | set {e : TypeExpr} {inner : List Token} (h : Spelled e inner) :
      Spelled (.set e) (.name "set".toList :: .mark '[' :: inner ++ [.mark ']'])
  | map {key value : TypeExpr} {first second : List Token} (hk : Spelled key first)
      (hv : Spelled value second) :
      Spelled (.map key value)
        (.name "map".toList :: .mark '[' :: first ++ .mark ',' :: second ++ [.mark ']'])

theorem Spelled.ofName {name : String} (plain : name ∉ bracketWords) :
    Spelled (ofWord name) [.name name.toList] := by
  have h : Spelled (ofWord (String.ofList name.toList)) [.name name.toList] :=
    .word (by rwa [String.ofList_toList])
  rwa [String.ofList_toList] at h

/-- A legible type is spelled by its words. -/
theorem Legible.spelled {e : TypeExpr} (legible : e.Legible) : Spelled e e.words := by
  induction e with
  -- a word of a base type is not one that takes a bracket
  | primitive p =>
    have plain : p.idlName ∉ bracketWords := by cases p <;> decide
    have reads : ofWord p.idlName = .primitive p := by cases p <;> rfl
    have spelled := Spelled.ofName plain
    rwa [reads] at spelled
  | binary =>
    have plain : "binary" ∉ bracketWords := by decide
    exact .ofName plain
  | named name =>
    have among : bracketWords ⊆ reserved := by decide
    have spelled := Spelled.ofName fun mem => legible.2.2 (among mem)
    rwa [ofWord_of_not_reserved legible.2.2] at spelled
  | list element ih => exact .list (ih legible)
  | set element ih => exact .set (ih legible)
  | map key value ihk ihv => exact .map (ihk legible.1) (ihv legible.2)

/-- A word is read as a type, and reading goes on behind it. -/
theorem readType_word {e : TypeExpr} {word : List Char}
    (plain : bracketWord? (String.ofList word) = none) (reads : ofWord (String.ofList word) = e)
    {placed : List Placed} (cut : placed.map Placed.token = [.name word]) (stop : Nat)
    (pending : List Pending) (rest : List Placed) :
    readType stop pending (placed ++ rest) = readAfter stop pending e rest := by
  obtain ⟨⟨offset, token⟩, rfl, rfl⟩ := List.map_eq_singleton_iff.1 cut
  rw [List.singleton_append, readType, plain, reads]

/-- A bracket is read up to its content. -/
theorem readType_bracket {word : List Char} (bracket : Pending)
    (takes : bracketWord? (String.ofList word) = some bracket) {placed : List Placed}
    {tokens : List Token} (cut : placed.map Placed.token = .name word :: .mark '[' :: tokens) :
    ∃ inner : List Placed, inner.map Placed.token = tokens ∧ ∀ stop pending rest,
      readType stop pending (placed ++ rest) =
        readType stop (bracket :: pending) (inner ++ rest) := by
  obtain ⟨⟨_, first⟩, behind, rfl, rfl, others⟩ := List.map_eq_cons_iff.1 cut
  obtain ⟨opening, inner, rfl, mark, content⟩ := List.map_eq_cons_iff.1 others
  refine ⟨inner, content, fun stop pending rest => ?_⟩
  rw [List.cons_append, readType, takes]
  simp only [List.cons_append, readBracket, mark, if_true]

/-- A closing mark ends the element that waits for it. -/
theorem readAfter_closing {bracket : Pending} {t : Placed} (mark : t.token = .mark bracket.closing)
    (stop : Nat) (pending : List Pending) (e : TypeExpr) (rest : List Placed) :
    readAfter stop (bracket :: pending) e (t :: rest) = match bracket with
      | .list => readAfter stop pending (.list e) rest
      | .set => readAfter stop pending (.set e) rest
      | .mapKey => readType stop (.mapValue e :: pending) rest
      | .mapValue key => readAfter stop pending (.map key e) rest := by
  cases bracket <;> simp [readAfter, mark]

/-- What spells a type expression is read as that, whatever is open around it. -/
theorem readType_spelled {e : TypeExpr} {spelling : List Token} (h : Spelled e spelling)
    {placed : List Placed} (cut : placed.map Placed.token = spelling) (stop : Nat)
    (pending : List Pending) (rest : List Placed) :
    readType stop pending (placed ++ rest) = readAfter stop pending e rest := by
  -- induction on the spelling; a word with a bracket waits until the element in it is read
  induction h generalizing placed pending rest with
  | word plain => exact readType_word (bracketWord?_eq_none_iff.2 plain) rfl cut ..
  | list h ih =>
    obtain ⟨inner, content, step⟩ := readType_bracket .list rfl cut
    obtain ⟨inner, last, rfl, inside, ending⟩ := List.map_eq_append_iff.1 content
    obtain ⟨t, rfl, closing⟩ := List.map_eq_singleton_iff.1 ending
    rw [step, List.append_assoc, ih inside, List.singleton_append, readAfter_closing closing]
  | set h ih =>
    obtain ⟨inner, content, step⟩ := readType_bracket .set rfl cut
    obtain ⟨inner, last, rfl, inside, ending⟩ := List.map_eq_append_iff.1 content
    obtain ⟨t, rfl, closing⟩ := List.map_eq_singleton_iff.1 ending
    rw [step, List.append_assoc, ih inside, List.singleton_append, readAfter_closing closing]
  | map hk hv ihk ihv =>
    obtain ⟨inner, content, step⟩ := readType_bracket .mapKey rfl cut
    obtain ⟨both, last, rfl, inside, ending⟩ := List.map_eq_append_iff.1 content
    obtain ⟨t, rfl, closing⟩ := List.map_eq_singleton_iff.1 ending
    obtain ⟨first, more, rfl, inFirst, others⟩ := List.map_eq_append_iff.1 inside
    obtain ⟨comma, second, rfl, mark, inSecond⟩ := List.map_eq_cons_iff.1 others
    rw [step, List.append_assoc, List.append_assoc, ihk inFirst, List.cons_append,
      readAfter_closing mark, ihv inSecond, List.singleton_append, readAfter_closing closing]

/-- Reading undoes writing. -/
theorem parse_text {e : TypeExpr} (legible : e.Legible) : parse e.text = .ok e := by
  have cut : (tokens e.text.toList).map Placed.token = e.words := by
    have ends : EndsWord [] := fun _ none => by cases none
    have whole := lex_text legible ends
    rw [List.append_nil] at whole
    rw [tokens, map_token_tokensFrom, Option.map_none, whole]
    exact List.append_nil _
  have read := readType_spelled legible.spelled cut e.text.utf8ByteSize [] []
  rwa [List.append_nil, readAfter] at read

/-! ## The characters of type expressions -/

/-- The marks in what is read are brackets and commas. -/
def OnlyBrackets (placed : List Placed) : Prop :=
  ∀ t ∈ placed, ∀ c, t.token = .mark c → c ∈ ['[', ']', ',']

theorem OnlyBrackets.cons {t : Placed} {rest : List Placed}
    (first : ∀ c, t.token = .mark c → c ∈ ['[', ']', ',']) (others : OnlyBrackets rest) :
    OnlyBrackets (t :: rest) :=
  List.forall_mem_cons.2 ⟨first, others⟩

/-- Elements end with a bracket or a comma. -/
theorem Pending.closing_mem (bracket : Pending) : bracket.closing ∈ ['[', ']', ','] := by
  cases bracket <;> simp [closing]

/-- What each reader takes consists of names, brackets and commas. -/
theorem onlyBrackets_of_read (placed : List Placed) :
    (∀ stop pending e, readType stop pending placed = .ok e → OnlyBrackets placed) ∧
      (∀ stop bracket pending e, readBracket stop bracket pending placed = .ok e →
        OnlyBrackets placed) ∧
      ∀ stop pending e e', readAfter stop pending e placed = .ok e' → OnlyBrackets placed := by
  -- induction on what is read; the three readers call each other on what is left
  induction placed with
  | nil => exact ⟨fun _ _ _ _ _ mem => absurd mem List.not_mem_nil,
      fun _ _ _ _ _ _ mem => absurd mem List.not_mem_nil,
      fun _ _ _ _ _ _ mem => absurd mem List.not_mem_nil⟩
  | cons t rest ih =>
    obtain ⟨ihType, ihBracket, ihAfter⟩ := ih
    refine ⟨fun stop pending e h => ?_, fun stop bracket pending e h => ?_,
      fun stop pending e e' h => ?_⟩
    · obtain ⟨offset, token⟩ := t
      cases token with
      | name chars =>
        refine .cons (fun c same => by cases same) ?_
        rw [readType] at h
        split at h
        · exact ihBracket _ _ _ _ h
        · exact ihAfter _ _ _ _ h
      | mark c => cases h
    · rw [readBracket] at h
      split at h
      · next opening =>
        refine .cons (fun c same => ?_) (ihType _ _ _ h)
        rw [opening] at same
        cases same
        decide
      · cases h
    · cases pending with
      | nil => cases h
      | cons bracket pending =>
        by_cases mark : t.token = .mark bracket.closing
        · refine .cons (fun c same => ?_) ?_
          · rw [mark] at same
            cases same
            exact bracket.closing_mem
          · rw [readAfter_closing mark] at h
            cases bracket with
            | list | set | mapValue key => exact ihAfter _ _ _ _ h
            | mapKey => exact ihType _ _ _ h
        · cases bracket <;> simp [readAfter, mark] at h

/-- A mark in a text is among its words and marks. -/
theorem mark_mem_lex {c : Char} (name : isNameChar c = false) (solid : isBlank c = false)
    {text : List Char} (mem : c ∈ text) (open? : Option (List Char)) :
    .mark c ∈ lex open? text := by
  induction text generalizing open? with
  | nil => cases mem
  | cons d rest ih =>
    rcases List.mem_cons.1 mem with rfl | later
    · rw [lex, if_neg (by simp [name]), if_neg (by simp [solid])]
      exact List.mem_append_right _ List.mem_cons_self
    · rw [lex]
      split
      · exact ih later _
      · split
        · exact List.mem_append_right _ (ih later _)
        · exact List.mem_append_right _ (List.mem_cons_of_mem _ (ih later _))

/-- A text that is read has names, white space, brackets and commas only. -/
theorem not_mem_of_parse {text : String} {e : TypeExpr} (h : parse text = .ok e) {c : Char}
    (name : isNameChar c = false) (solid : isBlank c = false) (other : c ∉ ['[', ']', ',']) :
    c ∉ text.toList := by
  intro mem
  have mark := mark_mem_lex name solid mem none
  have cut := map_token_tokensFrom none 0 text.toList
  rw [Option.map_none] at cut
  rw [← cut] at mark
  obtain ⟨t, among, token⟩ := List.mem_map.1 mark
  exact other ((onlyBrackets_of_read _).1 _ _ _ h t among c token)

end Crosswalk.TypeExpr
