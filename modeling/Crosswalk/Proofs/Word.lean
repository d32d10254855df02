import Crosswalk.Code.Identifier
import Crosswalk.Path
import Crosswalk.Settings

/-!
# Words

An identifier is a word of ASCII letters, digits and underscores that does not begin with a digit.
Snake case keeps words words, and so do the parts that names of variables are put together from. An
identifier can be used if it is no keyword; the raw form of a keyword can be used, too, for all but
four of them.
-/

namespace Crosswalk
set_option autoImplicit false

/-! ## Characters -/

namespace Text
variable {c : Char} {text : List Char}

/-- ASCII letters and digits, and the underscore. -/
def isWordChar (c : Char) : Bool :=
  c.isAlpha || c.isDigit || c == '_'

/-- What holds of the first 128 characters holds of every character with a small code. So a fact
about a class of characters can be decided. -/
theorem forall_ascii {P : Char → Prop} (each : ∀ n : Fin 128, P (Char.ofNat n))
    (small : c.toNat < 128) : P c := by
  have here := each ⟨c.toNat, small⟩
  rwa [Char.ofNat_toNat] at here

/-- Characters of words are among them. -/
theorem toNat_lt_of_isWordChar (h : isWordChar c = true) : c.toNat < 128 := by
  have below : ∀ last : Char, last.toNat < 128 → c.val ≤ last.val → c.toNat < 128 :=
    fun last small le => Nat.lt_of_le_of_lt (UInt32.le_iff_toNat_le.1 le) small
  rcases Bool.or_eq_true_iff.1 h with h | underscore
  · rcases Bool.or_eq_true_iff.1 h with letter | digit
    · rcases Bool.or_eq_true_iff.1 letter with upper | lower
      · have between : c.val ≥ 'A'.val ∧ c.val ≤ 'Z'.val := of_decide_eq_true upper
        exact below 'Z' (by decide) between.2
      · exact below 'z' (by decide) (of_decide_eq_true (Bool.and_eq_true_iff.1 lower).2)
    · exact below '9' (by decide) (of_decide_eq_true (Bool.and_eq_true_iff.1 digit).2)
  · rw [beq_iff_eq.1 underscore]
    decide

/-- What snake case makes of a character in a word. -/
structure Lowered (c : Char) : Prop where
  gap : isGap c = false
  lower : toLower c = [c.toLower]
  word : isWordChar c.toLower = true
  letter : c.toLower.isAlpha = c.isAlpha
  digit : c.toLower.isDigit = c.isDigit

/-- Every character of words is lowered to one that is of words again. -/
theorem lowered_of_isWordChar (h : isWordChar c = true) : Lowered c := by
  have each : ∀ n : Fin 128, isWordChar (Char.ofNat n) = true →
      isGap (Char.ofNat n) = false ∧ toLower (Char.ofNat n) = [(Char.ofNat n).toLower] ∧
        isWordChar (Char.ofNat n).toLower = true ∧
        (Char.ofNat n).toLower.isAlpha = (Char.ofNat n).isAlpha ∧
        (Char.ofNat n).toLower.isDigit = (Char.ofNat n).isDigit := by decide +kernel
  obtain ⟨gap, lower, word, letter, digit⟩ := forall_ascii
    (P := fun c => isWordChar c = true → isGap c = false ∧ toLower c = [c.toLower] ∧
      isWordChar c.toLower = true ∧ c.toLower.isAlpha = c.isAlpha ∧
      c.toLower.isDigit = c.isDigit) each (toNat_lt_of_isWordChar h) h
  exact ⟨gap, lower, word, letter, digit⟩

/-- A character of a word is written in lower case, behind an underscore or not. -/
theorem snakeAfter_cons (h : isWordChar c = true) (prev : Option Char) :
    snakeAfter prev (c :: text) = c.toLower :: snakeAfter (some c) text ∨
      snakeAfter prev (c :: text) = '_' :: c.toLower :: snakeAfter (some c) text := by
  have lowered := lowered_of_isWordChar h
  rw [snakeAfter, lowered.gap, lowered.lower, if_neg Bool.false_ne_true]
  split
  · exact .inr rfl
  · exact .inl rfl

theorem snakeChars_cons (h : isWordChar c = true) :
    snakeChars (c :: text) = c.toLower :: snakeAfter (some c) text := by
  have lowered := lowered_of_isWordChar h
  rw [snakeChars, snakeAfter, lowered.gap, lowered.lower]
  simp

/-- Snake case of a word is a word. -/
theorem isWordChar_of_mem_snakeAfter (each : ∀ c ∈ text, isWordChar c = true) {prev : Option Char} :
    ∀ c ∈ snakeAfter prev text, isWordChar c = true := by
  induction text generalizing prev with
  | nil => exact fun c mem => nomatch mem
  | cons first rest ih =>
    obtain ⟨word, others⟩ := List.forall_mem_cons.1 each
    have own : ∀ c ∈ first.toLower :: snakeAfter (some first) rest, isWordChar c = true :=
      List.forall_mem_cons.2 ⟨(lowered_of_isWordChar word).word, ih others⟩
    rcases snakeAfter_cons word prev with same | same
    · rwa [same]
    · rw [same]
      exact List.forall_mem_cons.2 ⟨rfl, own⟩

/-- Every character of a word is in its snake case. -/
theorem toLower_mem_snakeAfter (each : ∀ c ∈ text, isWordChar c = true) (mem : c ∈ text)
    {prev : Option Char} : c.toLower ∈ snakeAfter prev text := by
  induction text generalizing prev with
  | nil => cases mem
  | cons first rest ih =>
    obtain ⟨word, others⟩ := List.forall_mem_cons.1 each
    have own : c.toLower ∈ first.toLower :: snakeAfter (some first) rest := by
      rcases List.mem_cons.1 mem with rfl | mem
      · exact List.mem_cons_self
      · exact List.mem_cons_of_mem _ (ih others mem)
    rcases snakeAfter_cons word prev with same | same
    · rwa [same]
    · rw [same]
      exact List.mem_cons_of_mem _ own

end Text

open Text

/-! ## Identifiers -/

/-- An identifier begins with a letter or with an underscore that is not all of it, and goes on with
characters of words. -/
theorem isIdentifier_iff {text : String} : isIdentifier text = true ↔
    ∃ c rest, text.toList = c :: rest ∧ (c.isAlpha = true ∨ c = '_') ∧
      (c = '_' → rest ≠ []) ∧ ∀ d ∈ rest, isWordChar d = true := by
  unfold isIdentifier
  cases text.toList with
  | nil => simp
  | cons c rest =>
    simp only [Bool.and_eq_true, Bool.or_eq_true, beq_iff_eq, Bool.not_eq_true', List.all_eq_true,
      List.cons.injEq, Bool.and_eq_false_imp, isWordChar, and_assoc]
    simp

theorem isWordChar_of_isIdentifier {text : String} (h : isIdentifier text = true) :
    ∀ c ∈ text.toList, isWordChar c = true := by
  obtain ⟨c, rest, chars, first, _, others⟩ := isIdentifier_iff.1 h
  rw [chars, List.forall_mem_cons]
  refine ⟨?_, others⟩
  rcases first with letter | rfl
  · simp [isWordChar, letter]
  · rfl

/-- An identifier may go on with whatever characters of words. -/
theorem isIdentifier_append {a b : String} (h : isIdentifier a = true)
    (word : ∀ c ∈ b.toList, isWordChar c = true) : isIdentifier (a ++ b) = true := by
  obtain ⟨c, rest, chars, first, more, others⟩ := isIdentifier_iff.1 h
  refine isIdentifier_iff.2 ⟨c, rest ++ b.toList, ?_, first, ?_, ?_⟩
  · rw [String.toList_append, chars]
    rfl
  · intro underscore none
    exact more underscore (List.append_eq_nil_iff.1 none).1
  · intro d mem
    rcases List.mem_append.1 mem with mem | mem
    · exact others d mem
    · exact word d mem

/-- A letter or underscore, then letters, digits and underscores, with a letter somewhere. -/
def IsName (name : String) : Prop :=
  isIdentifier name = true ∧ ∃ c ∈ name.toList, c.isAlpha = true

instance {name : String} : Decidable (IsName name) :=
  decidable_of_iff (isIdentifier name = true ∧ name.toList.any Char.isAlpha = true)
    (and_congr_right' List.any_eq_true)

/-- The snake case of a name is an identifier. -/
theorem IsName.isIdentifier_snakeCase {name : String} (h : IsName name) :
    isIdentifier (snakeCase name) = true := by
  obtain ⟨identifier, letter, among, isLetter⟩ := h
  have each := isWordChar_of_isIdentifier identifier
  obtain ⟨c, rest, chars, first, _, _⟩ := isIdentifier_iff.1 identifier
  have word : isWordChar c = true := each c (by simp [chars])
  have snake : (snakeCase name).toList = c.toLower :: snakeAfter (some c) rest := by
    rw [snakeCase, String.toList_ofList, chars, snakeChars_cons word]
  refine isIdentifier_iff.2 ⟨_, _, snake, ?_, ?_, ?_⟩
  · rcases first with isLetter | rfl
    · exact .inl ((lowered_of_isWordChar word).letter.trans isLetter)
    · exact .inr (by decide)
  · intro underscore alone
    -- the letter of the name is in its snake case, which would be an underscore alone
    have mem : letter.toLower ∈ snakeChars name.toList := toLower_mem_snakeAfter each among
    rw [chars, snakeChars_cons word, alone, underscore, List.mem_singleton] at mem
    have lowered := (lowered_of_isWordChar (each letter among)).letter
    rw [mem, isLetter] at lowered
    exact absurd lowered (by decide)
  · intro d mem
    rw [chars] at each
    exact isWordChar_of_mem_snakeAfter (fun c mem => each c (List.mem_cons_of_mem _ mem)) d mem

/-! ## Identifiers of paths -/

theorem Text.mem_of_mem_splitOn {sep c : Char} {text part : List Char}
    (h : part ∈ splitOn sep text) (mem : c ∈ part) : c ∈ text := by
  induction text generalizing part with
  | nil =>
    obtain rfl : part = [] := by simpa [splitOn] using h
    cases mem
  | cons d rest ih =>
    rw [splitOn] at h
    split at h
    · rcases List.mem_cons.1 h with rfl | h
      · cases mem
      · exact List.mem_cons_of_mem d (ih h mem)
    · split at h
      · next none => exact absurd none (splitOn_ne_nil sep rest)
      · next first others parts =>
        rw [parts] at ih
        rcases List.mem_cons.1 h with rfl | h
        · rcases List.mem_cons.1 mem with rfl | mem
          · exact List.mem_cons_self
          · exact List.mem_cons_of_mem d (ih List.mem_cons_self mem)
        · exact List.mem_cons_of_mem d (ih (List.mem_cons_of_mem first h) mem)

/-- Characters of joined texts are from one of them or from the separator. -/
theorem mem_intercalate {sep : List Char} {c : Char} {parts : List (List Char)}
    (mem : c ∈ sep.intercalate parts) : c ∈ sep ∨ ∃ part ∈ parts, c ∈ part := by
  induction parts with
  | nil => simp at mem
  | cons part rest ih =>
    cases rest with
    | nil =>
      rw [List.intercalate_singleton] at mem
      exact .inr ⟨part, List.mem_cons_self, mem⟩
    | cons next rest =>
      rw [List.intercalate_cons_cons, List.append_assoc, List.mem_append, List.mem_append] at mem
      rcases mem with mem | mem | mem
      · exact .inr ⟨part, List.mem_cons_self, mem⟩
      · exact .inl mem
      · obtain inSep | ⟨other, among, mem⟩ := ih mem
        · exact .inl inSep
        · exact .inr ⟨other, List.mem_cons_of_mem part among, mem⟩

/-- The identifier of a path of names is a word. -/
theorem Path.isWordChar_ident {p : Path} (names : ∀ name, .field name ∈ p.segments → IsName name) :
    ∀ c ∈ p.ident.toList, isWordChar c = true := by
  intro c mem
  rw [ident, String.toList_intercalate] at mem
  obtain underscore | ⟨part, among, mem⟩ := mem_intercalate mem
  · have only : ∀ c ∈ "__".toList, isWordChar c = true := List.all_eq_true.1 (by decide)
    exact only c underscore
  · obtain ⟨_, spelled, rfl⟩ := List.mem_map.1 among
    obtain ⟨segment, here, rfl⟩ := List.mem_map.1 spelled
    cases segment with
    | field name =>
      have each := isWordChar_of_isIdentifier (names name here).1
      rw [Segment.ident, String.toList_ofList] at mem
      obtain underscore | ⟨word, cut, mem⟩ := mem_intercalate mem
      · rw [List.mem_singleton.1 underscore]
        rfl
      · have inside := mem_of_mem_splitOn (List.mem_filter.1 cut).1 mem
        exact isWordChar_of_mem_snakeAfter each c inside
    | index =>
      have only : ∀ c ∈ "item".toList, isWordChar c = true := List.all_eq_true.1 (by decide)
      exact only c mem
    | key =>
      have only : ∀ c ∈ "entry".toList, isWordChar c = true := List.all_eq_true.1 (by decide)
      exact only c mem

/-! ## Keywords -/

namespace Code
variable {w : String}

/-- The strict and the reserved keywords of Rust. -/
def reserved : List String :=
  ["abstract", "as", "async", "await", "become", "box", "break", "const", "continue", "crate", "do",
    "dyn", "else", "enum", "extern", "false", "final", "fn", "for", "gen", "if", "impl", "in",
    "let", "loop", "macro", "match", "mod", "move", "mut", "override", "priv", "pub", "ref",
    "return", "self", "Self", "static", "struct", "super", "trait", "true", "try", "type",
    "typeof", "unsafe", "unsized", "use", "virtual", "where", "while", "yield"]

/-- The keywords that have no raw form. -/
def rawless : List String :=
  ["crate", "self", "super", "Self"]

/-- The keywords that are not written in raw form. -/
def unescaped : List String :=
  ["abstract", "become", "crate", "do", "final", "macro", "override", "priv", "self", "Self",
    "super", "typeof", "unsized", "virtual"]

/-- The keywords that are written as they are. -/
theorem mem_unescaped_iff : w ∈ unescaped ↔ w ∈ reserved ∧ w ∉ keywords := by
  have there : ∀ k ∈ unescaped, k ∈ reserved ∧ k ∉ keywords := by decide
  have all : ∀ k ∈ reserved, k ∈ keywords ∨ k ∈ unescaped := by decide
  constructor
  · exact there w
  · exact fun ⟨mem, free⟩ => (all w mem).resolve_left free

/-- An identifier that is no keyword, or the raw form of one that has a raw form. -/
def Usable (w : String) : Prop :=
  (isIdentifier w = true ∧ w ∉ reserved) ∨
    ∃ k, w = "r#" ++ k ∧ isIdentifier k = true ∧ k ∉ rawless

/-- An identifier can be used unless it is a keyword. -/
theorem usable_iff_of_isIdentifier (h : isIdentifier w = true) : Usable w ↔ w ∉ reserved := by
  constructor
  · rintro (⟨_, free⟩ | ⟨k, rfl, _⟩)
    · exact free
    · have hash := isWordChar_of_isIdentifier h '#' (by simp)
      exact absurd hash (by decide)
  · exact fun free => .inl ⟨h, free⟩

/-- The identifier for a name can be used unless its snake case is a keyword that is not escaped. -/
theorem usable_identifier_iff {name : String} (h : IsName name) :
    (Usable (identifier name) ↔ identifier name ∉ reserved) ∧
      (identifier name ∈ reserved →
        identifier name = snakeCase name ∧ snakeCase name ∈ unescaped) := by
  have word := h.isIdentifier_snakeCase
  by_cases keyword : snakeCase name ∈ keywords
  · have raw : identifier name = "r#" ++ snakeCase name := if_pos keyword
    have plain : ∀ k ∈ keywords, "r#" ++ k ∉ reserved ∧ k ∉ rawless := by decide +kernel
    obtain ⟨free, allowed⟩ := plain _ keyword
    rw [raw]
    refine ⟨iff_of_true (.inr ⟨_, rfl, word, allowed⟩) free, fun mem => absurd mem free⟩
  · have same : identifier name = snakeCase name := if_neg keyword
    rw [same]
    refine ⟨usable_iff_of_isIdentifier word, fun mem => ⟨rfl, ?_⟩⟩
    exact mem_unescaped_iff.2 ⟨mem, keyword⟩

/-- What goes on with an underscore is no keyword. -/
theorem not_reserved_of_underscore (h : '_' ∈ w.toList) : w ∉ reserved := by
  have plain : ∀ k ∈ reserved, '_' ∉ k.toList := by decide
  exact fun mem => plain w mem h

end Code

end Crosswalk
