import Crosswalk.Markup.Attribute

/-!
# Well-formed attributes

The grammar of attributes: a name, an equals sign and a value in quotes, with different names for
different attributes. What is written by it is read as it stands, and nothing of it is passed over.
-/

namespace Crosswalk.Markup
set_option autoImplicit false

def IsBlank (text : List Char) : Prop :=
  ∀ c ∈ text, isSpace c = true

/-- The characters that a name of an attribute can have. -/
def IsKeyChar (c : Char) : Prop :=
  isSpace c = false ∧ c ≠ '='

/-- `Lists text attributes`: the text has these attributes, each name once. -/
inductive Lists : List Char → List Attribute → Prop
  | nil {lead : List Char} (space : IsBlank lead) : Lists lead []
  | cons {a : Attribute} {others : List Attribute} {lead before behind rest : List Char}
      {quote : Char} (space : IsBlank lead) (named : a.key.toList ≠ [])
      (key : ∀ c ∈ a.key.toList, IsKeyChar c) (spaceBefore : IsBlank before)
      (spaceBehind : IsBlank behind) (quoted : isQuote quote = true) (value : quote ∉ a.value.toList)
      (fresh : a.key ∉ others.map Attribute.key) (h : Lists rest others) :
      Lists (lead ++ (a.key.toList ++ (before ++ '=' ::
        (behind ++ quote :: (a.value.toList ++ quote :: rest))))) (a :: others)

variable {seen : List (List Char)}

/-- White space is passed over where it leaves the reader in its state. -/
theorem attributesFrom_blank {state : AttributeState} {blank : List Char}
    (stays : ∀ c rest, isSpace c = true →
      attributesFrom seen state (c :: rest) = attributesFrom seen state rest)
    (space : IsBlank blank) (rest : List Char) :
    attributesFrom seen state (blank ++ rest) = attributesFrom seen state rest := by
  induction blank with
  | nil => rfl
  | cons c blank ih =>
    obtain ⟨first, others⟩ := List.forall_mem_cons.1 space
    rw [List.cons_append, stays c _ first, ih others]

/-- Blanks between attributes are passed over. -/
theorem attributesFrom_between {blank : List Char} (space : IsBlank blank) (rest : List Char) :
    attributesFrom seen .between (blank ++ rest) = attributesFrom seen .between rest :=
  attributesFrom_blank (fun _ _ white => by exact if_pos white) space rest

/-- So are those between the equals sign and the value. -/
theorem attributesFrom_beforeValue {key blank : List Char} (space : IsBlank blank)
    (rest : List Char) :
    attributesFrom seen (.beforeValue key) (blank ++ rest) =
      attributesFrom seen (.beforeValue key) rest :=
  attributesFrom_blank (fun _ _ white => by exact if_pos white) space rest

/-- Characters of a key are collected. -/
theorem attributesFrom_inKey {key more : List Char} (chars : ∀ c ∈ more, IsKeyChar c)
    (rest : List Char) :
    attributesFrom seen (.inKey key) (more ++ rest) =
      attributesFrom seen (.inKey (key ++ more)) rest := by
  induction more generalizing key with
  | nil => rw [List.nil_append, List.append_nil]
  | cons c more ih =>
    obtain ⟨⟨solid, other⟩, others⟩ := List.forall_mem_cons.1 chars
    rw [List.cons_append, attributesFrom, if_neg (by simp [solid]), if_neg other, ih others,
      List.append_assoc, List.singleton_append]

/-- Behind a key the equals sign is found, with or without white space before it. -/
theorem attributesFrom_equals {key before : List Char} (space : IsBlank before)
    (rest : List Char) :
    attributesFrom seen (.inKey key) (before ++ '=' :: rest) =
      attributesFrom (key :: seen) (.ofKey seen key) rest := by
  cases before with
  | nil => rw [List.nil_append, attributesFrom, if_neg (by decide), if_pos rfl]
  | cons c before =>
    obtain ⟨first, others⟩ := List.forall_mem_cons.1 space
    have stays : ∀ c rest, isSpace c = true → attributesFrom seen (.afterKey key) (c :: rest) =
        attributesFrom seen (.afterKey key) rest := fun _ _ white => if_pos white
    rw [List.cons_append, attributesFrom, if_pos first, attributesFrom_blank stays others,
      attributesFrom, if_neg (by decide), if_pos rfl]

/-- A key goes up to the equals sign, with blanks before it left out. -/
theorem attributesFrom_key {key before : List Char} (named : key ≠ [])
    (chars : ∀ c ∈ key, IsKeyChar c) (space : IsBlank before) (rest : List Char) :
    attributesFrom seen .between (key ++ (before ++ '=' :: rest)) =
      attributesFrom (key :: seen) (.ofKey seen key) rest := by
  obtain ⟨c, more, rfl⟩ := List.exists_cons_of_ne_nil named
  obtain ⟨⟨solid, _⟩, others⟩ := List.forall_mem_cons.1 chars
  rw [List.cons_append, attributesFrom, if_neg (by simp [solid]), attributesFrom_inKey others,
    attributesFrom_equals space]
  rfl

/-- A value goes up to the quote that it began with, and other quotes may stand in it. -/
theorem attributesFrom_inValue {key value more : List Char} {quote : Char} (inside : quote ∉ more)
    (rest : List Char) :
    attributesFrom seen (.inValue key quote value) (more ++ quote :: rest) =
      (key, value ++ more) :: attributesFrom seen .between rest := by
  induction more generalizing value with
  | nil => rw [List.nil_append, attributesFrom, if_pos rfl, List.append_nil]
  | cons c more ih =>
    obtain ⟨other, others⟩ := not_or.1 (mt List.mem_cons.2 inside)
    rw [List.cons_append, attributesFrom, if_neg (Ne.symm other), ih others, List.append_assoc,
      List.singleton_append]

/-- So a quoted value is read with the key before it, and the reader goes on behind the quote. -/
theorem attributesFrom_value {key value behind : List Char} {quote : Char} (space : IsBlank behind)
    (quoted : isQuote quote = true) (inside : quote ∉ value) (rest : List Char) :
    attributesFrom seen (.beforeValue key) (behind ++ quote :: (value ++ quote :: rest)) =
      (key, value) :: attributesFrom seen .between rest := by
  have solid : isSpace quote = false := by
    simp only [isQuote, Bool.or_eq_true, beq_iff_eq] at quoted
    rcases quoted with rfl | rfl <;> decide
  rw [attributesFrom_beforeValue space, attributesFrom, if_neg (by simp [solid]), if_pos quoted,
    attributesFrom_inValue inside, List.nil_append]

/-- A list of attributes with different keys is read as what is written. -/
theorem attributesFrom_lists {text : List Char} {attributes : List Attribute}
    (h : Lists text attributes) (fresh : ∀ a ∈ attributes, a.key.toList ∉ seen) :
    attributesFrom seen .between text =
      attributes.map fun a => (a.key.toList, a.value.toList) := by
  induction h generalizing seen with
  | @nil lead space =>
    rw [← List.append_nil lead, attributesFrom_between space]
    rfl
  | @cons a others _ _ _ rest _ space named key spaceBefore spaceBehind quoted value once _ ih =>
    obtain ⟨first, later⟩ := List.forall_mem_cons.1 fresh
    have new : AttributeState.ofKey seen a.key.toList = .beforeValue a.key.toList :=
      if_neg first
    have apart : ∀ b ∈ others, b.key.toList ∉ a.key.toList :: seen := by
      intro b mem
      rw [List.mem_cons, not_or]
      refine ⟨fun same => once ?_, later b mem⟩
      exact String.toList_inj.1 same ▸ List.mem_map_of_mem mem
    rw [attributesFrom_between space, attributesFrom_key named key spaceBefore, new,
      attributesFrom_value spaceBehind quoted value, ih apart, List.map_cons]

/-- Well-formed attributes are read as they are written. -/
theorem attributes_of_lists {text : List Char} {written : List Attribute}
    (h : Lists text written) : attributes text = written := by
  rw [attributes, attributesFrom_lists h fun _ _ => List.not_mem_nil, List.map_map]
  have same : ∀ a ∈ written, Attribute.mk (String.ofList a.key.toList)
      (String.ofList a.value.toList) = id a := fun a _ => by
    rw [String.ofList_toList, String.ofList_toList, id]
  exact (List.map_congr_left same).trans (List.map_id written)

/-- The text of well-formed attributes ends with a quote or white space. -/
theorem Lists.getLast? {text : List Char} {written : List Attribute} (h : Lists text written) :
    ∀ c ∈ text.getLast?, isSpace c = true ∨ isQuote c = true := by
  induction h with
  | nil space => exact fun c last => .inl (space c (List.mem_of_getLast? last))
  | @cons a _ lead before behind rest quote _ _ _ _ _ quoted _ _ _ ih =>
    intro c last
    have shape : lead ++ (a.key.toList ++ (before ++ '=' ::
        (behind ++ quote :: (a.value.toList ++ quote :: rest)))) =
          lead ++ a.key.toList ++ before ++ '=' :: behind ++ quote :: a.value.toList ++
            quote :: rest := by simp
    rw [shape, List.getLast?_append] at last
    cases rest with
    | nil =>
      obtain rfl : quote = c := by simpa using last
      exact .inr quoted
    | cons d rest => exact ih c (by simpa [List.getLast?_cons] using last)

end Crosswalk.Markup
