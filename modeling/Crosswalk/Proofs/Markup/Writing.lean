import Crosswalk.Proofs.Markup.Balance
import Crosswalk.Proofs.Markup.Listing

/-!
# The texts of elements

How elements are laid out as text: a tag for each, attributes in double quotes, and white space
between tags. Pieces of a text that are complete in themselves are scanned one by one, so the
tokens of a layout are those of its tags.

`Yields` says that a piece of text gives certain tokens whatever is behind it, and it is closed
under `append`. So the layout of a tree is an induction on the tree (`Laid.layout`): its tags yield
their tokens by `Tag.Plain.yields_open` and its siblings, and blank text between them yields none.
-/

namespace Crosswalk.Markup
set_option autoImplicit false

/-! ## Complete pieces -/

/-- The piece belongs to a tag as a whole: no tag ends in it, and quotes opened in it are closed. -/
def InTag (piece : List Char) : Prop :=
  ∀ rest, cutTag none (piece ++ rest) =
    (cutTag none rest).map fun (content, behind) => (piece ++ content, behind)

theorem inTag_nil : InTag [] := by
  intro rest
  cases h : cutTag none rest <;> simp [h, Except.map]

/-- Two pieces that belong to a tag belong to it together. -/
theorem InTag.append {a b : List Char} (h : InTag a) (h' : InTag b) : InTag (a ++ b) := by
  intro rest
  rw [List.append_assoc, h, h']
  cases cutTag none rest <;> simp [Except.map]

theorem inTag_char {c : Char} (more : c ≠ '>') (plain : isQuote c = false) : InTag [c] := by
  intro rest
  simp [cutTag, more, plain]

/-- A piece without quotes belongs to a tag if it does not end it. -/
theorem inTag_plain {piece : List Char} (more : '>' ∉ piece) (plain : piece.any isQuote = false) :
    InTag piece := by
  induction piece with
  | nil => exact inTag_nil
  | cons c piece ih =>
    obtain ⟨other, others⟩ := not_or.1 (mt List.mem_cons.2 more)
    rw [List.any_cons, Bool.or_eq_false_iff] at plain
    exact (inTag_char (Ne.symm other) plain.1).append (ih others plain.2)

/-- Between quotes a value is read up to the closing quote, whatever is in it. -/
theorem cutTag_inValue {quote : Char} {value : List Char} (inside : quote ∉ value)
    (rest : List Char) :
    cutTag (some quote) (value ++ quote :: rest) =
      (cutTag none rest).map fun (content, behind) => (value ++ quote :: content, behind) := by
  induction value with
  | nil => simp [cutTag]
  | cons c value ih =>
    obtain ⟨other, others⟩ := not_or.1 (mt List.mem_cons.2 inside)
    simp only [List.cons_append, cutTag, if_neg (Ne.symm other), ih others]
    cases cutTag none rest <;> rfl

/-- A value in quotes belongs to a tag as a whole. -/
theorem inTag_quoted {quote : Char} {value : List Char} (quoted : isQuote quote = true)
    (inside : quote ∉ value) : InTag (quote :: value ++ [quote]) := by
  have more : quote ≠ '>' := by
    rintro rfl
    cases quoted
  intro rest
  rw [List.cons_append, List.cons_append, List.append_assoc, List.singleton_append, cutTag]
  simp only [more, quoted, if_true, if_false, cutTag_inValue inside]
  cases cutTag none rest <;> simp [Except.map]

/-- A tag ends at the first `>` behind what belongs to it. -/
theorem cutTag_of_inTag {content : List Char} (h : InTag content) (rest : List Char) :
    cutTag none (content ++ '>' :: rest) = .ok (content, rest) := by
  simp [h ('>' :: rest), cutTag, Except.map]

/-- The piece is scanned as these tokens, whatever stands behind it. -/
def Yields (piece : List Char) (tokens : List Token) : Prop :=
  ∀ rest, scan (piece ++ rest) = ⟨tokens ++ (scan rest).tokens, (scan rest).fault?⟩

/-- One step of the scanner, and the rest of the text. -/
theorem scan_of_next {c : Char} {rest behind : List Char} {token? : Option Token}
    (h : next c rest = .ok (token?, behind)) :
    scan (c :: rest) = ⟨token?.toList ++ (scan behind).tokens, (scan behind).fault?⟩ := by
  rw [scan]
  split
  · next failed =>
    rw [h] at failed
    cases failed
  · next read =>
    rw [h] at read
    cases read
    rfl

theorem yields_nil : Yields [] [] :=
  fun _ => rfl

/-- The tokens of two pieces in a row. -/
theorem Yields.append {a b : List Char} {tokens more : List Token} (h : Yields a tokens)
    (h' : Yields b more) : Yields (a ++ b) (tokens ++ more) := by
  intro rest
  rw [List.append_assoc, h, h', List.append_assoc]

/-- A text that is complete is scanned without a fault. -/
theorem Yields.scan_eq {text : List Char} {tokens : List Token} (h : Yields text tokens) :
    scan text = ⟨tokens, none⟩ := by
  have whole := h []
  have nothing : scan [] = ⟨[], none⟩ := by rw [scan]
  rwa [List.append_nil, nothing, List.append_nil] at whole

/-- Text gives no tokens. -/
theorem yields_char {c : Char} (reference : c ≠ '&') (tag : c ≠ '<') : Yields [c] [] := by
  intro rest
  exact scan_of_next (by rw [next, if_neg reference, if_pos tag])

theorem yields_space {c : Char} (space : isSpace c = true) : Yields [c] [] := by
  refine yields_char ?_ ?_ <;>
    · rintro rfl
      cases space

theorem head?_ne_of_content {content : List Char} {c : Char} (h : content.head? ≠ some c)
    (other : c ≠ '>') (rest : List Char) : (content ++ '>' :: rest).head? ≠ some c := by
  cases content with
  | nil =>
    intro first
    exact other (Option.some.inj first).symm
  | cons d content => exact h

/-- The first construct of a text that begins with a tag is that tag. -/
theorem next_tag {content : List Char} (h : InTag content) (bang : content.head? ≠ some '!')
    (question : content.head? ≠ some '?') (rest : List Char) :
    next '<' (content ++ '>' :: rest) = .ok (some (.ofContent content), rest) := by
  rw [next, if_neg (by decide), if_neg (by decide)]
  split
  · next opening => exact absurd opening (head?_ne_of_content bang (by decide) rest)
  · next opening => exact absurd opening (head?_ne_of_content question (by decide) rest)
  · rw [cutTag_of_inTag h]
    rfl

/-- A tag gives its token. -/
theorem yields_tag {content : List Char} (h : InTag content) (bang : content.head? ≠ some '!')
    (question : content.head? ≠ some '?') :
    Yields ('<' :: content ++ ['>']) [.ofContent content] := by
  intro rest
  have whole : '<' :: content ++ ['>'] ++ rest = '<' :: (content ++ '>' :: rest) := by simp
  rw [whole, scan_of_next (next_tag h bang question rest)]
  rfl

/-! ## Tags -/

/-- An attribute behind a space, with its value in double quotes. -/
def Attribute.text (a : Attribute) : List Char :=
  ' ' :: (a.key.toList ++ '=' :: '"' :: (a.value.toList ++ ['"']))

/-- The name and the attributes of a tag, without the angle brackets. -/
def Tag.text (tag : Tag) : List Char :=
  tag.name.toList ++ tag.attributes.flatMap Attribute.text

/-- The names of elements and attributes. -/
def IsWord (name : String) : Prop :=
  name.toList ≠ [] ∧ name.toList.all Char.isLower = true

instance (name : String) : Decidable (IsWord name) :=
  inferInstanceAs (Decidable (_ ∧ _))

theorem IsWord.isLower {name : String} (word : IsWord name) {c : Char} (mem : c ∈ name.toList) :
    c.isLower = true :=
  List.all_eq_true.1 word.2 c mem

/-- A letter is none of the marks. -/
theorem ne_of_isLower {c d : Char} (lower : c.isLower = true) (other : d.isLower = false) :
    c ≠ d := by
  rintro rfl
  rw [lower] at other
  cases other

theorem isSpace_of_isLower {c : Char} (lower : c.isLower = true) : isSpace c = false := by
  simp [isSpace, ne_of_isLower lower]

theorem isQuote_of_isLower {c : Char} (lower : c.isLower = true) : isQuote c = false := by
  simp [isQuote, ne_of_isLower lower]

/-- A name belongs to a tag. -/
theorem IsWord.inTag {name : String} (word : IsWord name) : InTag name.toList := by
  refine inTag_plain (fun mem => ne_of_isLower (word.isLower mem) (by decide) rfl) ?_
  exact List.any_eq_false.2 fun c mem => by simp [isQuote_of_isLower (word.isLower mem)]

/-- The attribute can be told from its text. -/
structure Attribute.Plain (a : Attribute) : Prop where
  key : IsWord a.key
  value : '"' ∉ a.value.toList

/-- The tag can be told from its text. -/
structure Tag.Plain (tag : Tag) : Prop where
  name : IsWord tag.name
  attributes : ∀ a ∈ tag.attributes, a.Plain
  distinct : (tag.attributes.map Attribute.key).Nodup

/-- A tag is plain if its names are words, its keys differ and its values have no quotes. -/
theorem Tag.plain_mk {name : String} {written : List Attribute} (word : IsWord name)
    (keys : ∀ a ∈ written, IsWord a.key) (values : ∀ a ∈ written, '"' ∉ a.value.toList)
    (distinct : (written.map Attribute.key).Nodup) : Tag.Plain ⟨name, written⟩ :=
  ⟨word, fun a mem => ⟨keys a mem, values a mem⟩, distinct⟩

/-- An attribute belongs to a tag. -/
theorem Attribute.Plain.inTag {a : Attribute} (plain : a.Plain) : InTag a.text := by
  have value : InTag ('"' :: a.value.toList ++ ['"']) := inTag_quoted (by decide) plain.value
  have equals : InTag ['='] := inTag_char (by decide) (by decide)
  have space : InTag [' '] := inTag_char (by decide) (by decide)
  simpa [text] using space.append (plain.key.inTag.append (equals.append value))

/-- So do attributes in a row. -/
theorem inTag_attributes {written : List Attribute} (plain : ∀ a ∈ written, a.Plain) :
    InTag (written.flatMap Attribute.text) := by
  induction written with
  | nil => exact inTag_nil
  | cons a others ih =>
    obtain ⟨first, later⟩ := List.forall_mem_cons.1 plain
    exact first.inTag.append (ih later)

/-- The text of attributes lists them. -/
theorem lists_attributes {written : List Attribute} (plain : ∀ a ∈ written, a.Plain)
    (distinct : (written.map Attribute.key).Nodup) :
    Lists (written.flatMap Attribute.text) written := by
  -- induction on the attributes, each behind one space
  induction written with
  | nil => exact .nil fun _ mem => absurd mem List.not_mem_nil
  | cons a others ih =>
    obtain ⟨first, later⟩ := List.forall_mem_cons.1 plain
    obtain ⟨fresh, rest⟩ := List.nodup_cons.1 distinct
    have key : ∀ c ∈ a.key.toList, IsKeyChar c := fun c mem =>
      ⟨isSpace_of_isLower (first.key.isLower mem),
        ne_of_isLower (first.key.isLower mem) (by decide)⟩
    have nothing : IsBlank [] := fun _ mem => absurd mem List.not_mem_nil
    -- the space is white, and there is nothing around the equals sign
    have blank : IsBlank [' '] := fun c mem => by
      obtain rfl := List.mem_singleton.1 mem
      rfl
    have quoted : isQuote '"' = true := rfl
    have listed := Lists.cons blank first.key.1 key nothing nothing quoted first.value fresh
      (ih later rest)
    simpa [Attribute.text] using listed

namespace Tag.Plain
variable {tag : Tag}

theorem inTag (plain : tag.Plain) : InTag tag.text :=
  plain.name.inTag.append (inTag_attributes plain.attributes)

/-- The text of a plain tag begins with its name. -/
theorem exists_cons (plain : tag.Plain) :
    ∃ c rest, tag.text = c :: rest ∧ c.isLower = true := by
  obtain ⟨c, more, name⟩ := List.exists_cons_of_ne_nil plain.name.1
  refine ⟨c, more ++ tag.attributes.flatMap Attribute.text, by rw [Tag.text, name]; rfl, ?_⟩
  exact plain.name.isLower (name ▸ List.mem_cons_self)

theorem getLast?_ne (plain : tag.Plain) : tag.text.getLast? ≠ some '/' := by
  rcases List.eq_nil_or_concat tag.attributes with none | ⟨before, a, some⟩
  · intro last
    rw [Tag.text, none, List.flatMap_nil, List.append_nil] at last
    exact ne_of_isLower (plain.name.isLower (List.mem_of_getLast? last)) (by decide) rfl
  · have text : tag.text = tag.name.toList ++ before.flatMap Attribute.text ++
        ' ' :: a.key.toList ++ '=' :: '"' :: a.value.toList ++ ['"'] := by
      simp [Tag.text, some, Attribute.text]
    rw [text, List.getLast?_concat]
    decide

/-- The text of a plain tag is cut behind its name. -/
theorem cut (plain : tag.Plain) :
    tag.text.takeWhile (!isSpace ·) = tag.name.toList ∧
      tag.text.dropWhile (!isSpace ·) = tag.attributes.flatMap Attribute.text := by
  have solid : ∀ c ∈ tag.name.toList, (!isSpace c) = true := fun c mem => by
    rw [isSpace_of_isLower (plain.name.isLower mem)]
    rfl
  have stops : (tag.attributes.flatMap Attribute.text).takeWhile (!isSpace ·) = [] ∧
      (tag.attributes.flatMap Attribute.text).dropWhile (!isSpace ·) =
        tag.attributes.flatMap Attribute.text := by
    cases tag.attributes with
    | nil => exact ⟨rfl, rfl⟩
    | cons a others => exact ⟨rfl, rfl⟩
  rw [Tag.text, List.takeWhile_append_of_pos solid, List.dropWhile_append_of_pos solid, stops.1,
    stops.2, List.append_nil]
  exact ⟨rfl, rfl⟩

/-- A plain tag is read back from its text. -/
theorem ofContent (plain : tag.Plain) : Tag.ofContent tag.text = tag := by
  have listed := lists_attributes plain.attributes plain.distinct
  rw [Tag.ofContent, plain.cut.1, plain.cut.2, attributes_of_lists listed, String.ofList_toList]

/-- A start tag is read as the tag that was written. -/
theorem ofContent_open (plain : tag.Plain) : Token.ofContent tag.text = .open tag := by
  obtain ⟨c, rest, text, lower⟩ := plain.exists_cons
  have first : tag.text.head? ≠ some '/' := by
    simpa [text] using ne_of_isLower lower (by decide)
  rw [Token.ofContent, if_neg first, if_neg plain.getLast?_ne, plain.ofContent]

/-- So is the tag of an empty element, which a slash ends. -/
theorem ofContent_empty (plain : tag.Plain) : Token.ofContent (tag.text ++ ['/']) = .empty tag := by
  obtain ⟨c, rest, text, lower⟩ := plain.exists_cons
  have first : (tag.text ++ ['/']).head? ≠ some '/' := by
    simpa [text] using ne_of_isLower lower (by decide)
  rw [Token.ofContent, if_neg first, if_pos (List.getLast?_concat ..), List.dropLast_concat,
    plain.ofContent]

/-- A start tag gives one token. -/
theorem yields_open (plain : tag.Plain) : Yields ('<' :: tag.text ++ ['>']) [.open tag] := by
  obtain ⟨c, rest, text, lower⟩ := plain.exists_cons
  rw [← plain.ofContent_open]
  exact yields_tag plain.inTag (by simpa [text] using ne_of_isLower lower (by decide))
    (by simpa [text] using ne_of_isLower lower (by decide))

/-- The tag of an empty element gives one token. -/
theorem yields_empty (plain : tag.Plain) :
    Yields ('<' :: (tag.text ++ ['/']) ++ ['>']) [.empty tag] := by
  obtain ⟨c, rest, text, lower⟩ := plain.exists_cons
  have slash : InTag ['/'] := inTag_char (by decide) (by decide)
  rw [← plain.ofContent_empty]
  exact yields_tag (plain.inTag.append slash)
    (by simpa [text] using ne_of_isLower lower (by decide))
    (by simpa [text] using ne_of_isLower lower (by decide))

end Tag.Plain

/-- White space behind the name in an end tag is dropped. -/
theorem endName_append {name blank : List Char} (visible : name ≠ [])
    (solid : ∀ c ∈ name, isSpace c = false) (white : IsBlank blank) :
    endName (name ++ blank) = name := by
  have mixed : ¬(name ++ blank).all isSpace = true := by
    obtain ⟨c, more, rfl⟩ := List.exists_cons_of_ne_nil visible
    simp [solid c List.mem_cons_self]
  have keeps : name.reverse.dropWhile isSpace = name.reverse := by
    obtain ⟨c, more, chars⟩ := List.exists_cons_of_ne_nil (mt List.reverse_eq_nil_iff.1 visible)
    rw [chars, List.dropWhile_cons_of_neg]
    rw [solid c (List.mem_reverse.1 (chars ▸ List.mem_cons_self))]
    decide
  rw [endName, if_neg mixed, List.reverse_append,
    List.dropWhile_append_of_pos fun c mem => white c (List.mem_reverse.1 mem), keeps,
    List.reverse_reverse]

/-- The name in an end tag is all of it. -/
theorem endName_word {name : String} (word : IsWord name) : endName name.toList = name.toList := by
  have nothing : IsBlank [] := fun _ mem => absurd mem List.not_mem_nil
  simpa using endName_append word.1 (fun c mem => isSpace_of_isLower (word.isLower mem)) nothing

theorem IsWord.inTag_close {name : String} (word : IsWord name) : InTag ('/' :: name.toList) := by
  have slash : InTag ['/'] := inTag_char (by decide) (by decide)
  exact slash.append word.inTag

/-- An end tag gives one token. -/
theorem yields_close {name : String} (word : IsWord name) :
    Yields ('<' :: ('/' :: name.toList) ++ ['>']) [.close name] := by
  have close : Token.ofContent ('/' :: name.toList) = .close name := by
    rw [Token.ofContent, if_pos (List.head?_cons ..), List.tail_cons, endName_word word,
      String.ofList_toList]
  rw [← close]
  exact yields_tag word.inTag_close (by simp) (by simp)

/-! ## Layouts -/

/-- `Laid nodes text`: the text has the elements, one behind the other, each with its tags, and
nothing else but white space. -/
inductive Laid : List Node → List Char → Prop
  | nil : Laid [] []
  | space {c : Char} {nodes : List Node} {text : List Char} (white : isSpace c = true)
      (h : Laid nodes text) : Laid nodes (c :: text)
  | empty {tag : Tag} {nodes : List Node} {text : List Char} (h : Laid nodes text) :
      Laid (.mk tag [] .closed :: nodes) ('<' :: (tag.text ++ ['/']) ++ ['>'] ++ text)
  | element {tag : Tag} {children nodes : List Node} {inner text : List Char}
      (inside : Laid children inner) (h : Laid nodes text) :
      Laid (.mk tag children .closed :: nodes)
        ('<' :: tag.text ++ ['>'] ++ inner ++ ('<' :: ('/' :: tag.name.toList) ++ ['>']) ++ text)

/-- The element and those inside it are closed, and their tags can be told from their texts. -/
inductive Node.Plain : Node → Prop
  | mk {tag : Tag} {children : List Node} (plain : tag.Plain)
      (inside : ∀ n ∈ children, n.Plain) : Node.Plain (.mk tag children .closed)

/-- The tokens of a layout are those of its elements. -/
theorem Laid.spells {nodes : List Node} {text : List Char} (h : Laid nodes text)
    (plain : ∀ n ∈ nodes, n.Plain) : ∃ tokens, Spells nodes tokens ∧ Yields text tokens := by
  -- induction on the layout; white space gives no tokens
  induction h with
  | nil => exact ⟨[], .nil, yields_nil⟩
  | space white _ ih =>
    obtain ⟨tokens, spells, yields⟩ := ih plain
    exact ⟨tokens, spells, (yields_space white).append yields⟩
  | empty _ ih =>
    obtain ⟨⟨tag, _⟩, others⟩ := List.forall_mem_cons.1 plain
    obtain ⟨tokens, spells, yields⟩ := ih others
    exact ⟨_, .empty spells, tag.yields_empty.append yields⟩
  | element _ _ ihi ih =>
    obtain ⟨⟨tag, children⟩, others⟩ := List.forall_mem_cons.1 plain
    obtain ⟨inner, inside, within⟩ := ihi children
    obtain ⟨tokens, spells, yields⟩ := ih others
    refine ⟨_, .element inside spells, ?_⟩
    have whole := ((tag.yields_open.append within).append (yields_close tag.name)).append yields
    simpa using whole

/-! ## Indented layouts -/

/-- Two spaces for each level. -/
def indent (depth : Nat) : List Char :=
  List.replicate (2 * depth) ' '

mutual

/-- The text of an element, with each tag in a line of its own. -/
def Node.layout (depth : Nat) : Node → List Char
  | .mk tag children _ =>
    if children.isEmpty then indent depth ++ ('<' :: (tag.text ++ ['/']) ++ ['>']) ++ ['\n']
    else indent depth ++ ('<' :: tag.text ++ ['>']) ++
      ('\n' :: (layoutAll (depth + 1) children ++ indent depth)) ++
      ('<' :: ('/' :: tag.name.toList) ++ ['>']) ++ ['\n']

/-- The texts of elements, one behind the other. -/
def layoutAll (depth : Nat) : List Node → List Char
  | [] => []
  | n :: rest => n.layout depth ++ layoutAll depth rest

end

/-- White space in front changes nothing. -/
theorem Laid.blank {nodes : List Node} {text blank : List Char} (space : IsBlank blank)
    (h : Laid nodes text) : Laid nodes (blank ++ text) := by
  induction blank with
  | nil => exact h
  | cons c blank ih =>
    obtain ⟨first, others⟩ := List.forall_mem_cons.1 space
    exact .space first (ih others)

theorem isBlank_indent (depth : Nat) : IsBlank (indent depth) := by
  intro c mem
  obtain rfl := List.eq_of_mem_replicate mem
  rfl

/-- Elements are laid out by their texts if each is. -/
theorem Laid.layoutAll {children nodes : List Node} {text : List Char} {depth : Nat}
    (each : ∀ n ∈ children, ∀ nodes text, Laid nodes text →
      Laid (n :: nodes) (n.layout depth ++ text)) (h : Laid nodes text) :
    Laid (children ++ nodes) (layoutAll depth children ++ text) := by
  induction children with
  | nil => exact h
  | cons n children ih =>
    obtain ⟨first, others⟩ := List.forall_mem_cons.1 each
    rw [Markup.layoutAll, List.append_assoc]
    exact first _ _ (ih others)

/-- An element is laid out by its text, indented by any depth. -/
theorem Laid.layout {n : Node} (plain : n.Plain) : ∀ {depth : Nat} {nodes : List Node}
    {text : List Char}, Laid nodes text → Laid (n :: nodes) (n.layout depth ++ text) := by
  -- induction on the element; its children are laid out one step further in
  induction plain with
  | @mk tag children _ _ ih =>
    intro depth nodes text h
    have behind : Laid nodes ('\n' :: text) := .space rfl h
    have blank := isBlank_indent depth
    rw [Node.layout]
    split
    · next childless =>
      obtain rfl := List.isEmpty_iff.1 childless
      have line : Laid (.mk tag [] .closed :: nodes) _ := .empty behind
      simpa using line.blank blank
    · have last : Laid [] (indent depth) := by simpa using Laid.nil.blank blank
      have inside : Laid (children ++ []) (Markup.layoutAll (depth + 1) children ++ indent depth) :=
        last.layoutAll fun n mem nodes text => ih n mem
      rw [List.append_nil] at inside
      have white : isSpace '\n' = true := rfl
      have lines : Laid (.mk tag children .closed :: nodes) _ :=
        .element (inside.space white) behind
      simpa using lines.blank blank

end Crosswalk.Markup
