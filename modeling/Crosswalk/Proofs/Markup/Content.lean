import Crosswalk.Proofs.Markup.Locality

/-!
# Well-formed content

What may stand between a start tag and its end tag: characters, references, comments, character
data, instructions, and elements with content of their own. The grammar takes all well-formed
content, and is more generous than that with names and with what stands in a tag. Its tokens are
those of closed elements, so no construct in it reaches beyond it.
-/

namespace Crosswalk.Markup
set_option autoImplicit false

/-! ## Tags -/

/-- Quotes are closed, and no `>` stands outside them. -/
inductive TagText : List Char → Prop
  | nil : TagText []
  | char {c : Char} {text : List Char} (more : c ≠ '>') (plain : isQuote c = false)
      (h : TagText text) : TagText (c :: text)
  | quoted {quote : Char} {value text : List Char} (quoted : isQuote quote = true)
      (inside : quote ∉ value) (h : TagText text) : TagText (quote :: value ++ [quote] ++ text)

/-- The text of attributes can stand in a tag: a tag does not end within quotes. -/
theorem TagText.inTag {text : List Char} (h : TagText text) : InTag text := by
  induction h with
  | nil => exact inTag_nil
  | char more plain _ ih => exact (inTag_char more plain).append ih
  | quoted quoted inside _ ih => exact (inTag_quoted quoted inside).append ih

theorem TagText.plain {piece text : List Char}
    (plain : ∀ c ∈ piece, c ≠ '>' ∧ isQuote c = false) (h : TagText text) :
    TagText (piece ++ text) := by
  induction piece with
  | nil => exact h
  | cons c piece ih =>
    obtain ⟨first, others⟩ := List.forall_mem_cons.1 plain
    exact .char first.1 first.2 (ih others)

/-- A character of names. -/
def IsNameChar (c : Char) : Prop :=
  isSpace c = false ∧ isQuote c = false ∧ c ∉ ['/', '>', '!', '?']

instance (c : Char) : Decidable (IsNameChar c) :=
  inferInstanceAs (Decidable (_ ∧ _))

/-- The parts of a start tag: a name, and attributes behind white space. -/
structure IsStart (name attributes : List Char) : Prop where
  visible : name ≠ []
  solid : ∀ c ∈ name, IsNameChar c
  sound : TagText attributes
  apart : ∀ c ∈ attributes.head?, isSpace c = true
  last : attributes.getLast? ≠ some '/'

namespace IsStart
variable {name attributes : List Char}

/-- No character of a name ends a tag. -/
theorem inTag_name (named : ∀ c ∈ name, IsNameChar c) : InTag name := by
  refine inTag_plain (fun mem => (named _ mem).2.2 (by decide)) (List.any_eq_false.2 ?_)
  exact fun c mem => by simp [(named c mem).2.1]

theorem inTag (h : IsStart name attributes) : InTag (name ++ attributes) :=
  (inTag_name h.solid).append h.sound.inTag

/-- The tag begins with none of the marks of other constructs. -/
theorem head?_ne (h : IsStart name attributes) {c : Char} (mark : c ∈ ['/', '!', '?'])
    (more : List Char) : (name ++ more).head? ≠ some c := by
  obtain ⟨d, rest, rfl⟩ := List.exists_cons_of_ne_nil h.visible
  rintro ⟨⟩
  refine (h.solid c List.mem_cons_self).2.2 ?_
  simp only [List.mem_cons, List.not_mem_nil, or_false] at mark ⊢
  tauto

theorem getLast?_ne (h : IsStart name attributes) : (name ++ attributes).getLast? ≠ some '/' := by
  rcases List.eq_nil_or_concat' attributes with rfl | ⟨more, c, rfl⟩
  · intro slash
    rw [List.append_nil] at slash
    exact (h.solid _ (List.mem_of_getLast? slash)).2.2 (by decide)
  · have last := h.last
    rw [List.getLast?_concat] at last
    rwa [← List.append_assoc, List.getLast?_concat]

/-- The name of a tag ends where its attributes begin. -/
theorem name_ofContent (h : IsStart name attributes) :
    (Tag.ofContent (name ++ attributes)).name = String.ofList name := by
  have solid : ∀ c ∈ name, (!isSpace c) = true := fun c mem => by simp [(h.solid c mem).1]
  have stops : attributes.takeWhile (!isSpace ·) = [] := by
    cases attributes with
    | nil => rfl
    | cons c rest => simp [h.apart c rfl]
  rw [Tag.ofContent, List.takeWhile_append_of_pos solid, stops, List.append_nil]

/-- An opening tag gives one token, with the name and the attributes of its content. -/
theorem yields_open (h : IsStart name attributes) :
    Yields ('<' :: (name ++ attributes) ++ ['>']) [.open (Tag.ofContent (name ++ attributes))] := by
  have token : Token.ofContent (name ++ attributes) =
      .open (Tag.ofContent (name ++ attributes)) := by
    rw [Token.ofContent, if_neg (h.head?_ne (by decide) _), if_neg h.getLast?_ne]
  rw [← token]
  exact yields_tag h.inTag (h.head?_ne (by decide) _) (h.head?_ne (by decide) _)

theorem yields_empty (h : IsStart name attributes) :
    Yields ('<' :: (name ++ attributes ++ ['/']) ++ ['>'])
      [.empty (Tag.ofContent (name ++ attributes))] := by
  have token : Token.ofContent (name ++ attributes ++ ['/']) =
      .empty (Tag.ofContent (name ++ attributes)) := by
    rw [Token.ofContent, if_neg (List.append_assoc name .. ▸ h.head?_ne (by decide) _),
      if_pos (List.getLast?_concat ..), List.dropLast_concat]
  have slash : InTag ['/'] := inTag_char (by decide) (by decide)
  rw [← token]
  exact yields_tag (h.inTag.append slash) (List.append_assoc name .. ▸ h.head?_ne (by decide) _)
    (List.append_assoc name .. ▸ h.head?_ne (by decide) _)

/-- A closing tag gives its name, without the blanks behind it. -/
theorem yields_close (h : IsStart name attributes) {blank : List Char} (white : IsBlank blank) :
    Yields ('<' :: ('/' :: (name ++ blank)) ++ ['>']) [.close (String.ofList name)] := by
  have token : Token.ofContent ('/' :: (name ++ blank)) = .close (String.ofList name) := by
    rw [Token.ofContent, if_pos (List.head?_cons ..), List.tail_cons,
      endName_append h.visible (fun c mem => (h.solid c mem).1) white]
  have slash : InTag ['/'] := inTag_char (by decide) (by decide)
  have space : InTag blank := by
    refine inTag_plain (fun mem => absurd (white _ mem) (by decide)) (List.any_eq_false.2 ?_)
    intro c mem quotes
    have space := white c mem
    simp only [isQuote, isSpace, Bool.or_eq_true, beq_iff_eq] at quotes space
    rcases quotes with rfl | rfl <;> simp at space
  rw [← token]
  exact yields_tag (slash.append ((inTag_name h.solid).append space)) (by simp) (by simp)

end IsStart

/-- The attributes of a plain tag are sound. -/
theorem tagText_attributes {written : List Attribute} (plain : ∀ a ∈ written, a.Plain) :
    TagText (written.flatMap Attribute.text) := by
  induction written with
  | nil => exact .nil
  | cons a others ih =>
    obtain ⟨first, later⟩ := List.forall_mem_cons.1 plain
    have name : ∀ c ∈ ' ' :: (a.key.toList ++ ['=']), c ≠ '>' ∧ isQuote c = false := by
      intro c mem
      simp only [List.mem_cons, List.mem_append, List.not_mem_nil, or_false] at mem
      rcases mem with rfl | mem | rfl
      · decide
      · have lower := first.key.isLower mem
        exact ⟨ne_of_isLower lower (by decide), isQuote_of_isLower lower⟩
      · decide
    have whole := TagText.plain name (.quoted (by decide) first.value (ih later))
    simpa [Attribute.text] using whole

/-- The tags that are written out are among those that a text can have. -/
theorem Tag.Plain.isStart {tag : Tag} (plain : tag.Plain) :
    IsStart tag.name.toList (tag.attributes.flatMap Attribute.text) where
  visible := plain.name.1
  solid c mem := by
    have lower := plain.name.isLower mem
    have marks : ['/', '>', '!', '?'].any Char.isLower = false := by decide
    refine ⟨isSpace_of_isLower lower, isQuote_of_isLower lower, fun mark => ?_⟩
    exact List.any_eq_false.1 marks c mark lower
  sound := tagText_attributes plain.attributes
  apart c first := by
    cases written : tag.attributes with
    | nil =>
      rw [written] at first
      cases first
    | cons a others =>
      rw [written] at first
      cases first
      rfl
  last slash := by
    refine plain.getLast?_ne ?_
    rw [Tag.text, List.getLast?_append, slash]
    rfl

/-! ## Content -/

/-- An element with a start tag and an end tag. -/
def elementText (name attributes inner blank : List Char) : List Char :=
  '<' :: (name ++ attributes) ++ ['>'] ++ inner ++ ('<' :: ('/' :: (name ++ blank)) ++ ['>'])

/-- Content in which every construct has its end, and every start tag its end tag. -/
inductive Balanced : List Char → Prop
  | nil : Balanced []
  | char {c : Char} {text : List Char} (reference : c ≠ '&') (tag : c ≠ '<') (h : Balanced text) :
      Balanced (c :: text)
  | reference {name text : List Char} (solid : ∀ c ∈ name, c ∉ [';', '&', '<'])
      (h : Balanced text) : Balanced ('&' :: (name ++ [';']) ++ text)
  | comment {body text : List Char} (ends : ¬"-->".toList <:+: body) (h : Balanced text) :
      Balanced ('<' :: '!' :: ("--".toList ++ body ++ "-->".toList) ++ text)
  | characterData {body text : List Char} (ends : ¬"]]>".toList <:+: body) (h : Balanced text) :
      Balanced ('<' :: '!' :: ("[CDATA[".toList ++ body ++ "]]>".toList) ++ text)
  | instruction {body text : List Char} (start : body.head? ≠ some '>')
      (ends : ¬"?>".toList <:+: body) (h : Balanced text) :
      Balanced ('<' :: '?' :: (body ++ "?>".toList) ++ text)
  | empty {name attributes text : List Char} (start : IsStart name attributes) (h : Balanced text) :
      Balanced ('<' :: (name ++ attributes ++ ['/']) ++ ['>'] ++ text)
  | element {name attributes inner blank text : List Char} (start : IsStart name attributes)
      (inside : Balanced inner) (white : IsBlank blank) (h : Balanced text) :
      Balanced (elementText name attributes inner blank ++ text)

/-- An element gives its opening tag, the tokens of its content and its closing tag. -/
theorem yields_element {name attributes inner blank : List Char} {tokens : List Token}
    (start : IsStart name attributes) (inside : Yields inner tokens) (white : IsBlank blank) :
    Yields (elementText name attributes inner blank)
      (.open (Tag.ofContent (name ++ attributes)) :: tokens ++
        [.close (Tag.ofContent (name ++ attributes)).name]) := by
  rw [start.name_ofContent]
  exact (start.yields_open.append inside).append (start.yields_close white)

/-- The first mark in a text stands behind what does not have it, if no part of the mark could be
its end. -/
theorem after?_body {mark body : List Char} {c : Char} (last : mark.getLast? = some c)
    (once : c ∉ mark.dropLast) (ends : ¬mark <:+: body) (other : List Char) :
    after? mark (body ++ (mark ++ other)) = some other := by
  -- induction on the body; the mark begins nowhere in it, so the search comes to its end
  induction body with
  | nil =>
    refine after?_mark ?_ other
    rintro rfl
    cases last
  | cons d body ih =>
    have later : ¬mark <:+: body := fun found =>
      ends (found.trans (List.suffix_cons d body).isInfix)
    have elsewhere : ¬mark.isPrefixOf (d :: body ++ (mark ++ other)) = true := by
      intro here
      obtain ⟨behind, split⟩ := List.isPrefixOf_iff_prefix.1 here
      rcases List.append_eq_append_iff.1 split with ⟨more, whole, _⟩ | ⟨part, whole, split⟩
      · exact ends (whole ▸ (List.prefix_append mark more).isInfix)
      · -- The part of the mark that reaches beyond the body is the beginning of a mark.
        -- the last character of a mark is not among those before it
        rcases List.eq_nil_or_concat' part with rfl | ⟨first, e, rfl⟩
        · rw [List.append_nil] at whole
          exact ends (whole ▸ List.infix_rfl)
        · obtain rfl : e = c := by
            rw [whole, ← List.append_assoc, List.getLast?_concat] at last
            exact Option.some.inj last
          have short : (first ++ [e]).length ≤ mark.dropLast.length := by
            have length := congrArg List.length whole
            simp only [List.length_append, List.length_cons, List.length_dropLast] at length ⊢
            omega
          have own : first ++ [e] <+: mark.dropLast :=
            List.prefix_of_prefix_length_le ⟨behind, split.symm⟩
              ((List.dropLast_prefix mark).trans (List.prefix_append mark other)) short
          exact once (own.subset (by simp))
    rw [List.cons_append] at elsewhere ⊢
    rw [after?, if_neg elsewhere, ih later]

/-- A reference to a character gives no token. -/
theorem yields_reference {name : List Char} (solid : ∀ c ∈ name, c ∉ [';', '&', '<']) :
    Yields ('&' :: (name ++ [';'])) [] := by
  have read : ∀ other, afterReference (name ++ ';' :: other) = .ok other := by
    intro other
    induction name with
    | nil => rw [List.nil_append, afterReference, if_pos rfl]
    | cons c name ih =>
      obtain ⟨first, later⟩ := List.forall_mem_cons.1 solid
      simp only [List.mem_cons, List.not_mem_nil, or_false, not_or] at first
      rw [List.cons_append, afterReference, if_neg first.1, if_neg (by simp [first]), ih later]
  refine yields_untold fun other => ?_
  rw [next_reference, List.append_assoc, List.singleton_append, read other]
  rfl

/-- A construct with a fixed opening and end ends with the first mark. -/
theorem yields_section {opening mark : String} {fault : Fault} {body : List Char} {c : Char}
    (known : ∀ rest, afterBang (opening.toList ++ rest) =
      afterSection opening mark fault (opening.toList ++ rest))
    (last : mark.toList.getLast? = some c) (once : c ∉ mark.toList.dropLast)
    (ends : ¬mark.toList <:+: body) :
    Yields ('<' :: '!' :: (opening.toList ++ body ++ mark.toList)) [] := by
  refine yields_untold fun other => ?_
  have read : afterBang (opening.toList ++ (body ++ (mark.toList ++ other))) = .ok other := by
    rw [known]
    exact afterSection_eq_ok.2 ⟨_, rfl, after?_body last once ends other⟩
  rw [List.cons_append, next_bang, List.append_assoc, List.append_assoc, read]
  rfl

/-- Neither does a processing instruction, up to its first end mark. -/
theorem yields_instruction {body : List Char} (start : body.head? ≠ some '>')
    (ends : ¬"?>".toList <:+: body) : Yields ('<' :: '?' :: (body ++ "?>".toList)) [] := by
  refine yields_untold fun other => ?_
  have first : (body ++ ("?>".toList ++ other)).head? ≠ some '>' := by
    cases body with
    | nil => simp
    | cons c body => exact start
  have read : afterInstruction (body ++ ("?>".toList ++ other)) = .ok other :=
    afterInstruction_eq_ok.2 ⟨first, after?_body rfl (by decide) ends other⟩
  rw [List.cons_append, next_question, List.append_assoc, read]
  rfl

/-- The tokens of content are those of closed elements, whatever stands behind it. -/
theorem Balanced.exists_spells {text : List Char} (h : Balanced text) :
    ∃ nodes tokens, Spells nodes tokens ∧ Yields text tokens := by
  -- what gives no tokens can stand in front of anything
  have skipped : ∀ {piece text : List Char}, Yields piece [] →
      (∃ nodes tokens, Spells nodes tokens ∧ Yields text tokens) →
      ∃ nodes tokens, Spells nodes tokens ∧ Yields (piece ++ text) tokens := by
    rintro piece text first ⟨nodes, tokens, spells, yields⟩
    exact ⟨nodes, tokens, spells, first.append yields⟩
  -- induction on the grammar; only elements give tokens, and those of one element are balanced
  induction h with
  | nil => exact ⟨[], [], .nil, yields_nil⟩
  | char reference tag _ ih => exact skipped (yields_char reference tag) ih
  | reference solid _ ih => exact skipped (yields_reference solid) ih
  | comment ends _ ih => exact skipped (yields_section (fun _ => rfl) rfl (by decide) ends) ih
  | characterData ends _ ih => exact skipped (yields_section (fun _ => rfl) rfl (by decide) ends) ih
  | instruction start ends _ ih => exact skipped (yields_instruction start ends) ih
  | empty start _ ih =>
    obtain ⟨nodes, tokens, spells, yields⟩ := ih
    exact ⟨_, _, .empty spells, start.yields_empty.append yields⟩
  | element start _ white _ ihi ih =>
    obtain ⟨children, inner, inside, within⟩ := ihi
    obtain ⟨nodes, tokens, spells, yields⟩ := ih
    have whole := (yields_element start within white).append yields
    rw [List.append_assoc] at whole
    exact ⟨_, _, .element inside spells, whole⟩

end Crosswalk.Markup
