import Crosswalk.Markup.Doctype
import Crosswalk.Markup.Fault

/-!
# Markup tokens

A document text is cut into start tags, end tags and tags of empty elements. Everything else
(text, references, comments, character data, instructions, the document type) yields no token, but
has to be complete. The tokens end at the first fault.
-/

namespace Crosswalk.Markup
set_option autoImplicit false

/-- The name and the attributes of a start tag. -/
structure Tag where
  name : String
  attributes : List Attribute
  deriving DecidableEq, Repr

/-- A tag in a text. Nothing else is a token. -/
inductive Token
  | open (tag : Tag)
  | empty (tag : Tag)
  | close (name : String)
  deriving DecidableEq, Repr

/-- The tokens of a text up to its end or its first fault. -/
structure Scan where
  tokens : List Token
  fault? : Option Fault
  deriving DecidableEq, Repr

/-- The text behind the first occurrence of a mark. -/
def after? (mark : List Char) : List Char → Option (List Char)
  | [] => none
  | c :: rest =>
    if mark.isPrefixOf (c :: rest) then some ((c :: rest).drop mark.length) else after? mark rest

/-- The content of a tag and the text behind it: a tag ends at the first `>` outside quotes. -/
def cutTag (quote? : Option Char) : List Char → Except Fault (List Char × List Char)
  | [] => .error (match quote? with
    | none => .unclosedTag
    | some quote => .unclosedValue quote)
  | c :: rest =>
    let within (next : Option Char) :=
      (cutTag next rest).map fun (content, behind) => (c :: content, behind)
    match quote? with
    | some quote => within (if c = quote then none else some quote)
    | none =>
      if c = '>' then .ok ([], rest)
      else within (if isQuote c then some c else none)

/-- The text behind a reference, whose `;` comes before the next `&` and `<`. -/
def afterReference : List Char → Except Fault (List Char)
  | [] => .error .unclosedReference
  | c :: rest =>
    if c = ';' then .ok rest
    else if c = '&' || c = '<' then .error .unclosedReference
    else afterReference rest

/-- The name in an end tag: white space behind it is dropped, unless there is nothing else. -/
def endName (content : List Char) : List Char :=
  if content.all isSpace then content else (content.reverse.dropWhile isSpace).reverse

/-- A name goes up to the first white space; the attributes are behind it. -/
def Tag.ofContent (content : List Char) : Tag where
  name := String.ofList (content.takeWhile (!isSpace ·))
  attributes := Markup.attributes (content.dropWhile (!isSpace ·))

/-- Reads what stands between `<` and `>`; a `/` at the end makes the element empty. -/
def Token.ofContent (content : List Char) : Token :=
  if content.head? = some '/' then .close (String.ofList (endName content.tail))
  else if content.getLast? = some '/' then .empty (Tag.ofContent content.dropLast)
  else .open (Tag.ofContent content)

/-- An instruction that begins like an XML declaration. -/
def isDeclaration (rest : List Char) : Bool :=
  "xml".toList.isPrefixOf rest && (rest.drop 3).head?.all fun c => isSpace c || c == '?'

/-- The text behind an instruction, given the text behind `<?`. -/
def afterInstruction (rest : List Char) : Except Fault (List Char) :=
  if rest.head? = some '>' then .error .unclosedInstruction
  else match after? "?>".toList rest with
    | some behind => .ok behind
    | none => .error (if isDeclaration rest then .unclosedDeclaration else .unclosedInstruction)

/-- The text behind a construct with a fixed opening and end, given the text from the opening. -/
def afterSection (opening mark : String) (fault : Fault) (rest : List Char) :
    Except Fault (List Char) :=
  if opening.toList.isPrefixOf rest then
    match after? mark.toList (rest.drop opening.length) with
    | some behind => .ok behind
    | none => .error fault
  else .error fault

/-- The text behind a document type declaration, given the text behind `<!`. -/
def afterDoctype (rest : List Char) : Except Fault (List Char) :=
  if (rest.take 7).map Char.toUpper = "DOCTYPE".toList then
    match afterDoctype? .head (rest.drop 7) with
    | none => .error .unclosedDoctype
    | some behind =>
      if ((rest.drop 7).dropWhile isSpace).head? = some '>' then .error .namelessDoctype
      else .ok behind
  else .error .unclosedDoctype

/-- The text behind a construct that begins with `<!`, given the text behind that. -/
def afterBang (rest : List Char) : Except Fault (List Char) :=
  match rest.head? with
  | some '-' => afterSection "--" "-->" .unclosedComment rest
  | some '[' => afterSection "[CDATA[" "]]>" .unclosedCharacterData rest
  | some 'D' => afterDoctype rest
  | some 'd' => afterDoctype rest
  | _ => .error .unknownMarkup

/-- The first construct of a text `c :: rest`: its token, if it has one, and what is behind it. -/
def next (c : Char) (rest : List Char) : Except Fault (Option Token × List Char) :=
  if c = '&' then (afterReference rest).map (none, ·)
  else if c ≠ '<' then .ok (none, rest)
  else match rest.head? with
    | some '!' => (afterBang rest.tail).map (none, ·)
    | some '?' => (afterInstruction rest.tail).map (none, ·)
    | _ => (cutTag none rest).map fun (content, behind) => (some (.ofContent content), behind)

/-- The text behind a mark is no longer than the text. -/
theorem length_le_of_after? {mark text rest : List Char} (h : after? mark text = some rest) :
    rest.length ≤ text.length := by
  fun_induction after? mark text with
  | case1 => simp at h
  | case2 c tail _ =>
    simp only [Option.some.injEq] at h
    subst h
    simp
  | case3 c tail _ ih => exact Nat.le_succ_of_le (ih h)

/-- A reference takes characters off a text. -/
theorem length_le_of_afterReference {text rest : List Char} (h : afterReference text = .ok rest) :
    rest.length ≤ text.length := by
  fun_induction afterReference text with
  | case1 => simp at h
  | case2 => simp only [Except.ok.injEq] at h; subst h; simp
  | case3 => simp at h
  | case4 _ _ _ _ ih => exact Nat.le_succ_of_le (ih h)

/-- Cutting a tag takes its content and the `>` off a text. -/
theorem length_le_of_cutTag {quote? : Option Char} {text content rest : List Char}
    (h : cutTag quote? text = .ok (content, rest)) : rest.length ≤ text.length := by
  -- induction on the text; the quote that is open changes from character to character
  induction text generalizing quote? content with
  | nil => simp [cutTag] at h
  | cons c tail ih =>
    -- a character that is part of the tag is one more in front of what is behind
    have step : ∀ next : Option Char,
        (cutTag next tail).map (fun (content, behind) => (c :: content, behind)) =
          .ok (content, rest) → rest.length ≤ (c :: tail).length := by
      intro next hn
      cases hc : cutTag next tail with
      | error f => simp [hc, Except.map] at hn
      | ok pair =>
        simp only [hc, Except.map, Except.ok.injEq, Prod.mk.injEq] at hn
        obtain ⟨-, rfl⟩ := hn
        exact Nat.le_succ_of_le (ih hc)
    cases quote? with
    | some quote => exact step _ (by simpa [cutTag] using h)
    | none =>
      by_cases hc : c = '>'
      · simp only [cutTag, hc, if_true, Except.ok.injEq, Prod.mk.injEq] at h
        obtain ⟨-, rfl⟩ := h
        simp
      · exact step _ (by simpa [cutTag, hc] using h)

/-- An instruction takes characters off a text. -/
theorem length_le_of_afterInstruction {text rest : List Char}
    (h : afterInstruction text = .ok rest) : rest.length ≤ text.length := by
  unfold afterInstruction at h
  split at h
  · simp at h
  · split at h
    · next behind hb =>
      simp only [Except.ok.injEq] at h
      exact h ▸ length_le_of_after? hb
    · simp at h

/-- A construct between fixed marks takes characters off a text. -/
theorem length_le_of_afterSection {opening mark : String} {fault : Fault} {text rest : List Char}
    (h : afterSection opening mark fault text = .ok rest) : rest.length ≤ text.length := by
  unfold afterSection at h
  split at h
  · split at h
    · next behind hb =>
      simp only [Except.ok.injEq] at h
      have := length_le_of_after? hb
      simp only [List.length_drop] at this
      subst h
      omega
    · simp at h
  · simp at h

/-- A document type declaration takes characters off a text. -/
theorem length_le_of_afterDoctype {text rest : List Char} (h : afterDoctype text = .ok rest) :
    rest.length ≤ text.length := by
  unfold afterDoctype at h
  split at h
  · split at h
    · simp at h
    · next behind hb =>
      split at h
      · simp at h
      · have := length_lt_of_afterDoctype? hb
        simp only [Except.ok.injEq] at h
        simp only [List.length_drop] at this
        subst h
        omega
  · simp at h

/-- Whatever begins with `<!` takes characters off a text. -/
theorem length_le_of_afterBang {text rest : List Char} (h : afterBang text = .ok rest) :
    rest.length ≤ text.length := by
  unfold afterBang at h
  split at h
  · exact length_le_of_afterSection h
  · exact length_le_of_afterSection h
  · exact length_le_of_afterDoctype h
  · exact length_le_of_afterDoctype h
  · simp at h

/-- Every construct takes at least the character that it begins with. -/
theorem length_le_of_next {c : Char} {rest behind : List Char} {token? : Option Token}
    (h : next c rest = .ok (token?, behind)) : behind.length ≤ rest.length := by
  -- what gives no token only reports what is behind it
  have plain : ∀ r : Except Fault (List Char),
      r.map (fun x => ((none : Option Token), x)) = .ok (token?, behind) → r = .ok behind := by
    intro r hr
    cases r with
    | error f => simp [Except.map] at hr
    | ok x =>
      simp only [Except.map, Except.ok.injEq, Prod.mk.injEq] at hr
      rw [hr.2]
  unfold next at h
  split at h
  · exact length_le_of_afterReference (plain _ h)
  · split at h
    · simp only [Except.ok.injEq, Prod.mk.injEq] at h
      exact h.2 ▸ Nat.le_refl _
    · split at h
      · have := length_le_of_afterBang (plain _ h)
        simp only [List.length_tail] at this
        omega
      · have := length_le_of_afterInstruction (plain _ h)
        simp only [List.length_tail] at this
        omega
      · cases hc : cutTag none rest with
        | error f => simp [hc, Except.map] at h
        | ok pair =>
          simp only [hc, Except.map, Except.ok.injEq, Prod.mk.injEq] at h
          exact h.2 ▸ length_le_of_cutTag hc

/-- The tokens of a text. -/
def scan : List Char → Scan
  | [] => ⟨[], none⟩
  | c :: rest =>
    match _ : next c rest with
    | .error fault => ⟨[], some fault⟩
    | .ok (token?, behind) =>
      let later := scan behind
      ⟨token?.toList ++ later.tokens, later.fault?⟩
termination_by text => text.length
decreasing_by exact Nat.lt_succ_of_le (length_le_of_next (by assumption))

/-- The tokens of a document, which may begin with a byte order mark. -/
def scanDocument : List Char → Scan
  | [] => scan []
  | c :: rest => scan (if c = '\ufeff' then rest else c :: rest)

end Crosswalk.Markup
