import Crosswalk.Proofs.Except
import Crosswalk.Proofs.Markup.Writing
import Mathlib.Data.List.TakeWhile

/-!
# Constructs and what stands behind them

A construct that has its end is the same one in front of any other text: it is told by the
characters up to its end, and where the reader looks ahead, it looks no further than that. So the
tokens up to a place in a text stay the same whatever is written from there on.

`Takes` says that a piece of text is one construct, and `IsLocal` that the reader takes it in front
of any rest. There is one `isLocal_` lemma for each construct that begins with a mark, and
`next_front` puts them together. `ScansTo` is the relation of the places that a scan comes by.
-/

namespace Crosswalk.Markup
set_option autoImplicit false

variable {text behind front : List Char}

/-! ## Marks -/

/-- What stands behind a mark at the front is the rest. -/
theorem after?_mark {mark : List Char} (visible : mark ≠ []) (other : List Char) :
    after? mark (mark ++ other) = some other := by
  obtain ⟨c, rest, rfl⟩ := List.exists_cons_of_ne_nil visible
  rw [List.cons_append, after?, if_pos]
  · rw [← List.cons_append, List.drop_left]
  · exact List.isPrefixOf_iff_prefix.2 ⟨other, rfl⟩

/-- The text behind the first mark begins there whatever it is. -/
theorem after?_front {mark : List Char} (visible : mark ≠ []) (h : after? mark text = some behind) :
    ∃ front, text = front ++ behind ∧ mark <:+ front ∧
      ∀ other, after? mark (front ++ other) = some other := by
  -- by the search, up to the place where the mark is found
  fun_induction after? mark text with
  | case1 => cases h
  | case2 c rest here =>
    obtain ⟨others, whole⟩ := List.isPrefixOf_iff_prefix.1 here
    rw [← whole, List.drop_left, Option.some.injEq] at h
    subst h
    exact ⟨mark, whole.symm, List.suffix_rfl, after?_mark visible⟩
  | case3 c rest elsewhere ih =>
    obtain ⟨front, rfl, ended, same⟩ := ih h
    refine ⟨c :: front, rfl, ended.trans (List.suffix_cons c front), fun other => ?_⟩
    -- the mark would have begun before this character and ended before what is behind it
    have short : mark.length ≤ (c :: front).length := by
      have := ended.length_le
      simp only [List.length_cons]
      omega
    have still : ¬mark.isPrefixOf (c :: (front ++ other)) = true := by
      intro here
      refine elsewhere (List.isPrefixOf_iff_prefix.2 ?_)
      have own : mark <+: c :: front :=
        List.prefix_of_prefix_length_le (List.isPrefixOf_iff_prefix.1 here)
          (List.prefix_append (c :: front) other) short
      exact own.trans (List.prefix_append (c :: front) behind)
    rw [List.cons_append, after?, if_neg still, same]

/-- A mark is looked for no further than a character that only its end can have. -/
theorem isPrefixOf_congr {mark : List Char} {c : Char} (mem : c ∈ front) (last : c ∉ mark.dropLast)
    (other other' : List Char) :
    mark.isPrefixOf (front ++ other) = mark.isPrefixOf (front ++ other') := by
  induction mark generalizing front with
  | nil => rw [List.isPrefixOf_nil_left, List.isPrefixOf_nil_left]
  | cons m mark ih =>
    cases front with
    | nil => cases mem
    | cons d front =>
      rw [List.cons_append, List.cons_append, List.isPrefixOf_cons_cons, List.isPrefixOf_cons_cons]
      cases mark with
      | nil => rw [List.isPrefixOf_nil_left, List.isPrefixOf_nil_left]
      | cons m' mark =>
        rw [List.dropLast_cons_cons, List.mem_cons, not_or] at last
        rcases List.mem_cons.1 mem with rfl | mem
        · rw [beq_eq_false_iff_ne.2 (Ne.symm last.1)]
          rfl
        · rw [ih mem last.2]

/-! ## Tags -/

/-- The content of a tag is the same in front of any text. -/
theorem cutTag_front {quote? : Option Char} {content : List Char}
    (h : cutTag quote? text = .ok (content, behind)) :
    text = content ++ '>' :: behind ∧
      ∀ other, cutTag quote? (content ++ '>' :: other) = .ok (content, other) := by
  -- induction on the text; what is behind the tag is not looked at
  induction text generalizing quote? content with
  | nil => cases h
  | cons c rest ih =>
    -- a character of the tag, after which another quote may be open
    have inside : ∀ next : Option Char,
        (cutTag next rest).map (fun cut => (c :: cut.1, cut.2)) = .ok (content, behind) →
        ∃ more, content = c :: more ∧ rest = more ++ '>' :: behind ∧
          ∀ other, cutTag next (more ++ '>' :: other) = .ok (more, other) := by
      intro next mapped
      obtain ⟨⟨more, _⟩, cut, same⟩ := map_eq_ok.1 mapped
      cases same
      obtain ⟨split, same⟩ := ih cut
      exact ⟨more, rfl, split, same⟩
    cases quote? with
    | some quote =>
      obtain ⟨more, rfl, rfl, same⟩ := inside (if c = quote then none else some quote) h
      refine ⟨rfl, fun other => ?_⟩
      simp only [List.cons_append, cutTag, same]
      rfl
    | none =>
      by_cases closes : c = '>'
      · simp only [cutTag, if_pos closes] at h
        cases h
        refine ⟨by rw [closes]; rfl, fun other => ?_⟩
        rw [List.nil_append, cutTag, if_pos rfl]
      · simp only [cutTag, if_neg closes] at h
        obtain ⟨more, rfl, rfl, same⟩ := inside (if isQuote c then some c else none) h
        refine ⟨rfl, fun other => ?_⟩
        simp only [List.cons_append, cutTag, if_neg closes, same]
        rfl

/-! ## Document types -/

/-- The state behind a character, none if the declaration ends there. -/
def DoctypeState.step? : DoctypeState → Char → List Char → Option DoctypeState
  | head, c, _ =>
    if c = '>' then none
    else some (if c = '[' then subset else if isQuote c then headQuoted c else head)
  | headQuoted quote, c, _ => some (if c = quote then head else headQuoted quote)
  | subset, c, rest => some (if c = ']' then tail else if c = '<' then ofOpening rest else subset)
  | comment (n + 1), _, _ => some (comment n)
  | comment 0, c, rest =>
    some (if "-->".toList.isPrefixOf (c :: rest) then subset else comment 0)
  | instruction (n + 1), _, _ => some (instruction n)
  | instruction 0, c, rest =>
    some (if "?>".toList.isPrefixOf (c :: rest) then subset else instruction 0)
  | declaration, c, _ =>
    some (if c = '>' then subset else if isQuote c then declarationQuoted c else declaration)
  | declarationQuoted quote, c, _ =>
    some (if c = quote then declaration else declarationQuoted quote)
  | other, c, _ => some (if c = '>' then subset else other)
  | tail, c, _ => if c = '>' then none else some tail

/-- One step of the reader of a document type: it goes on in the next state, or ends at this
character. -/
theorem afterDoctype?_cons (s : DoctypeState) (c : Char) (rest : List Char) :
    afterDoctype? s (c :: rest) =
      (s.step? c rest).elim (some rest) fun t => afterDoctype? t rest := by
  rcases s with _ | _ | _ | (_ | _) | (_ | _) | _ | _ | _ | _ <;>
    (simp only [afterDoctype?, DoctypeState.step?]; repeat' split) <;> rfl

/-- It ends at a closing angle bracket only. -/
theorem DoctypeState.eq_of_step?_none {s : DoctypeState} {c : Char} {rest : List Char}
    (h : s.step? c rest = none) : c = '>' := by
  unfold step? at h
  split at h <;> simp_all

/-- What begins in the subset of a document type is told by the text up to its end. -/
theorem DoctypeState.ofOpening_congr (mem : '>' ∈ front) (other other' : List Char) :
    ofOpening (front ++ other) = ofOpening (front ++ other') := by
  have first : (front ++ other).head? = (front ++ other').head? := by
    obtain ⟨c, rest, rfl⟩ := List.exists_cons_of_ne_nil (List.ne_nil_of_mem mem)
    rfl
  have mark : ∀ {mark : List Char}, '>' ∉ mark.dropLast →
      mark.isPrefixOf (front ++ other) = mark.isPrefixOf (front ++ other') :=
    fun last => isPrefixOf_congr mem last other other'
  rw [ofOpening, ofOpening, first, mark (by decide), List.any_cons, List.any_cons, List.any_cons,
    List.any_nil, mark (by decide), mark (by decide), mark (by decide)]
  rfl

/-- A step looks ahead no further than to the end of the declaration. -/
theorem DoctypeState.step?_congr {c : Char} (mem : '>' ∈ c :: front) (s : DoctypeState)
    (other other' : List Char) : s.step? c (front ++ other) = s.step? c (front ++ other') := by
  have mark : ∀ {mark : List Char}, '>' ∉ mark.dropLast →
      mark.isPrefixOf (c :: (front ++ other)) = mark.isPrefixOf (c :: (front ++ other')) :=
    fun last => isPrefixOf_congr mem last other other'
  match s with
  | subset =>
    by_cases opens : c = '<'
    · have behind : '>' ∈ front := by
        subst opens
        exact (List.mem_cons.1 mem).resolve_left (by decide)
      rw [step?, step?, ofOpening_congr behind other other']
    · rw [step?, step?, if_neg opens, if_neg opens]
  | comment 0 => rw [step?, step?, mark (by decide)]
  | instruction 0 => rw [step?, step?, mark (by decide)]
  | head | headQuoted _ | comment (_ + 1) | instruction (_ + 1) | declaration
  | declarationQuoted _ | .other | tail => rfl

/-- A document type declaration ends with the same `>` whatever stands behind. -/
theorem afterDoctype?_front {s : DoctypeState} (h : afterDoctype? s text = some behind) :
    ∃ front, text = front ++ behind ∧ '>' ∈ front ∧
      ∀ other, afterDoctype? s (front ++ other) = some other := by
  -- induction on the text; a step looks at one character more, which stands before the last one
  -- here
  induction text generalizing s with
  | nil => cases s <;> cases h
  | cons c rest ih =>
    rw [afterDoctype?_cons] at h
    cases step : s.step? c rest with
    | none =>
      rw [step] at h
      cases h
      have ends := DoctypeState.eq_of_step?_none step
      refine ⟨[c], rfl, List.mem_singleton.2 ends.symm, fun other => ?_⟩
      have same : s.step? c ([] ++ other) = s.step? c ([] ++ behind) :=
        DoctypeState.step?_congr (List.mem_singleton.2 ends.symm) s other behind
      rw [List.singleton_append, afterDoctype?_cons, ← List.nil_append other, same,
        List.nil_append, step]
      rfl
    | some t =>
      rw [step] at h
      obtain ⟨front, rfl, mem, later⟩ := ih h
      refine ⟨c :: front, rfl, List.mem_cons_of_mem c mem, fun other => ?_⟩
      rw [List.cons_append, afterDoctype?_cons,
        DoctypeState.step?_congr (List.mem_cons_of_mem c mem) s other behind, step]
      exact later other

/-! ## Constructs -/

/-- The reader takes exactly these characters off a text that begins with them. -/
def Takes (read : List Char → Except Fault (List Char)) (front : List Char) : Prop :=
  ∀ other, read (front ++ other) = .ok other

/-- A construct that an empty text is not has characters. -/
theorem Takes.ne_nil {read : List Char → Except Fault (List Char)} (h : Takes read front)
    (fails : read [] ≠ .ok []) : front ≠ [] := by
  rintro rfl
  exact fails (h [])

/-- What the reader takes off a text is told by that alone. -/
def IsLocal (read : List Char → Except Fault (List Char)) : Prop :=
  ∀ ⦃text behind : List Char⦄, read text = .ok behind →
    ∃ front, text = front ++ behind ∧ Takes read front

theorem isLocal_reference : IsLocal afterReference := by
  intro text behind h
  fun_induction afterReference text with
  | case1 => cases h
  | case2 rest =>
    cases h
    exact ⟨[';'], rfl, fun other => by rw [List.singleton_append, afterReference, if_pos rfl]⟩
  | case3 => cases h
  | case4 c rest more stops ih =>
    obtain ⟨front, rfl, same⟩ := ih h
    refine ⟨c :: front, rfl, fun other => ?_⟩
    rw [List.cons_append, afterReference, if_neg more, if_neg stops, same]

/-- A section is opened by its own mark and ends at the first closing one. -/
theorem afterSection_eq_ok {opening mark : String} {fault : Fault} :
    afterSection opening mark fault text = .ok behind ↔
      ∃ rest, text = opening.toList ++ rest ∧ after? mark.toList rest = some behind := by
  have cut : ∀ rest, (opening.toList ++ rest).drop opening.length = rest := fun rest => by
    rw [← String.length_toList, List.drop_left]
  unfold afterSection
  constructor
  · intro h
    split at h
    · next opens =>
      obtain ⟨rest, rfl⟩ := List.isPrefixOf_iff_prefix.1 opens
      rw [cut] at h
      refine ⟨rest, rfl, ?_⟩
      split at h
      · next found =>
        cases h
        exact found
      · cases h
    · cases h
  · rintro ⟨rest, rfl, found⟩
    rw [if_pos (List.isPrefixOf_iff_prefix.2 (List.prefix_append ..)), cut, found]

/-- A section is told by its characters up to the end mark. -/
theorem isLocal_section {opening mark : String} {fault : Fault} (visible : mark.toList ≠ []) :
    IsLocal (afterSection opening mark fault) := by
  intro text behind h
  obtain ⟨rest, rfl, found⟩ := afterSection_eq_ok.1 h
  obtain ⟨front, rfl, _, same⟩ := after?_front visible found
  refine ⟨opening.toList ++ front, (List.append_assoc ..).symm, fun other => ?_⟩
  rw [List.append_assoc]
  exact afterSection_eq_ok.2 ⟨_, rfl, same other⟩

/-- A processing instruction is not empty and goes up to its end mark. -/
theorem afterInstruction_eq_ok : afterInstruction text = .ok behind ↔
    text.head? ≠ some '>' ∧ after? "?>".toList text = some behind := by
  unfold afterInstruction
  split
  · next ends => simp [ends]
  · next continues =>
    cases after? "?>".toList text <;> simp [continues]

theorem isLocal_instruction : IsLocal afterInstruction := by
  intro text behind h
  obtain ⟨first, found⟩ := afterInstruction_eq_ok.1 h
  obtain ⟨front, rfl, ended, same⟩ := after?_front (by decide) found
  refine ⟨front, rfl, fun other => afterInstruction_eq_ok.2 ⟨?_, same other⟩⟩
  have filled : front ≠ [] := by
    rintro rfl
    exact absurd ended.length_le (by decide)
  rwa [List.head?_append_of_ne_nil _ filled] at first ⊢

/-- A document type begins with its word, in whatever case, names something, and goes up to where
its brackets are closed. -/
theorem afterDoctype_eq_ok : afterDoctype text = .ok behind ↔
    (text.take 7).map Char.toUpper = "DOCTYPE".toList ∧
      afterDoctype? .head (text.drop 7) = some behind ∧
        ((text.drop 7).dropWhile isSpace).head? ≠ some '>' := by
  unfold afterDoctype
  by_cases keyword : (text.take 7).map Char.toUpper = "DOCTYPE".toList
  case neg =>
    rw [if_neg keyword]
    exact ⟨nofun, fun ⟨same, _⟩ => absurd same keyword⟩
  rw [if_pos keyword]
  cases afterDoctype? .head (text.drop 7) with
  | none => exact ⟨nofun, fun ⟨_, found, _⟩ => nomatch found⟩
  | some found =>
    dsimp only
    split
    · next nameless =>
      exact ⟨nofun, fun ⟨_, _, named⟩ => absurd nameless named⟩
    · next named => simp only [keyword, named, Except.ok.injEq, Option.some.injEq, true_and,
        ne_eq, not_false_eq_true, and_true]

/-- It is told by its characters up to there, for a step looks no further ahead than the mark that
may begin with its character. -/
theorem isLocal_doctype : IsLocal afterDoctype := by
  intro text behind h
  obtain ⟨keyword, found, named⟩ := afterDoctype_eq_ok.1 h
  obtain ⟨front, split, mem, same⟩ := afterDoctype?_front found
  have length : (text.take 7).length = 7 := by
    rw [← List.length_map, keyword]
    rfl
  refine ⟨text.take 7 ++ front, ?_, fun other => afterDoctype_eq_ok.2 ?_⟩
  · rw [List.append_assoc, ← split, List.take_append_drop]
  have visible : front.dropWhile isSpace ≠ [] := by
    intro nothing
    exact absurd (List.dropWhile_eq_nil_iff.1 nothing '>' mem) (by decide)
  have first : ∀ more, ((front ++ more).dropWhile isSpace).head? =
      (front.dropWhile isSpace).head? := fun more => by
    rw [List.dropWhile_append, if_neg (mt List.isEmpty_iff.1 visible),
      List.head?_append_of_ne_nil _ visible]
  rw [List.append_assoc, List.take_left' length, List.drop_left' length, first]
  rw [split, first] at named
  exact ⟨keyword, same other, named⟩

/-- A reader that is another one on texts that begin with a character is local on these texts. -/
theorem IsLocal.of_head {read read' : List Char → Except Fault (List Char)} {c : Char}
    (h : IsLocal read') (fails : read' [] ≠ .ok [])
    (same : ∀ text, text.head? = some c → read text = read' text) (first : text.head? = some c)
    (taken : read text = .ok behind) : ∃ front, text = front ++ behind ∧ Takes read front := by
  rw [same text first] at taken
  obtain ⟨front, rfl, takes⟩ := h taken
  refine ⟨front, rfl, fun other => ?_⟩
  rw [List.head?_append_of_ne_nil _ (takes.ne_nil fails)] at first
  rw [same _ (by rw [List.head?_append_of_ne_nil _ (takes.ne_nil fails), first]), takes other]

/-- The constructs that begin with an exclamation mark are told apart by their first characters,
which stay the same. -/
theorem isLocal_bang : IsLocal afterBang := by
  have comment : IsLocal (afterSection "--" "-->" .unclosedComment) := isLocal_section (by decide)
  have data : IsLocal (afterSection "[CDATA[" "]]>" .unclosedCharacterData) :=
    isLocal_section (by decide)
  intro text behind taken
  have h := taken
  unfold afterBang at h
  split at h
  · next first =>
    exact comment.of_head (by decide) (fun _ same => by rw [afterBang, same]; rfl) first taken
  · next first =>
    exact data.of_head (by decide) (fun _ same => by rw [afterBang, same]; rfl) first taken
  · next first =>
    exact isLocal_doctype.of_head (by decide) (fun _ same => by rw [afterBang, same]; rfl) first
      taken
  · next first =>
    exact isLocal_doctype.of_head (by decide) (fun _ same => by rw [afterBang, same]; rfl) first
      taken
  · cases h

/-! ## The first construct -/

theorem next_reference (rest : List Char) :
    next '&' rest = (afterReference rest).map (none, ·) :=
  rfl

theorem next_char {c : Char} (reference : c ≠ '&') (tag : c ≠ '<') (rest : List Char) :
    next c rest = .ok (none, rest) := by
  rw [next, if_neg reference, if_pos tag]

theorem next_bang (rest : List Char) : next '<' ('!' :: rest) = (afterBang rest).map (none, ·) :=
  rfl

theorem next_question (rest : List Char) :
    next '<' ('?' :: rest) = (afterInstruction rest).map (none, ·) :=
  rfl

/-- What begins with an angle bracket and neither of the two marks behind it is a tag. -/
theorem next_cutTag (bang : text.head? ≠ some '!') (question : text.head? ≠ some '?') :
    next '<' text =
      (cutTag none text).map fun (content, behind) => (some (.ofContent content), behind) := by
  rw [next, if_neg (by decide), if_neg (by decide)]
  split
  · next first => exact absurd first bang
  · next first => exact absurd first question
  · rfl

/-- What a local reader passes over is passed over in front of any text. -/
theorem IsLocal.untold {read : List Char → Except Fault (List Char)} {token? : Option Token}
    (h : IsLocal read) (done : (read text).map (none, ·) = .ok (token?, behind)) :
    ∃ front, text = front ++ behind ∧
      ∀ other, (read (front ++ other)).map (none, ·) = .ok (token?, other) := by
  obtain ⟨_, taken, same⟩ := map_eq_ok.1 done
  cases same
  obtain ⟨front, split, takes⟩ := h taken
  exact ⟨front, split, fun other => by rw [takes other]; rfl⟩

/-- The first construct of a text has the same token and the same end in front of any text. -/
theorem next_front {c : Char} {token? : Option Token} (h : next c text = .ok (token?, behind)) :
    ∃ front, text = front ++ behind ∧ ∀ other, next c (front ++ other) = .ok (token?, other) := by
  -- by the first characters, which tell the kind of construct
  by_cases reference : c = '&'
  · subst reference
    exact isLocal_reference.untold h
  by_cases tag : c = '<'
  case neg =>
    rw [next_char reference tag] at h
    cases h
    exact ⟨[], rfl, next_char reference tag⟩
  subst tag
  by_cases bang : text.head? = some '!'
  · obtain ⟨rest, rfl⟩ := List.head?_eq_some_iff.1 bang
    obtain ⟨front, rfl, same⟩ := isLocal_bang.untold (next_bang rest ▸ h)
    exact ⟨'!' :: front, rfl, same⟩
  by_cases question : text.head? = some '?'
  · obtain ⟨rest, rfl⟩ := List.head?_eq_some_iff.1 question
    obtain ⟨front, rfl, same⟩ := isLocal_instruction.untold (next_question rest ▸ h)
    exact ⟨'?' :: front, rfl, same⟩
  -- a tag: its first character was looked at, and the rest is cut at its end
  rw [next_cutTag bang question] at h
  obtain ⟨⟨content, _⟩, cut, same⟩ := map_eq_ok.1 h
  cases same
  obtain ⟨rfl, same⟩ := cutTag_front cut
  have first : ∀ other, (content ++ '>' :: other).head? = (content ++ '>' :: behind).head? := by
    intro other
    cases content <;> rfl
  refine ⟨content ++ ['>'], by simp, fun other => ?_⟩
  rw [List.append_assoc, List.singleton_append, next_cutTag (first other ▸ bang)
    (first other ▸ question), same]
  rfl

/-! ## Places in a text -/

/-- What is one construct in front of any text yields its token. -/
theorem yields_of_next {c : Char} {token? : Option Token}
    (same : ∀ other, next c (front ++ other) = .ok (token?, other)) :
    Yields (c :: front) token?.toList :=
  fun other => scan_of_next (same other)

theorem yields_untold {c : Char} (same : ∀ other, next c (front ++ other) = .ok (none, other)) :
    Yields (c :: front) [] :=
  yields_of_next same

/-- The reader of the text gets to where this is left of it. -/
inductive ScansTo : List Char → List Char → Prop
  | here {text : List Char} : ScansTo text text
  | later {c : Char} {rest behind left : List Char} {token? : Option Token}
      (construct : next c rest = .ok (token?, behind)) (h : ScansTo behind left) :
      ScansTo (c :: rest) left

/-- What the reader has behind it is scanned alike whatever is left of the text. -/
theorem ScansTo.exists_yields {left : List Char} (h : ScansTo text left) :
    ∃ before tokens, text = before ++ left ∧ Yields before tokens := by
  induction h with
  | here => exact ⟨[], [], rfl, yields_nil⟩
  | @later c rest behind left token? construct _ ih =>
    obtain ⟨before, tokens, rfl, yields⟩ := ih
    obtain ⟨front, rfl, same⟩ := next_front construct
    exact ⟨c :: front ++ before, _, by simp, (yields_of_next same).append yields⟩

theorem eq_of_next_some {c : Char} {token : Token}
    (h : next c text = .ok (some token, behind)) : c = '<' := by
  by_contra other
  by_cases reference : c = '&'
  · subst reference
    obtain ⟨_, _, same⟩ := map_eq_ok.1 (next_reference text ▸ h)
    cases same
  · rw [next_char reference other] at h
    cases h

/-- Every token of a text is that of a construct that the reader gets to. -/
theorem exists_scansTo_of_mem {token : Token} (mem : token ∈ (scan text).tokens) :
    ∃ before front behind, text = before ++ ('<' :: front ++ behind) ∧
      ScansTo text ('<' :: front ++ behind) ∧
        next '<' (front ++ behind) = .ok (some token, behind) := by
  fun_induction scan text with
  | case1 => cases mem
  | case2 => cases mem
  | case3 c rest token? behind read later ih =>
    obtain ⟨front, rfl, same⟩ := next_front read
    rcases List.mem_append.1 mem with here | mem
    · obtain rfl : token? = some token := Option.mem_toList.1 here
      obtain rfl := eq_of_next_some read
      exact ⟨[], front, behind, rfl, .here, read⟩
    · obtain ⟨before, more, behind, rfl, reached, found⟩ := ih mem
      exact ⟨c :: front ++ before, more, behind, by simp, .later read reached, found⟩

end Crosswalk.Markup
