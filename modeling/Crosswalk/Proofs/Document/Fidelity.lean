import Crosswalk.Proofs.Document.Decoding
import Crosswalk.Proofs.Document.Root

/-!
# What the attributes of a text say

The tags of a text say exactly what is read of it if the attributes of all elements that declare
something are well formed and their values, with the entities in them decoded, are the ones that are
read. The reader passes over malformed attributes and keeps entities as they are written, so a text
that is read has both properties exactly if it needs neither.

A tag is `Told` by its content if its name and attributes are those that are written there, and
`Tag.told_iff` says when it is. `forall₂_told_iff` carries this over to the tokens of a text, by
induction on them, so what is left is a statement about the contents of the tags alone.
-/

namespace Crosswalk
set_option autoImplicit false
open Crosswalk.Markup

namespace Markup

/-! ## The tags of a text -/

/-- The content of the tag that a text `c :: rest` begins with, if it does. -/
def tagContent? (c : Char) (rest : List Char) : Option (List Char) :=
  if c = '<' ∧ rest.head? ≠ some '!' ∧ rest.head? ≠ some '?' then
    (cutTag none rest).toOption.map Prod.fst
  else none

/-- The contents of the tags of a text, up to its end or its first fault. -/
def contents : List Char → List (List Char)
  | [] => []
  | c :: rest =>
    match _ : next c rest with
    | .error _ => []
    | .ok (_, behind) => (tagContent? c rest).toList ++ contents behind
termination_by text => text.length
decreasing_by exact Nat.lt_succ_of_le (length_le_of_next (by assumption))

/-- A step of the scanner gives the token of the tag that it reads, if it reads one. -/
theorem token_of_next {c : Char} {rest behind : List Char} {token? : Option Token}
    (h : next c rest = .ok (token?, behind)) :
    token? = (tagContent? c rest).map Token.ofContent := by
  -- a reference, a character, a comment and a directive give no token
  have nothing : ∀ {r : Except Fault (List Char)},
      r.map (fun x => ((none : Option Token), x)) = .ok (token?, behind) → token? = none := by
    intro r mapped
    obtain ⟨_, _, same⟩ := map_eq_ok.1 mapped
    exact (congrArg Prod.fst same).symm
  unfold next at h
  split at h
  · next amp => rw [nothing h, tagContent?, if_neg (by simp [amp]), Option.map_none]
  · split at h
    · next other =>
      cases h
      rw [tagContent?, if_neg (by simp [other]), Option.map_none]
    · next tag =>
      split at h
      · next bang => rw [nothing h, tagContent?, if_neg (by simp [bang]), Option.map_none]
      · next question => rw [nothing h, tagContent?, if_neg (by simp [question]), Option.map_none]
      · next bang question =>
        obtain ⟨⟨content, _⟩, cut, same⟩ := map_eq_ok.1 h
        cases same
        rw [tagContent?, if_pos ⟨not_not.1 tag, bang, question⟩, cut]
        rfl

/-- The tokens of a text are those of its tags. -/
theorem tokens_scan (text : List Char) :
    (scan text).tokens = (contents text).map Token.ofContent := by
  fun_induction contents text with
  | case1 => rw [scan, List.map_nil]
  | case2 c rest fault failed =>
    rw [scan]
    split
    · rfl
    · next read =>
      rw [failed] at read
      cases read
  | case3 c rest token? behind read ih =>
    rw [scan_of_next read, List.map_append, ih, token_of_next read]
    cases tagContent? c rest <;> rfl

/-- A tag in front of a text is the first of its tags. -/
theorem contents_tag {content : List Char} (h : InTag content) (bang : content.head? ≠ some '!')
    (question : content.head? ≠ some '?') (rest : List Char) :
    contents ('<' :: content ++ ['>'] ++ rest) = content :: contents rest := by
  have whole : '<' :: content ++ ['>'] ++ rest = '<' :: (content ++ '>' :: rest) := by simp
  have found : tagContent? '<' (content ++ '>' :: rest) = some content := by
    rw [tagContent?, if_pos ⟨rfl, head?_ne_of_content bang (by decide) rest,
      head?_ne_of_content question (by decide) rest⟩, cutTag_of_inTag h]
    rfl
  rw [whole, contents]
  split
  · next failed =>
    rw [next_tag h bang question] at failed
    cases failed
  · next read =>
    rw [next_tag h bang question] at read
    cases read
    rw [found]
    rfl

/-- The text without a byte order mark at its beginning. -/
def withoutMark : List Char → List Char
  | [] => []
  | c :: rest => if c = '\ufeff' then rest else c :: rest

/-- A text without a mark is left alone. -/
theorem withoutMark_eq_self {text : List Char} (other : text.head? ≠ some '\ufeff') :
    withoutMark text = text := by
  cases text with
  | nil => rfl
  | cons c rest => exact if_neg fun mark => other (congrArg some mark)

/-- A document is scanned without its mark. -/
theorem scanDocument_eq (text : List Char) : scanDocument text = scan (withoutMark text) := by
  cases text <;> rfl

/-! ## What a tag says -/

/-- The elements that declare something. -/
def declaring : List String :=
  ["schema", "struct", "enum", "typedef", "field", "value", "conversion", "mapping"]

/-- The name in a tag, up to the first space. -/
def nameText (text : List Char) : String :=
  String.ofList (text.takeWhile (!isSpace ·))

/-- What stands behind the name. -/
def attributesText (text : List Char) : List Char :=
  text.dropWhile (!isSpace ·)

/-- If the tag is one of a declaring element, then its attributes are well formed. -/
def Tag.WellFormed (text : List Char) : Prop :=
  nameText text ∈ declaring → ∃ written, Lists (attributesText text) written

/-- The tag that the text stands for, with the values of the written attributes decoded. -/
inductive Tag.Told (text : List Char) : Tag → Prop
  | declaring {written : List Attribute} (kind : nameText text ∈ declaring)
      (lists : Lists (attributesText text) written) :
      Told text ⟨nameText text, written.map Attribute.decoded⟩
  | other (kind : nameText text ∉ declaring) : Told text (Tag.ofContent text).decoded

/-- A tag is told if its attributes are well formed, and it is the one that is read, decoded. -/
theorem Tag.told_iff {text : List Char} {tag : Tag} :
    Tag.Told text tag ↔ Tag.WellFormed text ∧ tag = (Tag.ofContent text).decoded := by
  constructor
  · rintro (⟨kind, lists⟩ | kind)
    · refine ⟨fun _ => ⟨_, lists⟩, ?_⟩
      rw [← attributes_of_lists lists]
      rfl
    · exact ⟨fun known => absurd known kind, rfl⟩
  · rintro ⟨wellFormed, rfl⟩
    -- an element that declares nothing may have any attributes
    by_cases kind : nameText text ∈ Markup.declaring
    · obtain ⟨written, lists⟩ := wellFormed kind
      have told := Tag.Told.declaring kind lists
      rw [← attributes_of_lists lists] at told
      exact told
    · exact .other kind

/-- The token that the content of a tag stands for. -/
inductive Token.Told (content : List Char) : Token → Prop
  | close (slash : content.head? = some '/') :
      Told content (.close (String.ofList (endName content.tail)))
  | empty {tag : Tag} (start : content.head? ≠ some '/') (slash : content.getLast? = some '/')
      (told : Tag.Told content.dropLast tag) : Told content (.empty tag)
  | open {tag : Tag} (start : content.head? ≠ some '/') (slash : content.getLast? ≠ some '/')
      (told : Tag.Told content tag) : Told content (.open tag)

/-- The tag is an end tag or has well-formed attributes, if its element declares something. -/
def WellFormed (content : List Char) : Prop :=
  content.head? ≠ some '/' →
    Tag.WellFormed (if content.getLast? = some '/' then content.dropLast else content)

section Plain
variable {tag : Tag}

theorem Tag.Plain.wellFormed (plain : tag.Plain) : Tag.WellFormed tag.text := by
  refine fun _ => ⟨tag.attributes, ?_⟩
  rw [attributesText, plain.cut.2]
  exact lists_attributes plain.attributes plain.distinct

theorem wellFormed_open (plain : tag.Plain) : WellFormed tag.text := by
  rw [WellFormed, if_neg plain.getLast?_ne]
  exact fun _ => plain.wellFormed

theorem wellFormed_empty (plain : tag.Plain) : WellFormed (tag.text ++ ['/']) := by
  rw [WellFormed, if_pos (List.getLast?_concat ..), List.dropLast_concat]
  exact fun _ => plain.wellFormed

/-- An end tag has no attributes. -/
theorem wellFormed_close (name : List Char) : WellFormed ('/' :: name) :=
  fun start => absurd (List.head?_cons ..) start

end Plain

namespace Token
variable {content : List Char} {token : Token}

/-- An end tag is told by its name. -/
theorem told_close_iff (start : content.head? = some '/') :
    Told content token ↔ token = .close (String.ofList (endName content.tail)) := by
  constructor
  · rintro (_ | ⟨other, _, _⟩ | ⟨other, _, _⟩)
    · rfl
    · exact absurd start other
    · exact absurd start other
  · rintro rfl
    exact .close start

/-- An empty element is told as its tag is, without the slash. -/
theorem told_empty_iff (start : content.head? ≠ some '/') (slash : content.getLast? = some '/') :
    Told content token ↔ ∃ tag, Tag.Told content.dropLast tag ∧ token = .empty tag := by
  constructor
  · rintro (close | ⟨_, _, told⟩ | ⟨_, other, _⟩)
    · exact absurd close start
    · exact ⟨_, told, rfl⟩
    · exact absurd slash other
  · rintro ⟨tag, told, rfl⟩
    exact .empty start slash told

/-- A start tag is told as its tag is. -/
theorem told_open_iff (start : content.head? ≠ some '/') (slash : content.getLast? ≠ some '/') :
    Told content token ↔ ∃ tag, Tag.Told content tag ∧ token = .open tag := by
  constructor
  · rintro (close | ⟨_, other, _⟩ | ⟨_, _, told⟩)
    · exact absurd close start
    · exact absurd other slash
    · exact ⟨_, told, rfl⟩
  · rintro ⟨tag, told, rfl⟩
    exact .open start slash told

/-- A token is told if its tag is well formed, and it is the one that is read, decoded. -/
theorem told_iff :
    Told content token ↔ WellFormed content ∧ token = (Token.ofContent content).decoded := by
  by_cases start : content.head? = some '/'
  · rw [told_close_iff start]
    simp [WellFormed, start, ofContent, decoded]
  · by_cases slash : content.getLast? = some '/'
    · rw [told_empty_iff start slash]
      simp [WellFormed, start, slash, ofContent, decoded, Tag.told_iff, and_assoc]
    · rw [told_open_iff start slash]
      simp [WellFormed, start, slash, ofContent, decoded, Tag.told_iff, and_assoc]

end Token

/-- The tokens that tags stand for are the decoded ones, and the tags are well formed. -/
theorem forall₂_told_iff {tags : List (List Char)} {tokens : List Token} :
    List.Forall₂ Token.Told tags tokens ↔ (∀ content ∈ tags, WellFormed content) ∧
      tokens = tags.map fun content => (Token.ofContent content).decoded := by
  induction tags generalizing tokens with
  | nil => simp
  | cons content tags ih =>
    rw [List.forall₂_cons_left_iff, List.forall_mem_cons, List.map_cons]
    simp only [Token.told_iff, ih]
    constructor
    · rintro ⟨_, _, ⟨first, rfl⟩, ⟨others, rfl⟩, rfl⟩
      exact ⟨⟨first, others⟩, rfl⟩
    · rintro ⟨⟨first, others⟩, rfl⟩
      exact ⟨_, _, ⟨first, rfl⟩, ⟨others, rfl⟩, rfl⟩

end Markup

namespace Document
variable {text : String} {d : Document}

/-- The document is what the tags of the text stand for. -/
def SaysExactly (text : String) (d : Document) : Prop :=
  ∃ tokens, List.Forall₂ Token.Told (contents (withoutMark text.toList)) tokens ∧
    ofForest (nest none [] [] tokens) = .ok d

/-- A text says exactly what is read of it if its tags are well formed and decoding changes nothing.
-/
theorem saysExactly_iff_decoded (h : Document.read text = .ok d) :
    SaysExactly text d ↔
      (∀ content ∈ contents (withoutMark text.toList), WellFormed content) ∧ d.decoded = d := by
  obtain ⟨tokens, scanned, _⟩ := accepts_of_read h
  have cut : tokens = (contents (withoutMark text.toList)).map Token.ofContent := by
    rw [← tokens_scan, ← scanDocument_eq, scanned]
  rw [Document.read, Forest.ofText, scanned] at h
  -- decoding the tokens decodes the document that is read of them
  have read : ofForest (nest none [] [] (tokens.map Token.decoded)) = .ok d.decoded := by
    have decoded := nest_decoded none [] [] tokens
    rw [List.map_nil, List.map_nil] at decoded
    rw [decoded]
    exact ofForest_decoded h
  rw [cut, List.map_map] at read
  simp only [SaysExactly, forall₂_told_iff]
  constructor
  · rintro ⟨_, ⟨wellFormed, rfl⟩, same⟩
    exact ⟨wellFormed, Except.ok.inj (read.symm.trans same)⟩
  · rintro ⟨wellFormed, same⟩
    exact ⟨_, ⟨wellFormed, rfl⟩, read.trans (congrArg Except.ok same)⟩

/-- The tags of a text that is read say exactly what is read if and only if those of declaring
elements have well-formed attributes and no entity occurs in what is read. -/
theorem saysExactly_iff (h : Document.read text = .ok d) :
    SaysExactly text d ↔
      (∀ content ∈ contents (withoutMark text.toList), WellFormed content) ∧
        ∀ t ∈ d.texts, ¬HasEntity t.toList := by
  rw [saysExactly_iff_decoded h, decoded_eq_self_iff]

end Document

namespace Draft

/-! A mapping whose flag is written with and without quotes, and a schema whose name is written with
an entity. -/

/-- The conversion around the mapping. -/
def conversion : Tag :=
  ⟨"conversion", [⟨"name", "c"⟩, ⟨"from", "a.S"⟩, ⟨"to", "a.T"⟩]⟩

/-- The mapping as it is read, without the flag. -/
def mapping : Tag :=
  ⟨"mapping", [⟨"to", "X"⟩, ⟨"from", "Y"⟩]⟩

/-- The flag without quotes, and the end of the empty element. -/
def flag : List Char :=
  " override=true/".toList

/-- The mapping with the flag. -/
def overriding : Tag :=
  ⟨"mapping", [⟨"to", "X"⟩, ⟨"from", "Y"⟩, ⟨"override", "true"⟩]⟩

/-- The flag is lost in this text. -/
def unquoted : String :=
  "<idl><conversion name=\"c\" from=\"a.S\" to=\"a.T\">" ++
    "<mapping to=\"X\" from=\"Y\" override=true/></conversion></idl>"

/-- The flag is read in this one. -/
def quoted : String :=
  "<idl><conversion name=\"c\" from=\"a.S\" to=\"a.T\">" ++
    "<mapping to=\"X\" from=\"Y\" override=\"true\"/></conversion></idl>"

/-- The conversion with one mapping, whose flag is given. -/
def document (overrides : Bool) : Document :=
  ⟨[], [⟨"c", "a.S", "a.T", [⟨"X", "Y", overrides⟩]⟩]⟩

/-- A schema with an entity in its name. -/
def schema : Tag :=
  ⟨"schema", [⟨"name", "a&amp;b"⟩, ⟨"file", "a.thrift"⟩]⟩

/-- The text of that schema. -/
def escaped : String :=
  "<idl><schema name=\"a&amp;b\" file=\"a.thrift\"/></idl>"

/-- The schema has the entity in its name as it is written. -/
def undecoded : Document :=
  ⟨[⟨"a&amp;b", "a.thrift", []⟩], []⟩

theorem conversion_plain : conversion.Plain :=
  Tag.plain_mk (by decide) (by decide) (by decide) (by decide)

theorem mapping_inTag : InTag (mapping.text ++ flag) := by
  have plain : mapping.Plain := Tag.plain_mk (by decide) (by decide) (by decide) (by decide)
  exact plain.inTag.append (inTag_plain (by decide) (by decide))

theorem schema_plain : schema.Plain :=
  Tag.plain_mk (by decide) (by decide) (by decide) (by decide)

theorem overriding_plain : overriding.Plain :=
  Tag.plain_mk (by decide) (by decide) (by decide) (by decide)

/-- The text tag by tag. -/
theorem spelled_unquoted : unquoted.toList =
    '<' :: Fragment.root.text ++ ['>'] ++ ('<' :: conversion.text ++ ['>'] ++
      ('<' :: (mapping.text ++ flag) ++ ['>'] ++ ('<' :: ('/' :: "conversion".toList) ++ ['>'] ++
        ('<' :: ('/' :: "idl".toList) ++ ['>'])))) := by
  decide

/-- The text with quotes tag by tag. -/
theorem spelled_quoted : quoted.toList =
    '<' :: Fragment.root.text ++ ['>'] ++ ('<' :: conversion.text ++ ['>'] ++
      ('<' :: (overriding.text ++ ['/']) ++ ['>'] ++ ('<' :: ('/' :: "conversion".toList) ++ ['>'] ++
        ('<' :: ('/' :: "idl".toList) ++ ['>'])))) := by
  decide

theorem word_conversion : IsWord "conversion" := by
  decide

theorem word_root : IsWord "idl" := by
  decide

/-- The mapping is scanned without the flag. -/
theorem scan_unquoted : scanDocument unquoted.toList =
    ⟨[.open Fragment.root, .open conversion, .empty mapping, .close "conversion", .close "idl"],
      none⟩ := by
  rw [spelled_unquoted]
  exact (Fragment.root_plain.yields_open.append (conversion_plain.yields_open.append
    ((yields_tag mapping_inTag (by decide) (by decide)).append
      ((yields_close word_conversion).append (yields_close word_root))))).scan_eq

/-- With quotes the flag is there. -/
theorem scan_quoted : scanDocument quoted.toList =
    ⟨[.open Fragment.root, .open conversion, .empty overriding, .close "conversion", .close "idl"],
      none⟩ := by
  rw [spelled_quoted]
  exact (Fragment.root_plain.yields_open.append (conversion_plain.yields_open.append
    (overriding_plain.yields_empty.append
      ((yields_close word_conversion).append (yields_close word_root))))).scan_eq

theorem scan_escaped : scanDocument escaped.toList =
    ⟨[.open Fragment.root, .empty schema, .close "idl"], none⟩ :=
  ((Fragment.root_plain.yields_open.append schema_plain.yields_empty).append
    (yields_close word_root)).scan_eq

/-- The mapping is read, although its flag is malformed, and does not override. -/
theorem read_unquoted : Document.read unquoted = .ok (document false) := by
  rw [Document.read, Forest.ofText, scan_unquoted]
  rfl

/-- With quotes it does. -/
theorem read_quoted : Document.read quoted = .ok (document true) := by
  rw [Document.read, Forest.ofText, scan_quoted]
  rfl

theorem read_escaped : Document.read escaped = .ok undecoded := by
  rw [Document.read, Forest.ofText, scan_escaped]
  rfl

/-- The tag with the malformed flag is one of the text. -/
theorem mem_contents : mapping.text ++ flag ∈ contents (withoutMark unquoted.toList) := by
  rw [spelled_unquoted, withoutMark_eq_self (by decide),
    contents_tag Fragment.root_plain.inTag (by decide) (by decide),
    contents_tag conversion_plain.inTag (by decide) (by decide),
    contents_tag mapping_inTag (by decide) (by decide)]
  exact .tail _ (.tail _ (.head _))

/-- A value without quotes is no attribute. -/
theorem not_wellFormed : ¬WellFormed (mapping.text ++ flag) := by
  intro wellFormed
  obtain ⟨written, lists⟩ := wellFormed (by decide) (by decide)
  exact absurd (lists.getLast? 'e' (by decide)) (by decide)

/-- The flag is passed over, and the entity is kept as it is written. -/
theorem not_saysExactly :
    (Document.read unquoted = .ok (document false) ∧ ¬Document.SaysExactly unquoted (document false)) ∧
      Document.read escaped = .ok undecoded ∧ ¬Document.SaysExactly escaped undecoded := by
  refine ⟨⟨read_unquoted, fun same => ?_⟩, read_escaped, fun same => ?_⟩
  · obtain ⟨wellFormed, _⟩ := (Document.saysExactly_iff_decoded read_unquoted).1 same
    exact not_wellFormed (wellFormed _ mem_contents)
  · obtain ⟨_, decoded⟩ := (Document.saysExactly_iff_decoded read_escaped).1 same
    exact absurd decoded (by decide)

theorem contents_quoted : contents (withoutMark quoted.toList) =
    [Fragment.root.text, conversion.text, overriding.text ++ ['/'], '/' :: "conversion".toList,
      '/' :: "idl".toList] := by
  have slash : InTag ['/'] := inTag_char (by decide) (by decide)
  rw [spelled_quoted, withoutMark_eq_self (by decide),
    contents_tag Fragment.root_plain.inTag (by decide) (by decide),
    contents_tag conversion_plain.inTag (by decide) (by decide),
    contents_tag (overriding_plain.inTag.append slash) (by decide) (by decide),
    contents_tag word_conversion.inTag_close (by decide) (by decide),
    ← List.append_nil ('<' :: ('/' :: "idl".toList) ++ ['>']),
    contents_tag word_root.inTag_close (by decide) (by decide), contents]

/-- With quotes the flag is read. -/
theorem saysExactly_quoted :
    Document.read quoted = .ok (document true) ∧ Document.SaysExactly quoted (document true) := by
  refine ⟨read_quoted, (Document.saysExactly_iff read_quoted).2 ⟨?_, ?_⟩⟩
  · rw [contents_quoted]
    intro content mem
    simp only [List.mem_cons, List.not_mem_nil, or_false] at mem
    rcases mem with rfl | rfl | rfl | rfl | rfl
    · exact wellFormed_open Fragment.root_plain
    · exact wellFormed_open conversion_plain
    · exact wellFormed_empty overriding_plain
    · exact wellFormed_close _
    · exact wellFormed_close _
  · exact fun t mem => not_hasEntity_of_not_mem
      ((by decide : ∀ t ∈ (document true).texts, '&' ∉ t.toList) t mem)

end Draft

end Crosswalk
