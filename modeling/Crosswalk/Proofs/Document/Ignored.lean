import Crosswalk.Proofs.Document.Fidelity
import Crosswalk.Proofs.Markup.Content

/-!
# Content that is passed over

The readers of fields, values, aliases and mappings pass over the content of these elements, so a
text is read alike with any content in place of an empty element of them. The content ends where
the element does: nothing behind it is passed over, and a schema or a conversion that the text
leaves open is refused, also from inside content that is passed over.

What the readers do not look at is cut away by `Node.bare`, and each `_bare` lemma says that one
reader gives the same without it, up to `ofForest_bare`. The nesting of tokens respects this
(`nest_append_congr`), so `nest_filled` compares the two texts from the place on where they differ.
`leftOpen` lists the elements that are not ended when a text stops inside such content.
-/

namespace Crosswalk
set_option autoImplicit false
open Crosswalk.Markup

namespace Markup

/-! ## Elements without the content that is passed over -/

/-- The elements whose content is passed over. -/
def passedOver : List String :=
  ["field", "value", "typedef", "mapping"]

mutual

/-- The element without the content that is passed over. -/
def Node.bare : Node → Node
  | .mk tag children ending =>
    .mk tag (if tag.name ∈ passedOver then [] else bareAll children) ending

/-- The elements of a list without it. -/
def bareAll : List Node → List Node
  | [] => []
  | n :: rest => n.bare :: bareAll rest

end

theorem bareAll_eq (nodes : List Node) : bareAll nodes = nodes.map Node.bare := by
  induction nodes with
  | nil => rfl
  | cons n rest ih => rw [bareAll, ih, List.map_cons]

namespace Node
variable {node : Node}

@[simp] theorem bare_mk (tag : Tag) (children : List Node) (ending : Ending) :
    (Node.mk tag children ending).bare =
      .mk tag (if tag.name ∈ passedOver then [] else children.map bare) ending := by
  rw [bare, bareAll_eq]

@[simp] theorem tag_bare : node.bare.tag = node.tag := by
  cases node
  rw [bare_mk]
  rfl

@[simp] theorem ending_bare : node.bare.ending = node.ending := by
  cases node
  rw [bare_mk]
  rfl

@[simp] theorem name_bare : node.bare.name = node.name := by
  rw [name, name, tag_bare]

theorem children_bare (kept : node.name ∉ passedOver) :
    node.bare.children = node.children.map bare := by
  obtain ⟨tag, children, ending⟩ := node
  have kept : tag.name ∉ passedOver := kept
  rw [bare_mk, if_neg kept]
  rfl

/-- An element of a kind whose content is read keeps its content. -/
theorem kept_of_eq {name : String} (kind : node.name = name) (kept : name ∉ passedOver) :
    node.name ∉ passedOver :=
  kind ▸ kept

/-! ## Reading elements without that content -/

section Readers
variable {key : String}

@[simp] theorem required_bare : node.bare.required key = node.required key := by
  simp only [required, attribute?, name_bare, tag_bare]

@[simp] theorem flag_bare : node.bare.flag key = node.flag key := by
  simp only [flag, attribute?, name_bare, tag_bare]

@[simp] theorem typeExpr_bare : node.bare.typeExpr key = node.typeExpr key := by
  simp only [typeExpr, required_bare]

@[simp] theorem skip_bare : node.bare.skip = node.skip := by
  simp only [skip, ending_bare]

@[simp] theorem finish_bare {unterminated : ParseError} :
    node.bare.finish unterminated = node.finish unterminated := by
  simp only [finish, ending_bare]

end Readers

/-- Elements are read alike without the content if each is. -/
theorem mapM_bare {α : Type} {read : Node → Except ParseError α} {nodes : List Node}
    (same : ∀ n : Node, read n.bare = read n) : (nodes.map bare).mapM read = nodes.mapM read := by
  rw [List.mapM_map]
  exact congrArg (fun f => nodes.mapM f) (funext same)

/-- So are the items inside an element that keeps its content. -/
theorem items_bare {α : Type} {element : String} {read : Node → Except ParseError α}
    (kept : node.name ∉ passedOver) (same : ∀ n : Node, read n.bare = read n) :
    node.bare.items element read = node.items element read := by
  have each : ∀ n : Node, item node.name element read n.bare = item node.name element read n :=
    fun n => by simp only [item, name_bare, skip_bare, same]
  simp only [items, name_bare, finish_bare, children_bare kept, mapM_bare each]

/-- A field is its attributes. -/
theorem fieldDecl_bare (n : Node) : n.bare.fieldDecl = n.fieldDecl := by
  simp only [fieldDecl, required_bare, typeExpr_bare, flag_bare]

/-- A mapping is its attributes. -/
theorem mappingDecl_bare (n : Node) : n.bare.mappingDecl = n.mappingDecl := by
  simp only [mappingDecl, required_bare, flag_bare]

/-- A definition is read from elements whose content is passed over. -/
theorem definition_bare (n : Node) : n.bare.definition = n.definition := by
  simp only [definition, name_bare, required_bare, typeExpr_bare, skip_bare]
  by_cases struct : n.name = "struct"
  · simp only [if_pos struct, items_bare (kept_of_eq struct (by decide)) fieldDecl_bare]
  · by_cases enum : n.name = "enum"
    · have values : n.bare.items "value" (·.required "name") =
          n.items "value" (·.required "name") :=
        items_bare (kept_of_eq enum (by decide)) fun _ => required_bare
      simp only [if_neg struct, if_pos enum, values]
    · simp only [if_neg struct, if_neg enum]

/-- A schema is read through its definitions. -/
theorem schema_bare (kind : node.name = "schema") : node.bare.schema = node.schema := by
  simp only [schema, required_bare, finish_bare, children_bare (kept_of_eq kind (by decide)),
    mapM_bare definition_bare]

/-- A conversion is read through its mappings. -/
theorem conversionDecl_bare (kind : node.name = "conversion") :
    node.bare.conversionDecl = node.conversionDecl := by
  simp only [conversionDecl, required_bare,
    items_bare (kept_of_eq kind (by decide)) mappingDecl_bare]

end Node

/-- The elements of a text without the content that is passed over. -/
def Forest.bare (forest : Forest) : Forest :=
  ⟨forest.nodes.map Node.bare, forest.fault?⟩

end Markup

namespace Document

/-- What an element adds to a document does not depend on content that is passed over. -/
theorem declare_bare (d : Document) (n : Node) : d.declare n.bare = d.declare n := by
  simp only [declare, Node.name_bare]
  by_cases schema : n.name = "schema"
  · simp only [if_pos schema, Node.schema_bare schema]
  · by_cases conversion : n.name = "conversion"
    · simp only [if_neg schema, if_pos conversion, Node.conversionDecl_bare conversion]
    · simp only [if_neg schema, if_neg conversion]

/-- A document is read alike without the content that is passed over. -/
theorem ofForest_bare (forest : Forest) : ofForest forest.bare = ofForest forest := by
  obtain ⟨nodes, fault?⟩ := forest
  cases nodes with
  | nil => rfl
  | cons root behind =>
    simp only [ofForest, Forest.bare, List.map_cons, Node.name_bare]
    by_cases kind : root.name = "idl"
    · have kept : root.name ∉ passedOver := Node.kept_of_eq kind (by decide)
      have same : (fun d n => declare d n.bare) = declare :=
        funext fun d => funext fun n => declare_bare d n
      simp only [Node.children_bare kept, ← List.map_append, List.foldlM_map, same]
    · simp only [ne_eq, kind, not_false_eq_true, if_true]
      rfl

end Document

namespace Markup

/-! ## Nesting around that content -/

/-- Only the content of elements that keep it counts. -/
theorem Node.bare_congr {tag : Tag} {children children' : List Node} {ending : Ending}
    (same : tag.name ∉ passedOver → children.map bare = children'.map bare) :
    (Node.mk tag children ending).bare = (Node.mk tag children' ending).bare := by
  rw [bare_mk, bare_mk]
  split
  · rfl
  · next kept => rw [same kept]

/-- An open element without that content in the elements before it. -/
def Enclosing.bare (e : Enclosing) : Enclosing :=
  ⟨e.tag, e.before.map Node.bare⟩

/-- Open elements like those inside an innermost one are inside one with its tag. -/
theorem exists_cons_of_bare {e : Enclosing} {outer outer' : List Enclosing}
    (around : (e :: outer).map Enclosing.bare = outer'.map Enclosing.bare) :
    ∃ before rest, outer' = ⟨e.tag, before⟩ :: rest ∧
      e.before.map Node.bare = before.map Node.bare ∧
        outer.map Enclosing.bare = rest.map Enclosing.bare := by
  obtain ⟨⟨tag, before⟩, rest, rfl, first, others⟩ := List.map_eq_cons_iff.1 around.symm
  obtain ⟨rfl, same⟩ := Enclosing.mk.inj first
  exact ⟨before, rest, rfl, same.symm, others.symm⟩

section Alike
variable {outer outer' : List Enclosing} {done done' : List Node}

/-- An element that ends has the same bare form if its content has. -/
theorem ended_congr {tag : Tag} {before before' : List Node} {ending : Ending}
    (beside : before.map Node.bare = before'.map Node.bare)
    (inside : done.map Node.bare = done'.map Node.bare) :
    (Node.mk tag done.reverse ending :: before).map Node.bare =
      (Node.mk tag done'.reverse ending :: before').map Node.bare := by
  have children : done.reverse.map Node.bare = done'.reverse.map Node.bare := by
    rw [List.map_reverse, List.map_reverse, inside]
  rw [List.map_cons, List.map_cons, beside, Node.bare_congr fun _ => children]

/-- Elements that the text leaves open are ended alike. -/
theorem collapse_congr {ending : Ending}
    (around : outer.map Enclosing.bare = outer'.map Enclosing.bare)
    (inside : done.map Node.bare = done'.map Node.bare) :
    (collapse ending outer done).map Node.bare = (collapse ending outer' done').map Node.bare := by
  induction outer generalizing outer' done done' with
  | nil =>
    obtain rfl := List.map_eq_nil_iff.1 around.symm
    rw [collapse, collapse, List.map_reverse, List.map_reverse, inside]
  | cons e outer ih =>
    obtain ⟨before, rest, rfl, beside, around⟩ := exists_cons_of_bare around
    rw [collapse, collapse]
    exact ih around (ended_congr beside inside)

/-- A fault stops both nestings alike. -/
theorem stopAt_congr {fault : Fault}
    (around : outer.map Enclosing.bare = outer'.map Enclosing.bare)
    (inside : done.map Node.bare = done'.map Node.bare) :
    (stopAt fault outer done).bare = (stopAt fault outer' done').bare := by
  rw [stopAt, stopAt, Forest.bare, Forest.bare, collapse_congr around inside]

/-- Tokens nest alike inside elements that are alike but for the content that is passed over. -/
theorem nest_congr {fault? : Option Fault}
    (around : outer.map Enclosing.bare = outer'.map Enclosing.bare)
    (inside : done.map Node.bare = done'.map Node.bare) (tokens : List Token) :
    (nest fault? outer done tokens).bare = (nest fault? outer' done' tokens).bare := by
  -- induction on the tokens; both nestings take the same step, since tags and ends are the same
  induction tokens generalizing outer outer' done done' with
  | nil =>
    cases fault? with
    | none => rw [nest, nest, Forest.bare, Forest.bare, collapse_congr around inside]
    | some fault => exact stopAt_congr around inside
  | cons token tokens ih =>
    cases token with
    | «open» tag =>
      refine ih ?_ rfl
      rw [List.map_cons, List.map_cons, around, Enclosing.bare, Enclosing.bare, inside]
    | empty tag =>
      refine ih around ?_
      rw [List.map_cons, List.map_cons, inside]
    | close name =>
      -- an end tag with nothing open ends both nestings
      cases outer with
      | nil =>
        obtain rfl := List.map_eq_nil_iff.1 around.symm
        exact stopAt_congr rfl inside
      | cons e outer =>
        obtain ⟨before, rest, rfl, beside, within⟩ := exists_cons_of_bare around
        rw [nest, nest]
        split
        · exact ih within (ended_congr beside inside)
        · exact stopAt_congr around inside

/-- Tokens that nest alike everywhere do so behind other tokens. -/
theorem nest_append_congr {fault? : Option Fault} {tokens tokens' : List Token}
    (same : ∀ outer done,
      (nest fault? outer done tokens).bare = (nest fault? outer done tokens').bare)
    (before : List Token) (outer : List Enclosing) (done : List Node) :
    (nest fault? outer done (before ++ tokens)).bare =
      (nest fault? outer done (before ++ tokens')).bare := by
  -- induction on the tokens in front, which both nestings take alike
  induction before generalizing outer done with
  | nil => exact same outer done
  | cons token before ih =>
    cases token with
    | «open» tag => exact ih _ _
    | empty tag => exact ih _ _
    | close name =>
      cases outer with
      | nil => rfl
      | cons e outer =>
        rw [List.cons_append, List.cons_append, nest, nest]
        split
        · exact ih _ _
        · rfl

end Alike

/-- An element whose content is passed over nests like an empty one. -/
theorem nest_filled {tag : Tag} {nodes : List Node} {inner : List Token}
    (kind : tag.name ∈ passedOver) (inside : Spells nodes inner) (fault? : Option Fault)
    (outer : List Enclosing) (done : List Node) (behind : List Token) :
    (nest fault? outer done (.open tag :: inner ++ [.close tag.name] ++ behind)).bare =
      (nest fault? outer done (.empty tag :: behind)).bare := by
  rw [nest_spells (.element inside .nil), nest]
  refine nest_congr rfl ?_ behind
  exact congrArg (· :: _) (Node.bare_congr fun kept => absurd kind kept)

/-! ## Elements that are left open -/

/-- The elements that are open behind the tokens, the innermost first. -/
def leftOpen : List Tag → List Token → List Tag
  | outer, [] => outer
  | outer, .open tag :: rest => leftOpen (tag :: outer) rest
  | outer, .empty _ :: rest => leftOpen outer rest
  | outer, .close _ :: rest => leftOpen outer.tail rest

/-- Closed elements leave nothing open. -/
theorem leftOpen_spells {nodes : List Node} {tokens : List Token} (h : Spells nodes tokens)
    (outer : List Tag) (rest : List Token) :
    leftOpen outer (tokens ++ rest) = leftOpen outer rest := by
  induction h generalizing outer rest with
  | nil => rfl
  | empty _ ih => exact ih outer rest
  | element _ _ ihi ih =>
    rw [List.cons_append, List.cons_append, List.append_assoc, leftOpen, ihi, List.cons_append,
      leftOpen, ih]
    rfl

end Markup

namespace Document

/-- What is read leaves nothing open but, possibly, the root. -/
theorem Accepts.name_of_leftOpen {tokens : List Token} {d : Document} (h : Accepts tokens d) :
    ∀ tag ∈ leftOpen [] tokens, tag.name = "idl" := by
  cases h with
  | closed spells _ _ =>
    have none := leftOpen_spells spells [] []
    rw [List.append_nil] at none
    rw [none]
    exact fun _ mem => absurd mem List.not_mem_nil
  | @cut tag _ inner _ spells name _ =>
    have only := leftOpen_spells spells [tag] []
    rw [List.append_nil] at only
    rw [leftOpen, only]
    exact List.forall_mem_singleton.2 name

/-! ## Texts -/

/-- A byte order mark is in front of a text or not there. -/
theorem withoutMark_append {before text : List Char} (start : text.head? = some '<') :
    withoutMark (before ++ text) = withoutMark before ++ text := by
  cases before with
  | nil =>
    rw [List.nil_append, withoutMark_eq_self (start ▸ by decide)]
    rfl
  | cons c before =>
    rw [List.cons_append, withoutMark, withoutMark]
    split <;> rfl

/-- The tag of an empty element stands in a text. -/
structure EmptyElement (before piece behind : List Char) (tag : Tag) : Prop where
  reached : ScansTo (withoutMark (before ++ (piece ++ behind))) (piece ++ behind)
  start : piece.head? = some '<'
  next : Markup.next '<' (piece.tail ++ behind) = .ok (some (.empty tag), behind)

/-- Every tag of an empty element that is read from a text is one that stands in it. -/
theorem exists_emptyElement {text : List Char} {tag : Tag}
    (mem : .empty tag ∈ (scanDocument text).tokens) :
    ∃ before piece behind, text = before ++ (piece ++ behind) ∧
      EmptyElement before piece behind tag := by
  rw [scanDocument_eq] at mem
  obtain ⟨before, front, behind, split, reached, next⟩ := exists_scansTo_of_mem mem
  have marked : ∃ mark, text = mark ++ withoutMark text := by
    cases text with
    | nil => exact ⟨[], rfl⟩
    | cons c rest =>
      by_cases mark : c = '\ufeff'
      · exact ⟨[c], by rw [withoutMark, if_pos mark]; rfl⟩
      · exact ⟨[], by rw [withoutMark, if_neg mark]; rfl⟩
  obtain ⟨mark, whole⟩ := marked
  rw [split, ← List.append_assoc] at whole
  exact ⟨mark ++ before, '<' :: front, behind, whole, whole ▸ reached, rfl, next⟩

/-- An element with the tag, with content and with an end tag. -/
inductive FilledElement (tag : Tag) : List Char → Prop
  | mk {name attributes inner blank : List Char} (start : IsStart name attributes)
      (same : Tag.ofContent (name ++ attributes) = tag) (inside : Balanced inner)
      (white : IsBlank blank) : FilledElement tag (elementText name attributes inner blank)

/-- The text before an empty element gives tokens of its own, and the element gives one. -/
theorem EmptyElement.exists_yields {before piece behind : List Char} {tag : Tag}
    (h : EmptyElement before piece behind tag) :
    ∃ tokens, Yields (withoutMark before) tokens ∧ Yields piece [.empty tag] := by
  obtain ⟨rest, rfl⟩ := List.head?_eq_some_iff.1 h.start
  obtain ⟨front, tokens, split, yields⟩ := h.reached.exists_yields
  rw [withoutMark_append rfl] at split
  obtain rfl := List.append_cancel_right split
  obtain ⟨content, whole, same⟩ := next_front h.next
  obtain rfl := List.append_cancel_right whole
  exact ⟨tokens, yields, yields_of_next same⟩

/-- The element with content gives its tags, with the tokens of the content between them. -/
theorem FilledElement.exists_spells {tag : Tag} {filled : List Char}
    (h : FilledElement tag filled) : filled.head? = some '<' ∧ ∃ nodes inner, Spells nodes inner ∧
      Yields filled (.open tag :: inner ++ [.close tag.name]) := by
  obtain ⟨start, rfl, inside, white⟩ := h
  obtain ⟨nodes, inner, spells, yields⟩ := inside.exists_spells
  exact ⟨rfl, nodes, inner, spells, yields_element start yields white⟩

/-- A text is read alike with an empty element of those whose content is passed over and with any
element that has its tag. -/
theorem read_filled {before piece behind text : List Char} {tag : Tag}
    (h : EmptyElement before piece behind tag) (kind : tag.name ∈ passedOver)
    (filled : FilledElement tag text) :
    Document.read (String.ofList (before ++ (text ++ behind))) =
      Document.read (String.ofList (before ++ (piece ++ behind))) := by
  obtain ⟨tokens, front, empty⟩ := h.exists_yields
  obtain ⟨start, nodes, inner, spells, yields⟩ := filled.exists_spells
  have scanned : ∀ {middle : List Char} {more : List Token}, middle.head? = some '<' →
      Yields middle more → Forest.ofText (String.ofList (before ++ (middle ++ behind))) =
        nest (scan behind).fault? [] [] (tokens ++ (more ++ (scan behind).tokens)) := by
    intro middle more first within
    obtain ⟨rest, rfl⟩ := List.head?_eq_some_iff.1 first
    rw [Forest.ofText, String.toList_ofList, scanDocument_eq, withoutMark_append rfl, front, within]
  rw [Document.read, Document.read, scanned start yields, scanned h.start empty, ← ofForest_bare,
    nest_append_congr (fun outer done => nest_filled kind spells _ outer done _), ofForest_bare]
  rfl

/-- A text that leaves a schema or a conversion open is refused. -/
theorem read_leftOpen {text : String}
    (inside : ∃ tag ∈ leftOpen [] (scanDocument text.toList).tokens,
      tag.name = "schema" ∨ tag.name = "conversion") :
    ∃ e, Document.read text = .error e := by
  obtain ⟨tag, mem, kind⟩ := inside
  cases read : Document.read text with
  | error e => exact ⟨e, rfl⟩
  | ok d =>
    obtain ⟨tokens, scanned, accepts⟩ := accepts_of_read read
    rw [scanned] at mem
    have root := accepts.name_of_leftOpen tag mem
    rw [root] at kind
    exact absurd kind (by decide)

/-- Content is passed over exactly: every empty element that is read from a text stands in it, the
text is read alike with any well-formed content in it, and no text is read that ends inside a schema
or a conversion. -/
theorem passes_over_exactly :
    (∀ {text : List Char} {tag : Tag}, .empty tag ∈ (scanDocument text).tokens →
      ∃ before piece behind, text = before ++ (piece ++ behind) ∧
        EmptyElement before piece behind tag) ∧
    (∀ {before piece behind text : List Char} {tag : Tag}, EmptyElement before piece behind tag →
      tag.name ∈ passedOver → FilledElement tag text →
        Document.read (String.ofList (before ++ (text ++ behind))) =
          Document.read (String.ofList (before ++ (piece ++ behind)))) ∧
    ∀ {text : String}, (∃ tag ∈ leftOpen [] (scanDocument text.toList).tokens,
        tag.name = "schema" ∨ tag.name = "conversion") →
      ∃ e, Document.read text = .error e :=
  ⟨exists_emptyElement, read_filled, read_leftOpen⟩

end Document

namespace Filling

/-! A value without content in a document, and the value with content: a comment, and an element
with text and an empty element in it. -/

/-- The tag around the value. -/
def enum : Tag :=
  ⟨"enum", [⟨"name", "E"⟩]⟩

/-- The tag of the value. -/
def value : Tag :=
  ⟨"value", [⟨"name", "x"⟩]⟩

/-- The text before the value. -/
def before : List Char :=
  '<' :: Fragment.root.text ++ ['>'] ++ ('<' :: Fragment.schema.text ++ ['>'] ++
    ('<' :: enum.text ++ ['>']))

/-- The value as an empty element. -/
def piece : List Char :=
  '<' :: (value.text ++ ['/']) ++ ['>']

/-- The text behind the value. -/
def behind : List Char :=
  '<' :: ('/' :: "enum".toList) ++ ['>'] ++ ('<' :: ('/' :: "schema".toList) ++ ['>'] ++
    ('<' :: ('/' :: "idl".toList) ++ ['>']))

/-- A comment with a `>` in it, and an element with text and an empty element. -/
def content : List Char :=
  '<' :: '!' :: ("--".toList ++ " kept > away ".toList ++ "-->".toList) ++
    (elementText ['b'] [] ('c' :: ('<' :: (['d'] ++ [] ++ ['/']) ++ ['>'] ++ [])) [] ++ [])

/-- The value with that content. -/
def filled : List Char :=
  elementText value.name.toList (value.attributes.flatMap Attribute.text) content [' ']

/-- What is read in both cases. -/
def document : Document :=
  ⟨[⟨"a", "a.thrift", [.enum "E" ["x"]]⟩], []⟩

theorem enum_plain : enum.Plain :=
  Tag.plain_mk (by decide) (by decide) (by decide) (by decide)

theorem value_plain : value.Plain :=
  Tag.plain_mk (by decide) (by decide) (by decide) (by decide)

/-- A start tag is the next token of the text that begins with it. -/
theorem next_start {tag : Tag} (plain : tag.Plain) (rest : List Char) :
    next '<' (tag.text ++ '>' :: rest) = .ok (some (.open tag), rest) := by
  obtain ⟨c, more, text, lower⟩ := plain.exists_cons
  rw [← plain.ofContent_open]
  exact next_tag plain.inTag (by simpa [text] using ne_of_isLower lower (by decide))
    (by simpa [text] using ne_of_isLower lower (by decide)) rest

/-- The value stands in the text as an empty element. -/
theorem emptyElement : Document.EmptyElement before piece behind value where
  reached := by
    have text : withoutMark (before ++ (piece ++ behind)) =
        '<' :: (Fragment.root.text ++ '>' :: '<' :: (Fragment.schema.text ++ '>' ::
          '<' :: (enum.text ++ '>' :: (piece ++ behind)))) := by
      rw [withoutMark_eq_self (by simp [before])]
      simp only [before, List.append_assoc, List.cons_append, List.nil_append]
    rw [text]
    -- three tags are scanned before the value is reached
    exact .later (next_start Fragment.root_plain _) (.later (next_start Fragment.schema_plain _)
      (.later (next_start enum_plain _) .here))
  start := rfl
  next := by
    have slash : InTag ['/'] := inTag_char (by decide) (by decide)
    have tag : next '<' (value.text ++ ['/'] ++ '>' :: behind) = _ :=
      next_tag (value_plain.inTag.append slash) (by decide) (by decide) behind
    rw [value_plain.ofContent_empty] at tag
    rw [← tag, piece, List.cons_append, List.tail_cons, List.append_assoc _ ['>']]
    rfl

/-- Each element in the content has its end. -/
theorem content_sound : Balanced content := by
  have start : ∀ {c : Char}, IsNameChar c → IsStart [c] [] := fun solid =>
    ⟨List.cons_ne_nil _ _, List.forall_mem_singleton.2 solid, .nil, by simp, by simp⟩
  have nothing : IsBlank [] := fun _ mem => absurd mem List.not_mem_nil
  have ends : ¬"-->".toList <:+: " kept > away ".toList := fun found =>
    absurd (found.subset (by decide : '-' ∈ "-->".toList)) (by decide)
  have empty : Balanced ('<' :: (['d'] ++ [] ++ ['/']) ++ ['>'] ++ []) :=
    .empty (start (by decide)) .nil
  have text : Balanced ('c' :: ('<' :: (['d'] ++ [] ++ ['/']) ++ ['>'] ++ [])) :=
    .char (by decide) (by decide) empty
  have named : IsNameChar 'b' := by decide
  exact .comment ends (.element (start named) text nothing .nil)

/-- The value with content is an element with the same tag. -/
theorem filledElement : Document.FilledElement value filled :=
  .mk value_plain.isStart value_plain.ofContent content_sound fun c mem => by
    obtain rfl := List.mem_singleton.1 mem
    rfl

/-- Three elements are open in front of the value. -/
theorem yields_before :
    Yields before [.open Fragment.root, .open Fragment.schema, .open enum] :=
  Fragment.root_plain.yields_open.append
    (Fragment.schema_plain.yields_open.append enum_plain.yields_open)

/-- They end behind it. -/
theorem yields_behind : Yields behind [.close "enum", .close "schema", .close "idl"] := by
  have enum : IsWord "enum" := by decide
  have schema : IsWord "schema" := by decide
  have root : IsWord "idl" := by decide
  exact (yields_close enum).append ((yields_close schema).append (yields_close root))

theorem scan_empty : scanDocument (before ++ (piece ++ behind)) =
    ⟨[.open Fragment.root, .open Fragment.schema, .open enum, .empty value, .close "enum",
      .close "schema", .close "idl"], none⟩ :=
  (yields_before.append (value_plain.yields_empty.append yields_behind)).scan_eq

/-- The text with the empty value is read as the document. -/
theorem read_empty :
    Document.read (String.ofList (before ++ (piece ++ behind))) = .ok document := by
  rw [Document.read, Forest.ofText, String.toList_ofList, scan_empty]
  rfl

/-- The document up to the content of the value. -/
def cut : String :=
  String.ofList (before ++ ('<' :: value.text ++ ['>']))

theorem scan_cut : scanDocument cut.toList =
    ⟨[.open Fragment.root, .open Fragment.schema, .open enum, .open value], none⟩ := by
  rw [cut, String.toList_ofList]
  exact (yields_before.append value_plain.yields_open).scan_eq

/-- The value is one of the empty elements of the text; with content it is read alike; and the text
that ends in the content is refused. -/
theorem passes_over_value :
    (∃ front middle rest, before ++ (piece ++ behind) = front ++ (middle ++ rest) ∧
      Document.EmptyElement front middle rest value) ∧
    (Document.EmptyElement before piece behind value ∧ Document.FilledElement value filled) ∧
      Document.read (String.ofList (before ++ (filled ++ behind))) = .ok document ∧
        ∃ e, Document.read cut = .error e := by
  obtain ⟨stands, alike, refused⟩ := Document.passes_over_exactly
  refine ⟨stands ?_, ⟨emptyElement, filledElement⟩, ?_, refused ?_⟩
  · rw [scan_empty]
    decide
  · rw [alike emptyElement (by decide) filledElement, read_empty]
  · rw [scan_cut]
    exact ⟨Fragment.schema, by decide, .inl rfl⟩

end Filling

end Crosswalk
