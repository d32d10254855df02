import Crosswalk.Markup.Node

/-!
# Entities in attribute values

A value in which the predefined entities stand for characters. Elements can be taken with the values
decoded; nesting does not look at values, so it does not matter when that is done.
-/

namespace Crosswalk.Markup
set_option autoImplicit false

/-! ## Decoding texts -/

/-- The text with the predefined entities replaced. -/
def decode : List Char → List Char
  | '&' :: 'a' :: 'm' :: 'p' :: ';' :: rest => '&' :: decode rest
  | '&' :: 'l' :: 't' :: ';' :: rest => '<' :: decode rest
  | '&' :: 'g' :: 't' :: ';' :: rest => '>' :: decode rest
  | '&' :: 'q' :: 'u' :: 'o' :: 't' :: ';' :: rest => '"' :: decode rest
  | '&' :: 'a' :: 'p' :: 'o' :: 's' :: ';' :: rest => '\'' :: decode rest
  | c :: rest => c :: decode rest
  | [] => []

def entities : List String :=
  ["&amp;", "&lt;", "&gt;", "&quot;", "&apos;"]

/-- A predefined entity occurs in the text. -/
def HasEntity (text : List Char) : Prop :=
  ∃ entity ∈ entities, entity.toList <:+: text

theorem HasEntity.of_front {entity : String} {text rest : List Char} (mem : entity ∈ entities)
    (text_eq : text = entity.toList ++ rest) : HasEntity text :=
  ⟨entity, mem, [], rest, by rw [text_eq, List.nil_append]⟩

/-- An entity further behind is one of the whole text. -/
theorem HasEntity.tail {c : Char} {rest : List Char} (h : HasEntity rest) : HasEntity (c :: rest) := by
  obtain ⟨entity, mem, inside⟩ := h
  exact ⟨entity, mem, inside.trans (List.suffix_cons c rest).isInfix⟩

/-- An entity in a text is in front or behind the first character. -/
theorem HasEntity.cases {c : Char} {rest : List Char} (h : HasEntity (c :: rest)) :
    (∃ entity ∈ entities, ∃ behind, c :: rest = entity.toList ++ behind) ∨ HasEntity rest := by
  obtain ⟨entity, mem, inside⟩ := h
  rcases List.infix_cons_iff.1 inside with ⟨behind, front⟩ | later
  · exact .inl ⟨entity, mem, behind, front.symm⟩
  · exact .inr ⟨entity, mem, later⟩

theorem length_decode_le (text : List Char) : (decode text).length ≤ text.length := by
  fun_induction decode text <;> simp only [List.length_cons, List.length_nil] <;> omega

/-- Decoding replaces an entity by one character, so the text gets shorter. -/
theorem length_decode_lt {text : List Char} (h : HasEntity text) :
    (decode text).length < text.length := by
  -- by the decoding; each entity is longer than the character that it stands for
  fun_induction decode text with
  | case1 rest | case2 rest | case3 rest | case4 rest | case5 rest =>
    have := length_decode_le rest
    simp only [List.length_cons]
    omega
  | case6 c rest amp lt gt quot apos ih =>
    rcases h.cases with ⟨entity, mem, behind, front⟩ | later
    -- at an entity the search would not have gone on
    · simp only [entities, List.mem_cons, List.not_mem_nil, or_false] at mem
      rcases mem with rfl | rfl | rfl | rfl | rfl
      · exact (amp behind (List.cons.inj front).1 (List.cons.inj front).2).elim
      · exact (lt behind (List.cons.inj front).1 (List.cons.inj front).2).elim
      · exact (gt behind (List.cons.inj front).1 (List.cons.inj front).2).elim
      · exact (quot behind (List.cons.inj front).1 (List.cons.inj front).2).elim
      · exact (apos behind (List.cons.inj front).1 (List.cons.inj front).2).elim
    · have := ih later
      simp only [List.length_cons]
      omega
  | case7 =>
    obtain ⟨entity, mem, inside⟩ := h
    rw [List.infix_nil.1 inside |> String.toList_eq_nil_iff.1] at mem
    exact absurd mem (by decide)

/-- Without an entity there is nothing to decode. -/
theorem decode_of_not_hasEntity {text : List Char} (h : ¬HasEntity text) : decode text = text := by
  have front : ∀ entity ∈ entities, ∀ rest, text ≠ entity.toList ++ rest :=
    fun entity mem rest same => h (.of_front mem same)
  fun_induction decode text with
  | case1 rest => exact absurd rfl (front "&amp;" (by decide) rest)
  | case2 rest => exact absurd rfl (front "&lt;" (by decide) rest)
  | case3 rest => exact absurd rfl (front "&gt;" (by decide) rest)
  | case4 rest => exact absurd rfl (front "&quot;" (by decide) rest)
  | case5 rest => exact absurd rfl (front "&apos;" (by decide) rest)
  | case6 c rest _ _ _ _ _ ih =>
    have later := mt HasEntity.tail h
    rw [ih later fun entity mem rest same => later (.of_front mem same)]
  | case7 => rfl

theorem decode_eq_self_iff {text : List Char} : decode text = text ↔ ¬HasEntity text := by
  refine ⟨fun same has => ?_, decode_of_not_hasEntity⟩
  have shorter := length_decode_lt has
  rw [same] at shorter
  exact Nat.lt_irrefl _ shorter

/-- Every entity begins with an ampersand. -/
theorem not_hasEntity_of_not_mem {text : List Char} (none : '&' ∉ text) : ¬HasEntity text := by
  rintro ⟨entity, mem, inside⟩
  have begins : ∀ entity ∈ entities, '&' ∈ entity.toList := by decide
  exact none (inside.subset (begins entity mem))

/-- A text with its entities decoded. -/
def decoded (text : String) : String :=
  String.ofList (decode text.toList)

/-- The same for texts that are not taken apart. -/
theorem decoded_eq_self_iff {text : String} : decoded text = text ↔ ¬HasEntity text.toList := by
  rw [← decode_eq_self_iff, decoded, ← String.toList_inj, String.toList_ofList]

/-! ## Decoding elements -/

def Attribute.decoded (a : Attribute) : Attribute :=
  { a with value := Markup.decoded a.value }

/-- A tag with the values of its attributes decoded. Names have no entities. -/
def Tag.decoded (tag : Tag) : Tag :=
  { tag with attributes := tag.attributes.map Attribute.decoded }

def Token.decoded : Token → Token
  | .open tag => .open tag.decoded
  | .empty tag => .empty tag.decoded
  | .close name => .close name

mutual

def Node.decoded : Node → Node
  | .mk tag children ending => .mk tag.decoded (decodedAll children) ending

def decodedAll : List Node → List Node
  | [] => []
  | n :: rest => n.decoded :: decodedAll rest

end

/-- Nodes are decoded one by one. -/
theorem decodedAll_eq (nodes : List Node) : decodedAll nodes = nodes.map Node.decoded := by
  induction nodes with
  | nil => rfl
  | cons n rest ih => rw [decodedAll, ih, List.map_cons]

/-- Decoding keeps the shape of a tree, and how its elements end. -/
@[simp] theorem Node.decoded_mk (tag : Tag) (children : List Node) (ending : Ending) :
    (Node.mk tag children ending).decoded =
      .mk tag.decoded (children.map Node.decoded) ending := by
  rw [Node.decoded, decodedAll_eq]

def Enclosing.decoded (e : Enclosing) : Enclosing :=
  ⟨e.tag.decoded, e.before.map Node.decoded⟩

/-- Elements that a text leaves open are closed alike with decoded values. -/
theorem collapse_decoded (ending : Ending) (outer : List Enclosing) (done : List Node) :
    collapse ending (outer.map Enclosing.decoded) (done.map Node.decoded) =
      (collapse ending outer done).map Node.decoded := by
  induction outer generalizing done with
  | nil => rw [List.map_nil, collapse, collapse, List.map_reverse]
  | cons e outer ih =>
    rw [List.map_cons, collapse, collapse, ← ih, List.map_cons, Node.decoded_mk, List.map_reverse]
    rfl

/-- The elements of decoded tokens are the decoded elements. -/
theorem nest_decoded (fault? : Option Fault) (outer : List Enclosing) (done : List Node)
    (tokens : List Token) :
    nest fault? (outer.map Enclosing.decoded) (done.map Node.decoded)
        (tokens.map Token.decoded) =
      ⟨(nest fault? outer done tokens).nodes.map Node.decoded,
        (nest fault? outer done tokens).fault?⟩ := by
  -- by the tokens; decoding changes no name, so tags close as they did
  induction tokens generalizing outer done with
  | nil =>
    cases fault? with
    | none => simp only [List.map_nil, nest, collapse_decoded]
    | some fault => simp only [List.map_nil, nest, stopAt, collapse_decoded]
  | cons token tokens ih =>
    cases token with
    | «open» tag => exact ih (⟨tag, done⟩ :: outer) []
    | empty tag =>
      have next := ih outer (.mk tag [] .closed :: done)
      rwa [List.map_cons, Node.decoded_mk] at next
    | close name =>
      cases outer with
      | nil => simp only [List.map_cons, List.map_nil, Token.decoded, nest, stopAt, collapse,
          List.map_reverse]
      | cons e outer =>
        have next := ih outer (.mk e.tag done.reverse .closed :: e.before)
        rw [List.map_cons, Node.decoded_mk, List.map_reverse] at next
        rw [List.map_cons, List.map_cons, Token.decoded, nest, nest]
        have same : e.decoded.tag.name = e.tag.name := rfl
        rw [same]
        split
        · exact next
        · have stopped := collapse_decoded (.faulty (.mismatchedEnd e.tag.name name)) (e :: outer) done
          rw [stopAt, stopAt, ← stopped]
          rfl

end Crosswalk.Markup
