import Crosswalk.Proofs.Document.RoundTrip

/-!
# The root of a document

A text is whole if its elements are one closed root, which holds all declarations. The reader does
not ask for that: it also takes a root that the text leaves open, and declarations behind a closed
one. What it takes is whole exactly if the last tag is one that ends a root.
-/

namespace Crosswalk
set_option autoImplicit false
open Crosswalk.Markup

/-! ## Markup that is read without a fault -/

namespace Markup

/-- A fault that the scan has met is not lost while the tokens are nested. -/
theorem fault?_nest_some {fault : Fault} {outer : List Enclosing} {done : List Node}
    {tokens : List Token} : (nest (some fault) outer done tokens).fault? ≠ none := by
  induction tokens generalizing outer done with
  | nil => exact Option.some_ne_none fault
  | cons token tokens ih =>
    cases token with
    | «open» tag => exact ih
    | empty tag => exact ih
    | close name =>
      cases outer with
      | nil => exact Option.some_ne_none _
      | cons e outer =>
        rw [nest]
        split
        · exact ih
        · exact Option.some_ne_none _

/-- Where elements are left open, the last of the outermost elements is cut. -/
theorem getLast?_collapse {n : Node} (cut : n.ending = .cut) (outer : List Enclosing)
    (before : List Node) :
    ∃ last, (collapse .cut outer (n :: before)).getLast? = some last ∧ last.ending = .cut := by
  induction outer generalizing n before with
  | nil => exact ⟨n, by rw [collapse, List.reverse_cons, List.getLast?_concat], cut⟩
  | cons e outer ih => exact ih rfl e.before

/-- If the elements behind the first are closed, then none is there. -/
theorem behind_eq_nil {n root : Node} {outer : List Enclosing} {before behind : List Node}
    (cut : n.ending = .cut) (shape : collapse .cut outer (n :: before) = root :: behind)
    (closed : ∀ m ∈ behind, m.ending = .closed) : behind = [] := by
  obtain ⟨last, found, isCut⟩ := getLast?_collapse cut outer before
  rw [shape] at found
  cases behind with
  | nil => rfl
  | cons m more =>
    rw [List.getLast?_cons_cons] at found
    have ended := closed last (List.mem_of_getLast? found)
    rw [isCut] at ended
    cases ended

/-- If children are not cut, then no element is left open around one that is cut. -/
theorem eq_nil_of_collapse {n : Node} (cut : n.ending = .cut) {outer : List Enclosing}
    {before : List Node} (inside : ∀ m ∈ collapse .cut outer (n :: before),
      ∀ child ∈ m.children, child.ending ≠ .cut) : outer = [] := by
  induction outer generalizing n before with
  | nil => rfl
  | cons e outer ih =>
    obtain rfl := ih rfl inside
    have last : Node.mk e.tag (n :: before).reverse .cut ∈
        (Node.mk e.tag (n :: before).reverse .cut :: e.before).reverse :=
      List.mem_reverse.2 List.mem_cons_self
    exact absurd cut (inside _ last n (List.mem_reverse.2 List.mem_cons_self))

end Markup

namespace Document
variable {d : Document} {nodes : List Node}

/-- Schemas and conversions that are read have their end tags. -/
theorem Declared.closed (h : Declared nodes d) : ∀ n ∈ nodes, n.ending = .closed := by
  induction h with
  | nil => exact fun _ mem => absurd mem List.not_mem_nil
  | schema _ first _ ih =>
    obtain ⟨_, _, _, closed⟩ := Node.schema_eq_ok.1 first
    exact List.forall_mem_cons.2 ⟨closed, ih⟩
  | conversion _ first _ ih =>
    obtain ⟨_, _, _, mappings⟩ := Node.conversionDecl_eq_ok.1 first
    exact List.forall_mem_cons.2 ⟨(Node.items_eq_ok.1 mappings).2, ih⟩

/-- None of them is a root inside of the root. -/
theorem Declared.name_ne (h : Declared nodes d) : ∀ n ∈ nodes, n.name ≠ "idl" := by
  have other : ∀ {n : Node} {name : String}, n.name = name → name ≠ "idl" → n.name ≠ "idl" :=
    fun same apart => same ▸ apart
  induction h with
  | nil => exact fun _ mem => absurd mem List.not_mem_nil
  | schema kind _ _ ih => exact List.forall_mem_cons.2 ⟨other kind (by decide), ih⟩
  | conversion kind _ _ ih => exact List.forall_mem_cons.2 ⟨other kind (by decide), ih⟩

/-- The tokens that are read: those of a closed root and of declarations behind it, or those of a
root that is left open behind its last declaration. -/
inductive Accepts : List Token → Document → Prop
  | closed {root : Node} {behind : List Node} {tokens : List Token} {d : Document}
      (spells : Spells (root :: behind) tokens) (name : root.name = "idl")
      (declared : Declared (root.children ++ behind) d) : Accepts tokens d
  | cut {tag : Tag} {children : List Node} {inner : List Token} {d : Document}
      (spells : Spells children inner) (name : tag.name = "idl") (declared : Declared children d) :
      Accepts (.open tag :: inner) d

/-- A document is read from the tokens of a text without a fault, in one of the ways that are
accepted. -/
theorem accepts_of_read {text : String} (h : Document.read text = .ok d) :
    ∃ tokens, scanDocument text.toList = ⟨tokens, none⟩ ∧ Accepts tokens d := by
  obtain ⟨sound, root, behind, nodes, name, declared⟩ := ofForest_eq_ok.1 h
  rw [Forest.ofText] at sound nodes
  generalize scanDocument text.toList = scanned at sound nodes
  obtain ⟨tokens, fault?⟩ := scanned
  cases fault? with
  | some fault => exact absurd sound fault?_nest_some
  | none =>
    -- without a fault, the elements are closed but for those that the text leaves open
    refine ⟨tokens, rfl, ?_⟩
    have start : Opens [] [] [] := .outermost .nil
    obtain ⟨outer, done, opens, read⟩ := exists_opens_of_nest start sound
    rw [List.nil_append] at opens
    have shape : collapse .cut outer done = root :: behind := by
      rw [← nodes]
      exact (congrArg Forest.nodes read).symm
    -- none is left open, or the root is the innermost one that is
    cases opens with
    | outermost spells => exact .closed (shape ▸ spells) name declared
    | @inside e outer done before inner around spells =>
      rw [collapse] at shape
      have cut : (Node.mk e.tag done.reverse .cut).ending = .cut := rfl
      obtain rfl := behind_eq_nil cut shape fun m mem =>
        declared.closed m (List.mem_append_right _ mem)
      rw [List.append_nil] at declared
      -- a second open element would be a child that is cut off, but all children are closed
      obtain rfl : outer = [] := eq_nil_of_collapse cut (by
        rw [shape]
        refine List.forall_mem_singleton.2 fun child mem => ?_
        rw [declared.closed child mem]
        exact fun same => by cases same)
      have only : Node.mk e.tag done.reverse .cut :: e.before = [root] := by
        rw [← List.reverse_inj, List.reverse_singleton]
        exact shape
      obtain ⟨rfl, none⟩ := List.cons.inj only
      cases around with
      | outermost spelled =>
        rw [none] at spelled
        cases spelled
        exact .cut spells name declared

/-- The tag ends an element of the root's name. -/
def EndsRoot : Token → Prop
  | .open _ => False
  | .empty tag => tag.name = "idl"
  | .close name => name = "idl"

/-- The last tag of the text ends an element of the root's name. -/
def EndsWithRoot (text : String) : Prop :=
  ∃ token ∈ (scanDocument text.toList).tokens.getLast?, EndsRoot token

/-- The last token ends the root exactly if the last node is the root, for a node's last token is
its own end. -/
theorem exists_endsRoot_iff {tokens : List Token} {n : Node} (h : Spells nodes tokens)
    (last : nodes.getLast? = some n) :
    (∃ token ∈ tokens.getLast?, EndsRoot token) ↔ n.name = "idl" := by
  rcases h.getLast? last with closing | empty
  · simp [closing, EndsRoot]
  · simp [empty, EndsRoot, Node.name]

/-- A whole document ends with its root: nothing but the root is at the top. -/
theorem IsWhole.endsWithRoot {text : String} (h : IsWhole text d) : EndsWithRoot text := by
  obtain ⟨root, tokens, scanned, spells, name, _⟩ := h
  rw [EndsWithRoot, scanned]
  exact (exists_endsRoot_iff spells rfl).2 name

/-- A text that is read is whole exactly if its last tag ends an element of the root's name. -/
theorem isWhole_iff_endsWithRoot {text : String} (h : Document.read text = .ok d) :
    IsWhole text d ↔ EndsWithRoot text := by
  refine ⟨IsWhole.endsWithRoot, fun ends => ?_⟩
  obtain ⟨tokens, scanned, accepts⟩ := accepts_of_read h
  rw [EndsWithRoot, scanned] at ends
  cases accepts with
  | @closed root behind _ _ spells name declared =>
    cases behind with
    | nil => exact ⟨root, tokens, scanned, spells, name, by rwa [List.append_nil] at declared⟩
    | cons n more =>
      -- The last element is a declaration, so its last tag does not end a root.
      have found := List.getLast?_eq_some_getLast (List.cons_ne_nil n more)
      have same := (exists_endsRoot_iff spells (List.getLast?_cons_cons.trans found)).1 ends
      exact absurd same (declared.name_ne _ (List.mem_append_right _ (List.getLast_mem _)))
  | @cut tag children inner _ spells name declared =>
    cases children with
    | nil =>
      cases spells
      obtain ⟨token, last, endsRoot⟩ := ends
      obtain rfl : Token.open tag = token := by simpa using last
      exact endsRoot.elim
    | cons n more =>
      have found := List.getLast?_eq_some_getLast (List.cons_ne_nil n more)
      obtain ⟨token, last, endsRoot⟩ := ends
      have inside : ∃ token ∈ inner.getLast?, EndsRoot token := by
        refine ⟨token, ?_, endsRoot⟩
        rcases spells.getLast? found with closing | empty
        · simpa [List.getLast?_cons, closing] using last
        · simpa [List.getLast?_cons, empty] using last
      exact absurd ((exists_endsRoot_iff spells found).1 inside)
        (declared.name_ne _ (List.getLast_mem _))

end Document

namespace Fragment

/-! A document with one schema, and two texts that are read as it: one that leaves the root open,
and one with the schema behind the root. -/

/-- A document with an empty schema, which both texts are read as. -/
def document : Document :=
  ⟨[⟨"a", "a.thrift", []⟩], []⟩

def root : Tag :=
  ⟨"idl", []⟩

def schema : Tag :=
  ⟨"schema", [⟨"name", "a"⟩, ⟨"file", "a.thrift"⟩]⟩

/-- The root is begun and never ended. -/
def leftOpen : String :=
  "<idl><schema name=\"a\" file=\"a.thrift\"/>"

/-- The schema stands behind the root. -/
def behindRoot : String :=
  "<idl/><schema name=\"a\" file=\"a.thrift\"/>"

theorem root_plain : root.Plain :=
  Tag.plain_mk (by decide) (by decide) (by decide) (by decide)

theorem schema_plain : schema.Plain :=
  Tag.plain_mk (by decide) (by decide) (by decide) (by decide)

theorem scan_leftOpen : scanDocument leftOpen.toList = ⟨[.open root, .empty schema], none⟩ :=
  (root_plain.yields_open.append schema_plain.yields_empty).scan_eq

theorem scan_behindRoot : scanDocument behindRoot.toList = ⟨[.empty root, .empty schema], none⟩ :=
  (root_plain.yields_empty.append schema_plain.yields_empty).scan_eq

/-- The last token of both texts is that of the schema. -/
theorem not_endsWithRoot {text : String} {token : Token}
    (scanned : scanDocument text.toList = ⟨[token, .empty schema], none⟩) :
    ¬Document.EndsWithRoot text := by
  rw [Document.EndsWithRoot, scanned]
  rintro ⟨_, last, ends⟩
  obtain rfl : Token.empty schema = _ := by simpa using last
  have name : schema.name = "idl" := ends
  exact absurd name (by decide)

theorem read_partial :
    (Document.read leftOpen = .ok document ∧ ¬Document.IsWhole leftOpen document) ∧
      Document.read behindRoot = .ok document ∧ ¬Document.IsWhole behindRoot document := by
  refine ⟨⟨?_, fun whole => not_endsWithRoot scan_leftOpen whole.endsWithRoot⟩, ?_,
    fun whole => not_endsWithRoot scan_behindRoot whole.endsWithRoot⟩
  · rw [Document.read, Forest.ofText, scan_leftOpen]
    rfl
  · rw [Document.read, Forest.ofText, scan_behindRoot]
    rfl

/-- The layout of the document closes the root behind the schema. -/
theorem whole_text :
    Document.IsWhole document.text document ∧ Document.EndsWithRoot document.text := by
  have plain : document.Plain := ⟨by decide, by decide⟩
  have whole := Document.isWhole_of_writtenAs plain (Document.writtenAs_text plain)
  exact ⟨whole, (Document.isWhole_iff_endsWithRoot (Document.read_of_isWhole whole)).1 whole⟩

end Fragment

end Crosswalk
