import Crosswalk.Document.Reader
import Crosswalk.Proofs.Except
import Crosswalk.Proofs.Markup.Balance

/-!
# What documents are read from

For each reader of an element, what it takes to succeed and what it gives then.

Each `_eq_ok` lemma takes one reader apart, from `flag_eq_ok` for an attribute up to
`ofForest_eq_ok` for a whole document, by the lemma of the reader before it. `Defines` and
`Declared` are what the alternatives among the elements amount to, and `foldlM_declare_eq_ok` is the
induction on the children of the root.
-/

namespace Crosswalk
set_option autoImplicit false
open Crosswalk.Markup

namespace Markup.Node
variable {node : Node} {key : String}

theorem required_eq_ok {value : String} :
    node.required key = .ok value ↔ node.attribute? key = some value := by
  unfold required
  cases node.attribute? key <;> simp

/-- The words that a flag is written with. -/
def flagWords : Bool → List String
  | true => ["true", "1"]
  | false => ["false", "0"]

/-- What a flag is read from: a word for it, or nothing if it is unset. -/
def IsFlag (b : Bool) : Option String → Prop
  | none => b = false
  | some word => word ∈ flagWords b

/-- A flag is read from one of its words, or is unset if there is no attribute. -/
theorem flag_eq_ok {b : Bool} : node.flag key = .ok b ↔ IsFlag b (node.attribute? key) := by
  unfold flag
  cases node.attribute? key with
  | none => simp [IsFlag, eq_comm]
  | some word =>
    by_cases set : word = "true" ∨ word = "1"
    · rcases set with rfl | rfl <;> cases b <;> simp [IsFlag, flagWords]
    · by_cases unset : word = "false" ∨ word = "0"
      · rcases unset with rfl | rfl <;> cases b <;> simp [IsFlag, flagWords]
      · cases b <;> simp [IsFlag, flagWords, set, unset]

/-- A type is read from the text of an attribute. -/
theorem typeExpr_eq_ok {e : TypeExpr} : node.typeExpr key = .ok e ↔
    ∃ text, node.attribute? key = some text ∧ TypeExpr.parse text = .ok e := by
  simp only [typeExpr, bind_eq_ok, required_eq_ok, TypeExpr.read]
  exact exists_congr fun text => and_congr_right fun _ => mapError_eq_ok

theorem finish_eq_ok {unterminated : ParseError} {u : Unit} :
    node.finish unterminated = .ok u ↔ node.ending = .closed := by
  unfold finish
  cases node.ending <;> simp

/-- The element has the name and can be passed over. -/
structure IsItem (element : String) (node : Node) : Prop where
  name : node.name = element
  skip : node.skip = .ok ()

/-- An item is an element of the expected name that is read as one. -/
theorem item_eq_ok {α : Type} {context element : String} {read : Node → Except ParseError α}
    {a : α} : item context element read node = .ok a ↔ node.IsItem element ∧ read node = .ok a := by
  simp only [item, refuse_eq_ok, bind_eq_ok, not_not]
  constructor
  · rintro ⟨name, _, skip, read⟩
    exact ⟨⟨name, skip⟩, read⟩
  · rintro ⟨⟨name, skip⟩, read⟩
    exact ⟨name, (), skip, read⟩

/-- What is read of a list of like elements, in their order. -/
theorem items_eq_ok {α : Type} {element : String} {read : Node → Except ParseError α}
    {as : List α} : node.items element read = .ok as ↔
      List.Forall₂ (fun n a => n.IsItem element ∧ read n = .ok a) node.children as ∧
        node.ending = .closed := by
  simp only [items, bind_eq_ok, finish_eq_ok, pure_eq_ok, mapM_eq_ok_iff, item_eq_ok]
  constructor
  · rintro ⟨_, each, _, closed, rfl⟩
    exact ⟨each, closed⟩
  · rintro ⟨each, closed⟩
    exact ⟨as, each, (), closed, rfl⟩

theorem fieldDecl_eq_ok {f : FieldDecl} : node.fieldDecl = .ok f ↔
    node.required "name" = .ok f.name ∧ node.typeExpr "type" = .ok f.type ∧
      node.flag "required" = .ok f.required := by
  simp only [fieldDecl, bind_eq_ok, pure_eq_ok]
  constructor
  · rintro ⟨_, name, _, type, _, required, rfl⟩
    exact ⟨name, type, required⟩
  · rintro ⟨name, type, required⟩
    exact ⟨_, name, _, type, _, required, rfl⟩

theorem mappingDecl_eq_ok {m : MappingDecl} : node.mappingDecl = .ok m ↔
    node.required "to" = .ok m.dest ∧ node.required "from" = .ok m.source ∧
      node.flag "override" = .ok m.overrides := by
  simp only [mappingDecl, bind_eq_ok, pure_eq_ok]
  constructor
  · rintro ⟨_, dest, _, source, _, overrides, rfl⟩
    exact ⟨dest, source, overrides⟩
  · rintro ⟨dest, source, overrides⟩
    exact ⟨_, dest, _, source, _, overrides, rfl⟩

/-- What a definition is read from. -/
inductive Defines (node : Node) : Definition → Prop
  | struct {name : String} {fields : List FieldDecl} (kind : node.name = "struct")
      (named : node.required "name" = .ok name)
      (inside : node.items "field" fieldDecl = .ok fields) : Defines node (.struct name fields)
  | enum {name : String} {values : List String} (kind : node.name = "enum")
      (named : node.required "name" = .ok name)
      (inside : node.items "value" (·.required "name") = .ok values) :
      Defines node (.enum name values)
  | typedef {name : String} {target : TypeExpr} (kind : node.name = "typedef")
      (skip : node.skip = .ok ()) (named : node.required "name" = .ok name)
      (typed : node.typeExpr "type" = .ok target) : Defines node (.typedef name target)

/-- A definition is read from an element exactly if the element is of its kind and has what this
kind asks for. -/
theorem definition_eq_ok {d : Definition} : node.definition = .ok d ↔ node.Defines d := by
  unfold definition
  constructor
  -- a case for each kind of definition, and none for other elements
  · intro h
    split at h
    · next kind =>
      obtain ⟨name, named, h⟩ := bind_eq_ok.1 h
      obtain ⟨fields, inside, h⟩ := bind_eq_ok.1 h
      obtain rfl := pure_eq_ok.1 h
      exact .struct kind named inside
    · split at h
      · next kind =>
        obtain ⟨name, named, h⟩ := bind_eq_ok.1 h
        obtain ⟨values, inside, h⟩ := bind_eq_ok.1 h
        obtain rfl := pure_eq_ok.1 h
        exact .enum kind named inside
      · split at h
        · next kind =>
          obtain ⟨_, skip, h⟩ := bind_eq_ok.1 h
          obtain ⟨name, named, h⟩ := bind_eq_ok.1 h
          obtain ⟨target, typed, h⟩ := bind_eq_ok.1 h
          obtain rfl := pure_eq_ok.1 h
          exact .typedef kind skip named typed
        · cases h
  -- each part that was read makes one step of the reader succeed
  · rintro (⟨kind, named, inside⟩ | ⟨kind, named, inside⟩ | ⟨kind, skip, named, typed⟩)
    · simp [kind, bind_eq_ok, named, inside]
    · simp [kind, bind_eq_ok, named, inside]
    · simp [kind, bind_eq_ok, skip, named, typed]

/-- A schema is read from its attributes and from its children, one definition each. -/
theorem schema_eq_ok {s : Schema} : node.schema = .ok s ↔
    node.required "name" = .ok s.name ∧ node.required "file" = .ok s.file ∧
      List.Forall₂ Defines node.children s.definitions ∧ node.ending = .closed := by
  simp only [schema, bind_eq_ok, pure_eq_ok, finish_eq_ok, mapM_eq_ok_iff, definition_eq_ok]
  constructor
  · rintro ⟨_, name, _, file, _, inside, _, closed, rfl⟩
    exact ⟨name, file, inside, closed⟩
  · rintro ⟨name, file, inside, closed⟩
    exact ⟨_, name, _, file, _, inside, (), closed, rfl⟩

/-- A conversion is read from its attributes and from its items, which are mappings. -/
theorem conversionDecl_eq_ok {c : ConversionDecl} : node.conversionDecl = .ok c ↔
    node.required "name" = .ok c.name ∧ node.required "from" = .ok c.source ∧
      node.required "to" = .ok c.dest ∧ node.items "mapping" mappingDecl = .ok c.mappings := by
  simp only [conversionDecl, bind_eq_ok, pure_eq_ok]
  constructor
  · rintro ⟨_, name, _, source, _, dest, _, mappings, rfl⟩
    exact ⟨name, source, dest, mappings⟩
  · rintro ⟨name, source, dest, mappings⟩
    exact ⟨_, name, _, source, _, dest, _, mappings, rfl⟩

end Markup.Node

namespace Document

/-- The elements declare the schemas and the conversions of the document, each in their order. -/
inductive Declared : List Node → Document → Prop
  | nil : Declared [] ⟨[], []⟩
  | schema {node : Node} {nodes : List Node} {s : Schema} {d : Document}
      (kind : node.name = "schema") (first : node.schema = .ok s) (others : Declared nodes d) :
      Declared (node :: nodes) { d with schemas := s :: d.schemas }
  | conversion {node : Node} {nodes : List Node} {c : ConversionDecl} {d : Document}
      (kind : node.name = "conversion") (first : node.conversionDecl = .ok c)
      (others : Declared nodes d) :
      Declared (node :: nodes) { d with conversions := c :: d.conversions }

/-- An element below the root adds a schema or a conversion behind those that are there. -/
theorem declare_eq_ok {node : Node} {d d' : Document} : d.declare node = .ok d' ↔
    (node.name = "schema" ∧ ∃ s, node.schema = .ok s ∧ { d with schemas := d.schemas ++ [s] } = d') ∨
    (node.name = "conversion" ∧ ∃ c, node.conversionDecl = .ok c ∧
      { d with conversions := d.conversions ++ [c] } = d') := by
  unfold declare
  split
  · next kind =>
    rw [bind_eq_ok]
    simp [kind, pure_eq_ok]
  · next other =>
    split
    · next kind =>
      rw [bind_eq_ok]
      simp [kind, pure_eq_ok]
    · next neither => simp [other, neither, throw, throwThe, MonadExceptOf.throw]

/-- A document grows by what the elements declare. -/
theorem foldlM_declare_eq_ok {nodes : List Node} {d d' : Document} :
    nodes.foldlM declare d = .ok d' ↔ ∃ new, Declared nodes new ∧
      ⟨d.schemas ++ new.schemas, d.conversions ++ new.conversions⟩ = d' := by
  -- induction on the elements; each adds a schema or a conversion at the end of what is there
  induction nodes generalizing d with
  | nil =>
    rw [List.foldlM_nil, pure_eq_ok]
    constructor
    · rintro rfl
      exact ⟨_, .nil, by simp⟩
    · rintro ⟨_, none, rfl⟩
      cases none
      simp
  | cons node nodes ih =>
    rw [List.foldlM_cons, bind_eq_ok]
    constructor
    · rintro ⟨_, first, others⟩
      obtain ⟨new, declared, rfl⟩ := ih.1 others
      rcases declare_eq_ok.1 first with ⟨kind, s, read, rfl⟩ | ⟨kind, c, read, rfl⟩
      · exact ⟨_, .schema kind read declared, by simp⟩
      · exact ⟨_, .conversion kind read declared, by simp⟩
    · rintro ⟨_, declared, rfl⟩
      cases declared with
      | schema kind read others =>
        exact ⟨_, declare_eq_ok.2 (.inl ⟨kind, _, read, rfl⟩), ih.2 ⟨_, others, by simp⟩⟩
      | conversion kind read others =>
        exact ⟨_, declare_eq_ok.2 (.inr ⟨kind, _, read, rfl⟩), ih.2 ⟨_, others, by simp⟩⟩

/-- A text is read if its markup is sound, its first element is the root, and all elements in that
and behind it are declarations. -/
theorem ofForest_eq_ok {forest : Forest} {d : Document} : ofForest forest = .ok d ↔
    forest.fault? = none ∧ ∃ root behind, forest.nodes = root :: behind ∧ root.name = "idl" ∧
      Declared (root.children ++ behind) d := by
  obtain ⟨nodes, fault?⟩ := forest
  unfold ofForest
  cases nodes with
  | nil => cases fault? <;> simp [bind, Except.bind, throw, throwThe, MonadExceptOf.throw]
  | cons root behind =>
    simp only [refuse_eq_ok, not_not, bind_eq_ok, foldlM_declare_eq_ok, List.nil_append,
      pure_eq_ok]
    constructor
    · rintro ⟨name, _, ⟨new, declared, rfl⟩, _, sound, rfl⟩
      cases fault? with
      | none => exact ⟨rfl, root, behind, rfl, name, declared⟩
      | some fault => cases sound
    · rintro ⟨rfl, _, _, same, name, declared⟩
      cases same
      exact ⟨name, d, ⟨d, declared, rfl⟩, (), rfl, rfl⟩

/-- The elements of the text are one closed root, in which the document is declared. -/
def IsWhole (text : String) (d : Document) : Prop :=
  ∃ root tokens, scanDocument text.toList = ⟨tokens, none⟩ ∧ Spells [root] tokens ∧
    root.name = "idl" ∧ Declared root.children d

/-- A whole document is read. -/
theorem read_of_isWhole {text : String} {d : Document} (h : IsWhole text d) :
    Document.read text = .ok d := by
  obtain ⟨root, tokens, scanned, spells, name, declared⟩ := h
  have forest : Forest.ofText text = ⟨[root], none⟩ := by
    rw [Forest.ofText, scanned]
    exact spells.nest_eq
  rw [Document.read, forest, ofForest_eq_ok]
  exact ⟨rfl, root, [], rfl, name, by rwa [List.append_nil]⟩

end Document

end Crosswalk
