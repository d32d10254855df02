import Crosswalk.Proofs.Validation

/-!
# What validation refuses

An item of a document offends by having the name of an earlier one in the same place, and a schema
also by a dot in its name. The items are listed in the order of the document: each schema with its
definitions, each of these with its fields or values, then each conversion with its mappings. The
error of a document that is refused is that of the first offending item, and a document without one
is accepted.
-/

namespace Crosswalk
set_option autoImplicit false

/-- An item of a document, with those that stand before it in the same place. -/
inductive Item
  | schema (before : List Schema) (s : Schema)
  | definition (owner : Schema) (before : List Definition) (x : Definition)
  | field (struct : String) (before : List FieldDecl) (f : FieldDecl)
  | value (enum : String) (before : List String) (v : String)
  | conversion (before : List ConversionDecl) (c : ConversionDecl)
  | mapping (owner : ConversionDecl) (before : List MappingDecl) (m : MappingDecl)

/-- The item is refused with the error: its name stands in the same place before, or it is a schema
whose name is new and holds a dot. -/
def Item.Offends : Item → SchemaError → Prop
  | schema before s, e =>
    (s.name ∈ before.map (·.name) ∧ .duplicate (.schema s.name) = e) ∨
      (s.name ∉ before.map (·.name) ∧ '.' ∈ s.name.toList ∧ .dottedSchema s.name = e)
  | definition owner before x, e =>
    x.name ∈ before.map (·.name) ∧ .duplicate (.definition x.kind owner.name x.name) = e
  | field struct before f, e =>
    f.name ∈ before.map (·.name) ∧ .duplicate (.field struct f.name) = e
  | value enum before v, e => v ∈ before ∧ .repeatedValue v enum = e
  | conversion before c, e => c.name ∈ before.map (·.name) ∧ .duplicate (.conversion c.name) = e
  | mapping owner before m, e =>
    m.dest ∈ before.map (·.dest) ∧ .repeatedTarget m.dest owner.name = e

/-- Things in their order, each as an item and then with the items inside it. -/
def itemsBehind {α : Type} (item : List α → α → Item) (inside : α → List Item) :
    List α → List α → List Item
  | _, [] => []
  | before, a :: rest => item before a :: (inside a ++ itemsBehind item inside (before ++ [a]) rest)

/-- The fields of a struct or the values of an enum. -/
def Definition.items : Definition → List Item
  | struct name fields => itemsBehind (.field name) (fun _ => []) [] fields
  | enum name values => itemsBehind (.value name) (fun _ => []) [] values
  | typedef .. => []

/-- The definitions of a schema, each with its items. -/
def Schema.items (s : Schema) : List Item :=
  itemsBehind (.definition s) Definition.items [] s.definitions

/-- The mappings of a conversion. -/
def ConversionDecl.items (c : ConversionDecl) : List Item :=
  itemsBehind (.mapping c) (fun _ => []) [] c.mappings

/-- All items, in the order of the document. -/
def Document.items (d : Document) : List Item :=
  itemsBehind .schema Schema.items [] d.schemas ++
    itemsBehind .conversion ConversionDecl.items [] d.conversions

/-- The error is that of the first item that offends. -/
def FirstOffence (items : List Item) (e : SchemaError) : Prop :=
  ∃ before item after, items = before ++ item :: after ∧
    (∀ other ∈ before, ∀ e', ¬ other.Offends e') ∧ item.Offends e

section Decides
variable {items more : List Item} {item : Item} {e : SchemaError} {x y : Except SchemaError Unit}

/-- The first offence is that of the first item, or it is sound and the others have one. -/
theorem firstOffence_cons :
    FirstOffence (item :: items) e ↔
      item.Offends e ∨ (∀ e', ¬ item.Offends e') ∧ FirstOffence items e := by
  -- the first item offends itself, or it is sound and the offence is behind it
  constructor
  · rintro ⟨before, found, after, shape, sound, offends⟩
    cases before with
    | nil =>
      obtain ⟨rfl, rfl⟩ := List.cons.inj shape
      exact .inl offends
    | cons first before =>
      obtain ⟨rfl, rfl⟩ := List.cons.inj shape
      obtain ⟨own, others⟩ := List.forall_mem_cons.1 sound
      exact .inr ⟨own, before, found, after, rfl, others, offends⟩
  · rintro (offends | ⟨own, before, found, after, rfl, sound, offends⟩)
    · exact ⟨[], item, items, rfl, by simp, offends⟩
    · exact ⟨item :: before, found, after, rfl, List.forall_mem_cons.2 ⟨own, sound⟩, offends⟩

/-- The check passes if no item offends, and fails with the error of the first one that does. -/
structure Decides (x : Except SchemaError Unit) (items : List Item) : Prop where
  passes : x = .ok () ↔ ∀ item ∈ items, ∀ e, ¬ item.Offends e
  fails : ∀ e, x = .error e ↔ FirstOffence items e

namespace Decides

/-- Without items nothing is refused. -/
theorem nil : Decides (.ok ()) [] where
  passes := by simp
  fails := by simp [FirstOffence]

/-- An offending item refuses whatever stands behind it. -/
theorem refused (offends : ∀ e', item.Offends e' ↔ e = e') :
    Decides (.error e) (item :: items) where
  passes := by
    refine iff_of_false (fun h => by cases h) fun sound => ?_
    exact sound item List.mem_cons_self e ((offends e).2 rfl)
  fails := by
    intro e'
    have other : ¬ ∀ e', ¬ item.Offends e' := fun sound => sound e ((offends e).2 rfl)
    rw [firstOffence_cons, offends, Except.error.injEq]
    simp [other]

/-- An item that does not offend makes no difference. -/
theorem cons_iff (sound : ∀ e, ¬ item.Offends e) :
    Decides x (item :: items) ↔ Decides x items := by
  have others : (∀ i ∈ item :: items, ∀ e, ¬ i.Offends e) ↔ ∀ i ∈ items, ∀ e, ¬ i.Offends e := by
    rw [List.forall_mem_cons]
    exact and_iff_right sound
  have first : ∀ e, FirstOffence (item :: items) e ↔ FirstOffence items e := by
    intro e
    rw [firstOffence_cons]
    exact (or_iff_right (sound e)).trans (and_iff_right sound)
  exact ⟨fun h => ⟨h.passes.trans others, fun e => (h.fails e).trans (first e)⟩,
    fun h => ⟨h.passes.trans others.symm, fun e => (h.fails e).trans (first e).symm⟩⟩

/-- An item that does not offend changes nothing. -/
theorem passed (sound : ∀ e, ¬ item.Offends e) (h : Decides x items) : Decides x (item :: items) :=
  (cons_iff sound).2 h

/-- A check behind another decides the items behind those of the other. -/
theorem append (first : Decides x items) (next : Decides y more) :
    Decides (x >>= fun _ => y) (items ++ more) := by
  induction items generalizing x with
  | nil =>
    obtain rfl : x = .ok () := first.passes.2 (by simp)
    exact next
  | cons item items ih =>
    by_cases sound : ∀ e, ¬ item.Offends e
    · exact (ih ((cons_iff sound).1 first)).passed sound
    · obtain ⟨e, offends⟩ := not_forall_not.1 sound
      obtain rfl : x = .error e := (first.fails e).2 (firstOffence_cons.2 (.inl offends))
      refine refused fun e' => ⟨fun offends' => ?_, fun same => same ▸ offends⟩
      exact Except.error.inj ((first.fails e').2 (firstOffence_cons.2 (.inl offends')))

variable {α : Type} {name : α → String} {refusal : α → SchemaError}
  {check : α → Except SchemaError Unit} {mk : List α → α → Item} {inside : α → List Item}

/-- A check of items for distinct names decides them if each step does so. -/
theorem ofSteps (step : ∀ before a y more, Decides y more →
      Decides (if name a ∈ before.map name then .error (refusal a) else check a >>= fun _ => y)
        (mk before a :: (inside a ++ more)))
    {seen : List String} {before as : List α} (same : ∀ n, n ∈ seen ↔ n ∈ before.map name) :
    Decides (checkDistinct name refusal check seen as) (itemsBehind mk inside before as) := by
  -- induction on the list, with the names before it; `next` keeps the names that were seen those
  -- before
  induction as generalizing seen before with
  | nil => exact nil
  | cons a rest ih =>
    have next : ∀ n, n ∈ name a :: seen ↔ n ∈ (before ++ [a]).map name := by
      intro n
      rw [List.map_append, List.mem_append, List.mem_cons, same]
      simp [or_comm]
    have taken := step before a _ _ (ih next)
    simp only [← same] at taken
    rw [checkDistinct, itemsBehind]
    split
    · next again => rwa [if_pos again] at taken
    · next fresh => rwa [if_neg fresh] at taken

/-- Items that offend by their names only, and hold what their own check decides. -/
theorem ofNames (offends : ∀ before a e, (mk before a).Offends e ↔
      name a ∈ before.map name ∧ refusal a = e)
    (own : ∀ a, Decides (check a) (inside a)) {as : List α} :
    Decides (checkDistinct name refusal check [] as) (itemsBehind mk inside [] as) := by
  refine ofSteps (fun before a y more next => ?_) (by simp)
  split
  · next again => exact refused fun e => by simp [offends, again]
  · next fresh => exact ((own a).append next).passed fun e => by simp [offends, fresh]

end Decides

end Decides

/-- The validation of a definition decides on its fields or values. -/
theorem Definition.decides (x : Definition) : Decides x.validate x.items := by
  cases x with
  | struct => exact .ofNames (fun _ _ _ => Iff.rfl) fun _ => .nil
  | enum => exact .ofNames (fun _ _ _ => by simp [Item.Offends]) fun _ => .nil
  | typedef => exact .nil

/-- That of a schema without a dot in its name decides on its definitions. -/
theorem Schema.decides_of_undotted {s : Schema} (plain : '.' ∉ s.name.toList) :
    Decides s.validate s.items := by
  rw [Schema.validate, if_neg (by simpa [String.contains_char_eq] using plain)]
  exact .ofNames (fun _ _ _ => Iff.rfl) Definition.decides

/-- A dot in the name is refused before the definitions are looked at. -/
theorem Schema.validate_of_dotted {s : Schema} (dot : '.' ∈ s.name.toList) :
    s.validate = .error (.dottedSchema s.name) := by
  rw [Schema.validate, if_pos (by simpa [String.contains_char_eq] using dot)]
  rfl

/-- The validation of a conversion decides on its mappings. -/
theorem ConversionDecl.decides (c : ConversionDecl) : Decides c.validate c.items :=
  .ofNames (fun _ _ _ => Iff.rfl) fun _ => .nil

namespace Document

/-- The schemas are decided on in their order, each before what is in it. -/
theorem decides_schemas (schemas : List Schema) :
    Decides (checkDistinct (·.name) (fun s => .duplicate (.schema s.name)) Schema.validate []
      schemas) (itemsBehind .schema Schema.items [] schemas) := by
  refine .ofSteps (fun before s y more next => ?_) (by simp)
  split
  · next again => exact .refused fun e => by simp [Item.Offends, again]
  · next fresh =>
    by_cases dot : '.' ∈ s.name.toList
    · rw [Schema.validate_of_dotted dot]
      exact .refused fun e => by simp [Item.Offends, fresh, dot]
    · have inside := (Schema.decides_of_undotted dot).append next
      exact inside.passed fun e => by simp [Item.Offends, fresh, dot]

/-- The validation of a document decides on all its items. -/
theorem decides (d : Document) : Decides d.validate d.items :=
  (decides_schemas d.schemas).append (.ofNames (fun _ _ _ => Iff.rfl) ConversionDecl.decides)

/-- No name is declared twice in one place, and no schema name holds a dot. -/
structure Valid (d : Document) : Prop where
  schemas : (d.schemas.map (·.name)).Nodup
  undotted : ∀ s ∈ d.schemas, '.' ∉ s.name.toList
  definitions : ∀ s ∈ d.schemas, (s.definitions.map (·.name)).Nodup
  fields : ∀ s ∈ d.schemas, ∀ name fields, .struct name fields ∈ s.definitions →
    (fields.map (·.name)).Nodup
  values : ∀ s ∈ d.schemas, ∀ name values, .enum name values ∈ s.definitions → values.Nodup
  conversions : (d.conversions.map (·.name)).Nodup
  targets : ∀ c ∈ d.conversions, (c.mappings.map (·.dest)).Nodup

end Document

theorem Definition.validate_eq_ok_iff {x : Definition} : x.validate = .ok () ↔
    (∀ name fields, x = .struct name fields → (fields.map (·.name)).Nodup) ∧
      ∀ name values, x = .enum name values → values.Nodup := by
  cases x <;> simp [validate, checkNames_eq_ok_iff]

namespace Document

/-- A document passes exactly if it is valid. -/
theorem validate_eq_ok_iff_valid {d : Document} : d.validate = .ok () ↔ d.Valid := by
  simp only [validate_eq_ok_iff, Schema.validate_eq_ok_iff, ConversionDecl.validate_eq_ok_iff,
    Definition.validate_eq_ok_iff]
  constructor
  -- the parts of the validation, each with the field of `Valid` that it checks
  · rintro ⟨⟨schemas, each⟩, conversions, targets⟩
    refine ⟨schemas, fun s mem => (each s mem).1, fun s mem => (each s mem).2.1, ?_, ?_,
      conversions, targets⟩
    · exact fun s mem name fields among => ((each s mem).2.2 _ among).1 name fields rfl
    · exact fun s mem name values among => ((each s mem).2.2 _ among).2 name values rfl
  · intro h
    refine ⟨⟨h.schemas, fun s mem => ⟨h.undotted s mem, h.definitions s mem, ?_⟩⟩,
      h.conversions, h.targets⟩
    rintro x among
    exact ⟨fun name fields shape => h.fields s mem name fields (shape ▸ among),
      fun name values shape => h.values s mem name values (shape ▸ among)⟩

/-- Validation accepts exactly the valid documents, and its error names the first offending item. -/
theorem validates_exactly (d : Document) :
    (d.validate = .ok () ↔ d.Valid) ∧ ∀ e, d.validate = .error e ↔ FirstOffence d.items e :=
  ⟨validate_eq_ok_iff_valid, d.decides.fails⟩

/-- A repeated target of the first conversion is found before a repeated conversion. -/
example : validate ⟨[], [⟨"c", "a.S", "a.T", [⟨"X", "Y", false⟩, ⟨"X", "Z", true⟩]⟩,
    ⟨"c", "a.S", "a.T", []⟩]⟩ = .error (.repeatedTarget "X" "c") := by
  decide

end Document

end Crosswalk
