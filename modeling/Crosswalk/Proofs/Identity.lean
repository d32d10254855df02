import Crosswalk.Proofs.Copy

/-!
# Conversions of fields to themselves

Without mappings every field is its own source, and a type is compatible with itself. So a struct
whose fields are required and of supported types is converted to itself by a copy.

`Plain` collects what is asked of the fields, and `CopiesTo` is the conclusion for a value. There is
one lemma for each kind of type, and the mutual induction `copies_fields` follows the recursion of
types through structs and elements.
-/

namespace Crosswalk
set_option autoImplicit false
open Converter

/-! ## Fields that convert to themselves -/

namespace Converter

/-- The namespace of a type's file, if the type has a name, is found. -/
def Knows (cv : Converter) (ty : Ty) : Prop :=
  ∀ file ∈ ty.file?, ∃ space, cv.namespaces file = .ok space

/-- A type that is an alias or supported, and has a known name or elements with one. -/
structure Takes (cv : Converter) (ty : Ty) : Prop where
  supported : ty.kind ≠ .typedef → ty.isSupported = true
  known : cv.Knows ty
  knownElements : ∀ shape element, ty.elements? = some (shape, element) → cv.Knows element

/-- Required fields of different names and of types that convert. -/
structure Plain (cv : Converter) (fields : List Field) : Prop where
  differ : NamesDiffer fields
  required : ∀ f ∈ fields, f.required = true
  types : ∀ f ∈ fields, cv.Takes f.type

variable {cv : Converter} {path : Path} {ty : Ty}

/-- Each type fits itself. -/
theorem compatible_self (ty : Ty) : compatible ty ty = true := by
  unfold compatible
  split
  · assumption
  · exact beq_self_eq_true _

/-- A type of a known file has a qualified name. -/
theorem qualified_of_ok {name file space : String} (h : cv.namespaces file = .ok space) :
    ∃ type, cv.qualified name file path = .ok type := by
  simp [qualified, Namespaces.qualify, h, bind, Except.bind, pure, Except.pure]

/-- A known type that is no aggregate has a name. -/
theorem typeName_of_knows (known : cv.Knows ty) (plain : ty.isAggregate = false) :
    ∃ name, cv.typeName path ty = .ok name := by
  cases ty with
  | primitive p => exact ⟨_, rfl⟩
  | binary => exact ⟨_, rfl⟩
  | enum name file values =>
    obtain ⟨_, found⟩ := known file rfl
    exact qualified_of_ok found
  | struct name file fields =>
    obtain ⟨_, found⟩ := known file rfl
    exact qualified_of_ok found
  | typedef name file target =>
    obtain ⟨_, found⟩ := known file rfl
    exact qualified_of_ok found
  | _ => simp [Ty.isAggregate] at plain

end Converter

/-- Without mappings a field is the source of itself. -/
theorem Level.choose_self {l : Level} {sources : List Field} {f : Field}
    (unmapped : l.table = .empty) (found : findField? sources f.name = some f) :
    l.choose sources f.name =
      .ok (.direct (.ofField f (l.source.field f.name f.isOptional))) := by
  have none : l.mapping? (l.path.field f.name) = none := by
    rw [mapping?, unmapped]
    exact ite_self _
  simp [choose, sameName?, found, none]

/-! ## The copies -/

/-- What a slot is filled with from a place by a conversion that copies. -/
def Converter.CopiesTo (cv : Converter) (level : Level) (ty : Ty) (slot : Slot) (place : Place) :
    Prop :=
  ∃ block, Emits cv (.value level slot (.direct (.ofElement ty place)) ty) block ∧
    Copies cv.settings (.value slot.place place ty) block

namespace Converter
variable {cv : Converter} {level : Level} {slot : Slot} {place : Place} {ty element : Ty}
  {shape : Shape}

/-- Scalars and aliases are copied by one assignment. -/
theorem copiesTo_of_isCopied (kind : ty.isCopied = true) (given : slot.place.optional = false)
    (known : cv.Knows ty) : cv.CopiesTo level ty slot place := by
  have plain : ty.isAggregate = false := by cases ty <;> simp_all [Ty.isCopied, Ty.isAggregate]
  have whole : ty.isWhole = true := by cases ty <;> first | rfl | exact kind
  obtain ⟨name, named⟩ : ∃ name, cv.typeName slot.path ty = .ok name :=
    typeName_of_knows known plain
  have agree : ∀ c ∈ (Choice.direct (.ofElement ty place)).candidates,
      compatible ty.resolved c.type.resolved = true := Choice.forall_direct (compatible_self _)
  refine ⟨_, .copied kind named agree, ?_⟩
  rw [given]
  exact .whole whole .cast

/-- So are bytes. -/
theorem copiesTo_binary : cv.CopiesTo level .binary slot place :=
  ⟨_, .binary (Choice.forall_direct rfl), .whole rfl .bytes⟩

/-- A struct is filled from a place by a conversion that copies. -/
def CopiesBody (cv : Converter) (level : Level) (s : Struct) (slot : Slot) (place : Place) : Prop :=
  ∃ block, Emits cv (.body level s slot (.ofElement s.toTy place)) block ∧
    Copies cv.settings (.value slot.place place s.toTy) block

/-- The fields of a struct are filled from a place by a conversion that copies. -/
def CopiesFields (cv : Converter) (level : Level) (sources dests : List Field) : Prop :=
  ∃ block, Emits cv (.fields level sources dests) block ∧
    Copies cv.settings (.fields level.dest level.source dests) block

/-- A struct is copied if its fields are. -/
theorem copiesBody_of_fields {s : Struct} (known : cv.Knows s.toTy)
    (inner : cv.CopiesFields (level.descend slot.path slot.place place) s.fields s.fields) :
    cv.CopiesBody level s slot place := by
  obtain ⟨block, filled, copies⟩ := inner
  obtain ⟨space, found⟩ := known s.file rfl
  obtain ⟨name, named⟩ : ∃ name, cv.qualified s.name s.file slot.path = .ok name :=
    qualified_of_ok found
  exact ⟨_, .body rfl named filled, .struct copies⟩

/-- A struct is copied if its body is. -/
theorem copiesTo_of_body {s : Struct} (body : cv.CopiesBody level s slot place) :
    cv.CopiesTo level s.toTy slot place := by
  obtain ⟨block, filled, copies⟩ := body
  have bodies : ∀ c ∈ (Choice.direct (.ofElement s.toTy place)).candidates,
      Emits cv (.body level s slot c) ((fun _ => block) c) := Choice.forall_direct filled
  exact ⟨block, .struct bodies, copies⟩

/-- From one source that is present, an aggregate is allocated and filled, and nothing is staged. -/
theorem aggregateBlock_direct {s : Settings} {name : String} {boxed : Bool} {turn : Block}
    (present : place.optional = false) :
    aggregateBlock s slot shape (.direct (.ofElement ty place)) name boxed turn =
      [.allocate slot.place (storage name boxed shape) (some place),
        .loop place (loopBinding s shape) turn] := by
  have single : (stage s slot.path boxed (.direct (.ofElement ty place))).iterable = place := rfl
  rw [aggregateBlock, single, present]
  rfl

/-- An element is copied, whole or as a struct. -/
def CopiesElement (cv : Converter) (level : Level) (slot : Slot) (element : Ty) : Prop :=
  element.isStruct = false ∨
    ∃ s : Struct, element = s.toTy ∧ cv.CopiesBody level s slot cv.elementVar

/-- A list or map is copied if its elements are. -/
theorem copiesTo_of_elements (kind : ty.elements? = some (shape, element))
    (present : place.optional = false) (known : cv.Knows element)
    (plain : element.resolved.isAggregate = false)
    (turn : cv.CopiesElement level (elementSlot cv.settings slot shape) element) :
    cv.CopiesTo level ty slot place := by
  -- an element that is no aggregate behind its aliases is none itself
  have flat : element.isAggregate = false := by
    cases element <;> simp_all [Ty.resolved, Ty.isAggregate]
  obtain ⟨name, named⟩ : ∃ name, cv.typeName slot.path element = .ok name :=
    typeName_of_knows known flat
  have held : ∀ c ∈ (Choice.direct (.ofElement ty place)).candidates,
      c.type.resolved.elements? = some (shape, element) :=
    Choice.forall_direct (by rw [Candidate.ofElement, Ty.resolved_of_elements? kind, kind])
  -- the elements are copied whole, or each as a struct
  rcases turn with whole | ⟨s, rfl, block, filled, copies⟩
  · have sources : ∀ c ∈ (Choice.direct (.ofElement ty place)).candidates,
        c.type.resolved.elements? = some (shape, element) ∧ element.resolved.isAggregate = false ∧
          compatible element.resolved element.resolved = true :=
      fun c mem => ⟨held c mem, plain, compatible_self _⟩
    have value : element.isWhole = true := by
      cases element <;> simp_all [Ty.isStruct, Ty.isAggregate, Ty.isWhole, Ty.isCopied]
    have boxed : storage name element.isStruct shape = storage name false shape := by rw [whole]
    refine ⟨_, .elements kind whole plain named sources, ?_⟩
    rw [aggregateBlock_direct present, elementSlot_place, ← boxed]
    exact .element kind (.whole value .cast)
  · have turns : ∀ c ∈ (Choice.direct (.ofElement ty place)).candidates,
        Emits cv (.body level s (elementSlot cv.settings slot shape)
          (.ofElement s.toTy cv.elementVar)) ((fun _ => block) c) := Choice.forall_direct filled
    refine ⟨_, .structs kind named held turns, ?_⟩
    rw [aggregateBlock_direct present]
    rw [elementSlot_place] at copies
    exact .element kind copies

/-- Fields are copied one by one, each from the field of its name. -/
theorem copiesFields_cons {sources rest : List Field} {f : Field}
    (chosen : level.choose sources f.name =
      .ok (.direct (.ofElement f.type (level.source.field f.name false))))
    (required : f.required = true)
    (first : cv.CopiesTo level f.type (level.slot f) (level.source.field f.name false))
    (others : cv.CopiesFields level sources rest) : cv.CopiesFields level sources (f :: rest) := by
  obtain ⟨block, filled, copies⟩ := first
  obtain ⟨later, filledOthers, copiesOthers⟩ := others
  have place : (level.slot f).place = level.dest.field f.name false := by
    simp [Level.slot, FieldOf.isOptional, required]
  rw [place] at copies
  exact ⟨_, .cons chosen filled filledOthers, .cons copies copiesOthers⟩

/-- Fewer fields are plain too. -/
theorem Plain.tail {f : Field} {rest : List Field} (h : cv.Plain (f :: rest)) : cv.Plain rest where
  differ := (List.nodup_cons.1 h.differ).2
  required g mem := h.required g (List.mem_cons_of_mem f mem)
  types g mem := h.types g (List.mem_cons_of_mem f mem)

/-! The conversion goes down the types of the destination, and so does the proof. -/

mutual

/-- Plain fields are copied. -/
theorem copies_fields : ∀ (dests : List Field) {level : Level} {sources : List Field},
    level.table = .empty → (∀ f ∈ dests, findField? sources f.name = some f) →
    EachStruct cv.Plain dests → cv.CopiesFields level sources dests
  -- by the recursion of the conversion; without a table, each field is its own source
  | [], _, _, _, _, _ => ⟨[], .nil, .nil⟩
  | f :: rest, level, sources, unmapped, found, plain => by
    have here : f ∈ f :: rest := List.mem_cons_self
    have required : f.required = true := plain.1.required f here
    have present : f.isOptional = false := by simp [FieldOf.isOptional, required]
    have chosen := Level.choose_self unmapped (found f here)
    rw [Candidate.ofField, present] at chosen
    have first : cv.CopiesTo level f.type (level.slot f) (level.source.field f.name false) :=
      copies_field f unmapped present rfl (plain.1.types f here) (plain.2 f here)
    have others : cv.CopiesFields level sources rest :=
      copies_fields rest unmapped (fun g mem => found g (List.mem_cons_of_mem f mem))
        ⟨plain.1.tail, fun g mem => plain.2 g (List.mem_cons_of_mem f mem)⟩
    exact copiesFields_cons chosen required first others

/-- A field is copied if its type is. -/
theorem copies_field : ∀ (f : Field) {level : Level} {slot : Slot} {place : Place},
    level.table = .empty → slot.place.optional = false → place.optional = false →
    cv.Takes f.type → (∀ inner, f.type.HasStruct inner → cv.Plain inner) →
    cv.CopiesTo level f.type slot place
  | ⟨_, type, _, _⟩, _, _, _, unmapped, given, present, takes, within =>
    copies_type type unmapped given present takes within

/-- A type that is taken is copied, with all structs in it plain. -/
theorem copies_type : ∀ (ty : Ty) {level : Level} {slot : Slot} {place : Place},
    level.table = .empty → slot.place.optional = false → place.optional = false →
    cv.Takes ty → (∀ inner, ty.HasStruct inner → cv.Plain inner) → cv.CopiesTo level ty slot place
  | .primitive _, _, _, _, _, given, _, takes, _ => copiesTo_of_isCopied rfl given takes.known
  | .enum .., _, _, _, _, given, _, takes, _ => copiesTo_of_isCopied rfl given takes.known
  | .typedef .., _, _, _, _, given, _, takes, _ => copiesTo_of_isCopied rfl given takes.known
  | .binary, _, _, _, _, _, _, _, _ => copiesTo_binary
  | .set _, _, _, _, _, _, _, takes, _ => by
    -- sets are not supported, so none is taken
    have supported := takes.supported (by simp [Ty.kind])
    simp [Ty.isSupported, Ty.resolved] at supported
  | .struct name file fields, level, slot, place, unmapped, _, _, takes, within => by
    have each : EachStruct cv.Plain fields :=
      EachStruct.of_hasStruct (s := ⟨name, file, fields⟩) within rfl
    have inner : cv.CopiesFields (level.descend slot.path slot.place place) fields fields :=
      copies_fields fields unmapped (fun f mem => findField?_of_namesDiffer each.1.differ mem) each
    exact copiesTo_of_body (s := ⟨name, file, fields⟩) (copiesBody_of_fields takes.known inner)
  | .list element, level, slot, place, unmapped, _, present, takes, within => by
    have supported := takes.supported (by simp [Ty.kind])
    have plain : element.resolved.isAggregate = false := by
      simpa [Ty.isSupported, Ty.resolved] using supported
    have known := takes.knownElements .list element rfl
    exact copiesTo_of_elements rfl present known plain
      (copies_element element unmapped known fun inner has => within inner (.element rfl has))
  | .map key value, level, slot, place, unmapped, _, present, takes, within => by
    have supported := takes.supported (by simp [Ty.kind])
    obtain ⟨keyed, plain⟩ : key.resolved.isString = true ∧ value.resolved.isAggregate = false := by
      simpa [Ty.isSupported, Ty.resolved] using supported
    have kind : (Ty.map key value).elements? = some (.map, value) := by simp [Ty.elements?, keyed]
    have known := takes.knownElements .map value kind
    exact copiesTo_of_elements kind present known plain
      (copies_element value unmapped known fun inner has => within inner (.element kind has))

/-- So is an element. -/
theorem copies_element : ∀ (element : Ty) {level : Level} {slot : Slot},
    level.table = .empty → cv.Knows element →
    (∀ inner, element.HasStruct inner → cv.Plain inner) → cv.CopiesElement level slot element
  | .struct name file fields, level, slot, unmapped, known, within => by
    have each : EachStruct cv.Plain fields :=
      EachStruct.of_hasStruct (s := ⟨name, file, fields⟩) within rfl
    have inner : cv.CopiesFields (level.descend slot.path slot.place cv.elementVar) fields fields :=
      copies_fields fields unmapped (fun f mem => findField?_of_namesDiffer each.1.differ mem) each
    exact .inr ⟨⟨name, file, fields⟩, rfl, copiesBody_of_fields known inner⟩
  | .primitive _, _, _, _, _, _ => .inl rfl
  | .enum .., _, _, _, _, _ => .inl rfl
  | .typedef .., _, _, _, _, _ => .inl rfl
  | .binary, _, _, _, _, _ => .inl rfl
  | .list _, _, _, _, _, _ => .inl rfl
  | .map .., _, _, _, _, _ => .inl rfl
  | .set _, _, _, _, _, _ => .inl rfl

end

end Converter

/-- A conversion of plain fields to themselves is a copy: nothing is chosen and no variable is
staged, and each field of every struct that is filled is written once, in the order of the
fields. -/
theorem identity_copies {cv : Converter} {fields : List Field}
    (plain : EachStruct cv.Plain fields) :
    ∃ block, cv.convert fields fields .empty = .ok block ∧
      Copies cv.settings (.fields .output .input fields) block ∧
      (∀ t ∈ block.walk, t.IsCopying) ∧
      ∀ d source level, Transfer.Fills cv.settings (.fields .output .input fields) d source level →
        List.Forall₂ (fun f => Begins (d.field f.name false) (source.field f.name false) f.type)
          level (block.writesTo (d.fields level)) := by
  have found : ∀ f ∈ fields, findField? fields f.name = some f :=
    fun f mem => findField?_of_namesDiffer plain.1.differ mem
  obtain ⟨block, emitted, copies⟩ : cv.CopiesFields (.top .empty) fields fields :=
    copies_fields fields rfl found plain
  have differ : EachStruct NamesDiffer fields :=
    ⟨plain.1.differ, fun f mem inner has => (plain.2 f mem inner has).differ⟩
  exact ⟨block, Converter.emit_of_emits emitted, copies, copies.isCopying rfl,
    fun d source level fills => copies.writes_level differ fills⟩

/-- A type without fields and elements of its own has no structs. -/
theorem Ty.not_hasStruct {ty : Ty} {inner : List Field} (whole : ty.isStruct = false)
    (single : ty.elements? = none) : ¬ ty.HasStruct inner := by
  intro has
  cases has with
  | here => cases whole
  | field => cases whole
  | element kind => simp [single] at kind

namespace Parcel

/-! Bytes, an alias of a set, and a list of structs that have a map. -/

/-- Notes by their titles. -/
def note : Field := ⟨"Notes", .map (.primitive .string) (.primitive .i64), true, "a.thrift"⟩

/-- A line has a price and notes. -/
def line : Struct := ⟨"Line", "a.thrift", [⟨"Price", .primitive .i32, true, "a.thrift"⟩, note]⟩

/-- An alias of a set is supported, although a set is not. -/
def setAlias (name : String) : Ty := .typedef name "a.thrift" (.set (.primitive .string))

/-- The fields of a parcel. -/
def fields : List Field :=
  [⟨"Seal", .binary, true, "a.thrift"⟩, ⟨"Tags", setAlias "Tags", true, "a.thrift"⟩,
    ⟨"Lines", .list line.toTy, true, "a.thrift"⟩]

def converter : Converter :=
  { namespaces := .registry [("a.thrift", "crate::a")] }

/-- The converter knows what has no file, and the file of the parcel. -/
theorem knows {ty : Ty} (h : ty.file? = none ∨ ty.file? = some "a.thrift") :
    converter.Knows ty := by
  intro file found
  rcases h with none | some
  · simp [none] at found
  · obtain rfl : "a.thrift" = file := by simpa [some] using found
    exact ⟨_, rfl⟩

/-- The fields of a line are plain. -/
theorem plain_line : converter.Plain line.fields where
  differ := by unfold NamesDiffer; decide
  required := by decide
  types f mem := by
    rcases List.mem_cons.1 mem with rfl | mem
    · exact ⟨fun _ => rfl, knows (.inl rfl), fun _ _ kind => by cases kind⟩
    · obtain rfl := List.mem_singleton.1 mem
      refine ⟨fun _ => rfl, knows (.inl rfl), fun _ element kind => ?_⟩
      obtain ⟨_, rfl⟩ : _ ∧ Ty.primitive .i64 = element := by
        simpa [note, Ty.elements?, Ty.resolved, Ty.isString] using kind
      exact knows (.inl rfl)

/-- There is no struct in a note. -/
theorem note_plain {inner : List Field} : ¬ note.type.HasStruct inner := by
  intro has
  cases has with
  | element kind has =>
    cases kind
    exact Ty.not_hasStruct rfl rfl has

/-- The struct in a list of lines is the line. -/
theorem plain_inside {inner : List Field} (has : (Ty.list line.toTy).HasStruct inner) :
    converter.Plain inner := by
  -- the only struct inside is the line
  cases has with
  | element kind has =>
    cases kind
    generalize same : line.toTy = ty at has
    cases has with
    | here =>
      cases same
      exact plain_line
    | field mem has =>
      cases same
      rcases List.mem_cons.1 mem with rfl | mem
      · exact absurd has (Ty.not_hasStruct rfl rfl)
      · obtain rfl := List.mem_singleton.1 mem
        exact absurd has note_plain
    | element kind =>
      cases same
      cases kind

/-- All structs of a parcel are plain. -/
theorem plain : EachStruct converter.Plain fields := by
  refine ⟨⟨by unfold NamesDiffer; decide, by decide, fun f mem => ?_⟩, fun f mem inner has => ?_⟩
  · rcases List.mem_cons.1 mem with rfl | mem
    · exact ⟨fun _ => rfl, knows (.inl rfl), fun _ _ kind => by cases kind⟩
    · rcases List.mem_cons.1 mem with rfl | mem
      · exact ⟨fun other => absurd rfl other, knows (.inr rfl), fun _ _ kind => by cases kind⟩
      · obtain rfl := List.mem_singleton.1 mem
        exact ⟨fun _ => rfl, knows (.inl rfl), fun _ _ kind => by cases kind; exact knows (.inr rfl)⟩
  · rcases List.mem_cons.1 mem with rfl | mem
    · exact absurd has (Ty.not_hasStruct rfl rfl)
    · rcases List.mem_cons.1 mem with rfl | mem
      · exact absurd has (Ty.not_hasStruct rfl rfl)
      · obtain rfl := List.mem_singleton.1 mem
        exact plain_inside has

/-- The place of the lines' element. -/
def element : Place :=
  (loopBinding {} .list).element (Place.output.field "Lines" false)

/-- A parcel is copied; the fields of its lines are written once each, in their order. -/
theorem identity_copies_fields :
    EachStruct converter.Plain fields ∧
      ∃ block, converter.convert fields fields .empty = .ok block ∧
        Copies {} (.fields .output .input fields) block ∧ (∀ t ∈ block.walk, t.IsCopying) ∧
        ∃ w w', block.writesTo (element.fields line.fields) = [w, w'] ∧
          Begins (element.field "Price" false) ((Place.var "value" false).field "Price" false)
            (.primitive .i32) w ∧
          Begins (element.field "Notes" false) ((Place.var "value" false).field "Notes" false)
            note.type w' := by
  obtain ⟨block, h, copies, copying, levels⟩ := identity_copies plain
  have fills : Transfer.Fills {} (.fields .output .input fields) element (.var "value" false)
      line.fields := by
    have lines : ⟨"Lines", .list line.toTy, true, "a.thrift"⟩ ∈ fields := by simp [fields]
    exact .field lines (.element rfl (.struct .here))
  have level := levels _ _ _ fills
  generalize same : block.writesTo (element.fields line.fields) = written at level
  obtain _ | ⟨price, _ | ⟨notes, _ | _⟩⟩ := level
  exact ⟨plain, block, h, copies, copying, _, _, same, price, notes⟩

end Parcel

end Crosswalk
