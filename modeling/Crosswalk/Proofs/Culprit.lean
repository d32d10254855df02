import Crosswalk.Proofs.Emission.Sound
import Crosswalk.Proofs.Sequence
import Crosswalk.Proofs.Staging

/-!
# Where a conversion fails

A conversion fails at the first field that cannot be converted. Its error is at the path of the
destination that is the cause, which may be far below: of a field that has no source, of a type that
none of the sources fits, or of one that cannot be named.

`Blames` says which errors the checks of a type report, `Refuses` which ones the conversion of a
value reports, where `inStruct` and `inElement` stand for errors of the fields of a struct.
`exists_first_failing` finds the field, and `culprit_of_error` goes down from it, by recursion on
the size of the destination fields.
-/

namespace Crosswalk
set_option autoImplicit false
open Converter

/-! ## Errors of types -/

/-- An error that a type gives at a path: its shape does not fit or is not supported, or there is no
namespace for its file. -/
inductive Blames (cv : Converter) (path : Path) (type : Ty) : ConvertError → Prop
  | mismatch {expected found : Kind} : Blames cv path type ⟨path, .mismatch expected found⟩
  | unsupported {shape : Unsupported} : Blames cv path type ⟨path, .unsupported shape⟩
  | file {file : String} {reason : NamespaceError} (named : type.file? = some file)
      (rejected : cv.namespaces file = .error reason) :
      Blames cv path type ⟨path, .noNamespace file reason⟩

section
variable {cv : Converter} {path : Path} {type dest source element : Ty} {shape : Shape}

/-- Types that do not fit are blamed on the destination. -/
theorem checkCompatible_blames :
    FailsOnly (Blames cv path type) (checkCompatible path dest source) := by
  unfold checkCompatible
  split
  · exact .ok
  · exact .error .mismatch

/-- Keys that are no strings are blamed on the map. -/
theorem checkKey_blames {key : Ty} : FailsOnly (Blames cv path type) (checkKey path key) := by
  unfold checkKey
  split
  · exact .ok
  · exact .error .unsupported

/-- Elements that are not supported are blamed on what holds them. -/
theorem checkElement_blames :
    FailsOnly (Blames cv path type) (checkElement path shape element) := by
  unfold checkElement
  split
  · exact .error .unsupported
  · exact .ok

/-- A source that has no bytes is blamed on the destination. -/
theorem checkBytes_blames : FailsOnly (Blames cv path type) (checkBytes path source) := by
  unfold checkBytes
  split
  · exact .ok
  · exact .ok
  · exact .error .mismatch

/-- A source that is no aggregate of the shape is blamed on the destination. -/
theorem elementOf_blames : FailsOnly (Blames cv path type) (elementOf path shape source) := by
  unfold elementOf
  split
  · exact .error .unsupported
  · exact .ok
  · next key value _ =>
    have keyed : FailsOnly (Blames cv path type) (checkKey path key >>= fun _ => .ok value) :=
      checkKey_blames.bind fun _ _ => .ok
    exact keyed
  · exact .error .mismatch

/-- So is a source with elements that are not supported. -/
theorem sourceElement_blames {c : Candidate} :
    FailsOnly (Blames cv path type) (sourceElement path shape c) :=
  elementOf_blames.bind fun _ _ => checkElement_blames.bind fun _ _ => .ok

/-- A name is only refused for the namespace of the file. -/
theorem qualified_blames {name file : String} (named : type.file? = some file) :
    FailsOnly (Blames cv path type) (cv.qualified name file path) := by
  unfold qualified
  split
  · exact .ok
  · next reason refused =>
    refine .error (.file named ?_)
    rcases bind_eq_error.1 refused with rejected | ⟨_, _, failed⟩
    · exact rejected
    · cases failed

/-- A type that cannot be named is to blame itself, or its file is. -/
theorem typeName_blames : FailsOnly (Blames cv path type) (cv.typeName path type) := by
  unfold typeName
  split
  · exact .ok
  · exact .ok
  · exact qualified_blames rfl
  · exact qualified_blames rfl
  · exact qualified_blames rfl
  · exact .error .unsupported

end

namespace Blames
variable {cv : Converter} {path : Path} {type : Ty} {e : ConvertError}

/-- The error is at the path that is blamed. -/
theorem path_eq (h : Blames cv path type e) : e.path = path := by
  cases h <;> rfl

/-- A type is not to blame for a source that is missing. -/
theorem cause_ne_noSource (h : Blames cv path type e) : e.cause ≠ .noSource := by
  cases h <;> simp

/-- If a file is rejected, it is that of the type. -/
theorem rejected {file : String} {reason : NamespaceError} (h : Blames cv path type e)
    (cause : e.cause = .noNamespace file reason) :
    type.file? = some file ∧ cv.namespaces file = .error reason := by
  cases h with
  | mismatch => cases cause
  | unsupported => cases cause
  | file named rejected =>
    cases cause
    exact ⟨named, rejected⟩

end Blames

/-! ## Filling a slot -/

/-- How filling a slot fails: for its type, for the type of its elements, or at the fields of a
struct, which may be an element, when they are filled from one of the sources. -/
inductive Refuses (cv : Converter) (level : Level) (slot : Slot) (choice : Choice) (type : Ty)
    (e : ConvertError) : Prop
  | type (h : Blames cv slot.path type e)
  | elements {shape : Shape} {element : Ty} (kind : type.elements? = some (shape, element))
      (h : Blames cv slot.path element e)
  | element {shape : Shape} {element : Ty} (kind : type.elements? = some (shape, element))
      (h : Blames cv (elementSlot cv.settings slot shape).path element e)
  | inStruct {s : Struct} {c : Candidate} {name file : String} {fields : List Field}
      (kind : type = s.toTy) (source : c ∈ choice.candidates)
      (struct : c.type.resolved = .struct name file fields)
      (h : cv.convertFields (level.descend slot.path slot.place c.place) fields s.fields = .error e)
  | inElement {s : Struct} {shape : Shape} {c : Candidate} {held : Ty} {name file : String}
      {fields : List Field} (kind : type.elements? = some (shape, s.toTy))
      (source : c ∈ choice.candidates) (holds : c.type.resolved.elements? = some (shape, held))
      (struct : held.resolved = .struct name file fields)
      (h : cv.convertFields (level.descend (elementSlot cv.settings slot shape).path
        (elementSlot cv.settings slot shape).place cv.elementVar) fields s.fields = .error e)

/-- How filling a struct from a source fails. -/
theorem structBody_fails {cv : Converter} {level : Level} {s : Struct} {slot : Slot}
    {source : Candidate} {P : ConvertError → Prop}
    (blames : ∀ e, Blames cv slot.path s.toTy e → P e)
    (below : ∀ name file fields, source.type.resolved = .struct name file fields → FailsOnly P
      (cv.convertFields (level.descend slot.path slot.place source.place) fields s.fields)) :
    FailsOnly P (cv.structBody level s.name s.file
      (fun inner sources => cv.convertFields inner sources s.fields) slot source) := by
  unfold structBody
  split
  · next name file fields struct =>
    have named : s.toTy.file? = some s.file := rfl
    refine FailsOnly.bind ((qualified_blames named).mono blames) fun _ _ => ?_
    exact (below name file fields struct).bind fun _ _ => .ok
  · exact .error (blames _ .mismatch)

section
variable {cv : Converter} {level : Level} {slot : Slot} {choice : Choice} {P : ConvertError → Prop}

/-- A struct fails only as one of its bodies does. -/
theorem convertStruct_fails {body : Candidate → Except ConvertError Block}
    (h : ∀ c ∈ choice.candidates, FailsOnly P (body c)) :
    FailsOnly P (convertStruct body slot choice) := by
  have each : ∀ c ∈ choice.candidates, ∀ otherwise,
      FailsOnly P (structFrom body c otherwise) :=
    fun c mem _ => (h c mem).bind fun _ _ => .ok
  obtain ⟨primary, fallback?⟩ := choice
  cases fallback? with
  | none => exact each primary Choice.primary_mem _
  | some fallback =>
    exact (each fallback (Choice.fallback_mem rfl) _).bind
      fun _ _ => each primary Choice.primary_mem _

/-- The elements of the sources are filled by turns, the primary's first. -/
theorem structElement_fails {body : Candidate → Except ConvertError Block} {value : Place}
    {flag? : Option String} {held : Candidate → Ty}
    (h : ∀ c ∈ choice.candidates, FailsOnly P (body (.ofElement (held c) value))) :
    FailsOnly P (structElement body value flag? (held choice.primary)
      (choice.fallback?.map held)) := by
  refine FailsOnly.bind (h _ Choice.primary_mem) fun _ _ => ?_
  split
  · next found =>
    obtain ⟨fallback, two, rfl⟩ := Option.map_eq_some_iff.1 found
    exact (h fallback (Choice.fallback_mem two)).bind fun _ _ => .ok
  · exact .ok

/-- Behind the checks of an aggregate its elements are filled, by `fill` if they are structs. -/
theorem convertAggregate_fails {shape : Shape} {dest : Ty}
    {fill? : Option (Slot → Candidate → Except ConvertError Block)}
    (above : ∀ e, Blames cv slot.path dest e → P e)
    (element : ∀ e, Blames cv (elementSlot cv.settings slot shape).path dest e → P e)
    (fills : ∀ fill ∈ fill?, ∀ c ∈ choice.candidates, ∀ held,
      c.type.resolved.elements? = some (shape, held) →
      FailsOnly P (fill (elementSlot cv.settings slot shape) (.ofElement held cv.elementVar))) :
    FailsOnly P (cv.convertAggregate shape dest fill? slot choice) := by
  unfold convertAggregate
  refine (checkElement_blames.mono above).bind fun _ _ => ?_
  refine (typeName_blames.mono above).bind fun name _ => ?_
  refine (sourceElement_blames.mono above).bind fun primary hp => ?_
  refine (FailsOnly.optionMapM fun _ _ => sourceElement_blames.mono above).bind
    fun fallback? hf => ?_
  -- from here on the sources are known to hold elements, which is what `fills` asks for
  obtain ⟨rfl, rfl, sources⟩ := elementTypes_eq_ok hp hf
  cases fill? with
  | none =>
    refine FailsOnly.bind (FailsOnly.bind (.forM fun _ _ => ?_) fun _ _ => .ok) fun _ _ => .ok
    exact checkCompatible_blames.mono element
  | some fill =>
    refine FailsOnly.bind (structElement_fails fun c mem => ?_) fun _ _ => .ok
    exact fills fill rfl c mem _ (sources c mem).1

/-- An aggregate is refused for its elements, or at the fields of a struct in it. -/
theorem convertElements_refuses {type dest : Ty} {shape : Shape}
    (kind : type.elements? = some (shape, dest)) :
    FailsOnly (Refuses cv level slot choice type)
      (cv.convertAggregate shape dest (cv.elementBody? level dest) slot choice) := by
  refine convertAggregate_fails (fun e h => .elements kind h) (fun e h => .element kind h)
    fun fill found c mem held holds => ?_
  cases dest with
  | struct name file fields =>
    obtain rfl := Option.some.inj found
    exact structBody_fails (s := ⟨name, file, fields⟩) (fun e h => .element kind h)
      fun _ _ _ struct _ failed => .inElement kind mem holds struct failed
  | _ => cases found

/-- A value is refused for its type. -/
theorem convertScalar_refuses {type : Ty} :
    FailsOnly (Refuses cv level slot choice type) (cv.convertScalar slot choice type) := by
  refine (typeName_blames.mono fun _ => .type).bind fun _ _ => ?_
  exact (FailsOnly.forM fun _ _ => checkCompatible_blames.mono fun _ => .type).bind fun _ _ => .ok

/-- Bytes are refused for the type of a source. -/
theorem convertBinary_refuses :
    FailsOnly (Refuses cv level slot choice .binary) (convertBinary slot choice) :=
  (FailsOnly.forM fun _ _ => checkBytes_blames.mono fun _ => .type).bind fun _ _ => .ok

/-- What `Refuses` says of a slot is how filling it fails. -/
theorem convertType_refuses {type : Ty} :
    FailsOnly (Refuses cv level slot choice type) (cv.convertType level slot choice type) := by
  cases type with
  | primitive => exact convertScalar_refuses
  | enum => exact convertScalar_refuses
  | typedef => exact convertScalar_refuses
  | binary => exact convertBinary_refuses
  | struct name file fields =>
    refine convertStruct_fails fun c mem => ?_
    exact structBody_fails (s := ⟨name, file, fields⟩) (fun _ => .type)
      fun _ _ _ struct _ failed => .inStruct rfl mem struct failed
  | list => exact convertElements_refuses rfl
  | map key value =>
    refine (checkKey_blames.mono fun _ => .type).bind fun _ keyed => ?_
    exact convertElements_refuses (by simp [Ty.elements?, checkKey_eq_ok_iff.1 keyed])
  | set => exact .error (.type .unsupported)

end

/-! ## The first field that fails -/

/-- A field has no source if no entry maps its path and no field has its name. -/
theorem Level.choose_eq_error {l : Level} {sources : List Field} {name : String}
    {e : ConvertError} (h : l.choose sources name = .error e) :
    e = ⟨l.path.field name, .noSource⟩ ∧ l.table.get? (l.path.field name) = none ∧
      ∀ s ∈ sources, s.name ≠ name := by
  -- only where neither a field has the name nor an entry maps the path
  unfold choose at h
  cases hs : l.sameName? sources name with
  | some same =>
    cases hm : l.mapping? (l.path.field name) with
    | none => simp [hs, hm] at h
    | some e => cases overrides : e.overrides <;> simp [hs, hm, overrides] at h
  | none =>
    cases hm : l.mapping? (l.path.field name) with
    | some e => cases overrides : e.overrides <;> simp [hs, hm] at h
    | none =>
      have under : (l.path.field name).isUnder l.path = true := Path.isUnder_extend ..
      refine ⟨?_, by rwa [mapping?, if_pos under] at hm, ?_⟩
      · simpa [hs, hm, Path.fail, eq_comm] using h
      · simpa [sameName?, findField?] using hs

namespace Converter
variable {cv : Converter} {level : Level} {sources : List Field}

/-- A field is converted by choosing its source and filling its slot. -/
theorem convertField_eq (f : Field) : cv.convertField level sources f =
    level.choose sources f.name >>= fun choice =>
      cv.convertType level (level.slot f) choice f.type := by
  cases f
  rfl

/-- A single field is converted as in a list of its own. -/
theorem convertFields_singleton (f : Field) :
    cv.convertFields level sources [f] = cv.convertField level sources f := by
  simp [convertFields_eq_mapM]

/-- Of fields that cannot all be filled, those before the first that fails are filled. -/
theorem exists_first_failing {dests : List Field} {e : ConvertError}
    (h : cv.convertFields level sources dests = .error e) : ∃ before f after,
      dests = before ++ f :: after ∧ (∀ g ∈ before, ∃ b, cv.convertField level sources g = .ok b) ∧
        cv.convertField level sources f = .error e := by
  rw [convertFields_eq_mapM] at h
  cases steps : dests.mapM (cv.convertField level sources) with
  | ok filled =>
    rw [steps] at h
    cases h
  | error fault =>
    rw [steps] at h
    cases h
    exact mapM_eq_error_iff.1 steps

end Converter

/-! ## The culprit -/

/-- A destination field of a level is the cause of an error: it has no source, or the error is of its
type or of that of its elements. -/
inductive Culprit (cv : Converter) (level : Level) (given : List Field) (f : Field) :
    ConvertError → Prop
  | noSource (unmapped : level.table.get? (level.slot f).path = none)
      (unnamed : ∀ s ∈ given, s.name ≠ f.name) :
      Culprit cv level given f ⟨(level.slot f).path, .noSource⟩
  | type {e : ConvertError} (h : Blames cv (level.slot f).path f.type e) : Culprit cv level given f e
  | elements {e : ConvertError} {shape : Shape} {element : Ty}
      (kind : f.type.elements? = some (shape, element))
      (h : Blames cv (level.slot f).path element e) : Culprit cv level given f e
  | element {e : ConvertError} {shape : Shape} {element : Ty}
      (kind : f.type.elements? = some (shape, element))
      (h : Blames cv (elementSlot cv.settings (level.slot f) shape).path element e) :
      Culprit cv level given f e

/-- The fields of a struct in a field are smaller than the list that the field is in. -/
theorem sizeOf_fields_lt {dests : List Field} {f : Field} {s : Struct} (mem : f ∈ dests)
    (h : sizeOf s.toTy ≤ sizeOf f.type) : sizeOf s.fields < sizeOf dests := by
  have inDests : sizeOf f < sizeOf dests := List.sizeOf_lt_of_mem mem
  have inField : sizeOf f.type < sizeOf f := by
    cases f
    simp only [FieldOf.mk.sizeOf_spec]
    omega
  have inStruct : sizeOf s.fields < sizeOf s.toTy := by
    simp only [Struct.toTy, Ty.struct.sizeOf_spec]
    omega
  omega

/-- Elements are no larger than what holds them. -/
theorem Ty.sizeOf_le_of_elements? {type element : Ty} {shape : Shape}
    (h : type.elements? = some (shape, element)) : sizeOf element ≤ sizeOf type := by
  rcases elements?_eq_some h with ⟨_, rfl⟩ | ⟨_, key, _, rfl⟩
  · simp
  · simp

/-- An error is that of a field of some level, which is entered from the first and fails with it. -/
theorem Converter.culprit_of_error {cv : Converter} (dests : List Field) {level : Level}
    {sources : List Field} {e : ConvertError}
    (h : cv.convertFields level sources dests = .error e) :
    ∃ deep given inner f, Entered cv level sources dests deep given inner ∧
      cv.convertFields deep given inner = .error e ∧ f ∈ inner ∧ Culprit cv deep given f e := by
  obtain ⟨before, f, after, split, _, failed⟩ := exists_first_failing h
  have mem : f ∈ dests := by simp [split]
  rw [convertField_eq] at failed
  rcases bind_eq_error.1 failed with failed | ⟨choice, chosen, failed⟩
  · obtain ⟨rfl, unmapped, unnamed⟩ := Level.choose_eq_error failed
    exact ⟨_, _, _, f, .here, h, mem, .noSource unmapped unnamed⟩
  · -- only the fields of a struct fail at a level below, and they are fewer than those here
    cases convertType_refuses e failed with
    | type blames => exact ⟨_, _, _, f, .here, h, mem, .type blames⟩
    | elements kind blames => exact ⟨_, _, _, f, .here, h, mem, .elements kind blames⟩
    | element kind blames => exact ⟨_, _, _, f, .here, h, mem, .element kind blames⟩
    | @inStruct s c _ _ fields kind source struct failed =>
      have smaller := sizeOf_fields_lt (s := s) mem (by rw [kind])
      obtain ⟨deep, given, inner, g, below, culprit⟩ := culprit_of_error s.fields failed
      exact ⟨deep, given, inner, g, .struct mem chosen kind source struct below, culprit⟩
    | @inElement s shape c held _ _ fields kind source holds struct failed =>
      have smaller := sizeOf_fields_lt mem (Ty.sizeOf_le_of_elements? kind)
      obtain ⟨deep, given, inner, g, below, culprit⟩ := culprit_of_error s.fields failed
      exact ⟨deep, given, inner, g, .element mem chosen kind source holds struct below, culprit⟩
termination_by sizeOf dests

/-! ## Paths of errors -/

/-- Segments that lead from the fields of a struct down to a type: that of a field, or that of the
elements of a list or map. -/
inductive TypeAt (fields : List Field) : List Segment → Ty → Prop
  | field {p : List Segment} {f : Field} (h : FieldAt fields p f) : TypeAt fields p f.type
  | element {p : List Segment} {f : Field} {shape : Shape} {element : Ty} (h : FieldAt fields p f)
      (kind : f.type.elements? = some (shape, element)) :
      TypeAt fields (p ++ [shape.marker]) element

/-- From a single field, segments go through that field. -/
theorem TypeAt.head?_eq {f : Field} {p : List Segment} {type : Ty} (h : TypeAt [f] p type) :
    p.head? = some (.field f.name) := by
  -- the first segment is the field's name, however deep the path goes on
  have first : ∀ {p g}, FieldAt [f] p g → ∃ rest, p = .field f.name :: rest := by
    intro p g h
    cases h with
    | here mem => exact ⟨_, by rw [List.mem_singleton.1 mem]⟩
    | struct mem => exact ⟨_, by rw [List.mem_singleton.1 mem]⟩
    | element mem => exact ⟨_, by rw [List.mem_singleton.1 mem]⟩
  cases h with
  | field h =>
    obtain ⟨rest, rfl⟩ := first h
    rfl
  | element h =>
    obtain ⟨rest, rfl⟩ := first h
    rfl

namespace Culprit
variable {cv : Converter} {level : Level} {given dests : List Field} {f : Field} {e : ConvertError}

/-- The path of an error leads to a type, of which it is if its cause is a file. -/
theorem exists_typeAt (h : Culprit cv level given f e)
    (at_ : FieldAt dests (level.slot f).path.segments f) :
    ∃ type, TypeAt dests e.path.segments type ∧ ∀ file reason,
      e.cause = .noNamespace file reason → cv.namespaces file = .error reason ∧
        (type.file? = some file ∨ ∃ shape element, type.elements? = some (shape, element) ∧
          element.file? = some file) := by
  cases h with
  | noSource => exact ⟨f.type, .field at_, fun _ _ cause => by cases cause⟩
  | type blames =>
    refine ⟨f.type, blames.path_eq ▸ .field at_, fun file reason cause => ?_⟩
    obtain ⟨named, rejected⟩ := blames.rejected cause
    exact ⟨rejected, .inl named⟩
  | elements kind blames =>
    refine ⟨f.type, blames.path_eq ▸ .field at_, fun file reason cause => ?_⟩
    obtain ⟨named, rejected⟩ := blames.rejected cause
    exact ⟨rejected, .inr ⟨_, _, kind, named⟩⟩
  | @element e shape element kind blames =>
    have leads : TypeAt dests e.path.segments element := by
      rw [blames.path_eq, elementSlot_path]
      exact .element at_ kind
    refine ⟨element, leads, fun file reason cause => ?_⟩
    obtain ⟨named, rejected⟩ := blames.rejected cause
    exact ⟨rejected, .inl named⟩

/-- A culprit without a source is at its own path, where nothing is mapped, and no field has its
name. -/
theorem unmapped_unnamed (h : Culprit cv level given f e) (cause : e.cause = .noSource) :
    e.path = (level.slot f).path ∧ level.table.get? e.path = none ∧
      ∀ s ∈ given, s.name ≠ f.name := by
  cases h with
  | noSource unmapped unnamed => exact ⟨rfl, unmapped, unnamed⟩
  | type blames => exact absurd cause blames.cause_ne_noSource
  | elements _ blames => exact absurd cause blames.cause_ne_noSource
  | element _ blames => exact absurd cause blames.cause_ne_noSource

end Culprit

/-- A conversion that fails does so at the first destination field that cannot be converted, and its
error is at a path that leads from that field down to what is the cause. If that is a field without
a source, there is no mapping for it and no field of its name in the source struct that it is filled
from, at a level that fails with the error. If it is a file without a namespace, the type at the path
or that of its elements is declared in the file. -/
theorem error_at_culprit {cv : Converter} {sources dests : List Field} {table : MappingTable}
    {e : ConvertError} (h : cv.convert sources dests table = .error e) :
    e.path ≠ .root ∧ ∃ before f after type, dests = before ++ f :: after ∧
      (∀ g ∈ before, ∃ block, cv.convert sources [g] table = .ok block) ∧
      cv.convert sources [f] table = .error e ∧
      e.path.segments.head? = some (.field f.name) ∧ TypeAt [f] e.path.segments type ∧
      (e.cause = .noSource → table.get? e.path = none ∧ ∃ deep given inner g,
        Entered cv (.top table) sources [f] deep given inner ∧
        cv.convertFields deep given inner = .error e ∧ g ∈ inner ∧
        e.path = (deep.slot g).path ∧ ∀ s ∈ given, s.name ≠ g.name) ∧
      ∀ file reason, e.cause = .noNamespace file reason → cv.namespaces file = .error reason ∧
        (type.file? = some file ∨ ∃ shape element, type.elements? = some (shape, element) ∧
          element.file? = some file) := by
  obtain ⟨before, f, after, rfl, each, failed⟩ := exists_first_failing h
  have alone : ∀ g, cv.convert sources [g] table = cv.convertField (.top table) sources g :=
    fun g => convertFields_singleton g
  -- the error is that of the first field that fails, converted alone, and its culprit is looked for
  -- there
  rw [← alone] at failed
  obtain ⟨deep, given, inner, g, entered, fails, among, culprit⟩ := culprit_of_error [f] failed
  obtain ⟨below, path, at_⟩ := entered.fieldAt among
  obtain rfl : (deep.slot g).path.segments = below := path
  obtain ⟨type, typeAt, file⟩ := culprit.exists_typeAt at_
  have head := typeAt.head?_eq
  refine ⟨fun root => by simp [root, Path.root] at head, before, f, after, type, rfl,
    fun g mem => alone g ▸ each g mem, failed, head, typeAt, fun cause => ?_, file⟩
  obtain ⟨here, unmapped, unnamed⟩ := culprit.unmapped_unnamed cause
  rw [entered.table] at unmapped
  exact ⟨unmapped, deep, given, inner, g, entered, fails, among, here, unnamed⟩

namespace Tour

/-! A tour whose stops have guides, declared in a file of their own. -/

/-- A field for a text. -/
def text (name : String) : Field :=
  ⟨name, .primitive .string, true, "tours.thrift"⟩

/-- A guide with some texts, in a file of its own. -/
def guide (names : List String) : Field :=
  ⟨"Guide", .struct "Guide" "guides.thrift" (names.map text), true, "tours.thrift"⟩

/-- Stops, each with a guide. -/
def stops (names : List String) : Field :=
  ⟨"Stops", .list (.struct "Stop" "tours.thrift" [guide names]), true, "tours.thrift"⟩

/-- A title, and stops whose guides have the given texts. -/
def fields (names : List String) : List Field :=
  [text "Title", stops names]

/-- A converter that knows the given files. -/
def converter (files : List String) : Converter :=
  { namespaces := .registry (files.map (·, "crate")) }

/-- The path of the guide of a stop. -/
def guidePath : Path :=
  (Path.root.field "Stops").index.field "Guide"

/-- Deep below `Stops`, a guide without a name has no source, and guides of an unknown file cannot
be named. -/
theorem error_at_guide :
    (∃ f type, f.name = "Stops" ∧ TypeAt [f] (guidePath.field "Name").segments type ∧
      (converter ["tours.thrift", "guides.thrift"]).convert (fields []) [f] .empty =
        .error ⟨guidePath.field "Name", .noSource⟩ ∧
      ∃ deep given inner g, Entered (converter ["tours.thrift", "guides.thrift"]) (.top .empty)
        (fields []) [f] deep given inner ∧ guidePath.field "Name" = (deep.slot g).path ∧
        ∀ s ∈ given, s.name ≠ g.name) ∧
    ∃ f type, f.name = "Stops" ∧ TypeAt [f] guidePath.segments type ∧
      (converter ["tours.thrift"]).convert (fields ["Name"]) [f] .empty =
        .error ⟨guidePath, .noNamespace "guides.thrift" (.unknownFile "guides.thrift")⟩ ∧
      (converter ["tours.thrift"]).namespaces "guides.thrift" =
        .error (.unknownFile "guides.thrift") := by
  have unnamed : (converter ["tours.thrift", "guides.thrift"]).convert (fields [])
      (fields ["Name"]) .empty = .error ⟨guidePath.field "Name", .noSource⟩ := rfl
  have unknown : (converter ["tours.thrift"]).convert (fields ["Name"]) (fields ["Name"]) .empty =
      .error ⟨guidePath, .noNamespace "guides.thrift" (.unknownFile "guides.thrift")⟩ := rfl
  constructor
  · obtain ⟨_, _, f, _, type, _, _, alone, head, leads, source, _⟩ := error_at_culprit unnamed
    obtain ⟨_, deep, given, inner, g, entered, _, _, path, none⟩ := source rfl
    have name : Segment.field "Stops" = .field f.name := Option.some.inj head
    exact ⟨f, type, (Segment.field.inj name).symm, leads, alone, deep, given, inner, g, entered,
      path, none⟩
  · obtain ⟨_, _, f, _, type, _, _, alone, head, leads, _, file⟩ := error_at_culprit unknown
    have name : Segment.field "Stops" = .field f.name := Option.some.inj head
    exact ⟨f, type, (Segment.field.inj name).symm, leads, alone, (file _ _ rfl).1⟩

end Tour

end Crosswalk
