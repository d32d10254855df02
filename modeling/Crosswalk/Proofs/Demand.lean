import Crosswalk.Proofs.Emission.Complete
import Crosswalk.Proofs.Table
import Crosswalk.Proofs.Tree

/-!
# What a conversion asks for

A conversion asks the mapping table for the paths of destination fields only, and the source for
their names. Two runs that are given the same answers give the same block or the same error.
-/

namespace Crosswalk
set_option autoImplicit false

/-! ## Tables that give the same answers -/

namespace MappingTable

/-- Two tables have the same entries at the paths of the fields below a path. -/
def AgreeBelow (t t' : MappingTable) (path : Path) (dests : List Field) : Prop :=
  ∀ segments f, FieldAt dests segments f →
    t.get? ⟨path.segments ++ segments⟩ = t'.get? ⟨path.segments ++ segments⟩

/-- Two tables have the same entries below the path of a slot that is filled with a type. -/
structure AgreeIn (t t' : MappingTable) (path : Path) (type : Ty) : Prop where
  struct : ∀ s : Struct, type = s.toTy → t.AgreeBelow t' path s.fields
  elements : ∀ shape (s : Struct), type.elements? = some (shape, s.toTy) →
    t.AgreeBelow t' (path.extend shape.marker) s.fields

variable {t t' : MappingTable} {path : Path} {dests rest : List Field} {f : Field}

/-- The tables agree at the path of each field. -/
theorem AgreeBelow.get?_eq (agree : t.AgreeBelow t' path dests) (mem : f ∈ dests) :
    t.get? (path.field f.name) = t'.get? (path.field f.name) :=
  agree _ f (.here mem)

/-- The tables agree below each field. -/
theorem AgreeBelow.inside (agree : t.AgreeBelow t' path dests) (mem : f ∈ dests) :
    t.AgreeIn t' (path.field f.name) f.type where
  struct s kind segments g found := by
    have same := agree _ g (.struct mem kind found)
    simpa [Path.field, Path.extend] using same
  elements shape s kind segments g found := by
    have same := agree _ g (.element mem kind found)
    simpa [Path.field, Path.extend] using same

/-- The tables agree on fewer fields. -/
theorem AgreeBelow.tail (agree : t.AgreeBelow t' path (f :: rest)) :
    t.AgreeBelow t' path rest :=
  fun segments g found => agree segments g (found.mono (List.subset_cons_self f rest))

/-- An entry at a path of no destination field leaves those of the destination fields as they are. -/
theorem get?_insert_of_not_fieldAt {entry : Entry} (unasked : ∀ f, ¬ FieldAt dests path.segments f)
    {p : Path} (found : FieldAt dests p.segments f) : (t.insert path entry).get? p = t.get? p := by
  apply get?_insert_of_ne
  rintro rfl
  exact unasked f found

/-- Tables that agree on all paths of destination fields agree below the root. -/
theorem agreeBelow_root (h : ∀ path f, FieldAt dests path.segments f → t.get? path = t'.get? path) :
    t.AgreeBelow t' .root dests :=
  fun segments f found => h ⟨segments⟩ f found

end MappingTable

/-! ## The recursion -/

/-- The same level with another mapping table. -/
def Level.withTable (l : Level) (table : MappingTable) : Level :=
  { l with table }

/-- The choice depends on the entry at the path and on the field of the name alone. -/
theorem Level.choose_congr {l : Level} {table : MappingTable} {sources sources' : List Field}
    {name : String} (entry : l.table.get? (l.path.field name) = table.get? (l.path.field name))
    (field : findField? sources name = findField? sources' name) :
    l.choose sources name = (l.withTable table).choose sources' name := by
  have mapped : l.mapping? (l.path.field name) =
      (l.withTable table).mapping? (l.path.field name) := by
    rw [mapping?, mapping?, entry]
    rfl
  have same : l.sameName? sources name = (l.withTable table).sameName? sources' name := by
    rw [sameName?, sameName?, field]
    rfl
  rw [choose, choose, mapped, same]
  rfl

namespace Converter
variable {cv : Converter} {level : Level} {table : MappingTable}

/-- The fields of a struct at a path are filled alike with another table. -/
def FilledAlike (cv : Converter) (level : Level) (table : MappingTable) (path : Path)
    (fields : List Field) : Prop :=
  ∀ dest source sources, cv.convertFields (level.descend path dest source) sources fields =
    cv.convertFields ((level.descend path dest source).withTable table) sources fields

/-- The body of a struct depends on the table only as its fields do. -/
theorem structBody_congr {name file : String} {fields : List Field} {slot : Slot}
    (alike : cv.FilledAlike level table slot.path fields) :
    cv.structBody level name file (fun inner sources => cv.convertFields inner sources fields) slot =
      cv.structBody (level.withTable table) name file
        (fun inner sources => cv.convertFields inner sources fields) slot := by
  funext source
  unfold structBody
  split
  · simp only [alike slot.place]
    rfl
  · rfl

/-- An aggregate depends on the table only as the bodies of its elements do. -/
theorem convertAggregate_congr {shape : Shape} {dest : Ty} {slot : Slot} {choice : Choice}
    {body body' : Slot → Candidate → Except ConvertError Block}
    (same : body (elementSlot cv.settings slot shape) = body' (elementSlot cv.settings slot shape)) :
    cv.convertAggregate shape dest (some body) slot choice =
      cv.convertAggregate shape dest (some body') slot choice := by
  unfold convertAggregate
  simp only [same, Option.isSome_some]

mutual

/-- Fields are converted alike where the tables agree below their level and the sources have the
same fields of their names. -/
theorem convertFields_congr : ∀ (dests : List Field) {level : Level}
    {sources sources' : List Field}, level.table.AgreeBelow table level.path dests →
    (∀ f ∈ dests, findField? sources f.name = findField? sources' f.name) →
    cv.convertFields level sources dests =
      cv.convertFields (level.withTable table) sources' dests
  | [], _, _, _, _, _ => rfl
  | f :: rest, level, sources, sources', agree, names => by
    have here : f ∈ f :: rest := List.mem_cons_self
    have first := convertField_congr f (agree.get?_eq here) (agree.inside here) (names f here)
    have others := convertFields_congr rest agree.tail
      fun g mem => names g (List.mem_cons_of_mem f mem)
    rw [convertFields, convertFields, first, others]

/-- A field is converted alike where the tables agree at its path and below. -/
theorem convertField_congr : ∀ (f : Field) {level : Level} {sources sources' : List Field},
    level.table.get? (level.path.field f.name) = table.get? (level.path.field f.name) →
    level.table.AgreeIn table (level.path.field f.name) f.type →
    findField? sources f.name = findField? sources' f.name →
    cv.convertField level sources f = cv.convertField (level.withTable table) sources' f
  | ⟨name, type, required, file⟩, level, sources, sources', entry, inside, field => by
    have chosen : level.choose sources name = (level.withTable table).choose sources' name :=
      Level.choose_congr entry field
    rw [convertField, convertField, ← chosen]
    congr 1
    funext choice
    exact convertType_congr type inside

/-- A slot is filled alike where the tables agree below it. -/
theorem convertType_congr : ∀ (type : Ty) {level : Level} {slot : Slot} {choice : Choice},
    level.table.AgreeIn table slot.path type →
    cv.convertType level slot choice type =
      cv.convertType (level.withTable table) slot choice type
  -- types whose conversion has no level below read neither table nor fields
  | .primitive _, _, _, _, _ => rfl
  | .enum .., _, _, _, _ => rfl
  | .typedef .., _, _, _, _ => rfl
  | .binary, _, _, _, _ => rfl
  | .set _, _, _, _, _ => rfl
  | .struct name file fields, level, slot, choice, inside => by
    have below := inside.struct ⟨name, file, fields⟩ rfl
    -- the struct's fields are filled one level down, where the tables agree as well
    have alike : cv.FilledAlike level table slot.path fields :=
      fun _ _ _ => convertFields_congr fields below fun _ _ => rfl
    rw [convertType, convertType, structBody_congr alike]
  | .list element, level, slot, choice, inside => by
    exact convertElements_congr element fun s same => inside.elements .list s (by rw [same]; rfl)
  | .map key value, level, slot, choice, inside => by
    rw [convertType, convertType]
    cases keyed : key.resolved.isString with
    -- keys that are no strings are refused before the table is read
    | false => simp [checkKey, keyed, Path.unsupported, Path.fail, bind, Except.bind]
    | true =>
      have elements : (Ty.map key value).elements? = some (.map, value) := by
        simp [Ty.elements?, keyed]
      congr 1
      funext _
      exact convertElements_congr value fun s same => inside.elements .map s (by rw [elements, same])

/-- An aggregate is filled alike where the tables agree below its elements. -/
theorem convertElements_congr : ∀ (dest : Ty) {level : Level} {shape : Shape} {slot : Slot}
    {choice : Choice},
    (∀ s : Struct, dest = s.toTy →
      level.table.AgreeBelow table (elementSlot cv.settings slot shape).path s.fields) →
    cv.convertAggregate shape dest (cv.elementBody? level dest) slot choice =
      cv.convertAggregate shape dest (cv.elementBody? (level.withTable table) dest) slot choice
  | .struct name file fields, level, shape, slot, choice, below => by
    have inside := below ⟨name, file, fields⟩ rfl
    have alike : cv.FilledAlike level table (elementSlot cv.settings slot shape).path fields :=
      fun _ _ _ => convertFields_congr fields inside fun _ _ => rfl
    exact convertAggregate_congr (structBody_congr alike)
  -- elements of all other types are copied as they are
  | .primitive _, _, _, _, _, _ => rfl
  | .enum .., _, _, _, _, _ => rfl
  | .typedef .., _, _, _, _, _ => rfl
  | .binary, _, _, _, _, _ => rfl
  | .list _, _, _, _, _, _ => rfl
  | .map .., _, _, _, _, _ => rfl
  | .set _, _, _, _, _, _ => rfl

end

end Converter

/-! ## Two runs -/

/-- Two runs give the same block or the same error if the tables have the same entries at the paths
of destination fields, and the sources have the same first field for the names of these. -/
theorem convert_congr {cv : Converter} {sources sources' dests : List Field}
    {table table' : MappingTable}
    (entries : ∀ path f, FieldAt dests path.segments f → table.get? path = table'.get? path)
    (names : ∀ f ∈ dests, findField? sources f.name = findField? sources' f.name) :
    cv.convert sources dests table = cv.convert sources' dests table' := by
  have agree : table.AgreeBelow table' .root dests := MappingTable.agreeBelow_root entries
  exact Converter.convertFields_congr dests agree names

namespace Invoice

/-! The prices of lines are mapped; an entry that leaves out the step into the elements is not
asked for. -/

/-- The price of a line. -/
def price : Field := ⟨"Price", .primitive .i32, true, "b.thrift"⟩

/-- A line has a price. -/
def line : Struct := ⟨"Line", "b.thrift", [price]⟩

/-- An invoice of lines. -/
def dests : List Field := [⟨"Lines", .list line.toTy, true, "b.thrift"⟩]

/-- The items have no field of that name. -/
def sources : List Field := [⟨"Lines", .list (.struct "Item" "a.thrift" []), true, "a.thrift"⟩]

/-- The entry for the price, taken from the top of the source. -/
def rate : Entry := ⟨.ofFields ["Rate"], ⟨"Rate", .primitive .i32, true, "a.thrift"⟩, [], true⟩

/-- The price of each line is mapped. -/
def table : MappingTable :=
  MappingTable.empty.insert ⟨[.field "Lines", .index, .field "Price"]⟩ rate

/-- The path of the price without the step into the lines. -/
def misplaced : Path := ⟨[.field "Lines", .field "Price"]⟩

/-- A converter that knows the file of the invoice. -/
def converter : Converter :=
  { namespaces := .registry [("b.thrift", "crate::b")] }

/-- No destination field is at the path that leaves out the step. -/
theorem not_fieldAt_misplaced {f : Field} : ¬ FieldAt dests misplaced.segments f := by
  intro found
  generalize same : misplaced.segments = segments at found
  cases found with
  | here => simp [misplaced] at same
  | struct mem kind below =>
    obtain rfl := List.mem_singleton.1 mem
    cases kind
  | @element _ _ _ _ shape =>
    cases shape <;> simp [misplaced, Shape.marker] at same

/-- Neither the misplaced entry nor a further field of the source changes the block. -/
theorem convert_same_with_misplaced :
    ∃ block, converter.convert sources dests table = .ok block ∧
      converter.convert (sources ++ [rate.field]) dests (table.insert misplaced rate) =
        .ok block := by
  have converts : ∃ block, converter.convert sources dests table = .ok block := ⟨_, rfl⟩
  obtain ⟨block, h⟩ := converts
  refine ⟨block, h, (convert_congr ?_ ?_).symm.trans h⟩
  · intro path f found
    exact (MappingTable.get?_insert_of_not_fieldAt (fun _ => not_fieldAt_misplaced) found).symm
  · intro f mem
    obtain rfl := List.mem_singleton.1 mem
    rfl

end Invoice

end Crosswalk
