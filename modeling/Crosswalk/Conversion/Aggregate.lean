import Crosswalk.Conversion.Converter

/-!
# Lists and maps

A list or map is allocated and filled by a loop over its source. Of two sources a variable gets the
one that is present, before the loop; if the elements are structs, a second variable remembers
which, since the elements of the two sources are filled in different ways.
-/

namespace Crosswalk
set_option autoImplicit false

namespace Converter

/-- The choice between two aggregates, made before the loop. -/
structure Staging where
  block : Block
  iterable : Place
  /-- The variable that tells, for elements that are structs, whether the primary was taken. -/
  flag? : Option String

/-- The variable that holds the selected list or map for a path. -/
def sourceListVar (s : Settings) (path : Path) : String :=
  s.sourceList ++ "_" ++ path.ident

/-- The variable that tells whether the primary source was taken for a path. -/
def overrideFlagVar (s : Settings) (path : Path) : String :=
  s.overrideFlag ++ "_" ++ path.ident

/-- A single source is iterated where it is; of two, a variable gets the one that is present. -/
def stage (s : Settings) (path : Path) (ofStructs : Bool) (choice : Choice) : Staging :=
  match choice.fallback? with
  | none => ⟨[], choice.primary.place, none⟩
  | some fallback =>
    let selected := Place.var (sourceListVar s path) fallback.optional
    let flag := overrideFlagVar s path
    let mark (taken : Bool) : Block :=
      if ofStructs then [.assign (.var flag false) (.bool taken)] else []
    let takePrimary := .assign selected (.read choice.primary.place) :: mark true
    { block := .assign selected (.read fallback.place) :: mark false ++
        [.guarded (.isPresent choice.primary.place) takePrimary]
      iterable := selected
      flag? := if ofStructs then some flag else none }

/-- The variables of the loop. -/
def loopBinding (s : Settings) : Shape → Binding
  | .list => .index s.index s.value
  | .map => .key s.key s.value

/-- The slot of the element in a turn of the loop. -/
def elementSlot (s : Settings) (slot : Slot) : Shape → Slot
  | .list => ⟨slot.path.index, slot.place.index s.index⟩
  | .map => ⟨slot.path.key, slot.place.key s.key⟩

/-- The storage for elements of a named type. -/
def storage (element : String) (boxed : Bool) : Shape → Storage
  | .list => .list element boxed
  | .map => .map element boxed

/-- One turn of the loop for elements that are structs. -/
def structElement (body : Candidate → Except ConvertError Block) (value : Place)
    (flag? : Option String) (primary : Ty) (fallback? : Option Ty) :
    Except ConvertError Block := do
  let fromPrimary ← body (.ofElement primary value)
  match flag?, fallback? with
  | some flag, some fallback =>
    let fromFallback ← body (.ofElement fallback value)
    return [.branch (.flag flag) fromPrimary fromFallback]
  | _, _ => return fromPrimary

/-- One turn of the loop for other elements. -/
def scalarElement (slot : Slot) (dest : Ty) (type : String) (value : Place) (sources : List Ty) :
    Except ConvertError Block := do
  sources.forM (checkCompatible slot.path dest)
  return [.assign slot.place (.cast type value false)]

/-- Allocates the aggregate at a slot and fills it by a loop; `body?` fills struct elements. -/
def convertAggregate (cv : Converter) (shape : Shape) (dest : Ty)
    (body? : Option (Slot → Candidate → Except ConvertError Block)) (slot : Slot)
    (choice : Choice) : Except ConvertError Block := do
  checkElement slot.path shape dest
  let type ← cv.typeName slot.path dest
  let primary ← sourceElement slot.path shape choice.primary
  let fallback? ← choice.fallback?.mapM (sourceElement slot.path shape)
  let staging := stage cv.settings slot.path body?.isSome choice
  let element := elementSlot cv.settings slot shape
  let value := Place.var cv.settings.value false
  let turn ← match body? with
    | some body => structElement (body element) value staging.flag? primary fallback?
    | none => scalarElement element dest type value (primary :: fallback?.toList)
  let filling : Block :=
    [.allocate slot.place (storage type body?.isSome shape) (some staging.iterable),
      .loop staging.iterable (loopBinding cv.settings shape) turn]
  return staging.block ++
    if staging.iterable.optional then
      [.branch (.isPresent staging.iterable) filling [.assign slot.place .null]]
    else filling

end Converter

end Crosswalk
