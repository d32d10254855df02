import Crosswalk.Proofs.Check
import Crosswalk.Proofs.Choice

/-!
# What a conversion emits

`Emits` has one rule for each way a destination is filled. A rule says all that a successful step
of a conversion did: which sources it chose, which types it accepted and which statements it gave.
A property of generated programs is then one induction over the rules.
-/

namespace Crosswalk
set_option autoImplicit false

/-- The slot of a destination field. -/
def Level.slot (l : Level) (f : Field) : Slot :=
  ⟨l.path.field f.name, l.dest.field f.name f.isOptional⟩

/-- The segment for the elements of an aggregate. -/
def Shape.marker : Shape → Segment
  | list => .index
  | map => .key

/-- Scalars and aliases, which stand for whole values even if they name structs or aggregates. -/
def Ty.isCopied : Ty → Bool
  | .primitive _ => true
  | .enum .. => true
  | .typedef .. => true
  | _ => false

namespace Converter

/-! ## The blocks that fill a slot -/

/-- A block under a guard if the source may be absent. -/
def ifPresent (source : Candidate) (block otherwise : Block) : Block :=
  if source.optional then [.branch (.isPresent source.place) block otherwise] else block

/-- A struct from the first source that is present, given the body for each. -/
def structBlock (slot : Slot) (choice : Choice) (body : Candidate → Block) : Block :=
  let absent : Block := [.assign slot.place .null]
  ifPresent choice.primary (body choice.primary) <|
    match choice.fallback? with
    | some fallback => ifPresent fallback (body fallback) absent
    | none => absent

/-- The turn of a loop over structs, given the turn for each source. -/
def structTurn (flag : String) (choice : Choice) (turn : Candidate → Block) : Block :=
  match choice.fallback? with
  | some fallback => [.branch (.flag flag) (turn choice.primary) (turn fallback)]
  | none => turn choice.primary

/-- Takes a source for an aggregate; for one of structs it also marks which source that was. -/
def takeBlock (s : Settings) (path : Path) (boxed optional taken : Bool) (source : Candidate) :
    Block :=
  .assign (.var (sourceListVar s path) optional) (.read source.place) ::
    if boxed then [.assign (.var (overrideFlagVar s path) false) (.bool taken)] else []

/-- The fallback is taken first, and then the primary if it is present. -/
theorem stage_block {s : Settings} {path : Path} {boxed : Bool} {primary fallback : Candidate} :
    (stage s path boxed ⟨primary, some fallback⟩).block =
      takeBlock s path boxed fallback.optional false fallback ++
        [.guarded (.isPresent primary.place)
          (takeBlock s path boxed fallback.optional true primary)] := rfl

/-- The allocation and the loop that fill an aggregate. -/
def fillBlock (s : Settings) (slot : Slot) (shape : Shape) (element : String) (boxed : Bool)
    (iterable : Place) (turn : Block) : Block :=
  [.allocate slot.place (storage element boxed shape) (some iterable),
    .loop iterable (loopBinding s shape) turn]

/-- An aggregate from the first source that is present. -/
def aggregateBlock (s : Settings) (slot : Slot) (shape : Shape) (choice : Choice)
    (element : String) (boxed : Bool) (turn : Block) : Block :=
  let staging := stage s slot.path boxed choice
  let filling := fillBlock s slot shape element boxed staging.iterable turn
  staging.block ++
    if staging.iterable.optional then
      [.branch (.isPresent staging.iterable) filling [.assign slot.place .null]]
    else filling

/-- The variable that holds the element in a turn of a loop. -/
def elementVar (cv : Converter) : Place :=
  .var cv.settings.value false

/-- Elements are one segment below their aggregate. -/
theorem elementSlot_path (s : Settings) (slot : Slot) (shape : Shape) :
    (elementSlot s slot shape).path.segments = slot.path.segments ++ [shape.marker] := by
  cases shape <;> rfl

/-- Elements have the root of their aggregate. -/
theorem elementSlot_root {s : Settings} {slot : Slot} {shape : Shape} :
    (elementSlot s slot shape).place.root = slot.place.root := by
  cases shape <;> rfl

end Converter

/-! ## The rules -/

/-- What is to be filled: the fields of a level, a slot, or a slot with a struct from one source. -/
inductive Task
  | fields (level : Level) (sources dests : List Field)
  | value (level : Level) (slot : Slot) (choice : Choice) (type : Ty)
  | body (level : Level) (struct : Struct) (slot : Slot) (source : Candidate)

open Converter in
/-- The block that a conversion gives for a task. -/
inductive Emits (cv : Converter) : Task → Block → Prop
  | nil {level : Level} {sources : List Field} : Emits cv (.fields level sources []) []
  | cons {level : Level} {sources rest : List Field} {f : Field} {choice : Choice}
      {block later : Block} (chosen : level.choose sources f.name = .ok choice)
      (filled : Emits cv (.value level (level.slot f) choice f.type) block)
      (others : Emits cv (.fields level sources rest) later) :
      Emits cv (.fields level sources (f :: rest)) (block ++ later)
  | copied {level : Level} {slot : Slot} {choice : Choice} {type : Ty} {name : String}
      (kind : type.isCopied = true) (named : cv.typeName slot.path type = .ok name)
      (agree : ∀ c ∈ choice.candidates, compatible type.resolved c.type.resolved = true) :
      Emits cv (.value level slot choice type)
        (assignChoice slot.place.optional slot.place
          (fun c => .cast name c.place slot.place.optional) choice)
  | binary {level : Level} {slot : Slot} {choice : Choice}
      (agree : ∀ c ∈ choice.candidates, isBytes c.type.resolved = true) :
      Emits cv (.value level slot choice .binary)
        (assignChoice false slot.place (fun c => .bytes c.place) choice)
  | struct {level : Level} {slot : Slot} {choice : Choice} {s : Struct} {body : Candidate → Block}
      (bodies : ∀ c ∈ choice.candidates, Emits cv (.body level s slot c) (body c)) :
      Emits cv (.value level slot choice s.toTy) (structBlock slot choice body)
  | elements {level : Level} {slot : Slot} {choice : Choice} {type dest : Ty} {shape : Shape}
      {name : String} {element : Candidate → Ty} (kind : type.elements? = some (shape, dest))
      (whole : dest.isStruct = false) (plain : dest.resolved.isAggregate = false)
      (named : cv.typeName slot.path dest = .ok name)
      (sources : ∀ c ∈ choice.candidates,
        c.type.resolved.elements? = some (shape, element c) ∧
          (element c).resolved.isAggregate = false ∧
          compatible dest.resolved (element c).resolved = true) :
      Emits cv (.value level slot choice type)
        (aggregateBlock cv.settings slot shape choice name false
          [.assign (elementSlot cv.settings slot shape).place (.cast name cv.elementVar false)])
  | structs {level : Level} {slot : Slot} {choice : Choice} {type : Ty} {s : Struct}
      {shape : Shape} {name : String} {element : Candidate → Ty} {turn : Candidate → Block}
      (kind : type.elements? = some (shape, s.toTy))
      (named : cv.typeName slot.path s.toTy = .ok name)
      (sources : ∀ c ∈ choice.candidates,
        c.type.resolved.elements? = some (shape, element c))
      (turns : ∀ c ∈ choice.candidates,
        Emits cv (.body level s (elementSlot cv.settings slot shape)
          (.ofElement (element c) cv.elementVar)) (turn c)) :
      Emits cv (.value level slot choice type)
        (aggregateBlock cv.settings slot shape choice name true
          (structTurn (overrideFlagVar cv.settings slot.path) choice turn))
  | body {level : Level} {s : Struct} {slot : Slot} {source : Candidate} {name file type : String}
      {fields : List Field} {block : Block}
      (struct : source.type.resolved = .struct name file fields)
      (named : cv.qualified s.name s.file slot.path = .ok type)
      (filled : Emits cv (.fields (level.descend slot.path slot.place source.place) fields s.fields)
        block) :
      Emits cv (.body level s slot source) (.allocate slot.place (.struct type) none :: block)

/-- All that filling a struct from a source does. -/
theorem Emits.body_inv {cv : Converter} {level : Level} {s : Struct} {slot : Slot}
    {source : Candidate} {block : Block} (h : Emits cv (.body level s slot source) block) :
    ∃ name file fields type filling, source.type.resolved = .struct name file fields ∧
      cv.qualified s.name s.file slot.path = .ok type ∧
      Emits cv (.fields (level.descend slot.path slot.place source.place) fields s.fields) filling ∧
      block = .allocate slot.place (.struct type) none :: filling := by
  cases h with
  | body struct named filled => exact ⟨_, _, _, _, _, struct, named, filled, rfl⟩

end Crosswalk
