import Crosswalk.Proofs.Clash
import Crosswalk.Proofs.Emission.Complete

/-!
# What one variable holds

Two sources of a list or map are read into one variable, but each is checked against the destination
alone. So their elements agree as far as the destination tells: either both are structs or neither
is. They need not be of one type, and any two types that agree so far meet in some program.
-/

namespace Crosswalk
set_option autoImplicit false
open Converter

/-! ## Sources that meet -/

/-- Somewhere in the block the source is read into the variable. -/
def Block.Stores (block : Block) (name : String) (c : Candidate) : Prop :=
  ∃ site optional, Occurs .start block site (.assign (.var name optional) (.read c.place))

/-- The elements of a list or map are of a type, aliases followed. -/
def Candidate.Holds (c : Candidate) (ty : Ty) : Prop :=
  ∃ shape element, c.type.resolved.elements? = some (shape, element) ∧ element.resolved = ty

/-- The two sources of a list or map are read into its variable. The elements of the primary are of
the type `a`, those of the fallback of the type `b`. -/
def Meet (cv : Converter) (sources dests : List Field) (table : MappingTable) (block : Block)
    (a b : Ty) : Prop :=
  ∃ deep given f choice path boxed fallback,
    Reached cv (.top table) sources dests deep given f choice ∧ deep.Stages f choice path boxed ∧
      choice.fallback? = some fallback ∧
      block.Stores (sourceListVar cv.settings path) choice.primary ∧
      block.Stores (sourceListVar cv.settings path) fallback ∧
      choice.primary.Holds a ∧ fallback.Holds b

/-- The block of an aggregate with two sources reads each of them into the variable. -/
theorem stores_aggregateBlock {s : Settings} {slot : Slot} {shape : Shape} {choice : Choice}
    {element : String} {boxed : Bool} {turn : Block} {c : Candidate}
    (two : choice.fallback?.isSome = true) (mem : c ∈ choice.candidates) :
    (aggregateBlock s slot shape choice element boxed turn).Stores (sourceListVar s slot.path) c := by
  obtain ⟨primary, fallback?⟩ := choice
  obtain ⟨fallback, rfl⟩ := Option.isSome_iff_exists.1 two
  rw [aggregateBlock, stage_block, List.append_assoc]
  rcases List.mem_cons.1 mem with rfl | mem
  · exact ⟨_, _, .append_right (.append_left (.yes .here))⟩
  · obtain rfl := List.mem_singleton.1 mem
    exact ⟨_, _, .append_left .here⟩

section
variable {cv : Converter} {level : Level} {f : Field} {choice : Choice} {block : Block}
  {path : Path} {boxed : Bool} {c : Candidate}

/-- The block of a list or map with two sources reads both into its variable. -/
theorem Emits.stores (h : Emits cv (.value level (level.slot f) choice f.type) block)
    (staged : level.Stages f choice path boxed) (mem : c ∈ choice.candidates) :
    block.Stores (sourceListVar cv.settings path) c := by
  obtain ⟨rfl, two, shape, element, kind, rfl⟩ := staged
  generalize level.slot f = slot at h
  generalize f.type = type at h kind
  cases h with
  | copied copied => simp [Ty.elements?_of_isCopied copied] at kind
  | binary => cases kind
  | struct => cases kind
  | elements => exact stores_aggregateBlock two mem
  | structs => exact stores_aggregateBlock two mem

/-- Every source of a reached list or map with two sources is read into its variable. -/
theorem Reached.stores {sources dests given : List Field} {table : MappingTable} {deep : Level}
    (reached : Reached cv (.top table) sources dests deep given f choice)
    (h : cv.convert sources dests table = .ok block) (staged : deep.Stages f choice path boxed)
    (mem : c ∈ choice.candidates) : block.Stores (sourceListVar cv.settings path) c := by
  obtain ⟨part, filled, within⟩ := reached.emits (emits_of_convert h)
  obtain ⟨site, optional, at_⟩ := filled.stores staged mem
  obtain ⟨site', at_'⟩ := within.occurs ⟨_, _, at_⟩ .start
  exact ⟨site', optional, at_'⟩

end

/-! ## What is checked -/

/-- A type of elements, aliases followed. -/
def Ty.IsElement (ty : Ty) : Prop :=
  ty.resolved = ty ∧ ty.isAggregate = false

/-- What is compatible with a type that is no aggregate is a struct if that is one. -/
theorem isStruct_eq_of_compatible {dest source : Ty} (plain : dest.isAggregate = false)
    (h : compatible dest source = true) : source.isStruct = dest.isStruct := by
  unfold compatible at h
  split at h
  · next scalar =>
    simp only [Ty.isScalar, Bool.and_eq_true, Bool.not_eq_true'] at scalar h
    rw [scalar.2, h.2]
  · next structured =>
    have struct : dest.isStruct = true := by simpa [Ty.isScalar, plain] using structured
    cases dest with
    | struct => cases source <;> simp_all [Ty.kind, Ty.isStruct]
    | _ => simp [Ty.isStruct] at struct

/-- The elements of the sources of a list or map are what the destination's elements tell. -/
theorem Emits.holds {cv : Converter} {level : Level} {slot : Slot} {choice : Choice}
    {type dest a : Ty} {shape : Shape} {block : Block} {c : Candidate}
    (h : Emits cv (.value level slot choice type) block)
    (kind : type.elements? = some (shape, dest)) (mem : c ∈ choice.candidates) (holds : c.Holds a) :
    a.IsElement ∧ a.isStruct = dest.resolved.isStruct := by
  -- by the rule that filled the slot: the type has elements only in the last two
  obtain ⟨shape', element', held', rfl⟩ := holds
  cases h with
  | copied copied => simp [Ty.elements?_of_isCopied copied] at kind
  | binary => cases kind
  | struct => cases kind
  | elements kind' whole plain named sources =>
    obtain ⟨rfl, rfl⟩ : shape = _ ∧ dest = _ := by simpa using kind.symm.trans kind'
    obtain ⟨held, flat, agree⟩ := sources c mem
    obtain ⟨rfl, rfl⟩ : shape = shape' ∧ _ = element' := by simpa using held.symm.trans held'
    exact ⟨⟨Ty.resolved_resolved _, flat⟩, isStruct_eq_of_compatible plain agree⟩
  | structs kind' named sources turns =>
    obtain ⟨rfl, rfl⟩ : shape = _ ∧ dest = _ := by simpa using kind.symm.trans kind'
    have held := sources c mem
    obtain ⟨rfl, rfl⟩ : shape = shape' ∧ _ = element' := by simpa using held.symm.trans held'
    obtain ⟨name, file, fields, _, _, struct, _⟩ := (turns c mem).body_inv
    rw [Candidate.ofElement] at struct
    rw [struct]
    exact ⟨⟨rfl, rfl⟩, rfl⟩

/-- Types that meet are types of elements, and both are structs or neither is. -/
theorem Meet.alike {cv : Converter} {sources dests : List Field} {table : MappingTable}
    {block : Block} {a b : Ty} (meet : Meet cv sources dests table block a b)
    (h : cv.convert sources dests table = .ok block) :
    a.IsElement ∧ b.IsElement ∧ a.isStruct = b.isStruct := by
  obtain ⟨deep, given, f, choice, path, boxed, fallback, reached, staged, two, _, _, ha, hb⟩ := meet
  obtain ⟨part, filled, _⟩ := reached.emits (emits_of_convert h)
  obtain ⟨_, _, shape, dest, kind, _⟩ := staged
  obtain ⟨elementA, structA⟩ := filled.holds kind Choice.primary_mem ha
  obtain ⟨elementB, structB⟩ := filled.holds kind (Choice.fallback_mem two) hb
  exact ⟨elementA, elementB, structA.trans structB.symm⟩

/-! ## What meets -/

namespace Basket

/-! Items that may be absent, and others that are taken then. -/

/-- Items of a type, which may be required. -/
def items (type : Ty) (required : Bool) : Field := ⟨"Items", .list type, required, "a.thrift"⟩

/-- More of them under another name. -/
def extra (type : Ty) : Field := ⟨"Extra", .list type, true, "a.thrift"⟩

/-- A source with both. -/
def sources (a b : Ty) : List Field := [items a false, extra b]

/-- The extra items are the fallback of the items. -/
def table (b : Ty) : MappingTable :=
  MappingTable.empty.insert ⟨[.field "Items"]⟩ ⟨.ofFields ["Extra"], extra b, [], false⟩

def converter : Converter :=
  { namespaces := .registry [("b.thrift", "crate::b")] }

/-- The items that may be absent, and the extra ones. -/
def choice (a b : Ty) : Choice :=
  ⟨.ofField (items a false) (.field .input "Items" true),
    some (.ofField (extra b) (.field .input "Extra" false))⟩

/-- The struct that structs are taken for, without fields. -/
def item : Struct := ⟨"Item", "b.thrift", []⟩

/-- Structs are taken for structs, and all other types for bytes. -/
def taken (type : Ty) : Ty := if type.isStruct then item.toTy else .binary

/-- The items as they are taken. -/
def dests (a : Ty) : List Field := [items (taken a) true]

variable {a b dest : Ty} {block : Block}

theorem chosen : (Level.top (table b)).choose (sources a b) "Items" = .ok (choice a b) := rfl

/-- Both sources are lists, so they share what is known of `a` and of `b`. -/
theorem held {P : Ty → Prop} (ha : P a) (hb : P b) :
    ∀ c ∈ (choice a b).candidates,
      c.type.resolved.elements? = some (.list, elementType c) ∧ P (elementType c) := by
  intro c mem
  rcases List.mem_cons.1 mem with rfl | mem
  · exact ⟨rfl, ha⟩
  · obtain rfl := List.mem_singleton.1 mem
    exact ⟨rfl, hb⟩

/-- The block for the items is the whole program, and the two sources meet in it. -/
theorem meet_of_emits (elementA : a.IsElement) (elementB : b.IsElement)
    (filled : Emits converter (.value (.top (table b)) ((Level.top (table b)).slot (items dest true))
      (choice a b) (.list dest)) block) :
    ∃ program, converter.convert (sources a b) [items dest true] (table b) = .ok program ∧
      Meet converter (sources a b) [items dest true] (table b) program a b := by
  -- the program has one field, for which both sources are staged
  have emitted : Emits converter (.fields (.top (table b)) (sources a b) [items dest true])
      (block ++ []) := .cons chosen filled .nil
  have converts : converter.convert (sources a b) [items dest true] (table b) =
      .ok (block ++ []) := emit_of_emits emitted
  have reached : Reached converter (.top (table b)) (sources a b) [items dest true]
      (.top (table b)) (sources a b) (items dest true) (choice a b) :=
    .here List.mem_cons_self chosen
  have staged : (Level.top (table b)).Stages (items dest true) (choice a b)
      ((Level.top (table b)).slot (items dest true)).path dest.isStruct :=
    ⟨rfl, rfl, .list, dest, rfl, rfl⟩
  refine ⟨_, converts, _, _, _, _, _, _, _, reached, staged, rfl, ?_, ?_, ?_, ?_⟩
  · exact reached.stores converts staged Choice.primary_mem
  · exact reached.stores converts staged (Choice.fallback_mem rfl)
  · exact ⟨.list, a, rfl, elementA.1⟩
  · exact ⟨.list, b, rfl, elementB.1⟩

/-- What a list of bytes asks of the elements of its sources. -/
def Fits (e : Ty) : Prop :=
  e.resolved.isAggregate = false ∧ compatible Ty.binary.resolved e.resolved = true

/-- A type of elements that is no struct can be read as bytes. -/
theorem fits {e : Ty} (element : e.IsElement) (other : e.isStruct = false) : Fits e := by
  have scalar : e.isScalar = true := by simp [Ty.isScalar, element.2, other]
  show e.resolved.isAggregate = false ∧ e.resolved.isScalar = true
  rw [element.1]
  exact ⟨element.2, scalar⟩

/-- The slot of an item that is a struct. -/
def itemSlot : Slot :=
  elementSlot converter.settings ((Level.top .empty).slot (items item.toTy true)) .list

/-- What a list of structs asks of the elements of its sources: the struct is filled from them. -/
def Fills (table : MappingTable) (e : Ty) : Prop :=
  Emits converter (.body (.top table) item itemSlot (.ofElement e converter.elementVar))
    [.allocate itemSlot.place (.struct "crate::b::Item") none]

/-- Any struct fills an item without fields. -/
theorem fills {e : Ty} {table : MappingTable} (is : e.isStruct = true) : Fills table e := by
  cases e with
  | struct name file fields => exact .body rfl rfl .nil
  | _ => simp [Ty.isStruct] at is

/-- Any two types of elements that are structs or both none meet in some program. -/
theorem exists_meet (elementA : a.IsElement) (elementB : b.IsElement)
    (same : a.isStruct = b.isStruct) :
    ∃ program, converter.convert (sources a b) (dests a) (table b) = .ok program ∧
      Meet converter (sources a b) (dests a) (table b) program a b := by
  rw [dests, taken]
  cases struct : a.isStruct with
  | false =>
    have other : b.isStruct = false := same.symm.trans struct
    have sources := held (P := Fits) (fits elementA struct) (fits elementB other)
    exact meet_of_emits elementA elementB (.elements rfl rfl rfl rfl sources)
  | true =>
    have other : b.isStruct = true := same.symm.trans struct
    have bodies := held (P := Fills (table b)) (fills struct) (fills other)
    have sources := fun c mem => (bodies c mem).1
    have turns := fun c mem => (bodies c mem).2
    exact meet_of_emits elementA elementB (.structs rfl rfl sources turns)

end Basket

/-! ## Variables of one type -/

/-- As far as the elements are of the types of a class, the variable of every list or map in every
program holds elements of one type exactly if the class has at most one struct and at most one type
of other elements. -/
theorem one_type_iff (U : Ty → Prop) :
    (∀ cv sources dests table block, Converter.convert cv sources dests table = .ok block →
      ∀ a b, Meet cv sources dests table block a b → U a → U b → a = b) ↔
      ∀ a b, U a → U b → a.IsElement → b.IsElement → a.isStruct = b.isStruct → a = b := by
  constructor
  · intro single a b inA inB elementA elementB same
    obtain ⟨program, converts, meet⟩ := Basket.exists_meet elementA elementB same
    exact single _ _ _ _ program converts a b meet inA inB
  · intro few cv sources dests table block converts a b meet inA inB
    obtain ⟨elementA, elementB, same⟩ := meet.alike converts
    exact few a b inA inB elementA elementB same

/-- Bytes are read into a variable that holds texts. -/
theorem Basket.bytes_meet_texts :
    ∃ program, converter.convert (sources .binary (.primitive .string)) [items .binary true]
        (table (.primitive .string)) = .ok program ∧
      Meet converter (sources .binary (.primitive .string)) [items .binary true]
        (table (.primitive .string)) program .binary (.primitive .string) ∧
      Ty.binary ≠ .primitive .string := by
  have bytes : Ty.binary.IsElement := ⟨rfl, rfl⟩
  have text : (Ty.primitive .string).IsElement := ⟨rfl, rfl⟩
  obtain ⟨program, converts, meet⟩ := exists_meet bytes text rfl
  exact ⟨program, converts, meet, nofun⟩

end Crosswalk
