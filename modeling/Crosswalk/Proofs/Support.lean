import Crosswalk.Proofs.Emission.Sound
import Crosswalk.Proofs.Reach

/-!
# Unsupported types

Sets, maps without strings as keys and aggregates of aggregates are never converted element by
element. An alias of one is copied whole, and then only the kinds of the two types are compared.
-/

namespace Crosswalk
set_option autoImplicit false
open Converter

/-- No set, only strings as keys and no aggregate of aggregates, all of it behind aliases. -/
def Ty.isSupported (ty : Ty) : Bool :=
  match ty.resolved with
  | .set _ => false
  | .list element => !element.resolved.isAggregate
  | .map key value => key.resolved.isString && !value.resolved.isAggregate
  | _ => true

/-- A name for a list, set or map. Fields of such a type are taken to be copied whole. -/
def Ty.isAggregateAlias : Ty → Bool
  | .typedef _ _ target => target.resolved.isAggregate
  | _ => false

/-- The types of a destination field and of all sources for it are supported. -/
def Supported (f : Field) (choice : Choice) : Prop :=
  f.type.isSupported = true ∧ ∀ c ∈ choice.candidates, c.type.isSupported = true

namespace Ty

/-- What is no aggregate is supported, behind whatever names. -/
theorem isSupported_of_not_isAggregate {ty : Ty} (h : ty.resolved.isAggregate = false) :
    ty.isSupported = true := by
  unfold isSupported
  cases hr : ty.resolved <;> simp_all [isAggregate]

/-- A list or map is supported if its elements are no aggregates. -/
theorem isSupported_of_elements? {ty element : Ty} {shape : Shape}
    (h : ty.resolved.elements? = some (shape, element))
    (plain : element.resolved.isAggregate = false) : ty.isSupported = true := by
  unfold isSupported
  rcases elements?_eq_some h with ⟨_, list⟩ | ⟨_, key, keyed, map⟩
  · simp [list, plain]
  · simp [map, keyed, plain]

/-- A type that has elements by itself is no name for another. -/
theorem resolved_of_elements? {ty element : Ty} {shape : Shape}
    (h : ty.elements? = some (shape, element)) : ty.resolved = ty := by
  cases ty with
  | typedef name file target => simp [elements?] at h
  | _ => rfl

/-- What is copied whole is an alias of an aggregate or no aggregate. -/
theorem not_isAggregate_of_isCopied {ty : Ty} (kind : ty.isCopied = true)
    (h : ty.isAggregateAlias = false) : ty.resolved.isAggregate = false := by
  cases ty <;> simp_all [isCopied, isAggregateAlias, resolved, isAggregate]

/-- Types of one kind are aggregates or none alike. -/
theorem isAggregate_eq_of_kind_eq {a b : Ty} (h : a.kind = b.kind) :
    a.isAggregate = b.isAggregate := by
  cases a <;> cases b <;> simp_all [kind, isAggregate]

end Ty

namespace Converter

/-- A value that is copied whole comes from a type that is copied whole. -/
theorem not_isAggregate_of_compatible {dest source : Ty} (h : compatible dest source = true)
    (plain : dest.isAggregate = false) : source.isAggregate = false := by
  unfold compatible at h
  split at h
  · simp only [Ty.isScalar, Bool.and_eq_true, Bool.not_eq_true'] at h
    exact h.1
  · have kinds : dest.kind = source.kind := by simpa using h
    rw [← Ty.isAggregate_eq_of_kind_eq kinds]
    exact plain

theorem not_isAggregate_of_isBytes {ty : Ty} (h : isBytes ty = true) : ty.isAggregate = false := by
  cases ty <;> simp_all [isBytes, Ty.isAggregate]

end Converter

/-- What is filled, unless it is an alias of an aggregate, is supported, as are its sources. -/
theorem Emits.supported {cv : Converter} {level : Level} {slot : Slot} {choice : Choice} {type : Ty}
    {block : Block} (h : Emits cv (.value level slot choice type) block)
    (direct : type.isAggregateAlias = false) :
    type.isSupported = true ∧ ∀ c ∈ choice.candidates, c.type.isSupported = true := by
  -- by the rule; a source has the same shape as what it is filled into
  cases h with
  | copied kind named agree =>
    have plain := Ty.not_isAggregate_of_isCopied kind direct
    refine ⟨Ty.isSupported_of_not_isAggregate plain, fun c hc => ?_⟩
    exact Ty.isSupported_of_not_isAggregate (not_isAggregate_of_compatible (agree c hc) plain)
  | binary agree =>
    refine ⟨rfl, fun c hc => ?_⟩
    exact Ty.isSupported_of_not_isAggregate (not_isAggregate_of_isBytes (agree c hc))
  | struct bodies =>
    refine ⟨rfl, fun c hc => ?_⟩
    obtain ⟨_, _, _, _, _, struct, _⟩ := (bodies c hc).body_inv
    exact Ty.isSupported_of_not_isAggregate (by rw [struct]; rfl)
  | elements kind whole plain named sources =>
    have own := Ty.resolved_of_elements? kind
    refine ⟨Ty.isSupported_of_elements? (own.symm ▸ kind) plain, fun c hc => ?_⟩
    obtain ⟨held, flat, _⟩ := sources c hc
    exact Ty.isSupported_of_elements? held flat
  | structs kind named sources turns =>
    have own := Ty.resolved_of_elements? kind
    refine ⟨Ty.isSupported_of_elements? (own.symm ▸ kind) rfl, fun c hc => ?_⟩
    obtain ⟨_, _, _, _, _, struct, _⟩ := (turns c hc).body_inv
    refine Ty.isSupported_of_elements? (sources c hc) ?_
    rw [Candidate.ofElement] at struct
    rw [struct]
    rfl

/-- An alias of an aggregate converts from every source of its kind, whatever the elements are. -/
theorem Converter.aggregateAlias_converts_iff {cv : Converter} {level : Level} {slot : Slot}
    {choice : Choice} {name file : String} {target : Ty} (h : target.resolved.isAggregate = true) :
    (∃ block, cv.convertType level slot choice (.typedef name file target) = .ok block) ↔
      (∃ type, cv.qualified name file slot.path = .ok type) ∧
        ∀ c ∈ choice.candidates, c.type.resolved.kind = target.resolved.kind := by
  have scalar : target.resolved.isScalar = false := by simp [Ty.isScalar, h]
  have accepts : ∀ c : Candidate, checkCompatible slot.path (.typedef name file target) c.type =
      .ok () ↔ c.type.resolved.kind = target.resolved.kind := by
    intro c
    rw [checkCompatible_eq_ok_iff, compatible, Ty.resolved, scalar]
    simp only [Bool.false_eq_true, if_false, beq_iff_eq]
    exact eq_comm
  constructor
  · rintro ⟨block, converted⟩
    simp only [convertType, convertScalar, bind_eq_ok] at converted
    obtain ⟨type, named, _, agree, _⟩ := converted
    exact ⟨⟨type, named⟩, fun c hc => (accepts c).1 (forM_eq_ok_iff.1 agree c hc)⟩
  · rintro ⟨⟨type, named⟩, kinds⟩
    have agree := forM_eq_ok_iff.2 fun c hc => (accepts c).2 (kinds c hc)
    exact ⟨_, bind_eq_ok.2 ⟨type, named, bind_eq_ok.2 ⟨(), agree, rfl⟩⟩⟩

/-- In a conversion that succeeds only aliases of aggregates can be unsupported or have unsupported
sources. -/
theorem supported_iff_aliases_supported {cv : Converter} {sources dests : List Field}
    {table : MappingTable} {block : Block} (h : cv.convert sources dests table = .ok block) :
    (∀ level given f choice, Reached cv (.top table) sources dests level given f choice →
        f.type.isAggregateAlias = false → Supported f choice) ∧
      ((∀ level given f choice, Reached cv (.top table) sources dests level given f choice →
          Supported f choice) ↔
        ∀ level given f choice, Reached cv (.top table) sources dests level given f choice →
          f.type.isAggregateAlias = true → Supported f choice) := by
  have direct : ∀ level given f choice,
      Reached cv (.top table) sources dests level given f choice →
      f.type.isAggregateAlias = false → Supported f choice := by
    intro level given f choice reached isAlias
    obtain ⟨part, filled, _⟩ := reached.emits (emits_of_convert h)
    exact filled.supported isAlias
  refine ⟨direct, fun all level given f choice reached _ => all level given f choice reached, ?_⟩
  intro aliases level given f choice reached
  cases isAlias : f.type.isAggregateAlias with
  | false => exact direct level given f choice reached isAlias
  | true => exact aliases level given f choice reached isAlias

namespace Tagged

/-! A field whose type is an alias: the conversion succeeds if it is one of a list and if it is one
of a set. -/

def named (name : String) (target : Ty) : Field :=
  ⟨name, .typedef name "a.thrift" target, true, "a.thrift"⟩

/-- A field whose type is a name for an aggregate. -/
def tags (target : Ty) : Field :=
  named "Tags" target

def converter : Converter :=
  { namespaces := .registry [("a.thrift", "crate::a")] }

def choice (target : Ty) : Choice :=
  .direct (.ofField (tags target) (Place.input.field "Tags" false))

/-- Behind an alias no other field is reached. -/
theorem reached_iff {target : Ty} {level : Level} {given : List Field} {f : Field} {c : Choice} :
    Reached converter (.top .empty) [tags target] [tags target] level given f c ↔
      level = .top .empty ∧ given = [tags target] ∧ f = tags target ∧ c = choice target := by
  have chosen : (Level.top .empty).choose [tags target] "Tags" = .ok (choice target) := rfl
  constructor
  · intro reached
    cases reached with
    | here mem chosen' =>
      obtain rfl := List.mem_singleton.1 mem
      have same := chosen'.symm.trans chosen
      exact ⟨rfl, rfl, rfl, by simpa using same⟩
    | struct mem _ kind =>
      obtain rfl := List.mem_singleton.1 mem
      simp [tags, named, Struct.toTy] at kind
    | element mem _ kind =>
      obtain rfl := List.mem_singleton.1 mem
      simp [tags, named, Ty.elements?] at kind
  · rintro ⟨rfl, rfl, rfl, rfl⟩
    exact .here List.mem_cons_self chosen

/-- A list behind a name converts and is supported. -/
theorem supported_list_alias :
    ∃ block, converter.convert [tags (.list (.primitive .string))]
        [tags (.list (.primitive .string))] .empty = .ok block ∧
      ∀ level given f c, Reached converter (.top .empty) [tags (.list (.primitive .string))]
        [tags (.list (.primitive .string))] level given f c → Supported f c := by
  have converts : ∃ block, converter.convert [tags (.list (.primitive .string))]
      [tags (.list (.primitive .string))] .empty = .ok block := ⟨_, rfl⟩
  obtain ⟨block, h⟩ := converts
  refine ⟨block, h, (supported_iff_aliases_supported h).2.2 fun level given f c reached _ => ?_⟩
  obtain ⟨rfl, rfl, rfl, rfl⟩ := reached_iff.1 reached
  exact ⟨rfl, by simp [choice, Choice.direct, Choice.candidates, Candidate.ofField, tags, named,
    Ty.isSupported, Ty.resolved, Ty.isAggregate]⟩

theorem unsupported_set_alias :
    ∃ block, converter.convert [tags (.set (.primitive .string))]
        [tags (.set (.primitive .string))] .empty = .ok block ∧
      ∃ level given f c, Reached converter (.top .empty) [tags (.set (.primitive .string))]
        [tags (.set (.primitive .string))] level given f c ∧ ¬ Supported f c := by
  refine ⟨_, rfl, _, _, _, _, reached_iff.2 ⟨rfl, rfl, rfl, rfl⟩, fun supported => ?_⟩
  simp [Supported, tags, named, Ty.isSupported, Ty.resolved] at supported

end Tagged

end Crosswalk
