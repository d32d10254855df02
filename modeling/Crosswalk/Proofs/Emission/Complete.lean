import Crosswalk.Proofs.Emission.Sound

/-!
# The rules follow conversions

Every derivation of `Emits` is a conversion that succeeds, so the two say the same of a block.

The other direction is the soundness of the rules. Each `_of_eq_ok` and `_of_copied` lemma puts one
step of the converter together from the steps of its parts, and `emit_of_emits` is the induction on
the rules that uses them.
-/

namespace Crosswalk
set_option autoImplicit false

namespace Converter

/-- The conversion that a task is. -/
def emit (cv : Converter) : Task → Except ConvertError Block
  | .fields level sources dests => cv.convertFields level sources dests
  | .value level slot choice type => cv.convertType level slot choice type
  | .body level s slot source =>
    cv.structBody level s.name s.file (fun inner sources => cv.convertFields inner sources s.fields)
      slot source

/-- A struct is taken from a source if the body for that is made. -/
theorem structFrom_of_eq_ok {body : Candidate → Except ConvertError Block} {source : Candidate}
    {otherwise b : Block} (h : body source = .ok b) :
    structFrom body source otherwise = .ok (ifPresent source b otherwise) := by
  rw [structFrom, h]
  rfl

/-- A struct is converted if all its bodies are made. -/
theorem convertStruct_of_eq_ok {body : Candidate → Except ConvertError Block}
    {block : Candidate → Block} {slot : Slot} {choice : Choice}
    (h : ∀ c ∈ choice.candidates, body c = .ok (block c)) :
    convertStruct body slot choice = .ok (structBlock slot choice block) := by
  obtain ⟨primary, fallback?⟩ := choice
  have first := h primary List.mem_cons_self
  cases fallback? with
  | none => exact structFrom_of_eq_ok first
  | some fallback =>
    have second := h fallback (Choice.fallback_mem rfl)
    exact bind_eq_ok.2 ⟨_, structFrom_of_eq_ok second, structFrom_of_eq_ok first⟩

/-- The element types of all sources, given those of each. -/
theorem mapM_sourceElement {path : Path} {shape : Shape} {fallback? : Option Candidate}
    {element : Candidate → Ty}
    (h : ∀ c ∈ fallback?, sourceElement path shape c = .ok (element c)) :
    fallback?.mapM (sourceElement path shape) = .ok (fallback?.map element) := by
  cases fallback? with
  | none => rfl
  | some fallback =>
    have found := h fallback rfl
    simp [found, Functor.map, Except.map]

/-- An aggregate is copied if its elements fit those of all sources. -/
theorem convertAggregate_of_copied {cv : Converter} {shape : Shape} {dest : Ty} {slot : Slot}
    {choice : Choice} {name : String} {element : Candidate → Ty}
    (plain : dest.resolved.isAggregate = false) (named : cv.typeName slot.path dest = .ok name)
    (sources : ∀ c ∈ choice.candidates,
      c.type.resolved.elements? = some (shape, element c) ∧
        (element c).resolved.isAggregate = false ∧
        compatible dest.resolved (element c).resolved = true) :
    cv.convertAggregate shape dest none slot choice =
      .ok (aggregateBlock cv.settings slot shape choice name false
        [.assign (elementSlot cv.settings slot shape).place (.cast name cv.elementVar false)]) := by
  -- each check passes by the equivalence that goes with it
  have held : ∀ c ∈ choice.candidates, sourceElement slot.path shape c = .ok (element c) :=
    fun c hc => sourceElement_eq_ok_iff.2 ⟨(sources c hc).1, (sources c hc).2.1⟩
  have agree : (element choice.primary :: (choice.fallback?.map element).toList).forM
      (checkCompatible (elementSlot cv.settings slot shape).path dest) = .ok () := by
    rw [map_candidates, forM_eq_ok_iff]
    intro type mem
    obtain ⟨c, hc, rfl⟩ := List.mem_map.1 mem
    exact checkCompatible_eq_ok_iff.2 (sources c hc).2.2
  refine bind_eq_ok.2 ⟨(), checkElement_eq_ok_iff.2 plain, bind_eq_ok.2 ⟨name, named, ?_⟩⟩
  refine bind_eq_ok.2 ⟨_, held _ Choice.primary_mem, bind_eq_ok.2 ⟨_, mapM_sourceElement
    fun c hc => held c (Choice.fallback_mem hc), ?_⟩⟩
  exact bind_eq_ok.2 ⟨_, bind_eq_ok.2 ⟨(), agree, rfl⟩, rfl⟩

/-- A turn over structs is made if it is for each source. -/
theorem structElement_of_eq_ok {fill : Candidate → Except ConvertError Block} {s : Settings}
    {path : Path} {choice : Choice} {value : Place} {element : Candidate → Ty}
    {turn : Candidate → Block}
    (h : ∀ c ∈ choice.candidates, fill (.ofElement (element c) value) = .ok (turn c)) :
    structElement fill value (stage s path true choice).flag? (element choice.primary)
      (choice.fallback?.map element) = .ok (structTurn (overrideFlagVar s path) choice turn) := by
  obtain ⟨primary, fallback?⟩ := choice
  have first := h primary List.mem_cons_self
  cases fallback? with
  | none => exact bind_eq_ok.2 ⟨_, first, rfl⟩
  | some fallback =>
    have second := h fallback (Choice.fallback_mem rfl)
    exact bind_eq_ok.2 ⟨_, first, bind_eq_ok.2 ⟨_, second, rfl⟩⟩

/-- An aggregate of structs is converted if the turns for all sources are made. -/
theorem convertAggregate_of_structs {cv : Converter} {shape : Shape} {s : Struct} {slot : Slot}
    {choice : Choice} {name : String} {element : Candidate → Ty} {turn : Candidate → Block}
    {fill : Slot → Candidate → Except ConvertError Block}
    (named : cv.typeName slot.path s.toTy = .ok name)
    (sources : ∀ c ∈ choice.candidates, c.type.resolved.elements? = some (shape, element c) ∧
      (element c).resolved.isAggregate = false)
    (turns : ∀ c ∈ choice.candidates, fill (elementSlot cv.settings slot shape)
      (.ofElement (element c) cv.elementVar) = .ok (turn c)) :
    cv.convertAggregate shape s.toTy (some fill) slot choice =
      .ok (aggregateBlock cv.settings slot shape choice name true
        (structTurn (overrideFlagVar cv.settings slot.path) choice turn)) := by
  have held : ∀ c ∈ choice.candidates, sourceElement slot.path shape c = .ok (element c) :=
    fun c hc => sourceElement_eq_ok_iff.2 (sources c hc)
  refine bind_eq_ok.2 ⟨(), checkElement_eq_ok_iff.2 rfl, bind_eq_ok.2 ⟨name, named, ?_⟩⟩
  refine bind_eq_ok.2 ⟨_, held _ Choice.primary_mem, bind_eq_ok.2 ⟨_, mapM_sourceElement
    fun c hc => held c (Choice.fallback_mem hc), ?_⟩⟩
  exact bind_eq_ok.2 ⟨_, structElement_of_eq_ok turns, rfl⟩

/-- An aggregate is converted by its elements. -/
theorem convertType_of_elements? {cv : Converter} {level : Level} {slot : Slot} {choice : Choice}
    {type dest : Ty} {shape : Shape} (h : type.elements? = some (shape, dest)) :
    cv.convertType level slot choice type =
      cv.convertAggregate shape dest (cv.elementBody? level dest) slot choice := by
  rcases Ty.elements?_eq_some h with ⟨rfl, rfl⟩ | ⟨rfl, key, keyed, rfl⟩
  · rfl
  · rw [convertType, checkKey, if_pos keyed]
    rfl

/-- Only structs have bodies. -/
theorem elementBody?_of_not_isStruct {cv : Converter} {level : Level} {type : Ty}
    (h : type.isStruct = false) : cv.elementBody? level type = none := by
  cases type with
  | struct name file fields => simp [Ty.isStruct] at h
  | _ => rfl

/-- Each derivation is a conversion that succeeds with the same block. -/
theorem emit_of_emits {cv : Converter} {task : Task} {block : Block} (h : Emits cv task block) :
    cv.emit task = .ok block := by
  -- induction on the rules; the steps of the converter are put together from those of the parts
  induction h with
  | nil => rfl
  | @cons level sources rest f choice block later chosen filled others ihf iho =>
    have converted : cv.convertField level sources f = .ok block := by
      cases f
      exact bind_eq_ok.2 ⟨choice, chosen, ihf⟩
    exact bind_eq_ok.2 ⟨block, converted, bind_eq_ok.2 ⟨later, iho, rfl⟩⟩
  | @copied level slot choice type name kind named agree =>
    have accepted : choice.candidates.forM (fun c => checkCompatible slot.path type c.type) =
        .ok () :=
      forM_eq_ok_iff.2 fun c hc => checkCompatible_eq_ok_iff.2 (agree c hc)
    have converted : cv.convertScalar slot choice type = .ok _ :=
      bind_eq_ok.2 ⟨name, named, bind_eq_ok.2 ⟨(), accepted, rfl⟩⟩
    cases type with
    | primitive p => exact converted
    | enum name file values => exact converted
    | typedef name file target => exact converted
    | _ => simp [Ty.isCopied] at kind
  | @binary level slot choice agree =>
    have accepted : choice.candidates.forM (fun c => checkBytes slot.path c.type) = .ok () :=
      forM_eq_ok_iff.2 fun c hc => checkBytes_eq_ok_iff.2 (agree c hc)
    exact bind_eq_ok.2 ⟨(), accepted, rfl⟩
  | struct bodies ih => exact convertStruct_of_eq_ok ih
  | elements kind whole plain named sources =>
    rw [emit, convertType_of_elements? kind, elementBody?_of_not_isStruct whole]
    exact convertAggregate_of_copied plain named sources
  | structs kind named sources turns ih =>
    rw [emit, convertType_of_elements? kind]
    refine convertAggregate_of_structs named (fun c hc => ⟨sources c hc, ?_⟩) ih
    obtain ⟨_, _, _, _, _, struct, _⟩ := (turns c hc).body_inv
    rw [Candidate.ofElement] at struct
    rw [struct]
    rfl
  | @body level s slot source name file type fields block struct named filled ih =>
    rw [emit, structBody, struct]
    exact bind_eq_ok.2 ⟨type, named, bind_eq_ok.2 ⟨block, ih, rfl⟩⟩

/-- The rules say what conversions give. -/
theorem emits_iff {cv : Converter} {task : Task} {block : Block} :
    Emits cv task block ↔ cv.emit task = .ok block := by
  refine ⟨emit_of_emits, fun h => ?_⟩
  cases task with
  | fields level sources dests => exact emits_of_convertFields dests h
  | value level slot choice type => exact emits_of_convertType type h
  | body level s slot source =>
    rw [emit] at h
    obtain ⟨_, _, fields, _, _, struct, named, filled, rfl⟩ := structBody_eq_ok h
    exact .body struct named (emits_of_convertFields s.fields filled)

end Converter

end Crosswalk
