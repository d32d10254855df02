import Crosswalk.Proofs.Emission

/-!
# Conversions follow the rules

Every conversion that succeeds is a derivation of `Emits`. The recursion is that of the converter;
the lemmas before it say what each emitter did, given that what it calls succeeded.
-/

namespace Crosswalk
set_option autoImplicit false

namespace Converter

/-- The body is made, and it is guarded if the source can be absent. -/
theorem structFrom_eq_ok {body : Candidate → Except ConvertError Block} {source : Candidate}
    {otherwise block : Block} (h : structFrom body source otherwise = .ok block) :
    ∃ b, body source = .ok b ∧ block = ifPresent source b otherwise := by
  simp only [structFrom, bind_eq_ok, pure_eq_ok] at h
  obtain ⟨b, hb, rfl⟩ := h
  exact ⟨b, hb, rfl⟩

/-- The bodies that a result is made of, as a function of the sources. -/
def blockOf (body : Candidate → Except ConvertError Block) (c : Candidate) : Block :=
  (body c).toOption.getD []

/-- The block of a body that is made. -/
theorem blockOf_eq {body : Candidate → Except ConvertError Block} {c : Candidate} {b : Block}
    (h : body c = .ok b) : blockOf body c = b := by
  simp [blockOf, h, Except.toOption]

/-- The bodies for all sources were made, and the struct is put together from them. -/
theorem convertStruct_eq_ok {body : Candidate → Except ConvertError Block} {slot : Slot}
    {choice : Choice} {block : Block} (h : convertStruct body slot choice = .ok block) :
    (∀ c ∈ choice.candidates, body c = .ok (blockOf body c)) ∧
      block = structBlock slot choice (blockOf body) := by
  -- with one source there is one body; with two, the fallback's is made first
  obtain ⟨primary, fallback?⟩ := choice
  cases fallback? with
  | none =>
    obtain ⟨b, hb, rfl⟩ := structFrom_eq_ok h
    exact ⟨by simp [Choice.candidates, hb, blockOf_eq hb],
      by simp [structBlock, blockOf_eq hb]⟩
  | some fallback =>
    obtain ⟨otherwise, ho, hp⟩ := bind_eq_ok.1 h
    obtain ⟨b, hb, rfl⟩ := structFrom_eq_ok hp
    obtain ⟨b', hb', rfl⟩ := structFrom_eq_ok ho
    exact ⟨by simp [Choice.candidates, hb, hb', blockOf_eq hb, blockOf_eq hb'],
      by simp [structBlock, blockOf_eq hb, blockOf_eq hb']⟩

/-- The elements of a source of a shape, if it has any. -/
def elementType (c : Candidate) : Ty :=
  (c.type.resolved.elements?.map Prod.snd).getD c.type

/-- The type of the elements, where there are any. -/
theorem elementType_eq {c : Candidate} {shape : Shape} {element : Ty}
    (h : c.type.resolved.elements? = some (shape, element)) : elementType c = element := by
  simp [elementType, h]

/-- The elements that a conversion of an aggregate works on. -/
theorem elementTypes_eq_ok {path : Path} {shape : Shape} {choice : Choice} {primary : Ty}
    {fallback? : Option Ty} (hp : sourceElement path shape choice.primary = .ok primary)
    (hf : choice.fallback?.mapM (sourceElement path shape) = .ok fallback?) :
    primary = elementType choice.primary ∧ fallback? = choice.fallback?.map elementType ∧
      ∀ c ∈ choice.candidates, c.type.resolved.elements? = some (shape, elementType c) ∧
        (elementType c).resolved.isAggregate = false := by
  obtain ⟨c, other?⟩ := choice
  obtain ⟨hc, plain⟩ := sourceElement_eq_ok_iff.1 hp
  obtain rfl := elementType_eq hc
  cases other? with
  | none =>
    cases hf
    exact ⟨rfl, rfl, by simp [Choice.candidates, hc, plain]⟩
  | some other =>
    obtain ⟨o, ho, rfl⟩ : ∃ o, sourceElement path shape other = .ok o ∧ some o = fallback? := by
      cases h : sourceElement path shape other with
      | error e => simp [h, Functor.map, Except.map] at hf
      | ok o => exact ⟨o, rfl, by simpa [h, Functor.map, Except.map] using hf⟩
    obtain ⟨hc', plain'⟩ := sourceElement_eq_ok_iff.1 ho
    obtain rfl := elementType_eq hc'
    exact ⟨rfl, rfl, by simp [Choice.candidates, hc, plain, hc', plain']⟩

/-- The sources as the converter goes through them. -/
theorem map_candidates {α : Type} (choice : Choice) (g : Candidate → α) :
    g choice.primary :: (choice.fallback?.map g).toList = choice.candidates.map g := by
  obtain ⟨primary, fallback?⟩ := choice
  cases fallback? <;> rfl

/-- The turns for all sources were made, and the turn is put together from them. -/
theorem structElement_eq_ok {fill : Candidate → Except ConvertError Block} {s : Settings}
    {path : Path} {choice : Choice} {value : Place} {element : Candidate → Ty} {block : Block}
    (h : structElement fill value (stage s path true choice).flag? (element choice.primary)
      (choice.fallback?.map element) = .ok block) :
    ∃ turn : Candidate → Block,
      (∀ c ∈ choice.candidates, fill (.ofElement (element c) value) = .ok (turn c)) ∧
        block = structTurn (overrideFlagVar s path) choice turn := by
  let body (c : Candidate) := fill (.ofElement (element c) value)
  refine ⟨blockOf body, ?_⟩
  obtain ⟨primary, fallback?⟩ := choice
  obtain ⟨b, hb, h⟩ := bind_eq_ok.1 h
  have hp : blockOf body _ = b := blockOf_eq hb
  cases fallback? with
  | none =>
    obtain rfl := pure_eq_ok.1 h
    exact ⟨by simpa [Choice.candidates, hp] using hb, hp.symm⟩
  | some fallback =>
    obtain ⟨b', hb', h⟩ := bind_eq_ok.1 h
    have hf : blockOf body _ = b' := blockOf_eq hb'
    obtain rfl := pure_eq_ok.1 h
    exact ⟨by simpa [Choice.candidates, hp, hf] using ⟨hb, hb'⟩, by simp [structTurn, hp, hf]⟩

/-- What was checked of an aggregate that is copied, and its block. -/
theorem convertAggregate_eq_ok_copied {cv : Converter} {shape : Shape} {dest : Ty} {slot : Slot}
    {choice : Choice} {block : Block}
    (h : cv.convertAggregate shape dest none slot choice = .ok block) :
    ∃ name, dest.resolved.isAggregate = false ∧ cv.typeName slot.path dest = .ok name ∧
      (∀ c ∈ choice.candidates, c.type.resolved.elements? = some (shape, elementType c) ∧
        (elementType c).resolved.isAggregate = false ∧
        compatible dest.resolved (elementType c).resolved = true) ∧
      block = aggregateBlock cv.settings slot shape choice name false
        [.assign (elementSlot cv.settings slot shape).place (.cast name cv.elementVar false)] := by
  simp only [convertAggregate, scalarElement, bind_eq_ok, pure_eq_ok] at h
  obtain ⟨_, plain, name, named, primary, hp, fallback?, hf, turn, ⟨_, agree, rfl⟩, rfl⟩ := h
  obtain ⟨rfl, rfl, sources⟩ := elementTypes_eq_ok hp hf
  refine ⟨name, checkElement_eq_ok_iff.1 plain, named, fun c hc => ?_, rfl⟩
  rw [map_candidates] at agree
  have compatible := forM_eq_ok_iff.1 agree _ (List.mem_map_of_mem hc)
  exact ⟨(sources c hc).1, (sources c hc).2, checkCompatible_eq_ok_iff.1 compatible⟩

/-- What was checked of an aggregate of structs, and its block with the turns. -/
theorem convertAggregate_eq_ok_structs {cv : Converter} {shape : Shape} {dest : Ty} {slot : Slot}
    {choice : Choice} {block : Block} {fill : Slot → Candidate → Except ConvertError Block}
    (h : cv.convertAggregate shape dest (some fill) slot choice = .ok block) :
    ∃ name, cv.typeName slot.path dest = .ok name ∧
      (∀ c ∈ choice.candidates, c.type.resolved.elements? = some (shape, elementType c)) ∧
      ∃ turn : Candidate → Block,
        (∀ c ∈ choice.candidates, fill (elementSlot cv.settings slot shape)
          (.ofElement (elementType c) cv.elementVar) = .ok (turn c)) ∧
        block = aggregateBlock cv.settings slot shape choice name true
          (structTurn (overrideFlagVar cv.settings slot.path) choice turn) := by
  simp only [convertAggregate, bind_eq_ok, pure_eq_ok] at h
  obtain ⟨_, _, name, named, primary, hp, fallback?, hf, block, ht, rfl⟩ := h
  obtain ⟨rfl, rfl, sources⟩ := elementTypes_eq_ok hp hf
  obtain ⟨turn, turns, rfl⟩ := structElement_eq_ok ht
  exact ⟨name, named, fun c hc => (sources c hc).1, turn, turns, rfl⟩

/-! ## The recursion -/

/-- The source is a struct, the type can be named, and the fields were filled one level down. -/
theorem structBody_eq_ok {cv : Converter} {level : Level} {name file : String} {fill : Filler}
    {slot : Slot} {source : Candidate} {block : Block}
    (h : cv.structBody level name file fill slot source = .ok block) :
    ∃ sourceName sourceFile fields type filling,
      source.type.resolved = .struct sourceName sourceFile fields ∧
        cv.qualified name file slot.path = .ok type ∧
        fill (level.descend slot.path slot.place source.place) fields = .ok filling ∧
        block = .allocate slot.place (.struct type) none :: filling := by
  unfold structBody at h
  split at h
  · next n f fields hs =>
    simp only [bind_eq_ok, pure_eq_ok] at h
    obtain ⟨type, named, filling, filled, rfl⟩ := h
    exact ⟨n, f, fields, type, filling, hs, named, filled, rfl⟩
  · simp [Path.mismatch, Path.fail] at h

/-- A value that is converted follows its rule. -/
theorem convertScalar_emits {cv : Converter} {level : Level} {slot : Slot} {choice : Choice}
    {type : Ty} {block : Block} (kind : type.isCopied = true)
    (h : cv.convertScalar slot choice type = .ok block) :
    Emits cv (.value level slot choice type) block := by
  simp only [convertScalar, bind_eq_ok, pure_eq_ok] at h
  obtain ⟨name, named, _, agree, rfl⟩ := h
  exact .copied kind named fun c hc => checkCompatible_eq_ok_iff.1 (forM_eq_ok_iff.1 agree c hc)

/-- Bytes that are converted follow theirs. -/
theorem convertBinary_emits {cv : Converter} {level : Level} {slot : Slot} {choice : Choice}
    {block : Block} (h : convertBinary slot choice = .ok block) :
    Emits cv (.value level slot choice .binary) block := by
  simp only [convertBinary, bind_eq_ok, pure_eq_ok] at h
  obtain ⟨_, agree, rfl⟩ := h
  exact .binary fun c hc => checkBytes_eq_ok_iff.1 (forM_eq_ok_iff.1 agree c hc)

/-- An aggregate whose elements are copied follows its rule. -/
theorem copiedElements_emits {cv : Converter} {level : Level} {slot : Slot} {choice : Choice}
    {type dest : Ty} {shape : Shape} {block : Block} (whole : dest.isStruct = false)
    (kind : type.elements? = some (shape, dest))
    (h : cv.convertAggregate shape dest none slot choice = .ok block) :
    Emits cv (.value level slot choice type) block := by
  obtain ⟨name, plain, named, sources, rfl⟩ := convertAggregate_eq_ok_copied h
  exact .elements kind whole plain named sources

mutual

/-- Fields that are converted follow the rules. -/
theorem emits_of_convertFields {cv : Converter} : ∀ (dests : List Field) {level : Level}
    {sources : List Field} {block : Block}, cv.convertFields level sources dests = .ok block →
    Emits cv (.fields level sources dests) block
  | [], _, _, _, h => by
    cases h
    exact .nil
  | f :: rest, level, sources, block, h => by
    simp only [convertFields, bind_eq_ok, pure_eq_ok] at h
    obtain ⟨head, hf, later, hr, rfl⟩ := h
    obtain ⟨choice, chosen, filled⟩ := emits_of_convertField f hf
    exact .cons chosen filled (emits_of_convertFields rest hr)

/-- A field that is converted has a source, and its slot follows the rules. -/
theorem emits_of_convertField {cv : Converter} : ∀ (f : Field) {level : Level}
    {sources : List Field} {block : Block}, cv.convertField level sources f = .ok block →
    ∃ choice, level.choose sources f.name = .ok choice ∧
      Emits cv (.value level (level.slot f) choice f.type) block
  | ⟨name, type, required, file⟩, level, sources, block, h => by
    simp only [convertField, bind_eq_ok] at h
    obtain ⟨choice, chosen, filled⟩ := h
    exact ⟨choice, chosen, emits_of_convertType type filled⟩

/-- A slot that is filled follows the rules. -/
theorem emits_of_convertType {cv : Converter} : ∀ (type : Ty) {level : Level} {slot : Slot}
    {choice : Choice} {block : Block}, cv.convertType level slot choice type = .ok block →
    Emits cv (.value level slot choice type) block
  | .primitive p, _, _, _, _, h => convertScalar_emits rfl h
  | .enum name file values, _, _, _, _, h => convertScalar_emits rfl h
  | .typedef name file target, _, _, _, _, h => convertScalar_emits rfl h
  | .binary, _, _, _, _, h => convertBinary_emits h
  | .struct name file fields, level, slot, choice, block, h => by
    obtain ⟨bodies, rfl⟩ := convertStruct_eq_ok h
    refine Emits.struct (s := ⟨name, file, fields⟩) fun c hc => ?_
    obtain ⟨_, _, _, _, _, hs, named, filled, hb⟩ := structBody_eq_ok (bodies c hc)
    rw [hb]
    exact .body hs named (emits_of_convertFields fields filled)
  | .list element, level, slot, choice, block, h => by
    exact emits_of_convertAggregate element rfl h
  | .map key value, level, slot, choice, block, h => by
    simp only [convertType, bind_eq_ok] at h
    obtain ⟨_, keyed, h⟩ := h
    exact emits_of_convertAggregate value
      (by simp [Ty.elements?, checkKey_eq_ok_iff.1 keyed]) h
  | .set _, _, _, _, _, h => by simp [convertType, Path.unsupported, Path.fail] at h

/-- An aggregate that is filled follows the rules, be its elements copied or structs. -/
theorem emits_of_convertAggregate {cv : Converter} : ∀ (dest : Ty) {type : Ty} {shape : Shape}
    {level : Level} {slot : Slot} {choice : Choice} {block : Block},
    type.elements? = some (shape, dest) →
    cv.convertAggregate shape dest (cv.elementBody? level dest) slot choice = .ok block →
    Emits cv (.value level slot choice type) block
  | .struct name file fields, type, shape, level, slot, choice, block, kind, h => by
    obtain ⟨elementName, named, sources, turn, turns, rfl⟩ := convertAggregate_eq_ok_structs h
    refine Emits.structs (s := ⟨name, file, fields⟩) kind named sources fun c hc => ?_
    obtain ⟨_, _, _, _, _, hs, named, filled, hb⟩ := structBody_eq_ok (turns c hc)
    rw [hb]
    exact .body hs named (emits_of_convertFields fields filled)
  | .primitive _, _, _, _, _, _, _, kind, h => copiedElements_emits rfl kind h
  | .enum .., _, _, _, _, _, _, kind, h => copiedElements_emits rfl kind h
  | .typedef .., _, _, _, _, _, _, kind, h => copiedElements_emits rfl kind h
  | .binary, _, _, _, _, _, _, kind, h => copiedElements_emits rfl kind h
  | .list _, _, _, _, _, _, _, kind, h => copiedElements_emits rfl kind h
  | .map .., _, _, _, _, _, _, kind, h => copiedElements_emits rfl kind h
  | .set _, _, _, _, _, _, _, kind, h => copiedElements_emits rfl kind h

end

/-- A conversion that succeeds follows the rules. -/
theorem emits_of_convert {cv : Converter} {sources dests : List Field} {table : MappingTable}
    {block : Block} (h : cv.convert sources dests table = .ok block) :
    Emits cv (.fields (.top table) sources dests) block :=
  emits_of_convertFields dests h

end Converter

end Crosswalk
