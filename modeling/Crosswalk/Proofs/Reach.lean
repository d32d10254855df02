import Crosswalk.Proofs.Choice
import Crosswalk.Proofs.Emission

/-!
# The destination fields that a conversion reaches

A conversion goes down where a destination field is a struct, or an aggregate of structs, and starts
a level for each source of the field. An alias is copied whole, so nothing below it is reached. The
block of a field that is reached stands somewhere in the program.
-/

namespace Crosswalk
set_option autoImplicit false
open Converter

/-- A destination field that is converted at some level from some fields, with its sources. -/
inductive Reached (cv : Converter) :
    Level → List Field → List Field → Level → List Field → Field → Choice → Prop
  | here {level : Level} {sources dests : List Field} {f : Field} {choice : Choice}
      (mem : f ∈ dests) (chosen : level.choose sources f.name = .ok choice) :
      Reached cv level sources dests level sources f choice
  | struct {level deep : Level} {sources dests fields given : List Field} {f g : Field}
      {choice inner : Choice} {s : Struct} {c : Candidate} {name file : String} (mem : f ∈ dests)
      (chosen : level.choose sources f.name = .ok choice) (kind : f.type = s.toTy)
      (source : c ∈ choice.candidates) (struct : c.type.resolved = .struct name file fields)
      (below : Reached cv (level.descend (level.slot f).path (level.slot f).place c.place)
        fields s.fields deep given g inner) :
      Reached cv level sources dests deep given g inner
  | element {level deep : Level} {sources dests fields given : List Field} {f g : Field}
      {choice inner : Choice} {s : Struct} {c : Candidate} {shape : Shape} {element : Ty}
      {name file : String} (mem : f ∈ dests)
      (chosen : level.choose sources f.name = .ok choice)
      (kind : f.type.elements? = some (shape, s.toTy)) (source : c ∈ choice.candidates)
      (held : c.type.resolved.elements? = some (shape, element))
      (struct : element.resolved = .struct name file fields)
      (below : Reached cv
        (level.descend (elementSlot cv.settings (level.slot f) shape).path
          (elementSlot cv.settings (level.slot f) shape).place cv.elementVar)
        fields s.fields deep given g inner) :
      Reached cv level sources dests deep given g inner

/-- What is reached has been chosen at its level. -/
theorem Reached.chosen {cv : Converter} {level deep : Level} {sources dests given : List Field}
    {f : Field} {choice : Choice} (h : Reached cv level sources dests deep given f choice) :
    deep.choose given f.name = .ok choice := by
  induction h with
  | here mem chosen => exact chosen
  | struct mem chosen kind source struct below ih => exact ih
  | element mem chosen kind source held struct below ih => exact ih

/-- A level of a conversion, with the source's fields and the destination's. Like a field it is
reached from above, but there need not be a source for any of its fields. -/
inductive Entered (cv : Converter) :
    Level → List Field → List Field → Level → List Field → List Field → Prop
  | here {level : Level} {sources dests : List Field} :
      Entered cv level sources dests level sources dests
  | struct {level deep : Level} {sources dests fields given inner : List Field} {f : Field}
      {choice : Choice} {s : Struct} {c : Candidate} {name file : String} (mem : f ∈ dests)
      (chosen : level.choose sources f.name = .ok choice) (kind : f.type = s.toTy)
      (source : c ∈ choice.candidates) (struct : c.type.resolved = .struct name file fields)
      (below : Entered cv (level.descend (level.slot f).path (level.slot f).place c.place)
        fields s.fields deep given inner) :
      Entered cv level sources dests deep given inner
  | element {level deep : Level} {sources dests fields given inner : List Field} {f : Field}
      {choice : Choice} {s : Struct} {c : Candidate} {shape : Shape} {element : Ty}
      {name file : String} (mem : f ∈ dests)
      (chosen : level.choose sources f.name = .ok choice)
      (kind : f.type.elements? = some (shape, s.toTy)) (source : c ∈ choice.candidates)
      (held : c.type.resolved.elements? = some (shape, element))
      (struct : element.resolved = .struct name file fields)
      (below : Entered cv
        (level.descend (elementSlot cv.settings (level.slot f) shape).path
          (elementSlot cv.settings (level.slot f) shape).place cv.elementVar)
        fields s.fields deep given inner) :
      Entered cv level sources dests deep given inner

/-- What is reached is a field of a level that is entered. -/
theorem Reached.entered {cv : Converter} {level deep : Level} {sources dests given : List Field}
    {f : Field} {choice : Choice} (h : Reached cv level sources dests deep given f choice) :
    ∃ inner, Entered cv level sources dests deep given inner ∧ f ∈ inner := by
  induction h with
  | here mem _ => exact ⟨_, .here, mem⟩
  | struct mem chosen kind source struct _ ih =>
    obtain ⟨inner, below, among⟩ := ih
    exact ⟨inner, .struct mem chosen kind source struct below, among⟩
  | element mem chosen kind source held struct _ ih =>
    obtain ⟨inner, below, among⟩ := ih
    exact ⟨inner, .element mem chosen kind source held struct below, among⟩

/-- All levels have the table of the first. -/
theorem Entered.table {cv : Converter} {level deep : Level} {sources dests given inner : List Field}
    (h : Entered cv level sources dests deep given inner) : deep.table = level.table := by
  induction h with
  | here => rfl
  | struct _ _ _ _ _ _ ih => exact ih
  | element _ _ _ _ _ _ _ ih => exact ih

/-! ## Parts of a program -/

/-- A block that stands in another, side by side with others or inside of statements. -/
inductive Block.Within (part : Block) : Block → Prop
  | here : Within part part
  | left {a b : Block} (h : Within part a) : Within part (a ++ b)
  | right {a b : Block} (h : Within part b) : Within part (a ++ b)
  | yes {c : Condition} {yes no : Block} (h : Within part yes) : Within part [.branch c yes no]
  | no {c : Condition} {yes no : Block} (h : Within part no) : Within part [.branch c yes no]
  | loop {iterable : Place} {binding : Binding} {body : Block} (h : Within part body) :
      Within part [.loop iterable binding body]

namespace Block.Within
variable {part : Block}

/-- A part of the block for a source stays a part behind the check. -/
theorem ifPresent {source : Candidate} {block otherwise : Block} (h : Within part block) :
    Within part (ifPresent source block otherwise) := by
  unfold Converter.ifPresent
  split
  · exact .yes h
  · exact h

/-- The body for the fallback is there if the primary may be absent. -/
theorem structBlock {slot : Slot} {choice : Choice} {body : Candidate → Block} {c : Candidate}
    (mem : c ∈ choice.candidates)
    (optional : ∀ c ∈ choice.fallback?, choice.primary.optional = true)
    (h : Within part (body c)) : Within part (structBlock slot choice body) := by
  obtain ⟨primary, fallback?⟩ := choice
  cases fallback? with
  | none =>
    obtain rfl : c = primary := by simpa [Choice.candidates] using mem
    exact h.ifPresent
  | some fallback =>
    rcases List.mem_cons.1 mem with rfl | mem
    · exact h.ifPresent
    · obtain rfl : c = fallback := by simpa using mem
      have present : primary.optional = true := optional c rfl
      simp only [Converter.structBlock, Converter.ifPresent, present, if_true]
      exact .no h.ifPresent

/-- A part of the turn for one source is a part of the turn. -/
theorem structTurn {flag : String} {choice : Choice} {turn : Candidate → Block} {c : Candidate}
    (mem : c ∈ choice.candidates) (h : Within part (turn c)) :
    Within part (structTurn flag choice turn) := by
  obtain ⟨primary, fallback?⟩ := choice
  cases fallback? with
  | none =>
    obtain rfl : c = primary := by simpa [Choice.candidates] using mem
    exact h
  | some fallback =>
    rcases List.mem_cons.1 mem with rfl | mem
    · exact .yes h
    · obtain rfl : c = fallback := by simpa using mem
      exact .no h

/-- A part of a turn is a part of the block of the list or map. -/
theorem aggregateBlock {s : Settings} {slot : Slot} {shape : Shape} {choice : Choice}
    {element : String} {boxed : Bool} {turn : Block} (h : Within part turn) :
    Within part (aggregateBlock s slot shape choice element boxed turn) := by
  have filling : Within part (fillBlock s slot shape element boxed
      (stage s slot.path boxed choice).iterable turn) := .right (a := [_]) (.loop h)
  refine .right ?_
  split
  · exact .yes filling
  · exact filling

end Block.Within

/-! ## What is emitted for the fields -/

section
variable {cv : Converter} {level : Level} {slot : Slot} {choice : Choice} {block : Block}

/-- The block of a field is part of that of its level. -/
theorem Emits.of_mem {sources dests : List Field} {f : Field}
    (h : Emits cv (.fields level sources dests) block) (mem : f ∈ dests)
    (chosen : level.choose sources f.name = .ok choice) :
    ∃ part, Emits cv (.value level (level.slot f) choice f.type) part ∧ part.Within block := by
  induction dests generalizing block with
  | nil => cases mem
  | cons g rest ih =>
    cases h with
    | cons chosen' filled others =>
      rcases List.mem_cons.1 mem with rfl | mem
      · rw [chosen] at chosen'
        cases chosen'
        exact ⟨_, filled, .left .here⟩
      · obtain ⟨part, emitted, within⟩ := ih others mem
        exact ⟨part, emitted, .right within⟩

/-- A struct is filled at a level of its own from every source. -/
theorem Emits.of_body {s : Struct} {source : Candidate} {name file : String} {fields : List Field}
    (h : Emits cv (.body level s slot source) block)
    (struct : source.type.resolved = .struct name file fields) :
    ∃ filling, Emits cv
      (.fields (level.descend slot.path slot.place source.place) fields s.fields) filling ∧
      filling.Within block := by
  obtain ⟨_, _, _, type, filling, struct', _, filled, rfl⟩ := h.body_inv
  rw [struct] at struct'
  cases struct'
  exact ⟨filling, filled, .right (a := [_]) .here⟩

/-- In the block of a struct there is a body for each of its sources. -/
theorem Emits.of_struct {type : Ty} {s : Struct} {c : Candidate}
    (h : Emits cv (.value level slot choice type) block) (kind : type = s.toTy)
    (optional : ∀ c ∈ choice.fallback?, choice.primary.optional = true)
    (source : c ∈ choice.candidates) :
    ∃ body, Emits cv (.body level s slot c) body ∧ body.Within block := by
  cases h with
  | copied isCopied => simp [kind, Struct.toTy, Ty.isCopied] at isCopied
  | binary => simp [Struct.toTy] at kind
  | @struct _ _ _ t _ bodies =>
    obtain rfl := Struct.toTy_inj kind
    exact ⟨_, bodies c source, .structBlock source optional .here⟩
  | elements kind' => simp [kind, Struct.toTy, Ty.elements?] at kind'
  | structs kind' => simp [kind, Struct.toTy, Ty.elements?] at kind'

/-- In the block of a list or map of structs there is a body for the elements of each source. -/
theorem Emits.of_element {type element : Ty} {s : Struct} {shape : Shape} {c : Candidate}
    (h : Emits cv (.value level slot choice type) block)
    (kind : type.elements? = some (shape, s.toTy)) (source : c ∈ choice.candidates)
    (held : c.type.resolved.elements? = some (shape, element)) :
    ∃ body, Emits cv (.body level s (elementSlot cv.settings slot shape)
      (.ofElement element cv.elementVar)) body ∧ body.Within block := by
  cases h with
  | copied isCopied =>
    cases type <;> simp_all [Ty.isCopied, Ty.elements?]
  | binary => simp [Ty.elements?] at kind
  | struct => simp [Struct.toTy, Ty.elements?] at kind
  | elements kind' whole =>
    rw [kind] at kind'
    cases kind'
    simp [Struct.toTy, Ty.isStruct] at whole
  | @structs _ _ _ _ t _ _ _ _ kind' named sources turns =>
    rw [kind] at kind'
    obtain ⟨rfl, same⟩ : shape = _ ∧ s.toTy = t.toTy := by simpa using kind'
    obtain rfl := Struct.toTy_inj same
    have he := (sources c source).symm.trans held
    obtain rfl : _ = element := by simpa using he
    exact ⟨_, turns c source, .aggregateBlock (.structTurn source .here)⟩

end

/-- Parts of parts are parts. -/
theorem Block.Within.trans {a b c : Block} (h : a.Within b) (h' : b.Within c) : a.Within c := by
  induction h' with
  | here => exact h
  | left _ ih => exact .left ih
  | right _ ih => exact .right ih
  | yes _ ih => exact .yes ih
  | no _ ih => exact .no ih
  | loop _ ih => exact .loop ih

/-- Every field that is reached is filled by a part of the program. -/
theorem Reached.emits {cv : Converter} {level deep : Level} {sources dests given : List Field}
    {f : Field} {choice : Choice} (h : Reached cv level sources dests deep given f choice) :
    ∀ {block : Block}, Emits cv (.fields level sources dests) block →
      ∃ part, Emits cv (.value deep (deep.slot f) choice f.type) part ∧ part.Within block := by
  induction h with
  | here mem chosen =>
    intro block emitted
    exact emitted.of_mem mem chosen
  | struct mem chosen kind source struct below ih =>
    intro block emitted
    obtain ⟨_, value, inBlock⟩ := emitted.of_mem mem chosen
    obtain ⟨_, body, inValue⟩ := value.of_struct kind
      (fun _ hc => Level.optional_of_choose chosen hc) source
    obtain ⟨_, filled, inBody⟩ := body.of_body struct
    obtain ⟨part, found, inFilled⟩ := ih filled
    exact ⟨part, found, ((inFilled.trans inBody).trans inValue).trans inBlock⟩
  | element mem chosen kind source held struct below ih =>
    intro block emitted
    obtain ⟨_, value, inBlock⟩ := emitted.of_mem mem chosen
    obtain ⟨_, body, inValue⟩ := value.of_element kind source held
    obtain ⟨_, filled, inBody⟩ := body.of_body struct
    obtain ⟨part, found, inFilled⟩ := ih filled
    exact ⟨part, found, ((inFilled.trans inBody).trans inValue).trans inBlock⟩

end Crosswalk
