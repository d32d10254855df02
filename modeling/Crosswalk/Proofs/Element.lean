import Crosswalk.Proofs.Emission.Site
import Crosswalk.Proofs.Preorder
import Crosswalk.Proofs.Walk

/-!
# Elements of loops

Which types the elements have in the innermost loop around a site. A loop over a variable iterates
what was last read into the variable: the fallback, and after it perhaps the primary. Where a flag
is tested right inside the loop, each side has the elements of one of them.
-/

namespace Crosswalk
set_option autoImplicit false

/-- What comes before the statement around a site in its block. -/
def Frame.before : Frame → Block
  | yes before _ => before
  | no before _ => before
  | loop before _ _ => before

/-- The place that is read into a variable. -/
def Statement.readInto? (name : String) : Statement → Option Place
  | assign target (.read source) => if target.asVar? = some name then some source else none
  | _ => none

/-- The places that a block reads into a variable, in order. -/
def Block.readsInto (name : String) (block : Block) : List Place :=
  block.walk.filterMap (Statement.readInto? name)

/-- What is read into a variable around a site, the last first. -/
def readsAround (name : String) (frames : List Frame) : List Place :=
  frames.flatMap fun f => (Block.readsInto name f.before).reverse

/-- The aggregates that an iterable stands for: itself, or the primary and fallback read into it. -/
def iterated (iterable : Place) (frames : List Frame) : List Place :=
  match iterable.asVar? with
  | some name => (readsAround name frames).take 2
  | none => [iterable]

/-- The types of a place, given those that the variable for elements has. -/
def Place.types (source : Ty) (value : String) (elements : List Ty) (p : Place) : List Ty :=
  match p.root with
  | .input => (source.at? p.accesses).toList
  | .output => []
  | .var name => if name = value then elements.filterMap (·.at? p.accesses) else []

/-- The types of the elements of an aggregate. -/
def Place.heldTypes (source : Ty) (value : String) (elements : List Ty) (p : Place) : List Ty :=
  (p.types source value elements).filterMap fun ty => ty.resolved.elements?.map Prod.snd

/-- The types of the elements in the innermost loop around a site. -/
def elementTypes (source : Ty) (value : String) : List Frame → List Ty
  | [] => []
  | .yes _ (.flag _) :: .loop before iterable binding :: outer =>
    ((iterated iterable (.loop before iterable binding :: outer)).take 1).flatMap
      (Place.heldTypes source value (elementTypes source value outer))
  | .no _ (.flag _) :: .loop before iterable binding :: outer =>
    ((iterated iterable (.loop before iterable binding :: outer)).drop 1).flatMap
      (Place.heldTypes source value (elementTypes source value outer))
  | .loop before iterable binding :: outer =>
    (iterated iterable (.loop before iterable binding :: outer)).flatMap
      (Place.heldTypes source value (elementTypes source value outer))
  | _ :: outer => elementTypes source value outer

section
variable {source : Ty} {value : String}

/-- Testing whether a value is present changes nothing about the elements. -/
theorem elementTypes_of_isCheck {f : Frame} {outer : List Frame} (h : f.isCheck = true) :
    elementTypes source value (f :: outer) = elementTypes source value outer := by
  cases f with
  | yes before c => cases c <;> simp_all [Frame.isCheck, elementTypes]
  | no before c => cases c <;> simp_all [Frame.isCheck, elementTypes]
  | loop before iterable binding => simp [Frame.isCheck] at h

/-- Presence checks leave the elements as they are. -/
theorem elementTypes_of_behind (source : Ty) (value : String) {start site : Site}
    (h : start.Behind site) :
    elementTypes source value site.frames = elementTypes source value start.frames := by
  obtain ⟨checks, hf, hc⟩ := h
  rw [hf]
  clear hf
  induction checks with
  | nil => rfl
  | cons f rest ih =>
    rw [List.cons_append, elementTypes_of_isCheck (hc f List.mem_cons_self)]
    exact ih fun g hg => hc g (List.mem_cons_of_mem f hg)

end

/-! ## What was read into a variable -/

/-- What two blocks in a row read into a variable. -/
theorem Block.readsInto_append (name : String) (a b : Block) :
    readsInto name (a ++ b) = readsInto name a ++ readsInto name b := by
  rw [readsInto, walk_append, List.filterMap_append]
  rfl

namespace Converter
variable {s : Settings} {start : Site} {slot : Slot} {shape : Shape} {choice : Choice}
  {element : String}

/-- Staging reads the fallback first and then the primary. -/
theorem readsInto_stage {path : Path} {primary fallback : Candidate} :
    Block.readsInto (sourceListVar s path) (stage s path true ⟨primary, some fallback⟩).block =
      [fallback.place, primary.place] := by
  simp [stage_block, takeBlock, Block.readsInto, Block.walk, Statement.children,
    Statement.guarded, List.filterMap_cons, Statement.readInto?, Place.asVar?, Place.var]

/-- An allocation reads nothing into a variable. -/
theorem readsInto_allocate {name : String} {target : Place} {storage : Storage}
    {hint? : Option Place} : Block.readsInto name [.allocate target storage hint?] = [] := by
  simp [Block.readsInto, Block.walk, Statement.children, Statement.readInto?]

/-- A loop over a staged variable iterates the two sources. -/
theorem iterated_staged {target : Place} {storage : Storage} {hint? : Option Place}
    {binding : Binding} {primary fallback : Candidate} {staging : Staging}
    (hs : stage s slot.path true ⟨primary, some fallback⟩ = staging) :
    iterated staging.iterable (.loop
        ((fillSite start staging).before ++ [.allocate target storage hint?]) staging.iterable
        binding :: (fillSite start staging).frames) =
      [primary.place, fallback.place] := by
  have staged : staging.iterable.asVar? = some (sourceListVar s slot.path) := by
    subst hs
    rfl
  have reads : Block.readsInto (sourceListVar s slot.path) staging.block =
      [fallback.place, primary.place] := by
    subst hs
    exact readsInto_stage
  -- the branch on whether the iterable is present reads nothing in between
  rw [iterated, staged]
  simp only [readsAround, List.flatMap_cons, Frame.before, fillSite]
  split
  · simp [Site.yes, Site.after, Block.readsInto_append, reads, readsInto_allocate]
  · simp [Site.after, Block.readsInto_append, reads, readsInto_allocate]

end Converter

/-! ## Places that are read -/

/-- A place has a type, on its way from the source or from the only type of the elements around. -/
def Denotes (source : Ty) (value : String) (frames : List Frame) (p : Place) (ty : Ty) : Prop :=
  p.root = .input ∧ source.at? p.accesses = some ty ∨
    p.root = .var value ∧ ∃ element, elementTypes source value frames = [element] ∧
      element.resolved.isAggregate = false ∧ element.at? p.accesses = some ty

namespace Denotes
variable {source ty : Ty} {value : String} {frames : List Frame} {start site : Site} {p : Place}

/-- A place has its type behind the site too. -/
theorem of_behind (h : Denotes source value start.frames p ty) (behind : start.Behind site) :
    Denotes source value site.frames p ty := by
  rw [Denotes, elementTypes_of_behind source value behind]
  exact h

/-- A field of a struct has the type that it is declared with. -/
theorem field {name file : String} {fields : List Field} {f : Field}
    (h : Denotes source value frames p ty) (struct : ty.resolved = .struct name file fields)
    (found : findField? fields f.name = some f) :
    Denotes source value frames (p.field f.name f.isOptional) f.type := by
  have step := Ty.step?_field struct found
  rcases h with ⟨root, reach⟩ | ⟨root, element, only, plain, reach⟩
  · exact .inl ⟨root, by simp [Place.field, Ty.at?_snoc, reach, step]⟩
  · exact .inr ⟨root, element, only, plain, by simp [Place.field, Ty.at?_snoc, reach, step]⟩

/-- The types of the place are that one. -/
theorem types (h : Denotes source value frames p ty) :
    p.types source value (elementTypes source value frames) = [ty] := by
  rcases h with ⟨root, reach⟩ | ⟨root, element, only, _, reach⟩
  · simp [Place.types, root, reach]
  · simp [Place.types, root, only, reach]

/-- The elements of the place have one type. -/
theorem heldTypes_eq {shape : Shape} {element : Ty} (h : Denotes source value frames p ty)
    (held : ty.resolved.elements? = some (shape, element)) :
    p.heldTypes source value (elementTypes source value frames) = [element] := by
  simp [Place.heldTypes, h.types, held]

/-- A place that has elements is no variable on its own. -/
theorem asVar?_eq_none {shape : Shape} {element : Ty} (h : Denotes source value frames p ty)
    (held : ty.resolved.elements? = some (shape, element)) : p.asVar? = none := by
  rcases h with ⟨root, _⟩ | ⟨root, around, _, plain, reach⟩
  · simp [Place.asVar?, root]
  · obtain ⟨r, accesses, optional⟩ := p
    cases accesses with
    | nil =>
      obtain rfl : around = ty := Option.some.inj reach
      cases hr : around.resolved <;> simp_all [Ty.isAggregate, Ty.elements?]
    | cons access rest => simp [Place.asVar?]

end Denotes

namespace Converter
variable {source : Ty} {value : String} {s : Settings} {start : Site} {slot : Slot}
  {shape : Shape} {name flag : String} {boxed : Bool} {element : Candidate → Ty}

/-- In a loop over a single source the elements are its. -/
theorem elementTypes_turn {primary : Candidate}
    (typed : Denotes source value start.frames primary.place primary.type)
    (held : primary.type.resolved.elements? = some (shape, element primary)) :
    elementTypes source value (turnSite s start slot shape
      (stage s slot.path boxed ⟨primary, none⟩) name boxed).frames = [element primary] := by
  have behind := elementTypes_of_behind source value
    (behind_fillSite start (stage s slot.path boxed ⟨primary, none⟩))
  have alone := typed.asVar?_eq_none held
  have iterable : (stage s slot.path boxed ⟨primary, none⟩).iterable = primary.place := rfl
  simp only [turnSite, Site.frames_loop, Site.frames_after, elementTypes, behind, iterable,
    iterated, alone, List.flatMap_singleton]
  exact typed.heldTypes_eq held

/-- In a loop over two sources the flag tells whose the elements are. -/
theorem elementTypes_flagged (s : Settings) (slot : Slot) (name flag : String)
    {primary fallback : Candidate}
    (typed : ∀ c ∈ [primary, fallback], Denotes source value start.frames c.place c.type)
    (held : ∀ c ∈ [primary, fallback], c.type.resolved.elements? = some (shape, element c)) :
    elementTypes source value ((turnSite s start slot shape
        (stage s slot.path true ⟨primary, some fallback⟩) name true).yes (.flag flag)).frames =
      [element primary] ∧
    elementTypes source value ((turnSite s start slot shape
        (stage s slot.path true ⟨primary, some fallback⟩) name true).no (.flag flag)).frames =
      [element fallback] := by
  have behind := elementTypes_of_behind source value
    (behind_fillSite start (stage s slot.path true ⟨primary, some fallback⟩))
  constructor
  · simp only [turnSite, Site.frames_yes, Site.frames_loop, Site.before_after, Site.frames_after,
      elementTypes, behind, iterated_staged rfl]
    simpa using (typed primary (by simp)).heldTypes_eq (held primary (by simp))
  · simp only [turnSite, Site.frames_no, Site.frames_loop, Site.before_after, Site.frames_after,
      elementTypes, behind, iterated_staged rfl]
    simpa using (typed fallback (by simp)).heldTypes_eq (held fallback (by simp))

end Converter

end Crosswalk
