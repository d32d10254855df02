import Crosswalk.Proofs.Emission.Site

/-!
# Loops and the names they bind

A loop fills the aggregate that is allocated right before it, and the place of an element is named
by the loop's position or key. A write into an element is captured if a loop further inside binds
that name again.
-/

namespace Crosswalk
set_option autoImplicit false

/-! ## What a loop binds and fills -/

namespace Binding

/-- The element that a binding names, of the aggregate at a place. -/
def element : Binding → Place → Place
  | .index position _, p => p.index position
  | .key name _, p => p.key name

/-- Positions are for lists and keys for maps. -/
def fits : Binding → Storage → Bool
  | .index .., .list .. => true
  | .key .., .map .. => true
  | _, _ => false

end Binding

namespace Frame

/-- The variables that a frame binds, if it is a loop. -/
def binding? : Frame → Option Binding
  | loop _ _ binding => some binding
  | _ => none

/-- The variables that a frame binds. -/
def names (f : Frame) : List String :=
  (f.binding?.map Binding.names).getD []

/-- The aggregate that a block ends with the allocation of. -/
def allocated? (before : Block) : Option (Place × Storage) :=
  match before.getLast? with
  | some (.allocate target storage _) => some (target, storage)
  | _ => none

/-- The element that a turn of a loop fills, and the variable that the loop names it by. -/
def fills? : Frame → Option (String × Place)
  | loop before _ binding =>
    match allocated? before with
    | some (target, storage) =>
      if binding.fits storage then some (binding.counter, binding.element target) else none
    | none => none
  | _ => none

end Frame

/-- The frames from the innermost on that binds a name. -/
def binderOf (name : String) : List Frame → List Frame
  | [] => []
  | f :: outer => if name ∈ f.names then f :: outer else binderOf name outer

/-- The place that a statement writes. -/
def Statement.target? : Statement → Option Place
  | assign target _ => some target
  | allocate target _ _ => some target
  | _ => none

/-- A place at or below another. -/
def Place.Extends (p q : Place) : Prop :=
  p.root = q.root ∧ q.accesses <+: p.accesses

/-- A write into an element of a loop around it finds that loop under the element's name. -/
def Uncaptured (site : Site) (s : Statement) : Prop :=
  ∀ target inner f outer name element, s.target? = some target →
    site.frames = inner ++ f :: outer → f.fills? = some (name, element) → target.Extends element →
    binderOf name site.frames = f :: outer

/-- A loop comes right after the allocation of an aggregate of its kind. -/
def Filling (site : Site) (s : Statement) : Prop :=
  ∀ iterable binding body, s = .loop iterable binding body →
    (Frame.loop site.before iterable binding).fills?.isSome = true

/-- Below a place that is below another. -/
theorem Place.Extends.trans {p q r : Place} (h : p.Extends q) (h' : q.Extends r) : p.Extends r :=
  ⟨h.1.trans h'.1, h'.2.trans h.2⟩

theorem Place.extends_field (p : Place) (name : String) (optional : Bool) :
    (p.field name optional).Extends p :=
  ⟨rfl, List.prefix_append _ _⟩

theorem Binding.extends_element (b : Binding) (p : Place) : (b.element p).Extends p := by
  cases b <;> exact ⟨rfl, List.prefix_append _ _⟩

/-- The slot of an element is the element that the loop's binding names. -/
theorem Converter.elementSlot_place (s : Settings) (slot : Slot) (shape : Shape) :
    (elementSlot s slot shape).place = (loopBinding s shape).element slot.place := by
  cases shape <;> rfl

/-- Elements are below their aggregate. -/
theorem Place.extends_elementSlot (s : Settings) (slot : Slot) (shape : Shape) :
    (Converter.elementSlot s slot shape).place.Extends slot.place := by
  rw [Converter.elementSlot_place]
  exact Binding.extends_element _ _

/-! ## Binders -/

/-- A name that no inner frame binds is bound further out. -/
theorem binderOf_append_of_not_mem {name : String} {inner : List Frame} (outer : List Frame)
    (h : ∀ f ∈ inner, name ∉ f.names) : binderOf name (inner ++ outer) = binderOf name outer := by
  induction inner with
  | nil => rfl
  | cons f rest ih =>
    rw [List.cons_append, binderOf, if_neg (h f List.mem_cons_self)]
    exact ih fun g hg => h g (List.mem_cons_of_mem f hg)

/-- A name that frames bind is not looked up behind them. -/
theorem length_lt_binderOf {name : String} {inner : List Frame} (outer : List Frame)
    (h : ∃ f ∈ inner, name ∈ f.names) :
    outer.length < (binderOf name (inner ++ outer)).length := by
  induction inner with
  | nil => simp at h
  | cons f rest ih =>
    rw [List.cons_append, binderOf]
    split
    · rw [List.length_cons, List.length_append]
      omega
    · next hf =>
      obtain ⟨g, hg, hn⟩ := h
      rcases List.mem_cons.1 hg with rfl | hg
      · exact absurd hn hf
      · exact ih ⟨g, hg, hn⟩

/-- A loop that fills an aggregate names the element by its counter. -/
theorem fills?_eq_some {f : Frame} {name : String} {element : Place}
    (h : f.fills? = some (name, element)) : ∃ b, f.binding? = some b ∧ b.counter = name := by
  cases f with
  | yes before c => simp [Frame.fills?] at h
  | no before c => simp [Frame.fills?] at h
  | loop before iterable binding =>
    refine ⟨binding, rfl, ?_⟩
    simp only [Frame.fills?] at h
    split at h
    · split at h
      · simp_all
      · cases h
    · cases h

end Crosswalk
