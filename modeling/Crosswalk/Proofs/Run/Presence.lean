import Crosswalk.Proofs.Choice
import Crosswalk.Proofs.Mapped
import Crosswalk.Proofs.Run.History

/-!
# Sources that are present

At run time a choice has a first source that is present, or none. In the states that a conversion
is made for, a source that is required is present; there the presence checks of a program tell which
sources are.
-/

namespace Crosswalk
set_option autoImplicit false

namespace Env

/-- There is a value at the place of a source. -/
def present (env : Env) (c : Candidate) : Bool :=
  !(env.get c.place).isAbsent

/-- The primary if it is present, else the fallback if there is one and it is present. -/
def source? (env : Env) (choice : Choice) : Option Candidate :=
  choice.candidates.find? env.present

/-- The value that is converted is there, and so is every source that is required. -/
structure Supplies (env : Env) (choice : Choice) : Prop where
  input : env.input.isAbsent = false
  required : ∀ c ∈ choice.candidates, c.optional = false → env.present c = true

/-- What a program may rely on for a source: the check of its place tells whether it is present, and
it is if it is not optional. -/
structure Tells (env : Env) (c : Candidate) : Prop where
  check : env.holds (.isPresent c.place) = env.present c
  required : c.optional = false → env.present c = true

variable {env : Env} {choice : Choice} {primary fallback c : Candidate}

theorem source?_direct :
    env.source? ⟨primary, none⟩ = if env.present primary then some primary else none := by
  cases h : env.present primary <;> simp [source?, Choice.candidates, h]

theorem source?_withFallback : env.source? ⟨primary, some fallback⟩ =
    if env.present primary then some primary
    else if env.present fallback then some fallback else none := by
  cases h : env.present primary <;> cases h' : env.present fallback <;>
    simp [source?, Choice.candidates, h, h']

/-- Of two sources that of a run is the primary if that is present, and else the fallback. -/
theorem source?_eq_some (h : env.source? ⟨primary, some fallback⟩ = some c) :
    env.present primary = true ∧ c = primary ∨ env.present primary = false ∧ c = fallback := by
  rw [source?_withFallback] at h
  split at h
  · next present => exact .inl ⟨present, (Option.some.inj h).symm⟩
  · next absent =>
    exact .inr ⟨Bool.eq_false_iff.2 absent,
      (Option.some.inj (Option.ite_none_right_eq_some.1 h).2).symm⟩

theorem mem_of_source? (h : env.source? choice = some c) : c ∈ choice.candidates :=
  List.mem_of_find?_eq_some h

theorem present_of_source? (h : env.source? choice = some c) : env.present c = true :=
  List.find?_some h

theorem source?_eq_none_iff :
    env.source? choice = none ↔ ∀ c ∈ choice.candidates, env.present c = false := by
  simp [source?]

theorem get_of_not_present (h : env.present c = false) : env.get c.place = .absent := by
  simpa [present, Data.isAbsent_iff] using h

/-- The state before a run, with an input of some fields. -/
def initial (fields : List (String × Data)) : Env :=
  ⟨.struct fields, fun _ => none, fun _ => none⟩

/-- If all sources may be absent, every input has what is required. -/
theorem initial_supplies (optional : ∀ c ∈ choice.candidates, c.optional = true)
    (fields : List (String × Data)) : (initial fields).Supplies choice where
  input := rfl
  required c mem required := by simp [optional c mem] at required

end Env

/-! ## Sources that are chosen -/

/-- The place of an entry is optional as its last field is; without fields it is the whole input. -/
theorem Entry.optional_place (e : Entry) :
    e.place.optional = e.field.isOptional ∨ e.place = .input := by
  by_cases some : fieldNames e.source = []
  · right
    rw [place, some, placeAlong]
  · obtain ⟨before, name, ends⟩ :=
      placeAlong_eq_field e.field.isOptional some .input e.parentsOptional
    left
    rw [place, ends, Place.field]

theorem Level.optional_place_of_choose {l : Level} {sources : List Field} {name : String}
    {choice : Choice} {c : Candidate} (h : l.choose sources name = .ok choice)
    (mem : c ∈ choice.candidates) : c.place.optional = c.optional ∨ c.place = .input := by
  rcases candidate_of_choose h mem with ⟨f, _, rfl⟩ | ⟨path, e, _, rfl⟩
  · exact .inl rfl
  · exact e.optional_place

theorem Env.Supplies.tells {env : Env} {l : Level} {sources : List Field} {name : String}
    {choice : Choice} {c : Candidate} (h : env.Supplies choice)
    (chosen : l.choose sources name = .ok choice) (mem : c ∈ choice.candidates) :
    env.Tells c where
  check := by
    rcases Level.optional_place_of_choose chosen mem with marked | input
    · cases optional : c.optional with
      | true => simp [holds, present, marked, optional]
      | false => simp [holds, marked, optional, h.required c mem optional]
    · have there := h.input
      simp [holds, present, input, Place.input, get, root, location, Data.follow, there]
  required := h.required c mem

end Crosswalk
