import Crosswalk.Place
import Crosswalk.Ty

/-!
# Walks along types

The accesses of a place, followed from a type. `Walks` is what accesses may do; `Ty.at?` computes
where they lead if every name stands for the first field that has it, as it does where fields are
read.
-/

namespace Crosswalk
set_option autoImplicit false

/-- A field access names a field of a struct, with that field's optionality; lists are indexed and
maps looked up by key. Aliases are followed. -/
inductive Access.Leads : Ty → Access → Ty → Prop
  | field {ty : Ty} {name file : String} {fields : List Field} {f : Field}
      (struct : ty.resolved = .struct name file fields) (mem : f ∈ fields) :
      Leads ty (.field f.name f.isOptional) f.type
  | index {ty element : Ty} {binding : String} (list : ty.resolved = .list element) :
      Leads ty (.index binding) element
  | key {ty key value : Ty} {binding : String} (map : ty.resolved = .map key value) :
      Leads ty (.key binding) value

/-- The accesses lead from one type to another. -/
inductive Walks : Ty → List Access → Ty → Prop
  | done {ty : Ty} : Walks ty [] ty
  | step {ty next last : Ty} {access : Access} {rest : List Access}
      (first : access.Leads ty next) (others : Walks next rest last) :
      Walks ty (access :: rest) last

namespace Walks
variable {a b c : Ty} {p q : List Access} {access : Access}

/-- Walks are put together: from the type that the first ends at, the second goes on. -/
theorem append (h : Walks a p b) (h' : Walks b q c) : Walks a (p ++ q) c := by
  induction h with
  | done => exact h'
  | step first _ ih => exact .step first (ih h')

/-- A walk goes on by one access. -/
theorem snoc (h : Walks a p b) (h' : access.Leads b c) : Walks a (p ++ [access]) c :=
  h.append (.step h' .done)

end Walks

namespace Ty

/-- The type that an access leads to, if it may and a name is that of the first field with it. -/
def step? (ty : Ty) (access : Access) : Option Ty :=
  match access, ty.resolved with
  | .field name optional, .struct _ _ fields =>
    match findField? fields name with
    | some f => if f.isOptional = optional then some f.type else none
    | none => none
  | .index _, .list element => some element
  | .key _, .map _ value => some value
  | _, _ => none

/-- The type that accesses lead to from a type, if they lead anywhere. -/
def at? (ty : Ty) (accesses : List Access) : Option Ty :=
  accesses.foldlM step? ty

theorem at?_snoc {ty : Ty} {p : List Access} {access : Access} :
    ty.at? (p ++ [access]) = (ty.at? p).bind (·.step? access) := by
  simp [at?, List.foldlM_append]

theorem step?_field {ty : Ty} {name file : String} {fields : List Field} {f : Field}
    (struct : ty.resolved = .struct name file fields) (found : findField? fields f.name = some f) :
    ty.step? (.field f.name f.isOptional) = some f.type := by
  simp [step?, struct, found]

/-- A step that finds a type is one that leads there. -/
theorem leads_of_step? {ty next : Ty} {access : Access} (h : ty.step? access = some next) :
    access.Leads ty next := by
  unfold step? at h
  split at h
  · next name optional n file fields struct =>
    split at h
    · next f found =>
      split at h
      · next same =>
        obtain rfl := name_of_findField? found
        cases h
        exact same ▸ .field struct (List.mem_of_find?_eq_some found)
      · cases h
    · cases h
  · next list =>
    cases h
    exact .index list
  · next map =>
    cases h
    exact .key map
  · cases h

/-- What is computed is walked. -/
theorem walks_of_at? {ty last : Ty} {p : List Access} (h : ty.at? p = some last) :
    Walks ty p last := by
  induction p generalizing ty with
  | nil =>
    cases h
    exact .done
  | cons access rest ih =>
    obtain ⟨next, first, others⟩ := Option.bind_eq_some_iff.1 h
    exact .step (leads_of_step? first) (ih others)

end Ty

end Crosswalk
