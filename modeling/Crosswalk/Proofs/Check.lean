import Crosswalk.Conversion
import Crosswalk.Proofs.Except

/-!
# What the checks of a conversion accept

One equivalence for each check, so that what follows from a conversion that succeeds is said about
types and no longer about checks.
-/

namespace Crosswalk
set_option autoImplicit false

/-- The elements of a list, or of a map with strings as keys. -/
def Ty.elements? : Ty → Option (Shape × Ty)
  | .list element => some (.list, element)
  | .map key value => if key.resolved.isString then some (.map, value) else none
  | _ => none

/-- What has elements is a list, or a map whose keys are strings. -/
theorem Ty.elements?_eq_some {type element : Ty} {shape : Shape}
    (h : type.elements? = some (shape, element)) :
    shape = .list ∧ type = .list element ∨
      shape = .map ∧ ∃ key, key.resolved.isString = true ∧ type = .map key element := by
  cases type with
  | list inner =>
    obtain ⟨rfl, rfl⟩ : .list = shape ∧ inner = element := by simpa [elements?] using h
    exact .inl ⟨rfl, rfl⟩
  | map key value =>
    obtain ⟨keyed, rfl, rfl⟩ : key.resolved.isString = true ∧ .map = shape ∧ value = element := by
      simpa [elements?] using h
    exact .inr ⟨rfl, key, keyed, rfl⟩
  | _ => cases h

/-- What has elements is a list or map. -/
theorem Ty.isAggregate_of_elements? {type element : Ty} {shape : Shape}
    (h : type.elements? = some (shape, element)) : type.isAggregate = true := by
  rcases elements?_eq_some h with ⟨_, rfl⟩ | ⟨_, _, _, rfl⟩ <;> rfl

/-- A struct can be told from its type. -/
theorem Struct.toTy_inj {s t : Struct} (h : s.toTy = t.toTy) : s = t := by
  cases s
  cases t
  simpa [toTy] using h

/-- A struct is no aggregate, so it has no elements. -/
theorem Struct.elements?_toTy (s : Struct) : s.toTy.elements? = none := rfl

namespace Converter

/-- Two types pass if they are compatible behind their aliases. -/
theorem checkCompatible_eq_ok_iff {path : Path} {dest source : Ty} :
    checkCompatible path dest source = .ok () ↔
      compatible dest.resolved source.resolved = true := by
  unfold checkCompatible
  split <;> simp_all [Path.mismatch, Path.fail]

/-- Keys pass if they are strings behind their aliases. -/
theorem checkKey_eq_ok_iff {path : Path} {key : Ty} :
    checkKey path key = .ok () ↔ key.resolved.isString = true := by
  unfold checkKey
  split <;> simp_all [Path.unsupported, Path.fail]

/-- Elements pass if they are no lists, maps or sets behind their aliases. -/
theorem checkElement_eq_ok_iff {path : Path} {shape : Shape} {element : Ty} :
    checkElement path shape element = .ok () ↔ element.resolved.isAggregate = false := by
  unfold checkElement
  split <;> simp_all [Path.unsupported, Path.fail]

/-- Types that bytes are read from. -/
def isBytes : Ty → Bool
  | .binary => true
  | .primitive .string => true
  | _ => false

/-- A source passes for bytes if it is bytes or a string behind its aliases. -/
theorem checkBytes_eq_ok_iff {path : Path} {source : Ty} :
    checkBytes path source = .ok () ↔ isBytes source.resolved = true := by
  unfold checkBytes isBytes
  split <;> simp_all [Path.mismatch, Path.fail]

/-- A source has elements to be copied if it is an aggregate of the shape that the destination has.
-/
theorem elementOf_eq_ok_iff {path : Path} {shape : Shape} {source element : Ty} :
    elementOf path shape source = .ok element ↔
      source.resolved.elements? = some (shape, element) := by
  cases shape <;> cases hs : source.resolved <;>
    simp [elementOf, hs, Ty.elements?, checkKey, Path.unsupported, Path.mismatch, Path.fail]
  case map key value =>
    split <;> simp_all [Except.map]

/-- A candidate has elements to be copied if, moreover, these are no aggregates themselves. -/
theorem sourceElement_eq_ok_iff {path : Path} {shape : Shape} {c : Candidate} {element : Ty} :
    sourceElement path shape c = .ok element ↔
      c.type.resolved.elements? = some (shape, element) ∧
        element.resolved.isAggregate = false := by
  simp only [sourceElement, bind_eq_ok, pure_eq_ok, elementOf_eq_ok_iff]
  constructor
  · rintro ⟨e, he, u, hu, rfl⟩
    exact ⟨he, checkElement_eq_ok_iff.1 hu⟩
  · rintro ⟨he, plain⟩
    exact ⟨element, he, (), checkElement_eq_ok_iff.2 plain, rfl⟩

end Converter

end Crosswalk
