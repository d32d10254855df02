import Crosswalk.Conversion.Error
import Crosswalk.Conversion.Level

/-!
# The sources of a destination field

A destination field takes its value from the source field of its name, from the mapping entry at
its path, or from one with the other as fallback. The fallback is there only if the primary source
may be absent.
-/

namespace Crosswalk
set_option autoImplicit false

/-- A value that a destination can be converted from. -/
structure Candidate where
  type : Ty
  optional : Bool
  place : Place
  deriving Repr

namespace Candidate

/-- A field as a source, read from a place. -/
def ofField (f : Field) (place : Place) : Candidate :=
  ⟨f.type, f.isOptional, place⟩

/-- An element of a list or map is always present. -/
def ofElement (type : Ty) (place : Place) : Candidate :=
  ⟨type, false, place⟩

end Candidate

/-- The sources of a destination field. -/
structure Choice where
  primary : Candidate
  fallback? : Option Candidate
  deriving Repr

namespace Choice

/-- A source without another behind it. -/
def direct (primary : Candidate) : Choice :=
  ⟨primary, none⟩

/-- A primary source with another that counts when the primary is absent. -/
def withFallback (primary secondary : Candidate) : Choice :=
  ⟨primary, if primary.optional then some secondary else none⟩

/-- All sources, the primary first. -/
def candidates (c : Choice) : List Candidate :=
  c.primary :: c.fallback?.toList

end Choice

namespace Level

/-- The source field of a name, read from the level's source struct. -/
def sameName? (l : Level) (sources : List Field) (name : String) : Option Candidate :=
  (findField? sources name).map fun f => .ofField f (l.source.field f.name f.isOptional)

/-- The sources of the destination field of a name. -/
def choose (l : Level) (sources : List Field) (name : String) : Except ConvertError Choice :=
  let path := l.path.field name
  let mapped? := (l.mapping? path).map fun e => (Candidate.ofField e.field e.place, e.overrides)
  match l.sameName? sources name, mapped? with
  | none, none => path.fail .noSource
  | some same, none => .ok (.direct same)
  | none, some (mapped, _) => .ok (.direct mapped)
  | some same, some (mapped, true) => .ok (.withFallback mapped same)
  | some same, some (mapped, false) => .ok (.withFallback same mapped)

end Level

end Crosswalk
