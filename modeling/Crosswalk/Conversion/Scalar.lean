import Crosswalk.Conversion.Converter

/-!
# Values that are copied whole

Scalars and bytes are assigned, from the fallback first and then over it from the primary if that is
present. An optional scalar without a present source stays unassigned.
-/

namespace Crosswalk
set_option autoImplicit false

namespace Converter

/-- Assigns the value of a source if the source is present. -/
def assignPresent (target : Place) (value : Candidate → Expr) (c : Candidate) : Statement :=
  .guarded (.isPresent c.place) [.assign target (value c)]

/-- Assigns the fallback and over it the primary; `guard` leaves an absent source unassigned. -/
def assignChoice (guard : Bool) (target : Place) (value : Candidate → Expr) (choice : Choice) :
    Block :=
  let first (c : Candidate) : Statement :=
    if guard then assignPresent target value c else .assign target (value c)
  match choice.fallback? with
  | none => [first choice.primary]
  | some fallback => [first fallback, assignPresent target value choice.primary]

/-- A scalar or an alias is cast to the destination's type, from sources that are compatible with
it. -/
def convertScalar (cv : Converter) (slot : Slot) (choice : Choice) (dest : Ty) :
    Except ConvertError Block := do
  let type ← cv.typeName slot.path dest
  choice.candidates.forM fun c => checkCompatible slot.path dest c.type
  let optional := slot.place.optional
  return assignChoice optional slot.place (fun c => .cast type c.place optional) choice

/-- Bytes are read from bytes and from strings. -/
def checkBytes (path : Path) (source : Ty) : Except ConvertError Unit :=
  match source.resolved with
  | .binary => .ok ()
  | .primitive .string => .ok ()
  | other => path.mismatch .binary other.kind

/-- Bytes are converted without a cast, and an absent source gives no bytes. -/
def convertBinary (slot : Slot) (choice : Choice) : Except ConvertError Block := do
  choice.candidates.forM fun c => checkBytes slot.path c.type
  return assignChoice false slot.place (fun c => .bytes c.place) choice

end Converter

end Crosswalk
