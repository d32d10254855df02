import Crosswalk.Conversion.Converter

/-!
# Structs

A struct is allocated and then filled field by field from the first of its sources that is present;
without one it is absent. How its fields are filled is an argument here.
-/

namespace Crosswalk
set_option autoImplicit false

/-- Fills a struct, given the level for it and the source's fields. -/
abbrev Filler := Level → List Field → Except ConvertError Block

namespace Converter

/-- Allocates the struct at a slot and fills it from a source. -/
def structBody (cv : Converter) (level : Level) (name file : String) (fill : Filler) (slot : Slot)
    (source : Candidate) : Except ConvertError Block :=
  match source.type.resolved with
  | .struct _ _ fields => do
    let type ← cv.qualified name file slot.path
    let filling ← fill (level.descend slot.path slot.place source.place) fields
    return .allocate slot.place (.struct type) none :: filling
  | other => slot.path.mismatch .struct other.kind

/-- The body for a source, under a guard with `otherwise` if the source may be absent. -/
def structFrom (body : Candidate → Except ConvertError Block) (source : Candidate)
    (otherwise : Block) : Except ConvertError Block := do
  let block ← body source
  return if source.optional then [.branch (.isPresent source.place) block otherwise] else block

/-- Fills a struct from its primary source, else from the fallback, and leaves it absent if there is
none of them. -/
def convertStruct (body : Candidate → Except ConvertError Block) (slot : Slot) (choice : Choice) :
    Except ConvertError Block := do
  let absent : Block := [.assign slot.place .null]
  let otherwise ← match choice.fallback? with
    | some fallback => structFrom body fallback absent
    | none => .ok absent
  structFrom body choice.primary otherwise

end Converter

end Crosswalk
