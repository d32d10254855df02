import Crosswalk.Conversion.Aggregate
import Crosswalk.Conversion.Scalar
import Crosswalk.Conversion.Struct

/-!
# Conversions

For every destination field, in order, the statements that fill it from the source. The recursion
follows the destination's types, so a conversion ends whatever the source is.
-/

namespace Crosswalk
set_option autoImplicit false

namespace Converter

mutual

/-- Fills the destination fields of a level in order. -/
def convertFields (cv : Converter) (level : Level) (sources : List Field) :
    List Field → Except ConvertError Block
  | [] => .ok []
  | f :: rest => do
    let block ← cv.convertField level sources f
    let later ← cv.convertFields level sources rest
    return block ++ later

/-- Fills a destination field from the sources that the level chooses for it. -/
def convertField (cv : Converter) (level : Level) (sources : List Field) :
    Field → Except ConvertError Block
  | ⟨name, type, required, _⟩ => do
    let choice ← level.choose sources name
    cv.convertType level ⟨level.path.field name, level.dest.field name !required⟩ choice type

/-- Fills a slot of a destination type. -/
def convertType (cv : Converter) (level : Level) (slot : Slot) (choice : Choice) :
    Ty → Except ConvertError Block
  | .primitive p => cv.convertScalar slot choice (.primitive p)
  | .enum name file values => cv.convertScalar slot choice (.enum name file values)
  | .typedef name file target => cv.convertScalar slot choice (.typedef name file target)
  | .binary => convertBinary slot choice
  | .struct name file fields =>
    convertStruct (cv.structBody level name file
      (fun inner sources => cv.convertFields inner sources fields) slot) slot choice
  | .list element =>
    cv.convertAggregate .list element (cv.elementBody? level element) slot choice
  | .map key value => do
    checkKey slot.path key
    cv.convertAggregate .map value (cv.elementBody? level value) slot choice
  | .set _ => slot.path.unsupported .set

/-- How an element that is a struct is filled; an alias of a struct is copied whole. -/
def elementBody? (cv : Converter) (level : Level) :
    Ty → Option (Slot → Candidate → Except ConvertError Block)
  | .struct name file fields =>
    some (cv.structBody level name file fun inner sources =>
      cv.convertFields inner sources fields)
  | _ => none

end

/-- The statements that fill destination fields from source fields. -/
def convert (cv : Converter) (sources dests : List Field) (table : MappingTable) :
    Except ConvertError Block :=
  cv.convertFields (.top table) sources dests

end Converter

end Crosswalk
