import Crosswalk.Catalog
import Crosswalk.Path.Parser
import Crosswalk.Place

/-!
# Mapping tables

A mapping table says where a destination field takes its value from when no source field has its
name, or instead of the source field of its name. Entries are kept in the order of their paths, so
that the entries under a path stand next to each other.
-/

namespace Crosswalk
set_option autoImplicit false

/-- A source for one destination path. -/
structure Entry where
  /-- The path of the source field from the source struct. -/
  source : Path
  field : Field
  /-- Optionality of the fields on the way to `field`; those not listed are required. -/
  parentsOptional : List Bool
  /-- Whether the entry goes before a source field of the destination's name. -/
  overrides : Bool
  deriving Repr

namespace Entry

/-- The place that names lead to, each but the last with the next parent's optionality. -/
def placeAlong (last : Bool) : Place → List Bool → List String → Place
  | place, _, [] => place
  | place, _, [name] => place.field name last
  | place, parents, name :: next :: names =>
    placeAlong last (place.field name (parents.head?.getD false)) parents.tail (next :: names)

/-- The names of the fields on a path. -/
def fieldNames (path : Path) : List String :=
  path.segments.filterMap fun
    | .field name => some name
    | _ => none

/-- The place that an entry reads. -/
def place (e : Entry) : Place :=
  placeAlong e.field.isOptional .input e.parentsOptional (fieldNames e.source)

end Entry

/-- Entries in ascending order of their paths. -/
structure MappingTable where
  entries : List (Path × Entry)
  deriving Repr

namespace MappingTable

/-- A table without entries. -/
def empty : MappingTable :=
  ⟨[]⟩

/-- Puts an entry in front of the first that is not before it, in place of one at its path. -/
def insertInto (path : Path) (entry : Entry) : List (Path × Entry) → List (Path × Entry)
  | [] => [(path, entry)]
  | (p, e) :: rest =>
    match path.compare p with
    | .lt => (path, entry) :: (p, e) :: rest
    | .eq => (path, entry) :: rest
    | .gt => (p, e) :: insertInto path entry rest

/-- Puts an entry at a path, in place of the entry that is there. -/
def insert (t : MappingTable) (path : Path) (entry : Entry) : MappingTable :=
  ⟨insertInto path entry t.entries⟩

/-- The entry at a path. -/
def get? (t : MappingTable) (path : Path) : Option Entry :=
  t.entries.lookup path

/-- The number of paths with entries. -/
def size (t : MappingTable) : Nat :=
  t.entries.length

/-- The entries under a path: those from the path on, as long as they start with it. -/
def under (t : MappingTable) (path : Path) : List (Path × Entry) :=
  let behind := t.entries.dropWhile fun (p, _) => p.compare path == .lt
  (behind.takeWhile fun (p, _) => p.startsWith path).filter fun (p, _) => p.isUnder path

/-- Puts an entry at a path given as text. -/
def insertText (t : MappingTable) (path : String) (entry : Entry) :
    Except PathError MappingTable := do
  return t.insert (← Path.parse path) entry

/-- The table of the mappings of a conversion, a later one replacing one with the same path. -/
def ofMappings (mappings : List Mapping) : Except PathError MappingTable :=
  mappings.foldlM (fun t m => t.insertText m.dest {
      source := .ofFields m.source
      field := m.field
      parentsOptional := m.parentsOptional
      overrides := m.overrides }) empty

end MappingTable

end Crosswalk
