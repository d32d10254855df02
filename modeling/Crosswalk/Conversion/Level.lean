import Crosswalk.MappingTable

/-!
# Levels of a conversion

A level is one destination struct being filled from one source struct. Inner structs get levels of
their own, so fields side by side see the same state, and a level sees only mapping entries under
its path.
-/

namespace Crosswalk
set_option autoImplicit false

/-- What the fields of one destination struct are converted with: the struct's path and place, the
place of the source struct, how deep it is, and the mapping table. -/
structure Level where
  path : Path
  dest : Place
  source : Place
  depth : Nat
  table : MappingTable
  deriving Repr

namespace Level

/-- The level of the whole destination. -/
def top (table : MappingTable) : Level :=
  ⟨.root, .output, .input, 0, table⟩

/-- The level of an inner struct. -/
def descend (l : Level) (path : Path) (dest source : Place) : Level :=
  { l with path, dest, source, depth := l.depth + 1 }

/-- The number of mapping entries that the level sees. -/
def mappingCount (l : Level) : Nat :=
  (l.table.under l.path).length

/-- The entry for a destination path, if the level sees it. -/
def mapping? (l : Level) (path : Path) : Option Entry :=
  if path.isUnder l.path then l.table.get? path else none

end Level

end Crosswalk
