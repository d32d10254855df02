import Crosswalk.Text.Naming
import Crosswalk.Text.Split

/-!
# Paths in a destination tree

A path goes from a struct down through fields, list elements and map values. Paths are ordered
segment by segment: a field before an element before a map value, fields by the code points of
their names, and a path before its extensions.
-/

namespace Crosswalk
set_option autoImplicit false

/-- One step of a path: into a field, any list element or any map value. -/
inductive Segment
  | field (name : String)
  | index
  | key
  deriving DecidableEq, Repr

namespace Segment

/-- The order of segments: fields, then elements, then map values. -/
def compare : Segment → Segment → Ordering
  | field a, field b => Ord.compare a b
  | field _, index => .lt
  | field _, key => .lt
  | index, field _ => .gt
  | index, index => .eq
  | index, key => .lt
  | key, field _ => .gt
  | key, index => .gt
  | key, key => .eq

/-- The words of a field name in snake case, or a fixed word. No two underscores are adjacent. -/
def ident : Segment → String
  | field name =>
    let words := (Text.splitOn '_' (Text.snakeChars name.toList)).filter (· ≠ [])
    String.ofList (['_'].intercalate words)
  | index => "item"
  | key => "entry"

end Segment

/-- The segments from the destination struct down. -/
structure Path where
  segments : List Segment
  deriving DecidableEq, Repr

namespace Path

def root : Path :=
  ⟨[]⟩

/-- A path of fields only. -/
def ofFields (names : List String) : Path :=
  ⟨names.map .field⟩

/-- A path with one more segment. -/
def extend (p : Path) (s : Segment) : Path :=
  ⟨p.segments ++ [s]⟩

/-- The field of a name in the struct at a path. -/
def field (p : Path) (name : String) : Path :=
  p.extend (.field name)

/-- The elements of the list at a path. -/
def index (p : Path) : Path :=
  p.extend .index

/-- The values of the map at a path. -/
def key (p : Path) : Path :=
  p.extend .key

def isRoot (p : Path) : Bool :=
  p.segments.isEmpty

def length (p : Path) : Nat :=
  p.segments.length

/-- Whether the first segments of a path are those of another. -/
def startsWith (p lead : Path) : Bool :=
  lead.segments.isPrefixOf p.segments

/-- A path is under another if it extends it by at least one segment. -/
def isUnder (p lead : Path) : Bool :=
  decide (lead.length < p.length) && p.startsWith lead

/-- The order of the first segments that differ; what ends first comes first. -/
def compareSegments : List Segment → List Segment → Ordering
  | [], [] => .eq
  | [], _ :: _ => .lt
  | _ :: _, [] => .gt
  | a :: as, b :: bs => (a.compare b).then (compareSegments as bs)

/-- The order of paths. -/
def compare (p q : Path) : Ordering :=
  compareSegments p.segments q.segments

/-- The segments behind others, or at the start of a path, where a field takes no dot. -/
def textFrom (start : Bool) : List Segment → String
  | [] => ""
  | .field name :: rest => (if start then "" else ".") ++ name ++ textFrom false rest
  | .index :: rest => "[index]" ++ textFrom false rest
  | .key :: rest => "[key]" ++ textFrom false rest

/-- The written form, in which brackets stand for elements. -/
def text (p : Path) : String :=
  textFrom true p.segments

/-- A fragment of an identifier, the segments being set apart by two underscores. -/
def ident (p : Path) : String :=
  "__".intercalate (p.segments.map Segment.ident)

/-- A path with one more segment is under the path. -/
theorem isUnder_extend (p : Path) (s : Segment) : (p.extend s).isUnder p = true := by
  simp [isUnder, extend, startsWith, length]

end Path

end Crosswalk
