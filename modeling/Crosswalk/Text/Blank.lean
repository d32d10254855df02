import Crosswalk.Text.CodeRun

/-!
# White space

The code points with the Unicode property `White_Space`, and the removal of such characters at
both ends of a text.
-/

namespace Crosswalk.Text
set_option autoImplicit false

/-- The runs of white-space code points, in ascending order. -/
def blankRuns : List CodeRun :=
  [⟨9, 0xd, 1⟩, ⟨0x20, 0x20, 1⟩, ⟨0x85, 0x85, 1⟩, ⟨0xa0, 0xa0, 1⟩, ⟨0x1680, 0x1680, 1⟩,
   ⟨0x2000, 0x200a, 1⟩, ⟨0x2028, 0x2029, 1⟩, ⟨0x202f, 0x202f, 1⟩, ⟨0x205f, 0x205f, 1⟩,
   ⟨0x3000, 0x3000, 1⟩]

def isBlank (c : Char) : Bool :=
  inRuns blankRuns c.toNat

/-- The text without its leading white space. -/
def dropBlank (text : List Char) : List Char :=
  text.dropWhile isBlank

/-- The text without white space at either end. -/
def trim (text : List Char) : List Char :=
  (dropBlank (dropBlank text).reverse).reverse

end Crosswalk.Text
