import Crosswalk.Markup.Token

/-!
# Elements

The tokens of a document nest into elements. An element keeps how it ended: at its end tag, at the
end of the text, or at a fault that stopped the reading inside it. All elements that are open when
the reading stops end in the same way, so a reader of the tree meets a fault exactly where a reader
of the tokens would.
-/

namespace Crosswalk.Markup
set_option autoImplicit false

/-- How an element ends. -/
inductive Ending
  | closed
  | cut
  | faulty (fault : Fault)
  deriving DecidableEq, Repr

/-- An element; an empty element is closed and has no children. -/
inductive Node
  | mk (tag : Tag) (children : List Node) (ending : Ending)
  deriving Repr

namespace Node

/-- The tag that an element begins with. -/
def tag : Node → Tag
  | mk tag _ _ => tag

/-- The elements directly inside an element. -/
def children : Node → List Node
  | mk _ children _ => children

def ending : Node → Ending
  | mk _ _ ending => ending

/-- The name of an element. -/
def name (node : Node) : String :=
  node.tag.name

/-- The value of the first attribute of a key. -/
def attribute? (node : Node) (key : String) : Option String :=
  (node.tag.attributes.find? (·.key == key)).map (·.value)

end Node

/-- The elements of a document that stand inside no other, and the fault that ended them. -/
structure Forest where
  nodes : List Node
  fault? : Option Fault
  deriving Repr

/-- An element that is open, with the elements that stand before it in its parent, last first. -/
structure Enclosing where
  tag : Tag
  before : List Node
  deriving Repr

/-- Ends all open elements; `done` holds the finished children of the innermost, last first. -/
def collapse (ending : Ending) : List Enclosing → List Node → List Node
  | [], done => done.reverse
  | e :: outer, done => collapse ending outer (.mk e.tag done.reverse ending :: e.before)

/-- Stops the reading because of a fault. -/
def stopAt (fault : Fault) (outer : List Enclosing) (done : List Node) : Forest :=
  ⟨collapse (.faulty fault) outer done, some fault⟩

/-- Nests tokens inside the open elements; an end tag has to name the innermost. -/
def nest (fault? : Option Fault) : List Enclosing → List Node → List Token → Forest
  | outer, done, [] =>
    match fault? with
    | some fault => stopAt fault outer done
    | none => ⟨collapse .cut outer done, none⟩
  | outer, done, .open tag :: rest => nest fault? (⟨tag, done⟩ :: outer) [] rest
  | outer, done, .empty tag :: rest => nest fault? outer (.mk tag [] .closed :: done) rest
  | [], done, .close name :: _ => stopAt (.unmatchedEnd name) [] done
  | e :: outer, done, .close name :: rest =>
    if name = e.tag.name then
      nest fault? outer (.mk e.tag done.reverse .closed :: e.before) rest
    else stopAt (.mismatchedEnd e.tag.name name) (e :: outer) done

/-- The elements of a document text. -/
def Forest.ofText (text : String) : Forest :=
  let scanned := scanDocument text.toList
  nest scanned.fault? [] [] scanned.tokens

end Crosswalk.Markup
