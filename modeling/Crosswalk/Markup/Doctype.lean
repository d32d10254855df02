import Crosswalk.Markup.Attribute

/-!
# The end of a document type declaration

A document type declaration ends at the first `>` outside quotes and outside its internal subset,
which stands between brackets. The subset ends at the first `]` outside markup. Comments and
processing instructions in it end at marks of their own, declarations of entities, attributes and
notations at a `>` outside quotes, and all other markup at any `>`.
-/

namespace Crosswalk.Markup
set_option autoImplicit false

/-- Where in a document type declaration the reader is. -/
inductive DoctypeState
  | head
  | headQuoted (quote : Char)
  | subset
  /-- In a comment, with so many characters of its opening still to come. -/
  | comment (opening : Nat)
  /-- In a processing instruction, with so many characters of its opening still to come. -/
  | instruction (opening : Nat)
  /-- In a declaration that may hold quoted strings. -/
  | declaration
  | declarationQuoted (quote : Char)
  /-- In any other markup. -/
  | other
  | tail
  deriving DecidableEq, Repr

/-- The state behind a `<` of the internal subset. -/
def DoctypeState.ofOpening (rest : List Char) : DoctypeState :=
  if "!--".toList.isPrefixOf rest then comment 3
  else if rest.head? = some '?' then instruction 1
  else if ["!ENTITY", "!ATTLIST", "!NOTATION"].any (·.toList.isPrefixOf rest) then declaration
  else other

/-- The text behind a document type declaration. -/
def afterDoctype? : DoctypeState → List Char → Option (List Char)
  | _, [] => none
  | .head, c :: rest =>
    if c = '>' then some rest
    else if c = '[' then afterDoctype? .subset rest
    else if isQuote c then afterDoctype? (.headQuoted c) rest
    else afterDoctype? .head rest
  | .headQuoted quote, c :: rest =>
    if c = quote then afterDoctype? .head rest else afterDoctype? (.headQuoted quote) rest
  | .subset, c :: rest =>
    if c = ']' then afterDoctype? .tail rest
    else if c = '<' then afterDoctype? (.ofOpening rest) rest
    else afterDoctype? .subset rest
  | .comment (n + 1), _ :: rest => afterDoctype? (.comment n) rest
  | .comment 0, c :: rest =>
    if "-->".toList.isPrefixOf (c :: rest) then afterDoctype? .subset rest
    else afterDoctype? (.comment 0) rest
  | .instruction (n + 1), _ :: rest => afterDoctype? (.instruction n) rest
  | .instruction 0, c :: rest =>
    if "?>".toList.isPrefixOf (c :: rest) then afterDoctype? .subset rest
    else afterDoctype? (.instruction 0) rest
  | .declaration, c :: rest =>
    if c = '>' then afterDoctype? .subset rest
    else if isQuote c then afterDoctype? (.declarationQuoted c) rest
    else afterDoctype? .declaration rest
  | .declarationQuoted quote, c :: rest =>
    if c = quote then afterDoctype? .declaration rest
    else afterDoctype? (.declarationQuoted quote) rest
  | .other, c :: rest =>
    if c = '>' then afterDoctype? .subset rest else afterDoctype? .other rest
  | .tail, c :: rest => if c = '>' then some rest else afterDoctype? .tail rest

/-- The text behind a document type declaration is shorter, which ends the scan. -/
theorem length_lt_of_afterDoctype? {s : DoctypeState} {text rest : List Char}
    (h : afterDoctype? s text = some rest) : rest.length < text.length := by
  fun_induction afterDoctype? s text <;> simp_all <;> omega

end Crosswalk.Markup
