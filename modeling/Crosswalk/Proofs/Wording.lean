import Crosswalk.Proofs.Preorder
import Crosswalk.Proofs.Usable

/-!
# The text of a function and the words in it

A text is cut into words at everything that no identifier has. The lines of a program are put
together from words of the language it is written out in, which are the same for every program, and
from the words that `Statement.words`, `Statement.type?` and `Catalog.Takes` list. So the lists miss
nothing: what is said of the listed words holds of all words that a function is written with.

The lists may have more. A check that always holds is not written, nor is the size hint of a struct.
-/

namespace Crosswalk
set_option autoImplicit false

/-! ## Cutting texts -/

namespace Text

/-- No identifier goes on across the character. The mark of a raw identifier belongs to it. -/
def isBreak (c : Char) : Bool :=
  !(isWordChar c || c == '#')

/-- The stretches of a text without a break, in order. -/
def pieces (text : List Char) : List (List Char) :=
  (text.splitOnP isBreak).filter (· ≠ [])

/-- The words of a text, in order. -/
def words (text : String) : List String :=
  (pieces text.toList).map String.ofList

section
variable {c : Char} {text : List Char}

/-- Texts are cut at every break. The other facts about pieces follow from this one. -/
theorem pieces_append_cons (h : isBreak c = true) (a b : List Char) :
    pieces (a ++ c :: b) = pieces a ++ pieces b := by
  rw [pieces, List.splitOnP_append_cons a b h, List.filter_append]
  rfl

/-- A break at the front is in no piece. -/
theorem pieces_cons (h : isBreak c = true) (b : List Char) : pieces (c :: b) = pieces b :=
  pieces_append_cons h [] b

/-- A text of breaks has no pieces. -/
theorem pieces_of_blank (blank : ∀ c ∈ text, isBreak c = true) : pieces text = [] := by
  induction text with
  | nil => rfl
  | cons c rest ih =>
    obtain ⟨first, others⟩ := List.forall_mem_cons.1 blank
    rw [pieces_cons first, ih others]

end

/-- A text begins with a break. -/
def CutBefore (text : String) : Prop :=
  ∃ c ∈ text.toList.head?, isBreak c = true

/-- A text ends with a break. -/
def CutBehind (text : String) : Prop :=
  ∃ c ∈ text.toList.getLast?, isBreak c = true

/-- Nothing but breaks. -/
def Blank (text : String) : Prop :=
  ∀ c ∈ text.toList, isBreak c = true

instance {text : String} : Decidable (CutBefore text) :=
  decidable_of_iff (text.toList.head?.any isBreak = true) (Option.any_eq_true _ _)

instance {text : String} : Decidable (CutBehind text) :=
  decidable_of_iff (text.toList.getLast?.any isBreak = true) (Option.any_eq_true _ _)

section
variable {a b : String}

/-- What comes before does not matter for how a text ends. -/
theorem CutBehind.append (h : CutBehind b) (a : String) : CutBehind (a ++ b) := by
  obtain ⟨c, last, isBreak⟩ := h
  refine ⟨c, ?_, isBreak⟩
  rw [String.toList_append, List.getLast?_append, Option.mem_def.1 last]
  rfl

/-- Blanks behind a break leave a break at the end. -/
theorem CutBehind.append_blank (h : CutBehind a) (blank : Blank b) : CutBehind (a ++ b) := by
  cases last : b.toList.getLast? with
  | none =>
    have nothing : b.toList = [] := List.getLast?_eq_none_iff.1 last
    obtain ⟨c, ends, isBreak⟩ := h
    exact ⟨c, by rwa [String.toList_append, nothing, List.append_nil], isBreak⟩
  | some c => exact CutBehind.append ⟨c, last, blank c (List.mem_of_getLast? last)⟩ a

/-- Indentation has no words. -/
theorem words_of_blank (blank : Blank a) : words a = [] := by
  rw [words, pieces_of_blank blank, List.map_nil]

/-- No word goes across the border of two texts if there is a break at it. -/
theorem words_append (apart : CutBehind a ∨ CutBefore b) : words (a ++ b) = words a ++ words b := by
  rw [words, words, words, String.toList_append, ← List.map_append]
  congr 1
  rcases apart with ⟨c, last, isBreak⟩ | ⟨c, first, isBreak⟩
  · obtain ⟨front, split⟩ := List.getLast?_eq_some_iff.1 last
    have whole : pieces (front ++ [c]) = pieces front := by
      rw [pieces_append_cons isBreak]
      exact List.append_nil _
    rw [split, whole, List.append_assoc]
    exact pieces_append_cons isBreak front _
  · obtain ⟨rest, split⟩ := List.head?_eq_some_iff.1 first
    rw [split, pieces_append_cons isBreak, pieces_cons isBreak]

/-- Indentation adds no words to what it stands before, even if it is empty. -/
theorem words_blank_append (blank : Blank a) (b : String) : words (a ++ b) = words b := by
  cases last : a.toList.getLast? with
  | none =>
    have nothing : a.toList = [] := List.getLast?_eq_none_iff.1 last
    rw [words, String.toList_append, nothing, List.nil_append, words]
  | some c =>
    rw [words_append (.inl ⟨c, last, blank c (List.mem_of_getLast? last)⟩), words_of_blank blank,
      List.nil_append]

end

end Text

open Text

/-! ## What a text is worded from -/

namespace Code

/-- The words that code has whatever the program: keywords, and names of the language's library. -/
def ownWords : List String :=
  ["let", "mut", "if", "else", "for", "in", "true", "false", "0", "pub", "fn", "#", "allow",
    "non_snake_case", "Converts", "into", "clone", "unwrap_or_default", "Default", "default",
    "get_or_insert_with", "entry", "or_default", "Some", "None", "is_some", "as_ref", "map_or",
    "items", "len", "from", "map", "Vec", "u8", "std", "iter", "repeat_with", "take", "collect",
    "collections", "HashMap", "with_capacity", "flatten", "enumerate"]

/-- A text has no word but own ones of code and those in listed texts. -/
def Worded (listed : String → Prop) (text : String) : Prop :=
  ∀ w ∈ words text, w ∈ ownWords ∨ ∃ t, listed t ∧ w ∈ words t

/-- A fixed text that may stand before any other. -/
def Opens (text : String) : Prop :=
  CutBehind text ∧ ∀ w ∈ words text, w ∈ ownWords

/-- A fixed text that may stand behind any other. -/
def Closes (text : String) : Prop :=
  CutBefore text ∧ ∀ w ∈ words text, w ∈ ownWords

instance {text : String} : Decidable (Opens text) :=
  inferInstanceAs (Decidable (_ ∧ _))

instance {text : String} : Decidable (Closes text) :=
  inferInstanceAs (Decidable (_ ∧ _))

section
variable {listed : String → Prop} {a b fixed : String}

/-- A listed text has no words but its own. -/
theorem worded_listed (h : listed a) : Worded listed a :=
  fun _ mem => .inr ⟨a, h, mem⟩

/-- A fixed text is worded whatever is listed. -/
theorem worded_own (own : ∀ w ∈ words a, w ∈ ownWords) : Worded listed a :=
  fun w mem => .inl (own w mem)

theorem worded_blank (blank : Blank a) : Worded listed a := by
  rw [Worded, words_of_blank blank]
  exact nofun

/-- Texts with a cut between them are worded if both are. -/
theorem Worded.append (ha : Worded listed a) (hb : Worded listed b)
    (apart : CutBehind a ∨ CutBefore b) : Worded listed (a ++ b) := by
  rw [Worded, words_append apart]
  exact fun w mem => (List.mem_append.1 mem).elim (ha w) (hb w)

/-- Indentation changes nothing. -/
theorem Worded.indented (h : Worded listed b) (blank : Blank a) : Worded listed (a ++ b) := by
  rw [Worded, words_blank_append blank]
  exact h

theorem Worded.opened (h : Worded listed a) (opens : Opens fixed) : Worded listed (fixed ++ a) :=
  .append (worded_own opens.2) h (.inl opens.1)

theorem Worded.closed (h : Worded listed a) (closes : Closes fixed) : Worded listed (a ++ fixed) :=
  .append h (worded_own closes.2) (.inr closes.1)

/-- A fixed text keeps the words on its two sides apart. -/
theorem Worded.between (ha : Worded listed a) (hb : Worded listed b) (opens : Opens fixed)
    (closes : Closes fixed) : Worded listed (a ++ fixed ++ b) :=
  .append (ha.closed closes) hb (.inl (opens.1.append a))

end

/-! ## Places and values -/

section
variable {s : Settings} {listed : String → Prop} {text type : String} {p target : Place}
  {accesses : List Access}

/-- A listed word with fixed texts around it, behind a text. -/
theorem Worded.access {lead word trail : String} (before : Worded listed text) (own : listed word)
    (opens : Opens lead) (closes : Closes lead) (trailing : trail = "" ∨ Closes trail) :
    Worded listed (text ++ lead ++ word ++ trail) := by
  have named : Worded listed (text ++ lead ++ word) :=
    before.between (worded_listed own) opens closes
  rcases trailing with rfl | trailing
  · rwa [String.append_empty]
  · exact named.closed trailing

/-- A text of accesses has the word of each between fixed texts. -/
structure AccessWise (render : List Access → String) : Prop where
  nil : render [] = ""
  cons : ∀ access rest, ∃ lead trail, Opens lead ∧ Closes lead ∧ (trail = "" ∨ Closes trail) ∧
    render (access :: rest) = lead ++ access.word ++ trail ++ render rest

theorem accessWise_readAccesses : AccessWise readAccesses := by
  refine ⟨rfl, fun access rest => ?_⟩
  cases access with
  | field name optional =>
    refine ⟨".", _, by decide, by decide, ?_, rfl⟩
    split
    · exact .inr (by decide)
    · exact .inl rfl
  | index binding | key binding =>
    exact ⟨"[", "]", by decide, by decide, .inr (by decide), rfl⟩

theorem accessWise_writeAccesses : AccessWise writeAccesses := by
  refine ⟨rfl, fun access rest => ?_⟩
  cases access with
  | field name optional =>
    refine ⟨".", _, by decide, by decide, ?_, rfl⟩
    split
    · exact .inr (by decide)
    · exact .inl rfl
  | index binding => exact ⟨"[", "]", by decide, by decide, .inr (by decide), rfl⟩
  | key binding =>
    exact ⟨".entry(", ".clone()).or_default()", by decide, by decide, .inr (by decide), rfl⟩

/-- Accesses add fixed texts and their own words. What they stand behind is general, for the
induction puts one access after the other behind it. -/
theorem AccessWise.worded {render : List Access → String} (h : AccessWise render)
    (before : Worded listed text) (each : ∀ access ∈ accesses, listed access.word) :
    Worded listed (text ++ render accesses) := by
  induction accesses generalizing text with
  | nil => rwa [h.nil, String.append_empty]
  | cons access rest ih =>
    obtain ⟨own, others⟩ := List.forall_mem_cons.1 each
    obtain ⟨lead, trail, opens, closes, trailing, step⟩ := h.cons access rest
    -- the text of the first access is moved to what the others stand behind
    rw [step, ← String.append_assoc, ← String.append_assoc, ← String.append_assoc]
    exact ih (before.access own opens closes trailing) others

/-- The text for reading a place has the words of the place. -/
theorem worded_readText (each : ∀ w ∈ p.words s, listed w) : Worded listed (readText s p) := by
  obtain ⟨root, accesses⟩ := List.forall_mem_cons.1 each
  exact accessWise_readAccesses.worded (worded_listed root) (List.forall_mem_map.1 accesses)

/-- The text for writing a place has the words of the place. -/
theorem worded_writeText (each : ∀ w ∈ p.words s, listed w) : Worded listed (writeText s p) := by
  obtain ⟨root, accesses⟩ := List.forall_mem_cons.1 each
  refine accessWise_writeAccesses.worded ?_ (List.forall_mem_map.1 accesses)
  split
  · exact (worded_listed root).opened (by decide)
  · rw [String.empty_append]
    exact worded_listed root

theorem Worded.someText (h : Worded listed text) : Worded listed (someText text) :=
  (h.opened (by decide)).closed (by decide)

theorem Worded.fromText (h : Worded listed text) (named : listed type) :
    Worded listed (fromText type text) :=
  (((worded_listed named).opened (by decide)).between h (by decide) (by decide)).closed (by decide)

/-- The text of a value has the words of the places it reads and of the type it is cast to. -/
theorem worded_exprText {value : Expr} (places : ∀ p ∈ value.places, ∀ w ∈ p.words s, listed w)
    (type : ∀ name ∈ value.type?, listed name) : Worded listed (exprText s target value) := by
  have copied : ∀ p ∈ value.places, Worded listed (readText s p ++ ".clone()") :=
    fun p mem => (worded_readText (places p mem)).closed (by decide)
  have defaulted : ∀ p ∈ value.places,
      Worded listed (readText s p ++ ".clone()" ++ ".unwrap_or_default()") :=
    fun p mem => (copied p mem).closed (by decide)
  cases value with
  | read p =>
    have here : p ∈ (Expr.read p).places := List.mem_cons_self
    unfold exprText
    dsimp only
    split
    · exact (copied p here).someText
    · exact defaulted p here
    · exact copied p here
  | cast name p optional =>
    have here : p ∈ (Expr.cast name p optional).places := List.mem_cons_self
    have named : listed name := type name rfl
    unfold exprText
    dsimp only
    split
    · have mapped : Worded listed (readText s p ++ ".clone()" ++ ".map(<" ++ name) :=
        (copied p here).between (worded_listed named) (by decide) (by decide)
      exact mapped.closed (by decide)
    · exact ((copied p here).fromText named).someText
    · exact (defaulted p here).fromText named
    · exact (copied p here).fromText named
  | bytes p =>
    have here : p ∈ (Expr.bytes p).places := List.mem_cons_self
    -- the conversion from bytes is written once, around a default or not
    have copy : Worded listed (if p.optional then
        readText s p ++ ".clone()" ++ ".unwrap_or_default()" else readText s p ++ ".clone()") := by
      split
      · exact defaulted p here
      · exact copied p here
    have made : Worded listed ("Vec::<u8>::from(" ++ _ ++ ")") :=
      (copy.opened (by decide)).closed (by decide)
    rw [exprText]
    by_cases wrapped : target.optional = true
    · rw [if_pos wrapped]
      exact made.someText
    · rw [if_neg wrapped]
      exact made
  | bool value =>
    rw [exprText]
    split
    · exact worded_own (by decide)
    · exact worded_own (by decide)
  | null =>
    rw [exprText]
    split
    · exact worded_own (by decide)
    · exact worded_own (by decide)

/-- The text of a size has the words of the place whose elements are counted. -/
theorem worded_sizeText {hint? : Option Place} (hint : ∀ p ∈ hint?, ∀ w ∈ p.words s, listed w) :
    Worded listed (sizeText s hint?) := by
  cases hint? with
  | none =>
    rw [sizeText]
    exact worded_own (by decide)
  | some p =>
    have read : Worded listed (readText s p) := worded_readText (hint p rfl)
    rw [sizeText]
    split
    · exact read.closed (by decide)
    · exact read.closed (by decide)

/-- Fresh storage has the words of its size hint and of the type it names. A struct is allocated
without its size hint. -/
theorem worded_storageText {storage : Storage} {hint? : Option Place}
    (hint : ∀ p ∈ hint?, ∀ w ∈ p.words s, listed w)
    (type : ∀ name ∈ storage.type?, listed name) : Worded listed (storageText s hint? storage) := by
  have size : Worded listed (sizeText s hint?) := worded_sizeText hint
  cases storage with
  | struct name => exact ((worded_listed (type name rfl)).opened (by decide)).closed (by decide)
  | list element boxed =>
    have named : Worded listed ("std::iter::repeat_with(<" ++ element) :=
      (worded_listed (type element rfl)).opened (by decide)
    exact (named.between size (by decide) (by decide)).closed (by decide)
  | map value boxed => exact (size.opened (by decide)).closed (by decide)

/-! ## Lines -/

theorem worded_close : Worded listed Line.close.text :=
  worded_own (by decide)

theorem worded_otherwise : Worded listed Line.otherwise.text :=
  worded_own (by decide)

/-- The head of a loop has the words of what it runs over and of the variables it binds. -/
theorem worded_loopLine {binding : Binding} (iterable : ∀ w ∈ p.words s, listed w)
    (bound : ∀ name ∈ binding.names, listed name) :
    Worded listed (loopLine s p binding).text := by
  have read : Worded listed (readText s p) := worded_readText iterable
  have turns : ∀ {text : String}, Worded listed text → Worded listed
      (text ++ ".iter()" ++ if p.optional then ".flatten()" else "") := fun {text} inside => by
    have begun : Worded listed (text ++ ".iter()") := inside.closed (by decide)
    split
    · exact begun.closed (by decide)
    · rwa [String.append_empty]
  -- the two kinds of binding differ in how the elements are numbered, not in their words
  have names : Worded listed (binding.counter ++ ", " ++ binding.value) :=
    (worded_listed (bound _ binding.counter_mem_names)).between
      (worded_listed (bound _ (List.mem_cons_of_mem _ List.mem_cons_self))) (by decide) (by decide)
  have head : Worded listed ("for (" ++ (binding.counter ++ ", " ++ binding.value)) :=
    names.opened (by decide)
  cases binding with
  | index index value =>
    have numbered : Worded listed (readText s p ++ ".iter()" ++
        (if p.optional then ".flatten()" else "") ++ ".enumerate()") :=
      (turns read).closed (by decide)
    exact (head.between numbered (by decide) (by decide)).closed (by decide)
  | key key value =>
    exact (head.between (turns read) (by decide) (by decide)).closed (by decide)

/-- A condition has the words of the place or the flag that it is on. -/
theorem worded_conditionText {c : Condition} (places : ∀ p ∈ c.places, ∀ w ∈ p.words s, listed w)
    (flag : ∀ name, c = .flag name → listed name) : Worded listed (conditionText s c) := by
  cases c with
  | isPresent p =>
    exact (worded_readText (places p List.mem_cons_self)).closed (by decide)
  | flag name => exact worded_listed (flag name rfl)

/-- An assignment has the words of its target and its value, be it a declaration or not. -/
theorem worded_assignLine {declared : List String} {value : String}
    (written : ∀ w ∈ target.words s, listed w) (inside : Worded listed value) :
    Worded listed (assignLine s declared target value).1.text := by
  have set : ∀ {text : String}, Worded listed text →
      Worded listed (text ++ " = " ++ value ++ ";") :=
    fun text => (text.between inside (by decide) (by decide)).closed (by decide)
  unfold assignLine
  cases var : target.asVar? with
  | none => exact set (worded_writeText written)
  | some name =>
    have root : rootText s target.root = name := by
      unfold Place.asVar? at var
      split at var
      · next same _ => rw [same, rootText, Option.some.inj var]
      · cases var
    have named : Worded listed name :=
      root ▸ worded_listed (written _ List.mem_cons_self)
    dsimp only
    split
    · exact set named
    · exact set (named.opened (by decide))

end

end Code

/-! ## Programs -/

/-- The words of a statement are listed, and so is the type that it names. -/
structure Statement.Listed (s : Settings) (listed : String → Prop) (st : Statement) : Prop where
  words : ∀ w ∈ st.words s, listed w
  type : ∀ name ∈ st.type?, listed name

namespace Statement.Listed
variable {s : Settings} {listed : String → Prop} {st : Statement}

/-- The words of each place in the statement are listed. -/
theorem place (h : st.Listed s listed) : ∀ p ∈ st.places, ∀ w ∈ p.words s, listed w := by
  intro p among w mem
  apply h.words
  rw [Statement.words, List.append_assoc]
  exact List.mem_append_left _ (List.mem_flatMap.2 ⟨p, among, mem⟩)

theorem flag (h : st.Listed s listed) : ∀ name ∈ st.flag?, listed name := by
  intro name mem
  apply h.words
  exact List.mem_append_left _ (List.mem_append_right _ (Option.mem_toList.2 mem))

theorem bound (h : st.Listed s listed) : ∀ name ∈ st.bound, listed name :=
  fun name mem => h.words name (List.mem_append_right _ mem)

end Statement.Listed

namespace Code

section
variable {s : Settings} {listed : String → Prop} {depth : Nat} {declared : List String}

/-- The lines of a statement are worded from what is listed for it and for those inside it. -/
def StatementWorded (s : Settings) (listed : String → Prop) (t : Statement) : Prop :=
  ∀ start depth declared, Everywhere (fun _ st => st.Listed s listed) start [t] →
    ∀ l ∈ (statementLines s depth declared t).1, Worded listed l.line.text

/-- A block is worded if its statements are. Its lines begin wherever it stands. -/
theorem worded_blockLines_of {block : Block} (h : ∀ t ∈ block, StatementWorded s listed t)
    (start : Site) (each : Everywhere (fun _ st => st.Listed s listed) start block) :
    ∀ l ∈ (blockLines s depth declared block).1, Worded listed l.line.text := by
  induction block generalizing start declared with
  | nil => exact nofun
  | cons t rest ih =>
    obtain ⟨own, later⟩ := List.forall_mem_cons.1 h
    obtain ⟨here, behind⟩ := everywhere_cons.1 each
    rw [blockLines]
    exact List.forall_mem_append.2 ⟨own start depth declared here, ih later _ behind⟩

/-- A statement is worded from what is listed. Its own line has the words of the statement, and the
lines inside are those of blocks that are smaller. -/
theorem statementWorded (s : Settings) (listed : String → Prop) (t : Statement) :
    StatementWorded s listed t := by
  induction t using Statement.inside_induction with
  | step t ih =>
    intro start depth declared each
    have own : t.Listed s listed := each _ _ .here
    have ends : ∀ l ∈ [Indented.mk depth .close], Worded listed l.line.text :=
      List.forall_mem_singleton.2 worded_close
    cases t with
    | assign target value =>
      refine List.forall_mem_singleton.2 (worded_assignLine (own.place _ List.mem_cons_self) ?_)
      exact worded_exprText (fun p mem => own.place p (List.mem_cons_of_mem _ mem)) own.type
    | allocate target storage sizeHint? =>
      have size : ∀ p ∈ sizeHint?, ∀ w ∈ p.words s, listed w := fun p mem =>
        own.place p (List.mem_cons_of_mem _ (Option.mem_toList.2 mem))
      have stored : Worded listed (storageText s sizeHint? storage) :=
        worded_storageText size own.type
      have written : Worded listed (writeText s target) :=
        worded_writeText (own.place _ List.mem_cons_self)
      refine List.forall_mem_singleton.2 ?_
      refine Worded.closed (written.between ?_ (by decide) (by decide)) (by decide)
      split
      · exact stored.someText
      · exact stored
    | branch condition yes no =>
      obtain ⟨_, inYes, inNo⟩ := everywhere_branch.1 each
      have taken : ∀ depth, ∀ l ∈ (blockLines s depth declared yes).1, Worded listed l.line.text :=
        fun depth => worded_blockLines_of (ih yes List.mem_cons_self) _ inYes
      have other : ∀ l ∈ (blockLines s (depth + 1) declared no).1, Worded listed l.line.text :=
        worded_blockLines_of (ih no (List.mem_cons_of_mem _ List.mem_cons_self)) _ inNo
      have checked : Worded listed (conditionText s condition) :=
        worded_conditionText own.place fun name same => own.flag name (same ▸ rfl)
      rw [statementLines]
      split
      -- a check that always holds has no line of its own, so nothing is needed of its words
      · exact taken depth
      · refine List.forall_mem_append.2 ⟨List.forall_mem_append.2 ⟨?_, ?_⟩, ends⟩
        · refine List.forall_mem_cons.2 ⟨?_, taken (depth + 1)⟩
          exact (checked.opened (by decide)).closed (by decide)
        · split
          · exact nofun
          · exact List.forall_mem_cons.2 ⟨worded_otherwise, other⟩
    | loop iterable binding body =>
      obtain ⟨_, inside⟩ := everywhere_loop.1 each
      have turn : ∀ l ∈ (blockLines s (depth + 1) declared body).1, Worded listed l.line.text :=
        worded_blockLines_of (ih body List.mem_cons_self) _ inside
      have head : Worded listed (loopLine s iterable binding).text :=
        worded_loopLine (own.place _ List.mem_cons_self) own.bound
      rw [statementLines]
      exact List.forall_mem_append.2 ⟨List.forall_mem_cons.2 ⟨head, turn⟩, ends⟩

/-- All lines of a block are worded, if what they list is listed. -/
theorem worded_blockLines {block : Block}
    (each : Everywhere (fun _ st => st.Listed s listed) .start block) :
    ∀ l ∈ (blockLines s depth declared block).1, Worded listed l.line.text :=
  worded_blockLines_of (fun t _ => statementWorded s listed t) .start each

/-! ## Texts of lines -/

/-- Indentation to whatever depth is blank. -/
theorem blank_join_replicate {indent : String} (blank : Blank indent) (n : Nat) :
    Blank (String.join (List.replicate n indent)) := by
  induction n with
  | zero => exact nofun
  | succ n ih =>
    rw [List.replicate_succ, String.join_cons, Blank, String.toList_append]
    exact List.forall_mem_append.2 ⟨blank, ih⟩

/-- A line has the same words where it is indented. -/
theorem Indented.worded_text {l : Indented} (blank : Blank s.indent)
    (inside : Worded listed l.line.text) : Worded listed (l.text s.indent) :=
  (inside.indented (blank_join_replicate blank l.depth)).closed (by decide)

/-- A line ends with a line break, so what follows does not go on with its last word. -/
theorem Indented.ends_text (l : Indented) : CutBehind (l.text s.indent) :=
  CutBehind.append (by decide) _

/-- A worded text that anything may stand behind. -/
structure Headed (listed : String → Prop) (text : String) : Prop where
  worded : Worded listed text
  ends : CutBehind text

namespace Headed
variable {text word : String}

theorem opens {fixed : String} (opens : Opens fixed) : Headed listed fixed :=
  ⟨worded_own opens.2, opens.1⟩

/-- A fixed text goes behind. -/
theorem append (h : Headed listed text) (fixed : String) (opens : Opens fixed) :
    Headed listed (text ++ fixed) :=
  ⟨h.worded.append (worded_own opens.2) (.inl h.ends), opens.1.append text⟩

/-- A listed text goes behind, and a fixed one behind that. -/
theorem insert (h : Headed listed text) (own : listed word) (fixed : String)
    (around : Opens fixed ∧ Closes fixed) : Headed listed (text ++ word ++ fixed) :=
  ⟨(h.worded.append (worded_listed own) (.inl h.ends)).closed around.2, around.1.1.append _⟩

theorem indent (h : Headed listed text) (blank : Blank s.indent) :
    Headed listed (text ++ s.indent) :=
  ⟨h.worded.append (worded_blank blank) (.inl h.ends), h.ends.append_blank blank⟩

/-- Lines go behind one by one, each with a line break at its end. -/
theorem lines {lines : List Indented} (h : Headed listed text) (blank : Blank s.indent)
    (each : ∀ l ∈ lines, Worded listed l.line.text) :
    Headed listed (text ++ linesText s.indent lines) := by
  induction lines generalizing text with
  | nil => rwa [linesText, List.map_nil, String.join_nil, String.append_empty]
  | cons l rest ih =>
    obtain ⟨own, others⟩ := List.forall_mem_cons.1 each
    have first : Headed listed (text ++ l.text s.indent) :=
      ⟨h.worded.append (l.worded_text blank own) (.inl h.ends), l.ends_text.append text⟩
    rw [linesText, List.map_cons, String.join_cons, ← String.append_assoc]
    exact ih first others

end Headed

/-- A function is worded from its name, its parameter and its result, their types, and what is
listed for the statements in it. -/
theorem worded_functionText {name source dest : String} {body : Block} (blank : Blank s.indent)
    (named : listed (identifier name)) (parameter : listed s.source) (result : listed s.dest)
    (ofSource : listed source) (ofDest : listed dest)
    (each : Everywhere (fun _ st => st.Listed s listed) .start body) :
    Worded listed (functionText s name source dest body) := by
  -- the text is put together from the front, and behind each of its parts there is a cut
  have start : Headed listed "/// Converts `" := .opens (by decide)
  have comment := (start.insert ofSource "` into `" (by decide)).insert ofDest "`.\n" (by decide)
  have marked := comment.append "#[allow(non_snake_case)]\n" (by decide)
  have opened := marked.append "pub fn " (by decide)
  have parameters := (opened.insert named "(" (by decide)).insert parameter ": &" (by decide)
  have arrow := parameters.insert ofSource ") -> " (by decide)
  have signature := arrow.insert ofDest " \x7b\n" (by decide)
  have declared := ((signature.indent blank).append "let mut " (by decide)).insert result " = <"
    (by decide)
  have inside : ∀ l ∈ (blockLines s 1 [] body).1, Worded listed l.line.text :=
    worded_blockLines each
  have built := (declared.insert ofDest ">::default();\n" (by decide)).lines blank inside
  exact ((built.indent blank).insert result "\n\x7d\n" (by decide)).worded

end

end Code

/-! ## Functions -/

/-- The name of a type that the text of a function has: that of an end of the conversion, or of a
type in the block. -/
inductive Conversion.NamesType (x : Conversion) (cv : Converter) (block : Block) : String → Prop
  | source {name : String} (named : cv.structName x.source = .ok name) : NamesType x cv block name
  | dest {name : String} (named : cv.structName x.dest = .ok name) : NamesType x cv block name
  | inside {site : Site} {st : Statement} {name : String} (occurs : Occurs .start block site st)
      (written : name ∈ st.type?) : NamesType x cv block name

/-- Valid settings indent with spaces and tabs only. -/
theorem Settings.blank_indent {s : Settings} (h : s.validate = .ok ()) : Blank s.indent := by
  obtain ⟨_, _, checked⟩ := bind_eq_ok.1 h
  split at checked
  · cases checked
  · next blank =>
    have allowed : s.indent.toList.all (fun c => c == ' ' || c == '\t') = true :=
      Bool.not_eq_false _ ▸ fun refused => blank (by rw [refused]; rfl)
    intro c mem
    rcases Bool.or_eq_true_iff.1 (List.all_eq_true.1 allowed c mem) with space | tab
    · rw [beq_iff_eq.1 space]
      decide
    · rw [beq_iff_eq.1 tab]
      decide

/-- A function has no words but own ones of code, those in what the module takes from the document
and the settings, and those in names of types. -/
theorem Catalog.worded_function {c : Catalog} {cv : Converter} {x : Conversion} {text : String}
    (valid : cv.settings.validate = .ok ()) (mem : x ∈ c.conversions)
    (generated : cv.generateOne x = .ok text) :
    ∃ block, c.HasFunction cv x block ∧
      Code.Worded (fun t => c.Takes cv t ∨ x.NamesType cv block t) text := by
  obtain ⟨table, block, source, dest, tabled, converted, ofSource, ofDest, rfl⟩ :=
    Converter.generateOne_eq_ok generated
  have function : c.HasFunction cv x block :=
    ⟨mem, Converter.generates_iff.2 ⟨_, generated⟩, table, tabled, converted⟩
  refine ⟨block, function, ?_⟩
  refine Code.worded_functionText (Settings.blank_indent valid) (.inl (.function function))
    (.inl (.source function)) (.inl (.dest function)) (.inr (.source ofSource))
    (.inr (.dest ofDest)) fun site st occurs => ⟨fun w among => ?_, fun name written => ?_⟩
  · exact .inl (.inside function occurs among)
  · exact .inr (.inside occurs written)

/-! ## Names of types -/

/-- The words in names of types that no document declares. -/
def Code.typeWords : List String :=
  ["bool", "i8", "i16", "i32", "i64", "f64", "String", "Vec", "u8"]

/-- A path has the words of its segments: the separator is made of breaks. -/
theorem Text.word_of_intercalate {parts : List String} {w : String}
    (mem : w ∈ words ("::".intercalate parts)) : ∃ part ∈ parts, w ∈ words part := by
  induction parts with
  | nil =>
    rw [String.intercalate_nil] at mem
    cases mem
  | cons part rest ih =>
    cases rest with
    | nil =>
      rw [String.intercalate_singleton] at mem
      exact ⟨part, List.mem_cons_self, mem⟩
    | cons next rest =>
      have nothing : words "::" = [] := by decide
      rw [String.intercalate_cons_cons, words_append (.inl (CutBehind.append (by decide) part)),
        words_append (.inr (by decide)), nothing, List.append_nil] at mem
      rcases List.mem_append.1 mem with mem | mem
      · exact ⟨part, List.mem_cons_self, mem⟩
      · obtain ⟨other, among, mem⟩ := ih mem
        exact ⟨other, List.mem_cons_of_mem part among, mem⟩

/-- The name of a type below a module path has the words of the root, those of the segments, and
those of the name by itself. -/
theorem Namespaces.word_of_qualify {root name file found w : String}
    (h : qualify (modulePath root) name file = .ok found) (mem : w ∈ words found) :
    w ∈ words root ∨ (∃ names, moduleNames (components file.toList) = .ok names ∧
      ∃ n ∈ names, w ∈ words n) ∨ w ∈ words name := by
  obtain ⟨space, path, h⟩ := bind_eq_ok.1 h
  obtain ⟨names, segments, rfl⟩ := modulePath_eq_ok path
  obtain rfl := pure_eq_ok.1 h
  split at mem
  · exact .inr (.inr mem)
  · have nothing : words "::" = [] := by decide
    rw [words_append (.inl (CutBehind.append (by decide) _)), words_append (.inr (by decide)),
      nothing, List.append_nil] at mem
    rcases List.mem_append.1 mem with inSpace | inName
    · obtain ⟨part, among, inPart⟩ := word_of_intercalate inSpace
      split at among
      · exact .inr (.inl ⟨names, segments, part, among, inPart⟩)
      · rcases List.mem_cons.1 among with rfl | among
        · exact .inl inPart
        · exact .inr (.inl ⟨names, segments, part, among, inPart⟩)
    · exact .inr (.inr inName)

/-- The name of a type is that of a primitive type, or the qualified one of a declared type. -/
theorem Converter.typeName_eq_ok {cv : Converter} {path : Path} {type : Ty} {name : String}
    (h : cv.typeName path type = .ok name) :
    (∀ w ∈ words name, w ∈ Code.typeWords) ∨ ∃ n ∈ type.name?, ∃ file ∈ type.file?,
      cv.namespaces.qualify n file = .ok name := by
  have found : ∀ {n file : String}, cv.qualified n file path = .ok name →
      cv.namespaces.qualify n file = .ok name := fun {n file} h => by
    unfold qualified at h
    split at h
    · next same => rw [same, Except.ok.inj h]
    · cases h
  cases type with
  | primitive p =>
    obtain rfl := Except.ok.inj h
    exact .inl (by cases p <;> decide)
  | binary =>
    obtain rfl := Except.ok.inj h
    exact .inl (by decide)
  | enum n file _ | struct n file _ | typedef n file _ => exact .inr ⟨n, rfl, file, rfl, found h⟩
  | _ => cases h

/-! ## All words of a function -/

/-- A text without a break is one word. -/
theorem Text.words_of_solid {text : String} (visible : text ≠ "")
    (solid : ∀ c ∈ text.toList, isBreak c = false) : words text = [text] := by
  have chars : text.toList ≠ [] := mt String.toList_eq_nil_iff.1 visible
  rw [words, pieces, List.splitOnP_eq_singleton solid]
  simp [chars]

/-- An identifier is one word, and so is a raw one, whose mark is no break. -/
theorem Code.words_of_usable {w : String} (usable : Code.Usable w) : words w = [w] := by
  have solid : ∀ {w : String}, isIdentifier w = true → ∀ c ∈ w.toList, isBreak c = false :=
    fun word c mem => by simp [isBreak, isWordChar_of_isIdentifier word c mem]
  rcases usable with ⟨word, _⟩ | ⟨k, rfl, word, _⟩
  · refine words_of_solid ?_ (solid word)
    rintro rfl
    cases word
  · have visible : "r#" ++ k ≠ "" := fun empty =>
      absurd (String.append_eq_empty_iff.1 empty).1 (by decide)
    have mark : ∀ c ∈ ['r', '#'], isBreak c = false :=
      List.forall_mem_cons.2 ⟨by decide, List.forall_mem_singleton.2 (by decide)⟩
    refine words_of_solid visible ?_
    rw [String.toList_append]
    exact List.forall_mem_append.2 ⟨mark, solid word⟩

/-- What is accounted for is one word: one that can be used, or a keyword. -/
theorem Document.Accounts.words_eq {d : Document} {s : Settings} {w : String}
    (h : d.Accounts s w) : words w = [w] := by
  by_cases usable : Code.Usable w
  · exact Code.words_of_usable usable
  -- what cannot be used is let in, and only keywords are
  · have keyword : w ∈ Code.reserved := (not_not.1 (mt h.2 usable)).reserved
    have whole : ∀ k ∈ Code.reserved, words k = [k] := by decide
    exact whole w keyword

/-- What a word of a function comes from, where namespaces are module paths below a root. -/
inductive Catalog.Explains (c : Catalog) (cv : Converter) (root : String) (x : Conversion)
    (w : String) : Prop
  | own (mem : w ∈ Code.ownWords ++ Code.typeWords)
  | root (mem : w ∈ words root)
  | taken (taken : c.Takes cv w)
  | declared {type : Ty} {n : String} (ends : type = x.source.toTy ∨ type.Within x.dest.toTy)
      (named : n ∈ type.name?) (mem : w ∈ words n)

/-- Every word of a function is one that code has anyway, one of the root, one that the module takes
from the document and the settings, or one in the declared name of a type. -/
theorem Catalog.explains_function {d : Document} {c : Catalog} {cv : Converter} {x : Conversion}
    {root text w : String} (resolved : Catalog.ofDocument d = .ok c)
    (valid : cv.settings.validate = .ok ()) (names : ∀ n, d.IsNamed n → IsName n)
    (namespaces : cv.namespaces = .modulePath root) (mem : x ∈ c.conversions)
    (generated : cv.generateOne x = .ok text) (word : w ∈ words text) :
    c.Explains cv root x w := by
  obtain ⟨block, function, worded⟩ := worded_function valid mem generated
  have taken : ∀ {t : String}, c.Takes cv t → w ∈ words t → c.Explains cv root x w := by
    intro t taken mem
    rw [(taken.accounts resolved valid names).words_eq, List.mem_singleton] at mem
    exact .taken (mem ▸ taken)
  -- the segments of a qualified name are taken by the module as well
  have declared : ∀ {type : Ty} {n file name : String},
      (type = x.source.toTy ∨ type.Within x.dest.toTy) → n ∈ type.name? →
      x.NamesFile cv block file → cv.namespaces.qualify n file = .ok name → w ∈ words name →
      c.Explains cv root x w := by
    intro type n file name ends named ofFile qualified among
    rw [namespaces] at qualified
    rcases Namespaces.word_of_qualify qualified among with top | segment | mem
    · exact .root top
    · obtain ⟨names, segments, m, inside, mem⟩ := segment
      exact taken (.segment function namespaces ofFile segments inside) mem
    · exact .declared ends named mem
  rcases worded w word with own | ⟨t, ofModule | named, among⟩
  · exact .own (List.mem_append_left _ own)
  · exact taken ofModule among
  · cases named with
    | source named => exact declared (.inl rfl) rfl .source (mapError_eq_ok.1 named) among
    | dest named => exact declared (.inr .here) rfl .dest (mapError_eq_ok.1 named) among
    | inside occurs written =>
      obtain ⟨path, part, within, named⟩ := (function.spoken resolved _ _ occurs).type _ written
      rcases Converter.typeName_eq_ok named with plain | ⟨n, own, file, ofFile, qualified⟩
      · exact .own (List.mem_append_right _ (plain w among))
      · exact declared (.inr within) own (.type occurs written within named ofFile) qualified among

end Crosswalk
