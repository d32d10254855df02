import Crosswalk.Proofs.Choice
import Crosswalk.Proofs.Element
import Crosswalk.Proofs.Emission.Sound
import Crosswalk.Proofs.Mapped

/-!
# Places are well typed

Places from the input walk the source struct, places from the output the destination struct, and
places from the loop variable for elements the types that the elements have. Sources stay typed when
a struct goes down to a field, when an entry jumps back to the input, and when a loop makes the
element variable the new root.

`TypedAt` is what holds of a statement at its site. What a task needs is `Task.Typed`; that it is
handed down to the tasks below is said by `denotes_of_choose` for sources, by `denotes_elementVar`
for the variables of loops and by `Writes.field` and `Writes.element` for targets, and `Emits.typed`
is the induction.
-/

namespace Crosswalk
set_option autoImplicit false
open Converter

/-! ## The places of statements -/

def Expr.places : Expr → List Place
  | .read source => [source]
  | .cast _ source _ => [source]
  | .bytes source => [source]
  | .bool _ => []
  | .null => []

def Condition.places : Condition → List Place
  | .isPresent place => [place]
  | .flag _ => []

/-- The places of a statement without those of the statements inside it. -/
def Statement.places : Statement → List Place
  | assign target value => target :: value.places
  | allocate target _ hint? => target :: hint?.toList
  | branch condition _ _ => condition.places
  | loop iterable _ _ => [iterable]

/-- What a place is to walk. Only the variable for elements has accesses, and only in loops. -/
def Place.Typed (source dest : Ty) (value : String) (frames : List Frame) (p : Place) : Prop :=
  match p.root with
  | .input => ∃ ty, Walks source p.accesses ty
  | .output => ∃ ty, Walks dest p.accesses ty
  | .var name =>
    (p.accesses ≠ [] → name = value ∧ elementTypes source value frames ≠ []) ∧
      (name = value → ∀ element ∈ elementTypes source value frames,
        ∃ ty, Walks element p.accesses ty)

/-- All places of a statement are typed at its site. -/
def TypedAt (source dest : Ty) (value : String) (site : Site) (s : Statement) : Prop :=
  ∀ p ∈ s.places, p.Typed source dest value site.frames

/-- A place of the output with a type that can be written there. -/
def Writes (dest : Ty) (p : Place) (ty : Ty) : Prop :=
  p.root = .output ∧ Walks dest p.accesses ty

section
variable {source dest ty : Ty} {value : String} {frames : List Frame} {p : Place}

/-- A place that denotes a source is typed. -/
theorem Denotes.typed (h : Denotes source value frames p ty) :
    p.Typed source dest value frames := by
  rcases h with ⟨root, reach⟩ | ⟨root, element, only, _, reach⟩
  · rw [Place.Typed, root]
    exact ⟨ty, Ty.walks_of_at? reach⟩
  · rw [Place.Typed, root, only]
    refine ⟨fun _ => ⟨rfl, List.cons_ne_nil _ _⟩, fun _ other mem => ?_⟩
    obtain rfl := List.mem_singleton.1 mem
    exact ⟨ty, Ty.walks_of_at? reach⟩

/-- So is a place that is written. -/
theorem Writes.typed (h : Writes dest p ty) : p.Typed source dest value frames := by
  rw [Place.Typed, h.1]
  exact ⟨ty, h.2⟩

/-- A variable by itself is typed, since nothing is accessed of it. -/
theorem Place.typed_var {name : String} {optional : Bool} :
    (Place.var name optional).Typed source dest value frames := by
  refine ⟨fun h => absurd rfl h, fun _ element _ => ⟨element, .done⟩⟩

theorem Writes.field {name file : String} {fields : List Field} {f : Field}
    (h : Writes dest p ty) (struct : ty.resolved = .struct name file fields) (mem : f ∈ fields) :
    Writes dest (p.field f.name f.isOptional) f.type :=
  ⟨h.1, h.2.snoc (.field struct mem)⟩

theorem Writes.element {s : Settings} {slot : Slot} {shape : Shape} {element : Ty}
    (h : Writes dest slot.place ty) (kind : ty.elements? = some (shape, element)) :
    Writes dest (elementSlot s slot shape).place element := by
  refine ⟨?_, ?_⟩
  · cases shape <;> exact h.1
  · rcases Ty.elements?_eq_some kind with ⟨rfl, rfl⟩ | ⟨rfl, key, _, rfl⟩
    · exact h.2.snoc (.index rfl)
    · exact h.2.snoc (.key rfl)

/-! ## Blocks that fill a slot -/

/-- An assignment is well typed if its target and the places in its value are. -/
theorem typedAt_assign {site : Site} {target : Place} {expr : Expr}
    (ht : target.Typed source dest value site.frames)
    (he : ∀ q ∈ expr.places, q.Typed source dest value site.frames) :
    TypedAt source dest value site (.assign target expr) := by
  intro q mem
  rcases List.mem_cons.1 mem with rfl | mem
  · exact ht
  · exact he q mem

theorem typedAt_allocate {site : Site} {target : Place} {storage : Storage} {hint? : Option Place}
    (ht : target.Typed source dest value site.frames)
    (hh : ∀ q ∈ hint?, q.Typed source dest value site.frames) :
    TypedAt source dest value site (.allocate target storage hint?) := by
  intro q mem
  rcases List.mem_cons.1 mem with rfl | mem
  · exact ht
  · exact hh q (Option.mem_toList.1 mem)

theorem typedAt_present {site : Site} {q : Place} {yes no : Block}
    (h : q.Typed source dest value site.frames) :
    TypedAt source dest value site (.branch (.isPresent q) yes no) := by
  intro r mem
  obtain rfl := List.mem_singleton.1 mem
  exact h

theorem typedAt_flag {site : Site} {flag : String} {yes no : Block} :
    TypedAt source dest value site (.branch (.flag flag) yes no) := by
  intro r mem
  cases mem

/-- A loop is well typed if what it runs over is. Its body has a site of its own. -/
theorem typedAt_loop {site : Site} {q : Place} {binding : Binding} {body : Block}
    (h : q.Typed source dest value site.frames) :
    TypedAt source dest value site (.loop q binding body) := by
  intro r mem
  obtain rfl := List.mem_singleton.1 mem
  exact h

/-- The iterable of an aggregate is a source or a variable. -/
theorem typed_iterable {s : Settings} {path : Path} {boxed : Bool} {choice : Choice}
    (primary : Denotes source value frames choice.primary.place choice.primary.type) :
    (stage s path boxed choice).iterable.Typed source dest value frames := by
  obtain ⟨c, fallback?⟩ := choice
  cases fallback? with
  | none => exact primary.typed
  | some fallback => exact Place.typed_var

/-- The block of a list or map is well typed if its target and its sources are, and the turn is at
the site inside the loop. -/
theorem typed_aggregateBlock {s : Settings} {start : Site} {slot : Slot} {shape : Shape}
    {choice : Choice} {name : String} {boxed : Bool} {turn : Block}
    (writes : Writes dest slot.place ty)
    (sources : ∀ c ∈ choice.candidates, Denotes source value start.frames c.place c.type)
    (inside : Everywhere (TypedAt source dest value)
      (turnSite s start slot shape (stage s slot.path boxed choice) name boxed) turn) :
    Everywhere (TypedAt source dest value) start
      (aggregateBlock s slot shape choice name boxed turn) := by
  have iterable : ∀ site, start.Behind site →
      (stage s slot.path boxed choice).iterable.Typed source dest value site.frames :=
    fun site hs => typed_iterable ((sources _ Choice.primary_mem).of_behind hs)
  have staged : start.Behind (start.after (stage s slot.path boxed choice).block) :=
    Site.Behind.refl.after
  have fill := behind_fillSite start (stage s slot.path boxed choice)
  rw [everywhere_aggregateBlock rfl]
  refine ⟨?_, fun _ => ⟨typedAt_present (iterable _ staged), ?_⟩, ?_, ?_, inside⟩
  · refine everywhere_stage (fun site hs c hc optional => ?_) (fun site hs taken => ?_) ?_
    · refine typedAt_assign Place.typed_var fun q mem => ?_
      obtain rfl := List.mem_singleton.1 mem
      exact ((sources c hc).of_behind hs).typed
    · exact typedAt_assign Place.typed_var fun q mem => by cases mem
    · exact fun site hs _ _ => typedAt_present ((sources _ Choice.primary_mem).of_behind hs).typed
  · exact typedAt_assign writes.typed fun q mem => by cases mem
  · refine typedAt_allocate writes.typed fun q mem => ?_
    obtain rfl := Option.mem_some.1 mem
    exact iterable _ fill
  · exact typedAt_loop (iterable _ fill.after)

end

/-! ## Conversions -/

/-- The sources of a task are read, also those of the mapping table, and its targets written. -/
def Task.Typed (source dest : Ty) (value : String) (frames : List Frame) : Task → Prop
  | .fields level sources dests =>
    (∀ path e, level.table.get? path = some e → e.Reads source) ∧
      (∃ ty name file, Denotes source value frames level.source ty ∧
        ty.resolved = .struct name file sources) ∧
      ∃ ty name file fields, Writes dest level.dest ty ∧
        ty.resolved = .struct name file fields ∧ dests ⊆ fields
  | .value level slot choice type =>
    (∀ path e, level.table.get? path = some e → e.Reads source) ∧
      Writes dest slot.place type ∧
      ∀ c ∈ choice.candidates, Denotes source value frames c.place c.type
  | .body level s slot c =>
    (∀ path e, level.table.get? path = some e → e.Reads source) ∧
      Writes dest slot.place s.toTy ∧ Denotes source value frames c.place c.type

/-- The sources that are chosen for a field are typed, those of entries from the input on. -/
theorem denotes_of_choose {source ty : Ty} {value : String} {frames : List Frame} {level : Level}
    {sources : List Field} {f : String} {name file : String} {choice : Choice}
    (table : ∀ path e, level.table.get? path = some e → e.Reads source)
    (reads : Denotes source value frames level.source ty)
    (struct : ty.resolved = .struct name file sources)
    (chosen : level.choose sources f = .ok choice) {c : Candidate} (mem : c ∈ choice.candidates) :
    Denotes source value frames c.place c.type := by
  rcases Level.candidate_of_choose chosen mem with ⟨g, found, rfl⟩ | ⟨path, e, found, rfl⟩
  · exact reads.field struct found
  · obtain ⟨root, reach, _⟩ := table path e found
    exact .inl ⟨root, reach⟩

/-- The element variable has the type of the elements, if they are of one source and structs. -/
theorem denotes_elementVar {cv : Converter} {source element : Ty} {frames : List Frame}
    (only : elementTypes source cv.settings.value frames = [element])
    (plain : element.resolved.isAggregate = false) :
    Denotes source cv.settings.value frames cv.elementVar element :=
  .inr ⟨rfl, element, only, plain, rfl⟩

/-- Everything that is emitted for a typed task is typed. -/
theorem Emits.typed {cv : Converter} {source dest : Ty} {task : Task} {block : Block}
    (h : Emits cv task block) :
    ∀ {start : Site}, task.Typed source dest cv.settings.value start.frames →
      Everywhere (TypedAt source dest cv.settings.value) start block := by
  induction h with
  | nil =>
    intro start typed
    exact everywhere_nil
  | @cons level sources rest f choice block later chosen filled others ihf iho =>
    intro start typed
    obtain ⟨table, ⟨ty, name, file, reads, struct⟩, ty', name', file', fields, writes, struct',
      among⟩ := typed
    refine everywhere_append.2 ⟨ihf ⟨table, ?_, ?_⟩, iho ⟨table, ?_, ?_⟩⟩
    · exact writes.field struct' (among List.mem_cons_self)
    · exact fun c hc => denotes_of_choose table reads struct chosen hc
    · exact ⟨ty, name, file, reads, struct⟩
    · exact ⟨ty', name', file', fields, writes, struct', List.subset_of_cons_subset among⟩
  | copied kind named agree =>
    intro start typed
    obtain ⟨_, writes, reads⟩ := typed
    refine everywhere_assignChoice (fun site hs c hc _ _ => ?_) fun site hs c hc => ?_
    · exact typedAt_present ((reads c hc).of_behind hs).typed
    · refine typedAt_assign writes.typed fun q mem => ?_
      obtain rfl := List.mem_singleton.1 mem
      exact ((reads c hc).of_behind hs).typed
  | binary agree =>
    intro start typed
    obtain ⟨_, writes, reads⟩ := typed
    refine everywhere_assignChoice (fun site hs c hc _ _ => ?_) fun site hs c hc => ?_
    · exact typedAt_present ((reads c hc).of_behind hs).typed
    · refine typedAt_assign writes.typed fun q mem => ?_
      obtain rfl := List.mem_singleton.1 mem
      exact ((reads c hc).of_behind hs).typed
  | struct bodies ih =>
    intro start typed
    obtain ⟨table, writes, reads⟩ := typed
    refine everywhere_structBlock (fun site hs c hc _ _ => ?_) (fun site hs => ?_) ?_
    · exact typedAt_present ((reads c hc).of_behind hs).typed
    · exact typedAt_assign writes.typed fun q mem => by cases mem
    · exact fun site hs c hc => ih c hc ⟨table, writes, (reads c hc).of_behind hs⟩
  | elements kind whole plain named sources =>
    intro start typed
    obtain ⟨_, writes, reads⟩ := typed
    refine typed_aggregateBlock writes reads (everywhere_assign.2 ?_)
    refine typedAt_assign (writes.element kind).typed fun q mem => ?_
    obtain rfl := List.mem_singleton.1 mem
    exact Place.typed_var
  | @structs level slot choice type s shape name element turn kind named sources turns ih =>
    intro start typed
    obtain ⟨table, writes, reads⟩ := typed
    have inside : ∀ c ∈ choice.candidates, ∀ site,
        elementTypes source cv.settings.value site.frames = [element c] →
        Everywhere (TypedAt source dest cv.settings.value) site (turn c) := by
      intro c hc site only
      obtain ⟨_, _, _, _, _, struct, _⟩ := (turns c hc).body_inv
      have plain : (element c).resolved.isAggregate = false := by
        rw [Candidate.ofElement] at struct
        rw [struct]
        rfl
      exact ih c hc ⟨table, writes.element kind, denotes_elementVar only plain⟩
    refine typed_aggregateBlock writes reads ?_
    obtain ⟨primary, fallback?⟩ := choice
    cases fallback? with
    | none =>
      exact inside primary List.mem_cons_self _
        (elementTypes_turn (reads _ Choice.primary_mem) (sources _ Choice.primary_mem))
    | some fallback =>
      -- the loop has elements of two types; on each side of the flag only one is left
      obtain ⟨taken, left⟩ := elementTypes_flagged cv.settings slot name
        (overrideFlagVar cv.settings slot.path) reads sources
      exact everywhere_branch.2 ⟨typedAt_flag, inside primary List.mem_cons_self _ taken,
        inside fallback (Choice.fallback_mem rfl) _ left⟩
  | @body level s slot c name file type fields block struct named filled ih =>
    intro start typed
    obtain ⟨table, writes, reads⟩ := typed
    refine everywhere_cons.2 ⟨everywhere_allocate.2 (typedAt_allocate writes.typed ?_), ih ?_⟩
    · exact fun q mem => by cases mem
    · exact ⟨table, ⟨c.type, name, file, reads, struct⟩, s.toTy, s.name, s.file, s.fields, writes,
        rfl, List.Subset.refl _⟩

/-- Every place in the program of a resolved conversion is well typed. -/
theorem places_typed {d : Document} {catalog : Catalog} {c : Conversion} {table : MappingTable}
    {cv : Converter} {block : Block} (resolved : Catalog.ofDocument d = .ok catalog)
    (mem : c ∈ catalog.conversions) (tabled : MappingTable.ofMappings c.mappings = .ok table)
    (h : cv.convert c.source.fields c.dest.fields table = .ok block) :
    Everywhere (TypedAt c.source.toTy c.dest.toTy cv.settings.value) .start block := by
  refine (emits_of_convert h).typed ⟨?_, ?_, ?_⟩
  · exact fun path e found => Catalog.entry_reads resolved mem tabled found
  · exact ⟨c.source.toTy, c.source.name, c.source.file, .inl ⟨rfl, rfl⟩, rfl⟩
  · exact ⟨c.dest.toTy, c.dest.name, c.dest.file, c.dest.fields, ⟨rfl, .done⟩, rfl,
      List.Subset.refl _⟩

namespace Ledger

/-! A document whose conversion has a mapping through an optional parent, a fallback and a list of
structs. -/

def document : Document where
  schemas := [⟨"api", "api.thrift", [
    .struct "Entry" [⟨"Amount", .primitive .i32, true⟩],
    .struct "Archive" [⟨"Entries", .list (.named "Entry"), true⟩],
    .struct "Account" [⟨"Entries", .list (.named "Entry"), false⟩,
      ⟨"Archive", .named "Archive", false⟩],
    .struct "Ledger" [⟨"Entries", .list (.named "Entry"), false⟩]]⟩]
  conversions := [⟨"AccountToLedger", "api.Account", "api.Ledger",
    [⟨"Entries", "Archive.Entries", false⟩]⟩]

def converter : Converter :=
  { namespaces := .registry [("api.thrift", "crate::api")] }

theorem places_typed_ledger :
    ∃ catalog c table block, Catalog.ofDocument document = .ok catalog ∧
      c ∈ catalog.conversions ∧ MappingTable.ofMappings c.mappings = .ok table ∧
      converter.convert c.source.fields c.dest.fields table = .ok block ∧
      Everywhere (TypedAt c.source.toTy c.dest.toTy converter.settings.value) .start block := by
  have converts : ((Catalog.ofDocument document).toOption.any fun catalog =>
      catalog.conversions.any fun c =>
        (MappingTable.ofMappings c.mappings).toOption.any fun table =>
          (converter.convert c.source.fields c.dest.fields table).toOption.isSome) = true := by
    decide +kernel
  simp only [Option.any_eq_true, List.any_eq_true, Option.isSome_iff_exists,
    toOption_eq_some] at converts
  obtain ⟨catalog, resolved, c, mem, table, tabled, block, h⟩ := converts
  exact ⟨catalog, c, table, block, resolved, mem, tabled, h, places_typed resolved mem tabled h⟩

end Ledger

end Crosswalk
