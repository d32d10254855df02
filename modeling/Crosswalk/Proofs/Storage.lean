import Crosswalk.Proofs.Emission.Sound
import Crosswalk.Proofs.Staging
import Crosswalk.Proofs.Trace
import Crosswalk.Proofs.Walk

/-!
# Storage comes first

Along every control path a container is allocated before anything in it is written, nothing that is
written is wiped by a later write above it, and a struct that is allocated gets all its fields. Each
is an induction over what is laid out: the writes for a goal stay at or below its place, and the
places of different fields are apart.

`Lays` is what a control path writes for a goal, and all three parts are inductions on its rules:
`Lays.allocatedFrom`, `Lays.kept` and `Lays.fillsStructs`. They rest on `Lays.covers`, by which
every write is for the goal or for a variable.
-/

namespace Crosswalk
set_option autoImplicit false
open Converter

/-! ## What a goal covers -/

/-- A place inside of what another holds. -/
def Place.Below (p q : Place) : Prop :=
  p.Extends q ∧ p.accesses ≠ q.accesses

namespace Goal

/-- The places at or below what a goal fills. -/
def Covers (q : Place) : Goal → Prop
  | fields p dests => ∃ f ∈ dests, q.Extends (p.field f.name f.isOptional)
  | value p _ => q.Extends p

def root : Goal → Root
  | fields p _ => p.root
  | value p _ => p.root

/-- The least number of accesses of what a goal fills. -/
def depth : Goal → Nat
  | fields p _ => p.accesses.length + 1
  | value p _ => p.accesses.length

end Goal

theorem Binding.length_element (b : Binding) (p : Place) :
    (b.element p).accesses.length = p.accesses.length + 1 := by
  cases b <;> simp [element, Place.index, Place.key]

section
variable {s : Settings} {goal : Goal} {t : List Statement}

/-- All writes are covered, apart from those of variables. -/
theorem Lays.covers (h : Lays s goal t) : ∀ w ∈ t, ∀ q, w.target? = some q →
    goal.Covers q ∨ ∃ name optional, q = .var name optional := by
  -- induction on the rules of `Lays`; writes are at the goal or below, but for the staging of
  -- variables
  induction h with
  | nil => exact fun w mem => by cases mem
  | @cons p f rest t later filled others ihf iho =>
    intro w mem q written
    rcases List.mem_append.1 mem with mem | mem
    · exact (ihf w mem q written).imp_left fun h => ⟨f, List.mem_cons_self, h⟩
    · refine (iho w mem q written).imp_left ?_
      rintro ⟨g, hg, h⟩
      exact ⟨g, List.mem_cons_of_mem f hg, h⟩
  | whole assigns some =>
    intro w mem q written
    obtain ⟨value, rfl⟩ := assigns w mem
    cases written
    exact .inl ⟨rfl, List.prefix_rfl⟩
  | staged staging filled ih =>
    intro w mem q written
    rcases List.mem_append.1 mem with mem | mem
    · obtain ⟨name, optional, value, rfl⟩ := staging w mem
      cases written
      exact .inr ⟨name, optional, rfl⟩
    · exact ih w mem q written
  | struct filled ih =>
    intro w mem q written
    rcases List.mem_cons.1 mem with rfl | mem
    · cases written
      exact .inl ⟨rfl, List.prefix_rfl⟩
    · refine (ih w mem q written).imp_left ?_
      rintro ⟨f, _, h⟩
      exact h.trans (Place.extends_field _ _ _)
  | element kind filled ih =>
    intro w mem q written
    rcases List.mem_cons.1 mem with rfl | mem
    · cases written
      exact .inl ⟨rfl, List.prefix_rfl⟩
    · exact (ih w mem q written).imp_left fun h => h.trans (Binding.extends_element _ _)

/-! ## Containers before contents -/

/-- A container of the output is allocated. -/
def Allocates (t : List Statement) (container : List Access) : Prop :=
  ∃ p storage hint?, .allocate p storage hint? ∈ t ∧ p.root = .output ∧ p.accesses = container

/-- Containers of at least a number of accesses are allocated before what they hold is written. -/
def AllocatedFrom (n : Nat) (t : List Statement) : Prop :=
  ∀ before w after p, t = before ++ w :: after → w.target? = some p → p.root = .output →
    ∀ container, n ≤ container.length → container <+: p.accesses → container ≠ p.accesses →
      Allocates before container

/-- More statements allocate no less. -/
theorem Allocates.mono {a b : List Statement} {container : List Access}
    (h : Allocates a container) (among : a ⊆ b) : Allocates b container := by
  obtain ⟨p, storage, hint?, mem, place⟩ := h
  exact ⟨p, storage, hint?, among mem, place⟩

/-- Of two lists of statements, each may rely on what is allocated in itself. -/
theorem AllocatedFrom.append {n : Nat} {a b : List Statement} (ha : AllocatedFrom n a)
    (hb : AllocatedFrom n b) : AllocatedFrom n (a ++ b) := by
  intro before w after p split written output container long lead ne
  rcases List.append_eq_append_iff.1 split with ⟨inB, rfl, rest⟩ | ⟨inA, rfl, rest⟩
  · exact (hb inB w after p rest written output container long lead ne).mono
      (List.subset_append_right _ _)
  · cases inA with
    | nil =>
      exact (hb [] w after p rest.symm written output container long lead ne).mono
        (List.nil_subset _)
    | cons v inA =>
      obtain ⟨rfl, _⟩ := List.cons.inj rest
      exact ha before w inA p rfl written output container long lead ne

/-- Statements that write only what has no container of so many accesses. -/
theorem allocatedFrom_of_short {n : Nat}
    (h : ∀ w ∈ t, ∀ p, w.target? = some p → p.root = .output → p.accesses.length ≤ n) :
    AllocatedFrom n t := by
  intro before w after p split written output container long lead ne
  have short := h w (split ▸ List.mem_append_right _ List.mem_cons_self) p written output
  exact absurd (lead.eq_of_length_le (short.trans long)) ne

/-- A container is allocated and then filled. -/
theorem AllocatedFrom.cons {p : Place} {storage : Storage} {hint? : Option Place}
    (output : p.root = .output) (h : AllocatedFrom (p.accesses.length + 1) t)
    (inside : ∀ w ∈ t, ∀ q, w.target? = some q → q.root = .output → q.Extends p) :
    AllocatedFrom p.accesses.length (.allocate p storage hint? :: t) := by
  intro before w after q split written rooted container long lead ne
  cases before with
  | nil =>
    obtain ⟨rfl, _⟩ := List.cons.inj split
    cases written
    exact absurd (lead.eq_of_length_le long) ne
  | cons first before =>
    obtain ⟨rfl, rfl⟩ := List.cons.inj split
    rcases Nat.eq_or_lt_of_le long with same | long
    · -- two containers of one place that are equally deep are the same
      have mem : w ∈ before ++ w :: after := List.mem_append_right _ List.mem_cons_self
      have leads := (inside w mem q written rooted).2
      have whole : p.accesses = container :=
        (List.prefix_of_prefix_length_le leads lead same.le).eq_of_length same
      exact ⟨p, storage, hint?, List.mem_cons_self, output, whole⟩
    · exact (h before w after q rfl written rooted container long lead ne).mono
        (List.subset_cons_self _ _)

/-- What is written to the output for the fields of a place is below the place. -/
theorem Lays.inside_fields {p : Place} {dests : List Field} (h : Lays s (.fields p dests) t) :
    ∀ w ∈ t, ∀ q, w.target? = some q → q.root = .output → q.Extends p := by
  intro w mem q written rooted
  rcases h.covers w mem q written with ⟨f, _, covered⟩ | ⟨name, optional, rfl⟩
  · exact covered.trans (Place.extends_field _ _ _)
  · cases rooted

/-- What is written to the output for a value is at its place or below. -/
theorem Lays.inside {p : Place} {type : Ty} (h : Lays s (.value p type) t) :
    ∀ w ∈ t, ∀ q, w.target? = some q → q.root = .output → q.Extends p := by
  intro w mem q written rooted
  rcases h.covers w mem q written with covered | ⟨name, optional, rfl⟩
  · exact covered
  · cases rooted

/-- On every control path containers come before their contents. -/
theorem Lays.allocatedFrom (h : Lays s goal t) :
    goal.root = .output → AllocatedFrom goal.depth t := by
  -- induction on the rules of `Lays`; what is written below an allocation comes behind it
  induction h with
  | nil => exact fun _ => allocatedFrom_of_short fun w mem => by cases mem
  | cons filled others ihf iho =>
    intro output
    refine AllocatedFrom.append ?_ (iho output)
    simpa [Goal.depth, Place.field] using ihf output
  | whole assigns some =>
    intro output
    refine allocatedFrom_of_short fun w mem q written _ => ?_
    obtain ⟨value, rfl⟩ := assigns w mem
    cases written
    exact le_rfl
  | staged staging filled ih =>
    intro output
    refine .append (allocatedFrom_of_short fun w mem q written rooted => ?_) (ih output)
    obtain ⟨name, optional, value, rfl⟩ := staging w mem
    cases written
    cases rooted
  | struct filled ih =>
    intro output
    exact (ih output).cons output filled.inside_fields
  | @element p type dest shape _ _ _ t kind filled ih =>
    intro output
    have element := Binding.extends_element (loopBinding s shape) p
    have filling := ih (element.1.trans output)
    rw [Goal.depth, Binding.length_element] at filling
    exact filling.cons output fun w mem q written rooted =>
      (filled.inside w mem q written rooted).trans element

/-! ## Nothing is wiped -/

/-- A statement does not write above what another wrote before. -/
def Keeps (earlier later : Statement) : Prop :=
  ∀ p q, earlier.target? = some p → later.target? = some q → ¬ p.Below q

theorem not_below_var {name : String} {optional : Bool} {q : Place} :
    ¬ (Place.var name optional).Below q := by
  rintro ⟨⟨_, lead⟩, ne⟩
  exact ne (List.prefix_nil.1 lead).symm

/-- Staging writes variables alone, so nothing behind it is above. -/
theorem keeps_of_isStaging {w v : Statement} (h : w.IsStaging) : Keeps w v := by
  intro p q written _
  obtain ⟨name, optional, value, rfl⟩ := h
  cases written
  exact not_below_var

/-- Writes at or below a place, and those of variables, keep an allocation of the place. -/
theorem keeps_of_extends {p : Place} {storage : Storage} {hint? : Option Place} {w : Statement}
    (output : p.root = .output)
    (inside : ∀ q, w.target? = some q → q.root = .output → q.Extends p) :
    Keeps (.allocate p storage hint?) w := by
  rintro p' q written written' ⟨⟨root, lead⟩, ne⟩
  cases written
  have below := (inside q written' (root.symm.trans output)).2
  exact ne (lead.eq_of_length_le below.length_le).symm

/-- Writes at or below different fields of a struct keep each other. -/
theorem not_below_of_fields {p q q' : Place} {f g : Field}
    (hq : q.Extends (p.field f.name f.isOptional))
    (hq' : q'.Extends (p.field g.name g.isOptional)) (differ : f.name ≠ g.name) :
    ¬ q.Below q' := by
  rintro ⟨⟨_, lead⟩, _⟩
  -- a place above what is written in the first field would lead into both fields
  have same : (p.field f.name f.isOptional).accesses = (p.field g.name g.isOptional).accesses :=
    (List.prefix_of_prefix_length_le hq.2 (hq'.2.trans lead) (by simp [Place.field])).eq_of_length
      (by simp [Place.field])
  obtain ⟨_, access⟩ := List.append_inj' same rfl
  simp only [List.cons.injEq, Access.field.injEq] at access
  exact differ access.1.1

/-- The structs of what is to be filled have fields of different names. -/
def Goal.Differ : Goal → Prop
  | .fields _ dests => EachStruct NamesDiffer dests
  | .value _ type => ∀ inner, type.HasStruct inner → NamesDiffer inner

theorem EachStruct.of_cons {f : Field} {rest : List Field}
    (h : EachStruct NamesDiffer (f :: rest)) :
    (∀ g ∈ rest, f.name ≠ g.name) ∧ EachStruct NamesDiffer rest := by
  obtain ⟨fresh, differ⟩ := List.nodup_cons.1 h.1
  refine ⟨fun g mem same => fresh (List.mem_map.2 ⟨g, mem, same.symm⟩), differ, fun g mem => ?_⟩
  exact h.2 g (List.mem_cons_of_mem f mem)

/-- On every control path nothing is written above what was written before. -/
theorem Lays.kept (h : Lays s goal t) :
    goal.root = .output → goal.Differ → t.Pairwise Keeps := by
  -- induction on the rules of `Lays`; of two fields neither is below the other, as their names
  -- differ
  induction h with
  | nil => exact fun _ _ => .nil
  | @cons p f rest t later filled others ihf iho =>
    intro output differ
    obtain ⟨names, each⟩ := EachStruct.of_cons differ
    refine List.pairwise_append.2 ⟨ihf output (differ.2 f List.mem_cons_self), iho output each, ?_⟩
    intro w inField v inRest q q' written written'
    rcases filled.covers w inField q written with covered | ⟨name, optional, rfl⟩
    · rcases others.covers v inRest q' written' with ⟨g, hg, covered'⟩ | ⟨name, optional, rfl⟩
      · exact not_below_of_fields covered covered' (names g hg)
      · rintro ⟨⟨root, _⟩, _⟩
        have rooted : q.root = .output := covered.1.trans output
        rw [rooted] at root
        cases root
    · exact not_below_var
  -- a whole value is only written at its own place
  | whole assigns some =>
    intro _ _
    refine List.pairwise_of_forall_mem_list fun w hw v hv p q written written' => ?_
    obtain ⟨value, rfl⟩ := assigns w hw
    obtain ⟨value', rfl⟩ := assigns v hv
    cases written
    cases written'
    exact fun below => below.2 rfl
  | staged staging filled ih =>
    intro output differ
    refine List.pairwise_append.2 ⟨?_, ih output differ, fun w mem _ _ =>
      keeps_of_isStaging (staging w mem)⟩
    exact List.pairwise_of_forall_mem_list fun w mem _ _ => keeps_of_isStaging (staging w mem)
  -- what is inside is written behind the allocation, so nothing is lost
  | struct filled ih =>
    intro output differ
    exact List.pairwise_cons.2 ⟨fun w mem => keeps_of_extends output (filled.inside_fields w mem),
      ih output (EachStruct.of_hasStruct differ rfl)⟩
  | @element p type dest shape name boxed hint? t kind filled ih =>
    intro output differ
    have element := Binding.extends_element (loopBinding s shape) p
    refine List.pairwise_cons.2 ⟨fun w mem => keeps_of_extends output fun q written rooted =>
      (filled.inside w mem q written rooted).trans element, ?_⟩
    exact ih (element.1.trans output) fun inner has => differ inner (.element kind has)

/-! ## Structs get all their fields -/

/-- The fields at a place are written, apart from optional ones that are copied whole. -/
def FillsAll (t : List Statement) (p : Place) (fields : List Field) : Prop :=
  ∀ f ∈ fields, (f.type.isCopied && f.isOptional) = false →
    ∃ w ∈ t, w.target? = some (p.field f.name f.isOptional)

/-- Every struct that is allocated is one of the destination and gets all its fields. -/
def FillsStructs (dest : Ty) (t : List Statement) : Prop :=
  ∀ p name hint?, .allocate p (.struct name) hint? ∈ t →
    p.root = .output ∧
      ∃ inner : Struct, dest.at? p.accesses = some inner.toTy ∧ FillsAll t p inner.fields

theorem FillsAll.mono {a b : List Statement} {p : Place} {fields : List Field}
    (h : FillsAll a p fields) (among : a ⊆ b) : FillsAll b p fields := by
  intro f mem due
  obtain ⟨w, written, target⟩ := h f mem due
  exact ⟨w, among written, target⟩

/-- Two lists that fill the structs they allocate do so together. -/
theorem FillsStructs.append {dest : Ty} {a b : List Statement} (ha : FillsStructs dest a)
    (hb : FillsStructs dest b) : FillsStructs dest (a ++ b) := by
  intro p name hint? mem
  rcases List.mem_append.1 mem with mem | mem
  · obtain ⟨output, inner, reach, filled⟩ := ha p name hint? mem
    exact ⟨output, inner, reach, filled.mono (List.subset_append_left _ _)⟩
  · obtain ⟨output, inner, reach, filled⟩ := hb p name hint? mem
    exact ⟨output, inner, reach, filled.mono (List.subset_append_right _ _)⟩

theorem fillsStructs_of_assigns {dest : Ty} (h : ∀ w ∈ t, ∃ p value, w = .assign p value) :
    FillsStructs dest t := by
  intro p name hint? mem
  obtain ⟨_, _, same⟩ := h _ mem
  cases same

/-- What is to be filled is written. -/
def Goal.Written (t : List Statement) : Goal → Prop
  | .fields p dests => FillsAll t p dests
  | .value p type => (type.isCopied && p.optional) = false → ∃ w ∈ t, w.target? = some p

/-- A goal is written on every control path, unless it is optional and copied whole. -/
theorem Lays.written (h : Lays s goal t) : goal.Written t := by
  induction h with
  | nil => exact fun f mem => by cases mem
  | @cons p f rest t later filled others ihf iho =>
    intro g mem due
    rcases List.mem_cons.1 mem with rfl | mem
    · obtain ⟨w, written, target⟩ := ihf due
      exact ⟨w, List.mem_append_left _ written, target⟩
    · exact iho.mono (List.subset_append_right _ _) g mem due
  | whole assigns written =>
    intro due
    obtain ⟨w, rest, rfl⟩ := List.exists_cons_of_ne_nil (written due)
    obtain ⟨value, rfl⟩ := assigns w List.mem_cons_self
    exact ⟨_, List.mem_cons_self, rfl⟩
  | staged staging filled ih =>
    intro due
    obtain ⟨w, written, target⟩ := ih due
    exact ⟨w, List.mem_append_right _ written, target⟩
  | struct => exact fun _ => ⟨_, List.mem_cons_self, rfl⟩
  | element => exact fun _ => ⟨_, List.mem_cons_self, rfl⟩

/-- The place of a goal leads to its type. -/
def Goal.Typed (dest : Ty) : Goal → Prop
  | .fields p dests => ∀ f ∈ dests, dest.at? (p.field f.name f.isOptional).accesses = some f.type
  | .value p type => dest.at? p.accesses = some type

theorem findField?_of_namesDiffer {fields : List Field} {f : Field} (differ : NamesDiffer fields)
    (mem : f ∈ fields) : findField? fields f.name = some f := by
  cases found : findField? fields f.name with
  | none => simpa using List.find?_eq_none.1 found f mem
  | some g =>
    rw [List.inj_on_of_nodup_map differ (List.mem_of_find?_eq_some found) mem
      (name_of_findField? found)]

/-- The fields of a struct that the destination has at a place have their types there. -/
theorem Goal.typed_fields {dest : Ty} {p : Place} {inner : Struct}
    (reach : dest.at? p.accesses = some inner.toTy) (differ : NamesDiffer inner.fields) :
    (Goal.fields p inner.fields).Typed dest := by
  intro f mem
  have struct : inner.toTy.resolved = .struct inner.name inner.file inner.fields := rfl
  rw [Place.field, Ty.at?_snoc, reach]
  exact Ty.step?_field struct (findField?_of_namesDiffer differ mem)

/-- So have the elements of a list or map. -/
theorem Goal.typed_element {dest type inner : Ty} {p : Place} {shape : Shape}
    (reach : dest.at? p.accesses = some type) (kind : type.elements? = some (shape, inner)) :
    (Goal.value ((loopBinding s shape).element p) inner).Typed dest := by
  rcases Ty.elements?_eq_some kind with ⟨rfl, rfl⟩ | ⟨rfl, key, _, rfl⟩
  · simp [Typed, loopBinding, Binding.element, Place.index, Ty.at?_snoc, reach, Ty.step?,
      Ty.resolved]
  · simp [Typed, loopBinding, Binding.element, Place.key, Ty.at?_snoc, reach, Ty.step?,
      Ty.resolved]

/-- Structs that are allocated are those of the destination, and they get all their fields but
optional ones that are copied whole. -/
theorem Lays.fillsStructs {dest : Ty} (h : Lays s goal t) :
    goal.root = .output → goal.Differ → goal.Typed dest → FillsStructs dest t := by
  induction h with
  | nil => exact fun _ _ _ => fillsStructs_of_assigns fun w mem => by cases mem
  | @cons p f rest t later filled others ihf iho =>
    intro output differ typed
    refine (ihf output (differ.2 f List.mem_cons_self) (typed f List.mem_cons_self)).append ?_
    exact iho output (EachStruct.of_cons differ).2 fun g mem => typed g (List.mem_cons_of_mem f mem)
  | whole assigns some =>
    intro _ _ _
    exact fillsStructs_of_assigns fun w mem => ⟨_, assigns w mem⟩
  | staged staging filled ih =>
    intro output differ typed
    refine (fillsStructs_of_assigns fun w mem => ?_).append (ih output differ typed)
    obtain ⟨name, optional, value, rfl⟩ := staging w mem
    exact ⟨_, value, rfl⟩
  | @struct p inner name t filled ih =>
    intro output differ typed p' name' hint? mem
    have each := EachStruct.of_hasStruct differ rfl
    -- the struct allocated here is filled by what follows, deeper ones within what follows
    rcases List.mem_cons.1 mem with same | mem
    · cases same
      exact ⟨output, inner, typed, filled.written.mono (List.subset_cons_self _ _)⟩
    · obtain ⟨output, other, reach, written⟩ :=
        ih output each (Goal.typed_fields typed each.1) p' name' hint? mem
      exact ⟨output, other, reach, written.mono (List.subset_cons_self _ _)⟩
  | @element p type dest' shape name boxed hint? t kind filled ih =>
    intro output differ typed p' name' hint' mem
    have element := Binding.extends_element (loopBinding s shape) p
    rcases List.mem_cons.1 mem with same | mem
    · cases shape <;> cases same
    · obtain ⟨output, other, reach, written⟩ :=
        ih (element.1.trans output) (fun inner has => differ inner (.element kind has))
          (Goal.typed_element typed kind) p' name' hint' mem
      exact ⟨output, other, reach, written.mono (List.subset_cons_self _ _)⟩

end

/-- Along every control path of a conversion to a struct of different field names, all that holds a
place is allocated before the place is written, no write wipes an earlier one, and the destination
and every struct that is allocated get all their fields. -/
theorem allocated_then_filled {cv : Converter} {sources : List Field} {dest : Struct}
    {table : MappingTable} {block : Block} (differ : EachStruct NamesDiffer dest.fields)
    (h : cv.convert sources dest.fields table = .ok block) :
    (∃ t, block.Takes t) ∧ ∀ t, block.Takes t →
      AllocatedFrom 1 t ∧ t.Pairwise Keeps ∧ FillsStructs dest.toTy t ∧
        FillsAll t .output dest.fields := by
  refine ⟨block.exists_takes, fun t path => ?_⟩
  have lays := (emits_of_convert h).lays t path
  exact ⟨lays.allocatedFrom rfl, lays.kept rfl differ,
    lays.fillsStructs rfl differ (Goal.typed_fields rfl differ.1), lays.written⟩

namespace Shelf

/-! The path on which the list of its own name is present. -/

theorem allocated_then_filled_rows :
    ∃ block t, EachStruct NamesDiffer (dests ["Rows"]) ∧
      (converter {}).convert (sources ["Rows"]) (dests ["Rows"]) (table ["Rows"]) = .ok block ∧
      block.Takes t ∧ t.length = 7 ∧
      AllocatedFrom 1 t ∧ t.Pairwise Keeps ∧
      FillsStructs (Struct.mk "Shelf" "a.thrift" (dests ["Rows"])).toTy t ∧
      FillsAll t .output (dests ["Rows"]) := by
  have path : ∃ block t, (converter {}).convert (sources ["Rows"]) (dests ["Rows"])
      (table ["Rows"]) = .ok block ∧ block.Takes t ∧ t.length = 7 :=
    ⟨_, _, rfl, .assign (.assign (.yes (.assign (.assign .nil)) (.allocate (.loop
      (.yes (.allocate (.assign .nil)) .nil) .nil)))), rfl⟩
  obtain ⟨block, t, h, path, length⟩ := path
  have differ : EachStruct NamesDiffer (dests ["Rows"]) :=
    eachStruct (List.nodup_singleton _) (List.nodup_singleton _)
  exact ⟨block, t, differ, h, path, length,
    (@allocated_then_filled _ _ ⟨"Shelf", "a.thrift", dests ["Rows"]⟩ _ _ differ h).2 t path⟩

end Shelf

end Crosswalk
