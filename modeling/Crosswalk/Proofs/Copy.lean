import Crosswalk.Proofs.Element
import Crosswalk.Proofs.Emission.Complete
import Crosswalk.Proofs.Nesting
import Crosswalk.Proofs.Storage
import Crosswalk.Proofs.Support

/-!
# Copies

A conversion of fields to themselves is a copy. `Copies` says what a copy is: values are assigned
from the place of the same field, structs are allocated and filled, and lists and maps are allocated
and filled by a loop over the source. There is nothing to choose in it. Every struct that is filled
gets each of its fields by one statement, in the order in which the fields are declared.

What a copy writes at one level is `Block.writesTo`, which `Copies.covers` shows to stay at or below
the transfer. So the writes of different fields do not meet, and those of a level are its fields,
one after the other (`Copies.writes_level`).
-/

namespace Crosswalk
set_option autoImplicit false
open Converter

/-! ## What a copy is -/

/-- The fields of a struct, or a value, to be copied from one place to another. -/
inductive Transfer
  | fields (dest source : Place) (fields : List Field)
  | value (dest source : Place) (type : Ty)

/-- The value of a copy is the source's, be it bytes or converted to a type. -/
inductive Expr.Copies (source : Place) : Expr → Prop
  | bytes : Copies source (.bytes source)
  | cast {name : String} : Copies source (.cast name source false)

/-- Types whose values are copied by one assignment: scalars, aliases and bytes. -/
def Ty.isWhole : Ty → Bool
  | .binary => true
  | ty => ty.isCopied

/-- What is copied by one assignment has no elements of its own. -/
theorem Ty.elements?_of_isWhole {ty : Ty} (h : ty.isWhole = true) : ty.elements? = none := by
  cases ty with
  | binary => rfl
  | _ => exact elements?_of_isCopied h

/-- The block that copies. -/
inductive Copies (s : Settings) : Transfer → Block → Prop
  | nil {d source : Place} : Copies s (.fields d source []) []
  | cons {d source : Place} {f : Field} {rest : List Field} {block later : Block}
      (first : Copies s (.value (d.field f.name false) (source.field f.name false) f.type) block)
      (others : Copies s (.fields d source rest) later) :
      Copies s (.fields d source (f :: rest)) (block ++ later)
  | whole {d source : Place} {type : Ty} {value : Expr} (kind : type.isWhole = true)
      (copies : value.Copies source) : Copies s (.value d source type) [.assign d value]
  | struct {d source : Place} {inner : Struct} {name : String} {block : Block}
      (filled : Copies s (.fields d source inner.fields) block) :
      Copies s (.value d source inner.toTy) (.allocate d (.struct name) none :: block)
  | element {d source : Place} {type inner : Ty} {shape : Shape} {name : String} {turn : Block}
      (kind : type.elements? = some (shape, inner))
      (filled : Copies s (.value ((loopBinding s shape).element d) (.var s.value false) inner)
        turn) :
      Copies s (.value d source type)
        [.allocate d (storage name inner.isStruct shape) (some source),
          .loop source (loopBinding s shape) turn]

/-- The structs that a transfer fills, each at a place and from a place. -/
inductive Transfer.Fills (s : Settings) : Transfer → Place → Place → List Field → Prop
  | here {d source : Place} {fields : List Field} :
      Fills s (.fields d source fields) d source fields
  | field {d source d' source' : Place} {fields level : List Field} {f : Field} (mem : f ∈ fields)
      (h : Fills s (.value (d.field f.name false) (source.field f.name false) f.type) d' source'
        level) :
      Fills s (.fields d source fields) d' source' level
  | struct {d source d' source' : Place} {level : List Field} {inner : Struct}
      (h : Fills s (.fields d source inner.fields) d' source' level) :
      Fills s (.value d source inner.toTy) d' source' level
  | element {d source d' source' : Place} {level : List Field} {type inner : Ty} {shape : Shape}
      (kind : type.elements? = some (shape, inner))
      (h : Fills s (.value ((loopBinding s shape).element d) (.var s.value false) inner) d' source'
        level) :
      Fills s (.value d source type) d' source' level

/-- The statement that a value is copied by, or that storage for it is allocated by. -/
inductive Begins (d source : Place) : Ty → Statement → Prop
  | whole {type : Ty} {value : Expr} (kind : type.isWhole = true) (copies : value.Copies source) :
      Begins d source type (.assign d value)
  | struct {inner : Struct} {name : String} :
      Begins d source inner.toTy (.allocate d (.struct name) none)
  | element {type inner : Ty} {shape : Shape} {name : String}
      (kind : type.elements? = some (shape, inner)) :
      Begins d source type (.allocate d (storage name inner.isStruct shape) (some source))

/-- The statements in a block that write one of some places. -/
def Block.writesTo (block : Block) (places : List Place) : List Statement :=
  block.walk.filter fun t => t.target?.any (· ∈ places)

/-- A statement of a copy writes the output, from a place and under no condition. -/
def Statement.IsCopying : Statement → Prop
  | assign target value => target.root = .output ∧ ∃ source, value.Copies source
  | allocate target _ _ => target.root = .output
  | branch .. => False
  | loop .. => True

/-! ## What a copy writes -/

/-- The places at or below what is copied to. -/
def Transfer.Covers (p : Place) : Transfer → Prop
  | fields d _ members => ∃ f ∈ members, p.Extends (d.field f.name false)
  | value d _ _ => p.Extends d

/-- The places of different fields are apart. -/
theorem Place.name_eq_of_extends {p d : Place} {a b : String}
    (ha : p.Extends (d.field a false)) (hb : p.Extends (d.field b false)) : a = b := by
  have same : (d.field a false).accesses = (d.field b false).accesses :=
    (List.prefix_of_prefix_length_le ha.2 hb.2 (by simp [Place.field])).eq_of_length
      (by simp [Place.field])
  simpa [Place.field] using same

/-- A place is not at or below one below it. -/
theorem Place.not_extends_field {d : Place} {name : String} : ¬ d.Extends (d.field name false) := by
  rintro ⟨_, lead⟩
  have shorter := lead.length_le
  simp only [Place.field, List.length_append, List.length_singleton] at shorter
  omega

/-- An element is below its aggregate and not above it. -/
theorem Binding.not_extends_element {b : Binding} {d : Place} : ¬ d.Extends (b.element d) := by
  rintro ⟨_, lead⟩
  have shorter := lead.length_le
  rw [Binding.length_element] at shorter
  omega

/-- The writes of two blocks in a row. -/
theorem Block.writesTo_append (a b : Block) (places : List Place) :
    writesTo (a ++ b) places = writesTo a places ++ writesTo b places := by
  rw [writesTo, walk_append, List.filter_append]
  rfl

/-- A block that writes none of the places has no writes to them. -/
theorem Block.writesTo_eq_nil {block : Block} {places : List Place}
    (h : ∀ t ∈ block.walk, ∀ p, t.target? = some p → p ∉ places) :
    block.writesTo places = [] := by
  refine List.filter_eq_nil_iff.2 fun t mem => ?_
  cases target : t.target? with
  | none => simp
  | some p => simpa using h t mem p target

/-- A place that is written nowhere in a block does not count. -/
theorem Block.writesTo_cons {block : Block} {places : List Place} {p : Place}
    (h : ∀ t ∈ block.walk, t.target? ≠ some p) :
    block.writesTo (p :: places) = block.writesTo places := by
  refine List.filter_congr fun t mem => ?_
  cases target : t.target? with
  | none => rfl
  | some q =>
    have other : q ≠ p := fun same => h t mem (same ▸ target)
    simp [other]

section
variable {s : Settings} {block : Block} {t : Transfer}

/-- An allocation has no statements below it. -/
@[simp] theorem Block.walk_allocate {d : Place} {storage : Storage} {hint? : Option Place}
    {rest : Block} :
    Block.walk (.allocate d storage hint? :: rest) = .allocate d storage hint? :: rest.walk := by
  rw [walk]
  rfl

/-- A loop is visited before its body. -/
@[simp] theorem Block.walk_loop {iterable : Place} {binding : Binding} {body : Block} :
    Block.walk [.loop iterable binding body] = .loop iterable binding body :: body.walk := by
  rw [walk]
  simp [Statement.children]

/-- A copy writes only where it copies to. -/
theorem Copies.covers (h : Copies s t block) :
    ∀ w ∈ block.walk, ∀ p, w.target? = some p → t.Covers p := by
  -- induction on the copy; the writes of a part stay at or below what the part is copied to
  induction h with
  | nil => exact fun w mem => by simp [Block.walk] at mem
  | @cons d source f rest block later first others ihf iho =>
    intro w mem p written
    rw [Block.walk_append] at mem
    rcases List.mem_append.1 mem with mem | mem
    · exact ⟨f, List.mem_cons_self, ihf w mem p written⟩
    · obtain ⟨g, hg, covered⟩ := iho w mem p written
      exact ⟨g, List.mem_cons_of_mem f hg, covered⟩
  | whole kind copies =>
    intro w mem p written
    obtain rfl : w = _ := by simpa [Block.walk, Statement.children] using mem
    cases written
    exact ⟨rfl, List.prefix_rfl⟩
  | struct filled ih =>
    intro w mem p written
    rw [Block.walk_allocate] at mem
    rcases List.mem_cons.1 mem with rfl | mem
    · cases written
      exact ⟨rfl, List.prefix_rfl⟩
    · obtain ⟨f, _, covered⟩ := ih w mem p written
      exact covered.trans (Place.extends_field _ _ _)
  | element kind filled ih =>
    intro w mem p written
    rw [Block.walk_allocate, Block.walk_loop] at mem
    rcases List.mem_cons.1 mem with rfl | mem
    · cases written
      exact ⟨rfl, List.prefix_rfl⟩
    · rcases List.mem_cons.1 mem with rfl | mem
      · cases written
      · exact (ih w mem p written).trans (Binding.extends_element _ _)

/-! ## Each field once and in order -/

/-- The place that is copied to. -/
def Transfer.dest : Transfer → Place
  | fields d _ _ => d
  | value d _ _ => d

/-- What the transfer has to fill, wherever it is copied from. -/
def Transfer.goal : Transfer → Goal
  | fields d _ members => .fields d members
  | value d _ type => .value d type

/-- The structs that a transfer fills are at or below what it is copied to. -/
theorem Transfer.Fills.extends_dest {d source : Place} {level : List Field}
    (h : t.Fills s d source level) : d.Extends t.dest := by
  induction h with
  | here => exact ⟨rfl, List.prefix_rfl⟩
  | field mem h ih => exact ih.trans (Place.extends_field _ _ _)
  | struct h ih => exact ih
  | element kind h ih => exact ih.trans (Binding.extends_element _ _)

/-- An allocation counts if its own place is asked for. -/
theorem Block.writesTo_allocate {d : Place} {storage : Storage} {hint? : Option Place}
    {rest : Block} {places : List Place} :
    Block.writesTo (.allocate d storage hint? :: rest) places =
      if d ∈ places then .allocate d storage hint? :: rest.writesTo places
      else rest.writesTo places := by
  rw [writesTo, walk_allocate, List.filter_cons]
  simp [Statement.target?, writesTo]

/-- A loop writes nothing itself. -/
theorem Block.writesTo_loop {iterable : Place} {binding : Binding} {body : Block}
    {places : List Place} :
    Block.writesTo [.loop iterable binding body] places = body.writesTo places := by
  rw [writesTo, walk_loop, List.filter_cons]
  simp [Statement.target?, writesTo]

/-- A value is written once, and what is written after that is inside of it. -/
theorem Copies.begins {d source : Place} {type : Ty} {places : List Place}
    (h : Copies s (.value d source type) block) (mem : d ∈ places)
    (apart : ∀ p ∈ places, p.Extends d → p = d) :
    ∃ w, Begins d source type w ∧ block.writesTo places = [w] := by
  cases h with
  | whole kind copies =>
    refine ⟨_, .whole kind copies, ?_⟩
    simp [Block.writesTo, Block.walk, Statement.children, Statement.target?, mem]
  | @struct _ _ inner name block filled =>
    refine ⟨.allocate d (.struct name) none, .struct, ?_⟩
    -- what fills the struct writes below it, and none of the places is there
    have inside : ∀ w ∈ block.walk, ∀ p, w.target? = some p → p ∉ places := by
      intro w among p written is
      obtain ⟨f, _, covered⟩ := filled.covers w among p written
      obtain rfl := apart p is (covered.trans (Place.extends_field _ _ _))
      exact Place.not_extends_field covered
    rw [Block.writesTo_allocate, if_pos mem, Block.writesTo_eq_nil inside]
  | @element _ _ _ inner shape name turn kind filled =>
    refine ⟨.allocate d (storage name inner.isStruct shape) (some source), .element kind, ?_⟩
    -- likewise for the elements of a list or map
    have inside : ∀ w ∈ turn.walk, ∀ p, w.target? = some p → p ∉ places := by
      intro w among p written is
      have covered := filled.covers w among p written
      obtain rfl := apart p is (covered.trans (Binding.extends_element _ _))
      exact Binding.not_extends_element covered
    rw [Block.writesTo_allocate, if_pos mem, Block.writesTo_loop, Block.writesTo_eq_nil inside]

/-- The places of the fields of a struct at a place. -/
def Place.fields (d : Place) (members : List Field) : List Place :=
  members.map fun f => d.field f.name false

/-- A field is below its struct, and the struct not below it. -/
theorem Place.extends_of_mem_fields {d p : Place} {members : List Field}
    (h : p ∈ d.fields members) : p.Extends d ∧ ¬ d.Extends p := by
  obtain ⟨f, _, rfl⟩ := List.mem_map.1 h
  exact ⟨Place.extends_field _ _ _, Place.not_extends_field⟩

/-- The places of the fields that a level fills are inside of what is transferred. -/
theorem Transfer.Fills.not_mem_fields {d source : Place} {level : List Field}
    (h : t.Fills s d source level) : t.dest ∉ d.fields level :=
  fun mem => (Place.extends_of_mem_fields mem).2 h.extends_dest

/-- In a struct the structs that are filled are it and those inside of it. -/
theorem Transfer.Fills.of_struct {d source d' source' : Place} {level : List Field}
    {inner : Struct} (h : (value d source inner.toTy).Fills s d' source' level) :
    (fields d source inner.fields).Fills s d' source' level := by
  generalize same : inner.toTy = type at h
  cases h with
  | struct h =>
    obtain rfl := Struct.toTy_inj same
    exact h
  | element kind => simp [← same, Struct.elements?_toTy] at kind

/-- In a list or map the structs that are filled are those of the elements. -/
theorem Transfer.Fills.of_element {d source d' source' : Place} {level : List Field}
    {type inner : Ty} {shape : Shape} (kind : type.elements? = some (shape, inner))
    (h : (value d source type).Fills s d' source' level) :
    (value ((loopBinding s shape).element d) (.var s.value false) inner).Fills s d' source'
      level := by
  cases h with
  | struct h => cases kind
  | element kind' h =>
    obtain ⟨rfl, rfl⟩ : shape = _ ∧ inner = _ := by simpa using kind.symm.trans kind'
    exact h

/-- The places of the fields are inside of the place that a transfer goes to. -/
theorem Transfer.Fills.extends_field {d source p : Place} {level : List Field}
    (h : t.Fills s d source level) (mem : p ∈ d.fields level) : p.Extends t.dest :=
  (Place.extends_of_mem_fields mem).1.trans h.extends_dest

/-- A copy to the output does nothing but copy. -/
theorem Copies.isCopying (h : Copies s t block) :
    t.dest.root = .output → ∀ w ∈ block.walk, w.IsCopying := by
  -- induction on the copy; only allocations, assignments and loops are met
  induction h with
  | nil => exact fun _ w mem => by simp [Block.walk] at mem
  | cons first others ihf iho =>
    intro output w mem
    rw [Block.walk_append] at mem
    rcases List.mem_append.1 mem with mem | mem
    · exact ihf output w mem
    · exact iho output w mem
  | whole kind copies =>
    intro output w mem
    obtain rfl : w = _ := by simpa [Block.walk, Statement.children] using mem
    exact ⟨output, _, copies⟩
  | struct filled ih =>
    intro output w mem
    rw [Block.walk_allocate] at mem
    rcases List.mem_cons.1 mem with rfl | mem
    · exact output
    · exact ih output w mem
  | @element d _ _ _ shape _ _ kind filled ih =>
    intro output w mem
    have element := Binding.extends_element (loopBinding s shape) d
    rw [Block.walk_allocate, Block.walk_loop] at mem
    rcases List.mem_cons.1 mem with rfl | mem
    · exact output
    · rcases List.mem_cons.1 mem with rfl | mem
      · trivial
      · exact ih (element.1.trans output) w mem

/-- Of the fields of a struct that is filled, each is written once, in the order of the fields. -/
theorem Copies.writes_level (h : Copies s t block) : ∀ {d source : Place} {level : List Field},
    t.goal.Differ → t.Fills s d source level →
      List.Forall₂ (fun f => Begins (d.field f.name false) (source.field f.name false) f.type)
        level (block.writesTo (d.fields level)) := by
  -- induction on the copy; at each level it is the field whose place is looked for, or one beside
  -- it
  induction h with
  | nil =>
    intro d source level _ fills
    cases fills with
    | here => simp [Block.writesTo, Block.walk]
    | field mem => cases mem
  | @cons d source f rest block later first others ihf iho =>
    intro d' source' level differ fills
    obtain ⟨names, each⟩ := EachStruct.of_cons differ
    -- the two parts write apart from each other, since the names differ
    have inBlock : ∀ w ∈ block.walk, ∀ p, w.target? = some p →
        p.Extends (d.field f.name false) := first.covers
    have inLater : ∀ w ∈ later.walk, ∀ p, w.target? = some p →
        ¬ p.Extends (d.field f.name false) := by
      intro w among p written inField
      obtain ⟨g, mem, covered⟩ := others.covers w among p written
      exact names g mem (Place.name_eq_of_extends inField covered)
    rw [Block.writesTo_append]
    cases fills with
    -- the level itself: the first field's statement, then those of the others
    | here =>
      have self : (d.field f.name false).Extends (d.field f.name false) := ⟨rfl, List.prefix_rfl⟩
      have alone : ∀ p ∈ d.fields (f :: rest), p.Extends (d.field f.name false) →
          p = d.field f.name false := by
        intro p mem inField
        obtain ⟨g, _, rfl⟩ := List.mem_map.1 mem
        rw [Place.name_eq_of_extends ⟨rfl, List.prefix_rfl⟩ inField]
      have among : d.field f.name false ∈ d.fields (f :: rest) := List.mem_cons_self
      obtain ⟨w, begins, once⟩ := first.begins among alone
      have skip : later.writesTo (d.fields (f :: rest)) = later.writesTo (d.fields rest) :=
        Block.writesTo_cons fun w among written => inLater w among _ written self
      rw [once, skip]
      exact .cons begins (iho each .here)
    -- a level below: all its writes are in the part of the field that it is under
    | @field _ _ _ _ _ _ g mem h =>
      rcases List.mem_cons.1 mem with rfl | mem
      · have none : later.writesTo (d'.fields level) = [] :=
          Block.writesTo_eq_nil fun w among p written is =>
            inLater w among p written (h.extends_field is)
        rw [none, List.append_nil]
        exact ihf (differ.2 g List.mem_cons_self) h
      · have none : block.writesTo (d'.fields level) = [] :=
          Block.writesTo_eq_nil fun w among p written is =>
            names g mem (Place.name_eq_of_extends (inBlock w among p written) (h.extends_field is))
        rw [none, List.nil_append]
        exact iho each (.field mem h)
  | whole kind copies =>
    intro d source level _ fills
    cases fills with
    | struct => cases kind
    | element aggregate =>
      rw [Ty.elements?_of_isWhole kind] at aggregate
      cases aggregate
  | @struct d source inner name block filled ih =>
    intro d' source' level differ fills
    have h := fills.of_struct
    -- the allocation writes the struct's own place, which is none of its fields
    have outside : d ∉ d'.fields level := h.not_mem_fields
    rw [Block.writesTo_allocate, if_neg outside]
    exact ih (EachStruct.of_hasStruct differ rfl) h
  | @element d source type inner shape name turn kind filled ih =>
    intro d' source' level differ fills
    have h := fills.of_element kind
    have outside : d ∉ d'.fields level := fun mem =>
      Binding.not_extends_element (h.extends_field mem)
    rw [Block.writesTo_allocate, if_neg outside, Block.writesTo_loop]
    exact ih (fun inner has => differ inner (.element kind has)) h

end

end Crosswalk
