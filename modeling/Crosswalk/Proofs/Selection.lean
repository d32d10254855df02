import Crosswalk.Proofs.Absence
import Crosswalk.Proofs.Run.Presence

/-!
# The source that a run takes

A run fills a destination from the first of its sources that is present. Where none is, a value that
is copied whole stays unset or becomes a default, bytes become empty and a struct becomes null.

That a block acts like another means that both perform the same and end in the same state. So a
conditional acts like the branch that is taken, and the block of a struct like the one for its
primary source, for its fallback or for neither; `Emits.of_isCopied`, `Emits.of_binary` and
`Emits.of_toTy` say which block is emitted.
-/

namespace Crosswalk
set_option autoImplicit false
open Converter

/-- Fields that are reached have their places in the output. -/
theorem Reached.output {cv : Converter} {table : MappingTable} {sources dests given : List Field}
    {level : Level} {f : Field} {choice : Choice}
    (h : Reached cv (.top table) sources dests level given f choice) :
    (level.slot f).place.root = .output :=
  (h.regular ⟨rfl, .input, .output⟩).1.output

/-! ## Values that are copied whole -/

/-- What a destination that is copied whole ends up with. -/
inductive Held
  | unset
  | default (type : String)
  | cast (type : String) (value : Data)
  | bytes (value : Data)
  | noBytes

/-- A content as a value that is copied whole. Absent data is converted as the default, or to no
bytes; where the destination may be absent it stays unset. -/
def Content.held? : Content → Option Held
  | .cast type value optional =>
    if !value.isAbsent then some (.cast type value)
    else if optional then some .unset else some (.default type)
  | .bytes value => if value.isAbsent then some .noBytes else some (.bytes value)
  | _ => none

/-- What stands at a location of the output as a value that is copied whole. -/
def Output.held? (out : Output) (location : List Step) : Option Held :=
  match out location with
  | some content => content.held?
  | none => some .unset

/-- The last write to a place counts. -/
theorem Env.put_put (env : Env) (p : Place) (a b : Content) :
    (env.put p a).put p b = env.put p b := by
  simp only [put, Env.mk.injEq, true_and]
  exact Output.put_put ..

/-- What is written at a place is held there. -/
theorem Env.held?_put (env : Env) (p : Place) (content : Content) :
    (env.put p content).out.held? (env.location p) = content.held? := by
  have stands : (env.put p content).out (env.location p) = some content := if_pos rfl
  rw [Output.held?, stands]

section
variable {env : Env} {choice : Choice}

/-- The first source that is present is written; without one, a destination that may be absent is
left alone and another gets what absent data gives. -/
theorem run_assignChoice {guard : Bool} {target : Place} {value : Candidate → Expr}
    (make : Data → Content) (output : target.root = .output)
    (content : ∀ c, env.content (value c) = make (env.get c.place))
    (tells : ∀ c ∈ choice.candidates, env.Tells c) :
    Block.run (assignChoice guard target value choice) env =
      match env.source? choice with
      | some c => env.put target (make (env.get c.place))
      | none => if guard then env else env.put target (make .absent) := by
  have assign : ∀ (c : Candidate) (e : Env), (Statement.assign target (value c)).run e =
      e.put target (e.content (value c)) := by
    intro c e
    rw [Statement.run, Env.assign, output]
  obtain ⟨primary, fallback?⟩ := choice
  have first := (tells primary List.mem_cons_self).check
  have lost : env.present primary = false → env.get primary.place = .absent :=
    Env.get_of_not_present
  cases fallback? with
  -- the primary is there or not, and an absent one is assigned as absent where there is no guard
  | none =>
    simp only [Env.source?_direct, assignChoice, Block.run_singleton]
    cases guard <;> cases there : env.present primary <;>
      simp_all [run_assignPresent output]
  | some fallback =>
    have second := (tells fallback (Choice.fallback_mem rfl)).check
    have lost' : env.present fallback = false → env.get fallback.place = .absent :=
      -- the fallback is assigned first, and the primary over it if it is there
      Env.get_of_not_present
    simp only [Env.source?_withFallback, assignChoice, Block.run_cons, Block.run_nil]
    cases guard <;> cases there : env.present primary <;> cases other : env.present fallback <;>
      simp_all [run_assignPresent output, Env.put_put]

end

section
variable {cv : Converter} {level : Level} {slot : Slot} {choice : Choice} {block : Block} {env : Env}

/-- A scalar or alias is cast to its name, from each of its sources. -/
theorem Emits.of_isCopied {type : Ty} (h : Emits cv (.value level slot choice type) block)
    (kind : type.isCopied = true) :
    ∃ name, cv.typeName slot.path type = .ok name ∧
      block = assignChoice slot.place.optional slot.place
        (fun c => .cast name c.place slot.place.optional) choice := by
  cases h with
  | copied _ named agree => exact ⟨_, named, rfl⟩
  | binary => cases kind
  | struct => cases kind
  | elements aggregate =>
    rw [Ty.elements?_of_isCopied kind] at aggregate
    cases aggregate
  | structs aggregate =>
    rw [Ty.elements?_of_isCopied kind] at aggregate
    cases aggregate

/-- Bytes are taken from each of their sources. -/
theorem Emits.of_binary (h : Emits cv (.value level slot choice .binary) block) :
    block = assignChoice false slot.place (fun c => .bytes c.place) choice := by
  cases h with
  | copied kind => cases kind
  | binary => rfl
  | elements kind => cases kind
  | structs kind => cases kind

/-- A destination that is copied whole holds the cast of the first of its sources that is present,
and without one nothing or the default of its type. -/
theorem held?_copied {name : String} {optional : Bool} (output : slot.place.root = .output)
    (tells : ∀ c ∈ choice.candidates, env.Tells c)
    (unset : env.out (env.location slot.place) = none) :
    (Block.run (assignChoice optional slot.place (fun c => .cast name c.place optional) choice)
      env).out.held? (env.location slot.place) = some
        (match env.source? choice with
        | some c => .cast name (env.get c.place)
        | none => if optional then .unset else .default name) := by
  rw [run_assignChoice (fun d => .cast name d optional) output (fun _ => rfl) tells]
  cases taken : env.source? choice with
  | some c =>
    have there : (env.get c.place).isAbsent = false := by
      simpa [Env.present] using Env.present_of_source? taken
    simp [Env.held?_put, Content.held?, there]
  | none =>
    cases optional with
    | true => simp [Output.held?, unset]
    | false => simp [Env.held?_put, Content.held?, Data.isAbsent]

/-- Bytes are those of the first source that is present, and without one there are none. -/
theorem held?_binary (output : slot.place.root = .output)
    (tells : ∀ c ∈ choice.candidates, env.Tells c) :
    (Block.run (assignChoice false slot.place (fun c => .bytes c.place) choice)
      env).out.held? (env.location slot.place) = some
        (match env.source? choice with
        | some c => .bytes (env.get c.place)
        | none => .noBytes) := by
  rw [run_assignChoice .bytes output (fun _ => rfl) tells]
  cases taken : env.source? choice with
  | some c =>
    have there : (env.get c.place).isAbsent = false := by
      simpa [Env.present] using Env.present_of_source? taken
    simp [Env.held?_put, Content.held?, there]
  | none => simp [Env.held?_put, Content.held?, Data.isAbsent]

end

/-- A destination that is copied whole holds the cast of the first of its sources that is present.
Where none is, it stays unset if it may be absent and else holds the default of its type. Bytes are
converted likewise, and are empty where no source is present. -/
theorem copies_present_source {cv : Converter} {sources dests : List Field} {table : MappingTable}
    {block : Block} (h : cv.convert sources dests table = .ok block) {level : Level}
    {given : List Field} {f : Field} {choice : Choice}
    (reached : Reached cv (.top table) sources dests level given f choice) :
    (f.type.isCopied = true → ∃ name part,
      cv.typeName (level.slot f).path f.type = .ok name ∧
      cv.convertType level (level.slot f) choice f.type = .ok part ∧ part.Within block ∧
      ∀ env : Env, env.Supplies choice → env.out (env.location (level.slot f).place) = none →
        (Block.run part env).out.held? (env.location (level.slot f).place) = some
          (match env.source? choice with
          | some c => .cast name (env.get c.place)
          | none => if f.isOptional then .unset else .default name)) ∧
    (f.type = .binary → ∃ part,
      cv.convertType level (level.slot f) choice f.type = .ok part ∧ part.Within block ∧
      ∀ env : Env, env.Supplies choice →
        (Block.run part env).out.held? (env.location (level.slot f).place) = some
          (match env.source? choice with
          | some c => .bytes (env.get c.place)
          | none => .noBytes)) := by
  have output : (level.slot f).place.root = .output := reached.output
  obtain ⟨part, emitted, within⟩ := reached.emits (emits_of_convert h)
  have tells : ∀ env : Env, env.Supplies choice → ∀ c ∈ choice.candidates, env.Tells c :=
    fun env supplies c mem => supplies.tells reached.chosen mem
  -- the two kinds of value differ in what absence leaves: a default or nothing, and no bytes
  constructor
  · intro kind
    obtain ⟨name, named, rfl⟩ := emitted.of_isCopied kind
    exact ⟨name, _, named, emits_iff.1 emitted, within,
      fun env supplies unset => held?_copied output (tells env supplies) unset⟩
  · intro kind
    have converted := emits_iff.1 emitted
    rw [kind] at emitted
    obtain rfl := emitted.of_binary
    exact ⟨_, converted, within, fun env supplies => held?_binary output (tells env supplies)⟩

namespace Contact

/-! A name that is an alias if there is one, else the own name, and a picture. -/

/-- A text field. -/
def text (name : String) (required : Bool) : Field :=
  ⟨name, .primitive .string, required, "a.thrift"⟩

def picture : Field :=
  ⟨"Picture", .binary, false, "a.thrift"⟩

/-- The alias goes before the name. -/
def entry : Entry :=
  ⟨.ofFields ["Alias"], text "Alias" false, [], true⟩

def table : MappingTable :=
  ⟨[(Path.root.field "Name", entry)]⟩

/-- A name and a picture that can be absent. -/
def sources : List Field :=
  [text "Name" false, picture]

def dests : List Field :=
  [text "Name" true, picture]

def converter : Converter :=
  { namespaces := .registry [] }

/-- The alias, else the name. -/
def names : Choice :=
  ⟨entry.candidate, some (.ofField (text "Name" false) (Place.input.field "Name" true))⟩

def pictures : Choice :=
  .direct (.ofField picture (Place.input.field "Picture" true))

/-- The name is the alias, else the own name, else the default; and no picture gives no bytes. -/
theorem named_by_first_present :
    ∃ block, ∃ name shown : Block, converter.convert sources dests table = .ok block ∧
      name.Within block ∧ shown.Within block ∧
      (Block.run name (.initial [("Alias", .scalar "al"), ("Name", .scalar "ann")])).out.held?
        [.field "Name"] = some (.cast "String" (.scalar "al")) ∧
      (Block.run name (.initial [("Name", .scalar "ann")])).out.held? [.field "Name"] =
        some (.cast "String" (.scalar "ann")) ∧
      (Block.run name (.initial [])).out.held? [.field "Name"] = some (.default "String") ∧
      (Block.run shown (.initial [])).out.held? [.field "Picture"] = some .noBytes := by
  have converts : ∃ block, converter.convert sources dests table = .ok block := ⟨_, rfl⟩
  obtain ⟨block, h⟩ := converts
  have reachedName : Reached converter (.top table) sources dests (.top table) sources
      (text "Name" true) names := .here List.mem_cons_self rfl
  have reachedPicture : Reached converter (.top table) sources dests (.top table) sources picture
      pictures := .here (by simp [dests]) rfl
  obtain ⟨type, name, named, _, inName, holds⟩ := (copies_present_source h reachedName).1 rfl
  obtain ⟨shown, _, inShown, shows⟩ := (copies_present_source h reachedPicture).2 rfl
  obtain rfl : "String" = type := Except.ok.inj named
  have ofNames : ∀ fields, (Env.initial fields).Supplies names :=
    Env.initial_supplies (by decide)
  have ofPictures : ∀ fields, (Env.initial fields).Supplies pictures :=
    Env.initial_supplies (by decide)
  exact ⟨block, name, shown, h, inName, inShown, holds _ (ofNames _) rfl,
    holds _ (ofNames _) rfl, holds _ (ofNames _) rfl, shows _ (ofPictures _)⟩

end Contact

/-! ## Structs -/

section
variable {env : Env} {slot : Slot} {choice : Choice} {body : Candidate → Block}

/-- Under a guard a source that is present is used. -/
theorem actsAs_ifPresent {source : Candidate} {block otherwise : Block} (tells : env.Tells source)
    (present : env.present source = true) :
    Block.ActsAs env (ifPresent source block otherwise) block := by
  unfold ifPresent
  split
  · exact .of_holds (tells.check.trans present)
  · exact .refl

/-- Under a guard a source that is absent is passed over. -/
theorem actsAs_ifPresent_of_absent {source : Candidate} {block otherwise : Block}
    (tells : env.Tells source) (absent : env.present source = false) :
    Block.ActsAs env (ifPresent source block otherwise) otherwise := by
  have optional : source.optional = true := by
    by_contra required
    have present := tells.required (Bool.eq_false_iff.2 required)
    simp [absent] at present
  rw [ifPresent, if_pos optional]
  exact .of_not_holds (tells.check.trans absent)

/-- A struct is filled from the primary if that is present. -/
theorem actsAs_structBlock_primary (tells : env.Tells choice.primary)
    (present : env.present choice.primary = true) :
    Block.ActsAs env (structBlock slot choice body) (body choice.primary) :=
  actsAs_ifPresent tells present

/-- It is filled from the fallback if only that is present. -/
theorem actsAs_structBlock_fallback {fallback : Candidate}
    (two : choice.fallback? = some fallback) (tells : ∀ c ∈ choice.candidates, env.Tells c)
    (absent : env.present choice.primary = false) (present : env.present fallback = true) :
    Block.ActsAs env (structBlock slot choice body) (body fallback) := by
  rw [structBlock, two]
  exact (actsAs_ifPresent_of_absent (tells _ Choice.primary_mem) absent).trans
    (actsAs_ifPresent (tells _ (Choice.fallback_mem two)) present)

/-- It becomes null if neither is. -/
theorem actsAs_structBlock_null (tells : ∀ c ∈ choice.candidates, env.Tells c)
    (absent : ∀ c ∈ choice.candidates, env.present c = false) :
    Block.ActsAs env (structBlock slot choice body) [.assign slot.place .null] := by
  refine (actsAs_ifPresent_of_absent (tells _ Choice.primary_mem)
    (absent _ Choice.primary_mem)).trans ?_
  cases two : choice.fallback? with
  | none => exact .refl
  | some fallback =>
    have mem := Choice.fallback_mem two
    exact actsAs_ifPresent_of_absent (tells _ mem) (absent _ mem)

/-- A body begins with an allocation, so a run that only assigns null has no source to take. -/
theorem actsAs_structBlock_null_iff (tells : ∀ c ∈ choice.candidates, env.Tells c)
    (allocates : ∀ c ∈ choice.candidates, ∃ type filling,
      body c = .allocate slot.place (.struct type) none :: filling) :
    Block.ActsAs env (structBlock slot choice body) [.assign slot.place .null] ↔
      ∀ c ∈ choice.candidates, env.present c = false := by
  refine ⟨fun null => ?_, actsAs_structBlock_null tells⟩
  -- a body begins with an allocation and the null is an assignment, so a run of one is not of the
  -- other
  have unfilled : ∀ c ∈ choice.candidates,
      ¬ Block.ActsAs env (structBlock slot choice body) (body c) := by
    intro c mem acts
    obtain ⟨type, filling, made⟩ := allocates c mem
    have same := acts.history.symm.trans null.history
    simp [made, Statement.history] at same
  have absent : env.present choice.primary = false :=
    Bool.eq_false_iff.2 fun present => unfilled _ Choice.primary_mem
      (actsAs_structBlock_primary (tells _ Choice.primary_mem) present)
  intro c mem
  rcases List.mem_cons.1 mem with rfl | mem
  · exact absent
  · have two : choice.fallback? = some c := by simpa using mem
    exact Bool.eq_false_iff.2 fun present => unfilled c (Choice.fallback_mem two)
      (actsAs_structBlock_fallback two tells absent present)

end

/-- A struct has a body for each of its sources. -/
theorem Emits.of_toTy {cv : Converter} {level : Level} {slot : Slot} {choice : Choice} {type : Ty}
    {s : Struct} {block : Block} (h : Emits cv (.value level slot choice type) block)
    (kind : type = s.toTy) : ∃ body : Candidate → Block,
      (∀ c ∈ choice.candidates, Emits cv (.body level s slot c) (body c)) ∧
        block = structBlock slot choice body := by
  cases h with
  | copied copied => simp [kind, Struct.toTy, Ty.isCopied] at copied
  | binary => simp [Struct.toTy] at kind
  | @struct _ _ _ t body bodies =>
    obtain rfl := Struct.toTy_inj kind
    exact ⟨body, bodies, rfl⟩
  | elements aggregate => simp [kind, Struct.elements?_toTy] at aggregate
  | structs aggregate => simp [kind, Struct.elements?_toTy] at aggregate

/-- A struct is allocated and filled from the primary if that is present, else from the fallback if
there is one and it is present, and is null exactly if no source is present. From a required primary
it is filled without further ado. A conversion fails if the body for a source of a struct does. -/
theorem struct_from_present_source {cv : Converter} {sources dests : List Field}
    {table : MappingTable} {level : Level} {given : List Field} {f : Field} {choice : Choice}
    {s : Struct} (reached : Reached cv (.top table) sources dests level given f choice)
    (kind : f.type = s.toTy) :
    (∀ c ∈ choice.candidates, ∀ e, cv.emit (.body level s (level.slot f) c) = .error e →
      ∃ e', cv.convert sources dests table = .error e') ∧
    ∀ block, cv.convert sources dests table = .ok block →
      ∃ part, ∃ body : Candidate → Block,
        cv.convertType level (level.slot f) choice f.type = .ok part ∧ part.Within block ∧
        (∀ c ∈ choice.candidates, cv.emit (.body level s (level.slot f) c) = .ok (body c) ∧
          ∃ type filling,
            body c = .allocate (level.slot f).place (.struct type) none :: filling) ∧
        (choice.primary.optional = false → part = body choice.primary) ∧
        ∀ env : Env, env.Supplies choice →
          (env.present choice.primary = true → Block.ActsAs env part (body choice.primary)) ∧
          (∀ fallback, choice.fallback? = some fallback → env.present choice.primary = false →
            env.present fallback = true → Block.ActsAs env part (body fallback)) ∧
          (Block.ActsAs env part [.assign (level.slot f).place .null] ↔
            ∀ c ∈ choice.candidates, env.present c = false) := by
  constructor
  -- a conversion that gave a block would have made the body
  · intro c mem e failed
    cases result : cv.convert sources dests table with
    | error e' => exact ⟨e', rfl⟩
    | ok block =>
      obtain ⟨part, emitted, _⟩ := reached.emits (emits_of_convert result)
      obtain ⟨body, bodies, _⟩ := emitted.of_toTy kind
      have made := emits_iff.1 (bodies c mem)
      rw [failed] at made
      cases made
  · intro block h
    obtain ⟨part, emitted, within⟩ := reached.emits (emits_of_convert h)
    have converted := emits_iff.1 emitted
    obtain ⟨body, bodies, rfl⟩ := emitted.of_toTy kind
    have allocates : ∀ c ∈ choice.candidates, ∃ type filling,
        body c = .allocate (level.slot f).place (.struct type) none :: filling := by
      intro c mem
      obtain ⟨_, _, _, type, filling, _, _, _, made⟩ := (bodies c mem).body_inv
      exact ⟨type, filling, made⟩
    refine ⟨_, body, converted, within, fun c mem => ⟨emits_iff.1 (bodies c mem), allocates c mem⟩,
      fun required => ?_, fun env supplies => ?_⟩
    · rw [structBlock, ifPresent, if_neg (by simp [required])]
    · have tells : ∀ c ∈ choice.candidates, env.Tells c :=
        fun c mem => supplies.tells reached.chosen mem
      exact ⟨actsAs_structBlock_primary (tells _ Choice.primary_mem),
        fun _ two => actsAs_structBlock_fallback two tells,
        actsAs_structBlock_null_iff tells allocates⟩

namespace Tenancy

/-! A flat whose owner is the user if there is one, and else the owner of before. -/

/-- A person has a name. -/
def person : Struct :=
  ⟨"Person", "a.thrift", [⟨"Name", .primitive .string, true, "a.thrift"⟩]⟩

/-- A field for a person that can be absent. -/
def field (name : String) : Field :=
  ⟨name, person.toTy, false, "a.thrift"⟩

/-- The user goes before the owner. -/
def entry : Entry :=
  ⟨.ofFields ["User"], field "User", [], true⟩

def table : MappingTable :=
  ⟨[(Path.root.field "Owner", entry)]⟩

def sources : List Field :=
  [field "Owner"]

def dests : List Field :=
  [field "Owner"]

def converter : Converter :=
  { namespaces := .registry [("a.thrift", "crate::a")] }

/-- The owner of before. -/
def own : Candidate :=
  .ofField (field "Owner") (Place.input.field "Owner" true)

/-- The user, else the owner of before. -/
def owners : Choice :=
  ⟨entry.candidate, some own⟩

theorem supplies : ∀ fields, (Env.initial fields).Supplies owners :=
  Env.initial_supplies (by decide)

/-- The owner is made from the user, else from the owner of before, and else is null. -/
theorem owner_from_first_present :
    ∃ block, ∃ part : Block, ∃ body : Candidate → Block,
      converter.convert sources dests table = .ok block ∧ part.Within block ∧
      Block.ActsAs (.initial [("User", .struct []), ("Owner", .struct [])]) part
        (body entry.candidate) ∧
      Block.ActsAs (.initial [("Owner", .struct [])]) part (body own) ∧
      Block.ActsAs (.initial []) part [.assign (Place.output.field "Owner" true) .null] := by
  have converts : ∃ block, converter.convert sources dests table = .ok block := ⟨_, rfl⟩
  obtain ⟨block, h⟩ := converts
  have reached : Reached converter (.top table) sources dests (.top table) sources
      (field "Owner") owners := .here List.mem_cons_self rfl
  obtain ⟨part, body, _, within, _, _, runs⟩ :=
    (struct_from_present_source reached (s := person) rfl).2 block h
  have none : ∀ c ∈ owners.candidates, (Env.initial []).present c = false := by
    simp only [owners, Choice.candidates, Option.toList_some, List.forall_mem_cons]
    exact ⟨rfl, rfl, fun c mem => by cases mem⟩
  exact ⟨block, part, body, h, within, (runs _ (supplies _)).1 rfl,
    (runs _ (supplies _)).2.1 own rfl rfl rfl, (runs _ (supplies _)).2.2.2 none⟩

end Tenancy

end Crosswalk
