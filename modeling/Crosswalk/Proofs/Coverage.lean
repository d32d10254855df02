import Crosswalk.Proofs.Settled

/-!
# Definitions and the types of a catalog

The types of a catalog are those of the definitions that are entered. A definition is looked up by
its name read as a reference, so one whose name has a dot leads elsewhere, and it has a type exactly
if something else leads to it.
-/

namespace Crosswalk
set_option autoImplicit false

/-! ## What is found behind the search -/

namespace Document
variable {d : Document} {cache cache' : Cache} {home target : d.Home} {r : String}
  {x y : Definition} {decl : ConversionDecl} {c : Conversion}

/-- There is a type where a reference leads. -/
def Reaches (d : Document) (cache : Cache) (home : d.Home) (r : String) : Prop :=
  ∃ ty, d.typeAt cache home r = some ty

/-- A type that is reached stays so as more is remembered. -/
theorem Reaches.mono (more : ∀ key ty, cache.lookup key = some ty → cache'.lookup key = some ty)
    (h : d.Reaches cache home r) : d.Reaches cache' home r := by
  obtain ⟨ty, known⟩ := h
  exact ⟨ty, typeAt_mono more known⟩

/-- What a reference leads to has its type under its own key. -/
theorem Reaches.lookup (h : d.Reaches cache home r) (leads : d.LeadsTo home r target y) :
    ∃ ty, cache.lookup (target.1.key y.name) = some ty := by
  obtain ⟨ty, known⟩ := h
  obtain ⟨name, located, found⟩ := leads
  obtain rfl := Schema.name_of_find? found
  rw [typeAt, located] at known
  exact ⟨ty, known⟩

/-- An end of a conversion is in one schema, and one reference there. -/
theorem EndsIn.unique {reference : String} {r' : String} {home' : d.Home}
    (h : d.EndsIn reference home r) (h' : d.EndsIn reference home' r') : home = home' ∧ r = r' := by
  obtain ⟨qualifier, cut, at_⟩ := h
  obtain ⟨qualifier', cut', at_'⟩ := h'
  obtain ⟨rfl, rfl⟩ := Prod.mk.inj (Option.some.inj (cut.symm.trans cut'))
  exact ⟨Option.some.inj (at_.symm.trans at_'), rfl⟩

/-- Nothing is remembered at first. -/
theorem settled_nil : d.Settled [] := by
  intro key ty known
  cases known

/-- When all definitions are resolved, there is a type wherever the name of one leads. -/
theorem resolveDefinitions_settles (settled : d.Settled cache)
    (h : d.resolveDefinitions cache = .ok ((), cache')) :
    d.Settled cache' ∧ ∀ home : d.Home, ∀ x ∈ home.1.definitions, d.Reaches cache' home x.name := by
  refine resolveDefinitions_brings (I := d.Settled)
    (Q := fun home x t => d.Reaches t home x.name)
    (fun home x mem t ty t' settled resolved => ?_) settled h
  obtain ⟨proceeds, found⟩ :=
    resolve_settles [] home x.name (fun _ _ => .named mem) t ty t' settled resolved
  exact ⟨proceeds.settled, ⟨ty, found⟩, fun _ _ => .mono proceeds.kept⟩

/-- Resolving an end of a conversion leaves a type wherever that end leads. -/
theorem resolveStruct_settles {reference context : String} {s : Struct} (mem : decl ∈ d.conversions)
    (written : reference ∈ [decl.source, decl.dest]) (settled : d.Settled cache)
    (h : d.resolveStruct reference context cache = .ok (s, cache')) :
    d.Proceeds [] cache cache' ∧
      ∀ home r, d.EndsIn reference home r → d.Reaches cache' home r := by
  obtain ⟨home, r, ends, resolved⟩ := resolveStruct_eq_ok h
  have entered : ∀ target y, d.LeadsTo home r target y → d.Entered target y :=
    fun _ _ => .ending mem written ends
  obtain ⟨proceeds, found⟩ := resolve_settles [] home r entered cache _ cache' settled resolved
  refine ⟨proceeds, fun home' r' ends' => ?_⟩
  obtain ⟨rfl, rfl⟩ := ends.unique ends'
  exact ⟨s.toTy, found⟩

/-- There is a type wherever an end of the conversion leads. -/
def ReachesEnds (d : Document) (cache : Cache) (decl : ConversionDecl) : Prop :=
  ∀ reference ∈ [decl.source, decl.dest], ∀ home r,
    d.EndsIn reference home r → d.Reaches cache home r

/-- The ends that are reached stay so as more is remembered. -/
theorem ReachesEnds.mono
    (more : ∀ key ty, cache.lookup key = some ty → cache'.lookup key = some ty)
    (h : d.ReachesEnds cache decl) : d.ReachesEnds cache' decl :=
  fun reference written home r ends => (h reference written home r ends).mono more

/-- Resolving a conversion leaves a type wherever its ends lead. -/
theorem resolveConversion_settles (mem : decl ∈ d.conversions) (settled : d.Settled cache)
    (h : d.resolveConversion decl cache = .ok (c, cache')) :
    d.Proceeds [] cache cache' ∧ d.ReachesEnds cache' decl := by
  obtain ⟨context, between, first, second⟩ := resolveConversion_structs h
  obtain ⟨proceeds, source⟩ := resolveStruct_settles mem (by simp) settled first
  obtain ⟨proceeds', dest⟩ := resolveStruct_settles mem (by simp) proceeds.settled second
  refine ⟨proceeds.trans proceeds', fun reference written home r ends => ?_⟩
  rw [List.mem_pair] at written
  rcases written with rfl | rfl
  · exact (source home r ends).mono proceeds'.kept
  · exact dest home r ends

/-! ## Keys of definitions -/

/-- Every definition has a key of its own, whatever its name is. -/
theorem eq_of_key (valid : d.validate = .ok ()) (hx : x ∈ home.1.definitions)
    (hy : y ∈ target.1.definitions) (same : home.1.key x.name = target.1.key y.name) :
    home = target ∧ x = y := by
  obtain ⟨differ, _⟩ := (validate_eq_ok_iff.1 valid).1
  obtain ⟨schemas, names⟩ :=
    names_of_key (undotted_of_mem valid home.2) (undotted_of_mem valid target.2) same
  obtain rfl : home = target := Subtype.ext (List.inj_on_of_nodup_map differ home.2 target.2 schemas)
  exact ⟨rfl, List.inj_on_of_nodup_map (nodup_definitions valid home.2) hx hy names⟩

/-- What is entered is a definition of the document. -/
theorem Entered.mem (h : d.Entered home x) : x ∈ home.1.definitions := by
  have declared : ∀ {home target : d.Home} {r : String} {y : Definition},
      d.LeadsTo home r target y → y ∈ target.1.definitions := by
    rintro home target r y ⟨name, _, found⟩
    exact Schema.find?_mem found
  cases h with
  | named _ leads => exact declared leads
  | ending _ _ _ leads => exact declared leads
  | inside _ _ leads => exact declared leads

/-- A name without a dot leads to its own definition. -/
theorem entered_of_plain (valid : d.validate = .ok ()) (mem : x ∈ home.1.definitions)
    (plain : '.' ∉ x.name.toList) : d.Entered home x := by
  have located : d.locate home x.name = .ok (home, x.name) := by
    rw [locate, cutReference_eq_none plain]
  exact .named mem ⟨x.name, located, Schema.find?_of_mem (nodup_definitions valid home.2) mem⟩

end Document

/-! ## The types of a catalog -/

namespace Catalog
variable {d : Document} {c : Catalog} {home : d.Home} {x : Definition}

/-- The type under the key of a definition is the definition, resolved. -/
structure Holds (c : Catalog) (d : Document) (home : d.Home) (x : Definition) (ty : Ty) : Prop where
  found : c.type? (home.1.key x.name) = some ty
  kind : ty.kind = x.kind
  name : ty.name? = some x.name
  file : ty.file? = some home.1.file
  resolves : d.Resolves c.types home x ty

/-- Every definition has its type under its key, and there are no other keys. -/
structure Covers (c : Catalog) (d : Document) : Prop where
  each : ∀ home : d.Home, ∀ x ∈ home.1.definitions, ∃ ty, c.Holds d home x ty
  only : ∀ key ∈ c.types.map Prod.fst,
    ∃ home : d.Home, ∃ x ∈ home.1.definitions, key = home.1.key x.name

/-- In a catalog all names of definitions and all ends of conversions lead to types. -/
theorem settled_of_ofDocument (h : Catalog.ofDocument d = .ok c) :
    d.Settled c.types ∧
      (∀ home : d.Home, ∀ x ∈ home.1.definitions, d.Reaches c.types home x.name) ∧
      ∀ decl ∈ d.conversions, d.ReachesEnds c.types decl := by
  obtain ⟨between, definitions, conversions⟩ := ofDocument_eq_ok h
  obtain ⟨settled, names⟩ := Document.resolveDefinitions_settles Document.settled_nil definitions
  have step : ∀ decl ∈ d.conversions, ∀ t u t', d.Proceeds [] between t →
      d.resolveConversion decl t = .ok (u, t') → d.Proceeds [] between t' ∧
        d.ReachesEnds t' decl ∧ ∀ other, d.ReachesEnds t other → d.ReachesEnds t' other := by
    intro decl mem t u t' kept done
    obtain ⟨next, found⟩ := Document.resolveConversion_settles mem kept.settled done
    exact ⟨kept.trans next, found, fun other => .mono next.kept⟩
  obtain ⟨proceeds, ends, _⟩ :=
    stateT_mapM_brings (Q := fun decl t => d.ReachesEnds t decl) step (.refl settled) conversions
  exact ⟨proceeds.settled, fun home x mem => (names home x mem).mono proceeds.kept, ends⟩

/-- What is found is what the definition under the key is resolved to. -/
theorem holds_of_type? (h : Catalog.ofDocument d = .ok c) {key : String} {ty : Ty}
    (found : c.type? key = some ty) :
    ∃ home : d.Home, ∃ x ∈ home.1.definitions, key = home.1.key x.name ∧ d.Entered home x ∧
      c.Holds d home x ty := by
  obtain ⟨home, x, mem, rfl, entered, resolves⟩ := (settled_of_ofDocument h).1 key ty found
  obtain ⟨kind, name, file⟩ := x.resolve_heading resolves
  exact ⟨home, x, mem, rfl, entered, found, kind, name, file, resolves⟩

/-- Every definition that is entered has a type. -/
theorem exists_holds (valid : d.validate = .ok ()) (h : Catalog.ofDocument d = .ok c)
    (entered : d.Entered home x) : ∃ ty, c.Holds d home x ty := by
  obtain ⟨_, names, ends⟩ := settled_of_ofDocument h
  -- a type that is found under the key is that of the definition, since keys differ
  have own : ∀ {home : d.Home} {x : Definition}, d.Entered home x →
      (∃ ty, c.type? (home.1.key x.name) = some ty) → ∃ ty, c.Holds d home x ty := by
    rintro home x entered ⟨ty, found⟩
    obtain ⟨home', x', mem', key, _, holds⟩ := holds_of_type? h found
    obtain ⟨rfl, rfl⟩ := Document.eq_of_key valid entered.mem mem' key
    exact ⟨ty, holds⟩
  -- by how the definition is entered; where it is inside of another, that one has a type by `ih`
  induction entered with
  | named mem leads => exact own (.named mem leads) ((names _ _ mem).lookup leads)
  | ending mem written at_ leads =>
    exact own (.ending mem written at_ leads) ((ends _ mem _ written _ _ at_).lookup leads)
  | inside before mem leads ih =>
    obtain ⟨ty, holds⟩ := ih
    have reaches : d.Reaches c.types _ _ := Definition.exists_of_resolve holds.resolves mem
    exact own (.inside before mem leads) (reaches.lookup leads)

end Catalog

section
variable {d : Document} {c : Catalog}

/-- The types of a catalog are never those of other definitions, and there are no other keys. All
definitions have their types exactly if those whose names have a dot are entered, be it through a
reference or another name that leads to them. -/
theorem types_cover_iff (valid : d.validate = .ok ()) (h : Catalog.ofDocument d = .ok c) :
    (∀ key ty, c.type? key = some ty → ∃ home : d.Home, ∃ x ∈ home.1.definitions,
      key = home.1.key x.name ∧ c.Holds d home x ty) ∧
    (c.Covers d ↔ ∀ home : d.Home, ∀ x ∈ home.1.definitions, '.' ∈ x.name.toList →
      d.Entered home x) := by
  refine ⟨fun key ty found => ?_, fun covers home x mem _ => ?_, fun dotted => ⟨?_, ?_⟩⟩
  · obtain ⟨home, x, mem, same, _, holds⟩ := Catalog.holds_of_type? h found
    exact ⟨home, x, mem, same, holds⟩
  -- a definition with a type is entered, since its key leads to no other
  · obtain ⟨ty, holds⟩ := covers.each home x mem
    obtain ⟨home', x', mem', key, entered, _⟩ := Catalog.holds_of_type? h holds.found
    obtain ⟨rfl, rfl⟩ := Document.eq_of_key valid mem mem' key
    exact entered
  · intro home x mem
    by_cases dot : '.' ∈ x.name.toList
    · exact Catalog.exists_holds valid h (dotted home x mem dot)
    · exact Catalog.exists_holds valid h (Document.entered_of_plain valid mem dot)
  -- a key is only remembered with the type of a definition
  · intro key mem
    obtain ⟨⟨name, own⟩, among, rfl⟩ := List.mem_map.1 mem
    have isSome : (c.type? name).isSome = true := List.lookup_isSome_iff.2 ⟨_, among, by simp⟩
    obtain ⟨ty, found⟩ := Option.isSome_iff_exists.1 isSome
    obtain ⟨home, x, mem, same, _⟩ := Catalog.holds_of_type? h found
    exact ⟨home, x, mem, same⟩

end

namespace Roster

/-- The definition that the dotted name leads to. -/
def member : Definition := .struct "User" [⟨"Id", .primitive .i64, true⟩]

/-- A definition of the schema `api` whose name reads as that of `member` in the schema `shared`. -/
def guest : Definition := .struct "shared.User" [⟨"Name", .primitive .string, true⟩]

/-- The schema of `member`. -/
def shared : Schema := ⟨"shared", "shared.thrift", [member]⟩

/-- The schema of `guest`. -/
def guestApi : Schema := ⟨"api", "api.thrift", [guest]⟩

/-- Nothing refers to the guest. -/
def guests : Document := ⟨[guestApi, shared], []⟩

/-- The names are valid, dot and all. -/
theorem guests_valid : guests.validate = .ok () := by
  rw [Document.validate_eq_ok_iff]
  simp only [Schema.validate_eq_ok_iff]
  decide

/-- The guest is a definition without a type, as its name leads to the member of the other schema.
-/
theorem dotted_name_not_covered :
    guests.validate = .ok () ∧ ∃ c, Catalog.ofDocument guests = .ok c ∧
      guest ∈ (guests.schemas.flatMap (·.definitions)) ∧ c.type? "api.shared.User" = none ∧
      ¬ c.Covers guests := by
  have found : (Catalog.ofDocument guests).toOption.any
      (fun c => (c.type? "api.shared.User").isNone) = true := by decide +kernel
  obtain ⟨c, resolved, missing⟩ := (Option.any_eq_true _ _).1 found
  have none : c.type? "api.shared.User" = none := Option.isNone_iff_eq_none.1 missing
  refine ⟨guests_valid, c, toOption_eq_some.1 resolved, by decide, none, fun covers => ?_⟩
  obtain ⟨ty, holds⟩ := covers.each ⟨guestApi, by decide⟩ guest (by decide)
  exact nomatch none.symm.trans holds.found

/-- A team refers to the guest by the guest's whole key. -/
def team : Definition := .struct "Team" [⟨"Guests", .list (.named "api.shared.User"), true⟩]

/-- The schema of guests and teams. -/
def teamApi : Schema := ⟨"api", "api.thrift", [guest, team]⟩

/-- The guest with a team that refers to it. -/
def teams : Document := ⟨[teamApi, shared], []⟩

/-- The names with the team's are valid. -/
theorem teams_valid : teams.validate = .ok () := by
  rw [Document.validate_eq_ok_iff]
  simp only [Schema.validate_eq_ok_iff]
  decide

/-- The field of `team` leads to the definition that its own name does not lead to. -/
theorem dotted_name_covered : ∃ c, Catalog.ofDocument teams = .ok c ∧ c.Covers teams := by
  have found : (Catalog.ofDocument teams).toOption.isSome = true := by decide +kernel
  obtain ⟨c, resolved⟩ := Option.isSome_iff_exists.1 found
  refine ⟨c, toOption_eq_some.1 resolved, ?_⟩
  refine (types_cover_iff teams_valid (toOption_eq_some.1 resolved)).2.2 ?_
  have dotted : ∀ s ∈ teams.schemas, ∀ x ∈ s.definitions, '.' ∈ x.name.toList →
      s = teamApi ∧ x = guest := by decide
  rintro ⟨s, among⟩ x mem dot
  obtain ⟨rfl, rfl⟩ := dotted s among x mem dot
  have member : team ∈ teamApi.definitions := by decide
  have inside : teams.Entered ⟨teamApi, among⟩ team :=
    Document.entered_of_plain teams_valid member (by decide)
  exact inside.inside (r := "api.shared.User") (by decide) ⟨"shared.User", rfl, rfl⟩

end Roster

end Crosswalk
