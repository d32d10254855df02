import Crosswalk.Proofs.Resolution
import Crosswalk.Proofs.Search

/-!
# Catalogs of documents

A document with valid names is resolved exactly if it is closed and acyclic, a circle is reported
with the definitions on the way into it, and the types of a catalog are the plain unfoldings of the
definitions, in whatever order these are declared.

The cache of types is filled definition by definition: `resolveDefinitions_remembers` and
`resolveDefinitions_error` say what is remembered then and why it can stop, and `resolves_iff` turns
this into closed and acyclic. Conversions are resolved with that cache. They only add to it
(`resolveConversion_grows`), and they find no circle that the definitions do not have
(`resolveConversion_circular`).
-/

namespace Crosswalk
set_option autoImplicit false

namespace Document
variable {d : Document} {cache cache' : Cache}

/-- Resolves all definitions in document order. -/
def resolveDefinitions (d : Document) : Resolving Unit :=
  d.schemas.attach.forM fun home =>
    home.1.definitions.forM fun definition => discard <| d.resolve [] home definition.name

/-- First the definitions are resolved and then the conversions. -/
theorem resolveAll_eq (d : Document) :
    d.resolveAll = d.resolveDefinitions >>= fun _ => d.conversions.mapM d.resolveConversion :=
  rfl

/-! ## All definitions -/

/-- What resolving one definition keeps of the cache holds when all are resolved, and so does what
it brings about for the definition if resolving others keeps that. -/
theorem resolveDefinitions_brings {I : Cache → Prop} {Q : d.Home → Definition → Cache → Prop}
    (step : ∀ home : d.Home, ∀ x ∈ home.1.definitions, ∀ t ty t', I t →
      d.resolve [] home x.name t = .ok (ty, t') →
      I t' ∧ Q home x t' ∧ ∀ home' x', Q home' x' t → Q home' x' t')
    (start : I cache) (h : d.resolveDefinitions cache = .ok ((), cache')) :
    I cache' ∧ ∀ home : d.Home, ∀ x ∈ home.1.definitions, Q home x cache' := by
  -- one schema: its definitions in their order, with what holds of the other schemas kept
  have schema : ∀ home ∈ d.schemas.attach, ∀ t t', I t →
      (home.1.definitions.forM fun x => discard <| d.resolve [] home x.name : Resolving Unit) t =
        .ok ((), t') →
      I t' ∧ (∀ x ∈ home.1.definitions, Q home x t') ∧
        ∀ home' : d.Home, (∀ x ∈ home'.1.definitions, Q home' x t) →
          ∀ x ∈ home'.1.definitions, Q home' x t' := by
    intro home _ t t' start done
    have inside := stateT_forM_brings
      (I := fun u => I u ∧ ∀ home' x', Q home' x' t → Q home' x' u) (Q := Q home)
      (fun x mem u u' kept done => by
        obtain ⟨ty, resolved⟩ := stateT_discard_eq_ok.1 done
        obtain ⟨still, brought, stays⟩ := step home x mem u ty u' kept.1 resolved
        exact ⟨⟨still, fun home' x' held => stays home' x' (kept.2 home' x' held)⟩, brought,
          stays home⟩)
      ⟨start, fun _ _ => id⟩ done
    exact ⟨inside.1.1, inside.2, fun home' held x mem => inside.1.2 home' x (held x mem)⟩
  obtain ⟨kept, each⟩ := stateT_forM_brings
    (Q := fun home t => ∀ x ∈ home.1.definitions, Q home x t) schema start h
  exact ⟨kept, fun home => each home (List.mem_attach _ _)⟩

/-- The definition is remembered. -/
def Remembered (n : Declaration) (cache : Cache) : Prop :=
  ∃ ty, (n.key, ty) ∈ cache

/-- What is remembered stays so as the cache grows. -/
theorem Remembered.mono {n : Declaration} {t t' : Cache} (kept : t ⊆ t') (h : Remembered n t) :
    Remembered n t' := by
  obtain ⟨ty, mem⟩ := h
  exact ⟨ty, kept mem⟩

/-- When all definitions are resolved, each is remembered. -/
theorem resolveDefinitions_remembers (keyed : d.Keyed) (sound : d.CacheSound cache)
    (h : d.resolveDefinitions cache = .ok ((), cache')) :
    d.Grows cache cache' ∧ ∀ n, d.Declares n → Remembered n cache' := by
  obtain ⟨grows, each⟩ := resolveDefinitions_brings (I := d.Grows cache)
    (Q := fun home x t => Remembered ⟨home.1, x⟩ t)
    (fun home x mem t ty t' kept resolved => by
      obtain ⟨grows, n, denotes, _, known⟩ :=
        resolve_unfolds keyed [] home _ _ _ _ kept.sound resolved
      obtain rfl := denotes.unique keyed home.2 (.own mem)
      exact ⟨kept.trans grows, ⟨ty, known⟩, fun _ _ => .mono grows.kept⟩)
    (.refl sound) h
  exact ⟨grows, fun n declared => each ⟨n.schema, declared.1⟩ _ declared.2⟩

/-- If the definitions are not resolved, some definition fails on its own, with the same fault. -/
theorem resolveDefinitions_error {fault : SchemaError}
    (h : d.resolveDefinitions cache = .error fault) :
    ∃ (home : d.Home) (x : Definition) (t : Cache), x ∈ home.1.definitions ∧
      d.resolve [] home x.name t = .error fault := by
  obtain ⟨home, _, between, failed⟩ := stateT_exists_of_forM_error h
  obtain ⟨x, mem, t, failed⟩ := stateT_exists_of_forM_error failed
  exact ⟨home, x, t, mem, stateT_discard_eq_error.1 failed⟩

/-- An empty cache holds nothing that could be wrong. -/
theorem cacheSound_nil : d.CacheSound [] := by
  intro key ty mem
  cases mem

/-- Where every definition unfolds to a type, the document is closed and acyclic. -/
theorem closed_acyclic_of_unfolds (keyed : d.Keyed)
    (h : ∀ n, d.Declares n → ∃ ty, d.UnfoldsTo n ty) : d.Closed ∧ d.Acyclic := by
  have leads : ∀ n, d.Declares n →
      ∀ r ∈ n.definition.references, ∃ m, d.Denotes n.schema r m ∧ d.Grounded m := by
    intro n declared
    obtain ⟨ty, unfolds⟩ := h n declared
    exact unfolds.grounded keyed declared.1
  constructor
  · intro n declared r mem
    obtain ⟨m, denotes, _⟩ := leads n declared r mem
    exact ⟨m, denotes⟩
  · intro n declared
    exact (grounded_of_references keyed declared (leads n declared)).not_cyclic

/-- If no reference is open and none leads back, all definitions are resolved. -/
theorem resolves_of_closed_acyclic (keyed : d.Keyed) (closed : d.Closed) (acyclic : d.Acyclic) :
    ∃ cache, d.resolveDefinitions.run [] = .ok ((), cache) := by
  cases run : d.resolveDefinitions.run [] with
  | ok done => exact ⟨done.2, rfl⟩
  | error fault =>
    exfalso
    obtain ⟨home, x, t, mem, failed⟩ := resolveDefinitions_error run
    have fails : d.Fails [] home.1 x.name fault :=
      fails_of_resolve keyed [] home x.name t fault (fun _ none => by cases none) failed
    exact fails.elim keyed closed acyclic home.2 ⟨_, .own mem⟩ fun _ none => by cases none

/-- The definitions of a document with keys of their own are resolved exactly if the document is
closed and acyclic. -/
theorem resolves_iff (keyed : d.Keyed) :
    (∃ cache, d.resolveDefinitions.run [] = .ok ((), cache)) ↔ d.Closed ∧ d.Acyclic := by
  constructor
  · rintro ⟨cache, resolved⟩
    obtain ⟨grows, each⟩ := resolveDefinitions_remembers keyed cacheSound_nil resolved
    refine closed_acyclic_of_unfolds keyed fun n declared => ?_
    obtain ⟨ty, mem⟩ := each n declared
    obtain ⟨m, declared', key, unfolds⟩ := grows.sound _ _ mem
    obtain rfl := keyed.key_inj declared' declared key
    exact ⟨ty, unfolds⟩
  · rintro ⟨closed, acyclic⟩
    exact resolves_of_closed_acyclic keyed closed acyclic

/-! ## Conversions -/

section
variable {reference context : String} {s : Struct} {decl : ConversionDecl} {c : Conversion}

/-- The struct that a resolved type is. -/
def structOf (reference : String) (ty : Ty) : Resolving Struct :=
  match ty.asStruct? with
  | some struct => return struct
  | none => throw (.notAStruct reference ty.kind)

/-- An end of a conversion is a reference in the schema that it names. -/
def EndsIn (d : Document) (reference : String) (home : d.Home) (r : String) : Prop :=
  ∃ qualifier, cutReference reference = some (qualifier, r) ∧ d.home? qualifier = some home

/-- A type is only refused as the end of a conversion because it is no struct. -/
theorem structOf_eq_error {ty : Ty} {fault : SchemaError}
    (h : structOf reference ty cache = .error fault) : fault = .notAStruct reference ty.kind := by
  cases struct : ty.asStruct? with
  | some own =>
    rw [structOf, struct] at h
    cases h
  | none =>
    rw [structOf, struct] at h
    cases h
    rfl

/-- The end of a conversion is resolved in the schema that it names, if there is one. -/
theorem resolveStruct_cases (d : Document) (reference context : String) :
    (∃ home r, d.EndsIn reference home r ∧
      d.resolveStruct reference context = d.resolve [] home r >>= structOf reference) ∨
    d.resolveStruct reference context = throw (.typeNotFound reference context) ∨
    ∃ qualifier, d.resolveStruct reference context = throw (.schemaNotFound qualifier) := by
  unfold resolveStruct
  cases cut : cutReference reference with
  | none => exact .inr (.inl rfl)
  | some names =>
    obtain ⟨qualifier, name⟩ := names
    dsimp only
    cases at_ : d.home? qualifier with
    | none => exact .inr (.inr ⟨qualifier, rfl⟩)
    | some home => exact .inl ⟨home, name, ⟨qualifier, cut, at_⟩, rfl⟩

/-- The end of a conversion is the struct that its reference denotes. -/
theorem resolveStruct_eq_ok (h : d.resolveStruct reference context cache = .ok (s, cache')) :
    ∃ home r, d.EndsIn reference home r ∧ d.resolve [] home r cache = .ok (s.toTy, cache') := by
  rcases resolveStruct_cases d reference context with ⟨home, r, ends, same⟩ | same | ⟨_, same⟩
  · rw [same] at h
    obtain ⟨ty, between, resolved, h⟩ := stateT_bind_eq_ok.1 h
    cases ty with
    | struct name file fields =>
      obtain ⟨rfl, rfl⟩ := stateT_pure_eq_ok.1 h
      exact ⟨home, r, ends, resolved⟩
    -- any other kind of type is refused
    | _ => cases h
  · rw [same] at h
    cases h
  · rw [same] at h
    cases h

/-- An end of a conversion fails with its reference, or it names no schema or no struct. -/
theorem resolveStruct_eq_error {fault : SchemaError}
    (h : d.resolveStruct reference context cache = .error fault) :
    (∃ (home : d.Home) (r : String), d.resolve [] home r cache = .error fault) ∨
      fault = .typeNotFound reference context ∨ (∃ qualifier, fault = .schemaNotFound qualifier) ∨
      ∃ kind, fault = .notAStruct reference kind := by
  rcases resolveStruct_cases d reference context with ⟨home, r, _, same⟩ | same | ⟨qualifier, same⟩
  · rw [same] at h
    rcases stateT_bind_eq_error.1 h with failed | ⟨ty, _, _, h⟩
    · exact .inl ⟨home, r, failed⟩
    · exact .inr (.inr (.inr ⟨ty.kind, structOf_eq_error h⟩))
  · rw [same] at h
    cases h
    exact .inr (.inl rfl)
  · rw [same] at h
    cases h
    exact .inr (.inr (.inl ⟨qualifier, rfl⟩))

/-- Both ends of a conversion were resolved, the source first. -/
theorem resolveEnds_eq_ok {dest : Struct} (h : d.resolveEnds decl cache = .ok ((s, dest), cache')) :
    ∃ context between, d.resolveStruct decl.source context cache = .ok (s, between) ∧
      d.resolveStruct decl.dest context between = .ok (dest, cache') := by
  obtain ⟨source, between, first, h⟩ := stateT_bind_eq_ok.1 h
  obtain ⟨dest, behind, second, h⟩ := stateT_bind_eq_ok.1 h
  obtain ⟨same, rfl⟩ := stateT_pure_eq_ok.1 h
  cases same
  exact ⟨_, between, first, second⟩

/-- If the ends are not resolved, one of them is not. -/
theorem resolveEnds_eq_error {fault : SchemaError} (h : d.resolveEnds decl cache = .error fault) :
    ∃ reference context between, d.resolveStruct reference context between = .error fault := by
  rcases stateT_bind_eq_error.1 h with failed | ⟨_, between, _, h⟩
  · exact ⟨_, _, cache, failed⟩
  · rcases stateT_bind_eq_error.1 h with failed | ⟨_, _, _, h⟩
    · exact ⟨_, _, between, failed⟩
    · cases h

/-- Resolving a conversion is resolving its ends, the source first. -/
theorem resolveConversion_structs (h : d.resolveConversion decl cache = .ok (c, cache')) :
    ∃ context between, d.resolveStruct decl.source context cache = .ok (c.source, between) ∧
      d.resolveStruct decl.dest context between = .ok (c.dest, cache') :=
  resolveEnds_eq_ok (resolveConversion_eq_ok h).2.1

/-- A conversion that is resolved leaves the cache sound, and with all that was in it. -/
theorem resolveConversion_grows (keyed : d.Keyed) (sound : d.CacheSound cache)
    (h : d.resolveConversion decl cache = .ok (c, cache')) : d.Grows cache cache' := by
  obtain ⟨context, between, first, second⟩ := resolveConversion_structs h
  obtain ⟨_, _, _, first⟩ := resolveStruct_eq_ok first
  obtain ⟨_, _, _, second⟩ := resolveStruct_eq_ok second
  have grows := (resolve_unfolds keyed [] _ _ _ _ _ sound first).1
  exact grows.trans (resolve_unfolds keyed [] _ _ _ _ _ grows.sound second).1

/-- A conversion fails because of a circle only if one of its ends leads into that. -/
theorem resolveConversion_circular {keys : List String}
    (h : d.resolveConversion decl cache = .error (.circular keys)) :
    ∃ (home : d.Home) (r : String) (t : Cache),
      d.resolve [] home r t = .error (.circular keys) := by
  rcases resolveConversion_eq_error_iff.1 h with ends | ⟨source, _, _, _, mapped⟩
  · obtain ⟨_, _, between, failed⟩ := resolveEnds_eq_error ends
    rcases resolveStruct_eq_error failed with ⟨home, r, failed⟩ | same | ⟨_, same⟩ | ⟨_, same⟩
    · exact ⟨home, r, between, failed⟩
    · cases same
    · cases same
    · cases same
  · obtain ⟨m, _, failed⟩ := exists_of_mapM_error mapped
    unfold MappingDecl.resolve at failed
    dsimp only at failed
    split at failed <;> cases failed

end

end Document

/-! ## Catalogs -/

section
variable {d : Document} {c : Catalog}

/-- A catalog has the conversions, and the cache that they leave behind as its types. -/
theorem Catalog.ofDocument_eq_ok (h : Catalog.ofDocument d = .ok c) :
    ∃ between, d.resolveDefinitions [] = .ok ((), between) ∧
      d.conversions.mapM d.resolveConversion between = .ok (c.conversions, c.types) := by
  obtain ⟨⟨conversions, types⟩, resolved, h⟩ := bind_eq_ok.1 h
  obtain rfl := pure_eq_ok.1 h
  rw [Document.resolveAll_eq] at resolved
  obtain ⟨_, between, first, second⟩ := stateT_bind_eq_ok.1 resolved
  exact ⟨between, first, second⟩

/-- A circle is met in resolving one reference, no definition being entered. -/
theorem Catalog.circular_of_ofDocument {keys : List String}
    (h : Catalog.ofDocument d = .error (.circular keys)) :
    ∃ (home : d.Home) (r : String) (t : Cache),
      d.resolve [] home r t = .error (.circular keys) := by
  rcases bind_eq_error.1 h with failed | ⟨_, _, h⟩
  · rw [Document.resolveAll_eq] at failed
    rcases stateT_bind_eq_error.1 failed with first | ⟨_, between, _, second⟩
    · obtain ⟨home, x, t, _, failed⟩ := Document.resolveDefinitions_error first
      exact ⟨home, x.name, t, failed⟩
    · obtain ⟨decl, _, t, failed⟩ := stateT_exists_of_mapM_error second
      exact Document.resolveConversion_circular failed
  · cases h

/-- Every type of a catalog is an unfolding, and every definition has one. -/
theorem Catalog.types_of_ofDocument (keyed : d.Keyed) (h : Catalog.ofDocument d = .ok c) :
    d.CacheSound c.types ∧ ∀ n, d.Declares n → Document.Remembered n c.types := by
  obtain ⟨between, definitions, conversions⟩ := ofDocument_eq_ok h
  obtain ⟨grows, each⟩ :=
    Document.resolveDefinitions_remembers keyed Document.cacheSound_nil definitions
  have behind : d.Grows between c.types :=
    stateT_mapM_keeps
      (fun decl _ t c t' kept done =>
        kept.trans (Document.resolveConversion_grows keyed kept.sound done))
      (.refl grows.sound) conversions
  exact ⟨behind.sound, fun n declared => (each n declared).mono behind.kept⟩

/-- A type in a catalog is the unfolding of a declaration with its key. -/
theorem Catalog.unfolds_of_type? (keyed : d.Keyed) (h : Catalog.ofDocument d = .ok c)
    {key : String} {ty : Ty} (found : c.type? key = some ty) :
    ∃ n, d.Declares n ∧ n.key = key ∧ d.UnfoldsTo n ty := by
  have mem : (key, ty) ∈ c.types := mem_of_lookup found
  exact (types_of_ofDocument keyed h).1 key ty mem

/-- Each declaration has its unfolding in the catalog. -/
theorem Catalog.exists_type? (keyed : d.Keyed) (h : Catalog.ofDocument d = .ok c)
    {n : Declaration} (declared : d.Declares n) :
    ∃ ty, c.type? n.key = some ty ∧ d.UnfoldsTo n ty := by
  obtain ⟨entry, mem⟩ := (types_of_ofDocument keyed h).2 n declared
  have isSome : (c.type? n.key).isSome = true := List.lookup_isSome_iff.2 ⟨_, mem, by simp⟩
  obtain ⟨ty, known⟩ := Option.isSome_iff_exists.1 isSome
  obtain ⟨m, declared', key, unfolds⟩ := unfolds_of_type? keyed h known
  obtain rfl := keyed.key_inj declared' declared key
  exact ⟨ty, known, unfolds⟩

/-- The types of a catalog are what the definitions of its document unfold to. -/
theorem Catalog.type?_eq_some_iff (keyed : d.Keyed) (h : Catalog.ofDocument d = .ok c)
    {key : String} {ty : Ty} :
    c.type? key = some ty ↔ ∃ n, d.Declares n ∧ n.key = key ∧ d.UnfoldsTo n ty := by
  refine ⟨unfolds_of_type? keyed h, ?_⟩
  rintro ⟨n, declared, rfl, unfolds⟩
  obtain ⟨found, known, unfolds'⟩ := exists_type? keyed h declared
  rw [known, unfolds.unique keyed declared.1 unfolds']

/-! ## Closed and acyclic documents -/

/-- A document with valid and plain names is resolved exactly if it is closed and acyclic. A circle
is reported as the keys of definitions each of which refers to the next, and the last of them stands
there before; no other does, so the search enters no definition twice. -/
theorem resolves_iff_closed_acyclic (valid : d.validate = .ok ()) (plain : d.PlainNames) :
    ((∃ cache, d.resolveDefinitions.run [] = .ok ((), cache)) ↔ d.Closed ∧ d.Acyclic) ∧
      (∀ fault, d.resolveDefinitions.run [] = .error fault →
        Catalog.ofDocument d = .error fault) ∧
      ∀ keys, Catalog.ofDocument d = .error (.circular keys) →
        (SchemaError.circular keys).message =
            "circular type reference detected: " ++ " -> ".intercalate keys ∧
          ∃ (front : List Declaration) (last : Declaration),
            keys = (front ++ [last]).map Declaration.key ∧
              (∀ n ∈ front ++ [last], d.Declares n) ∧
              List.IsChain d.Refers (front ++ [last]) ∧ last ∈ front ∧ front.Nodup := by
  -- the way that the search reports is a chain of declarations, the last of which is met again
  have keyed := Document.keyed_of_validate valid plain
  refine ⟨Document.resolves_iff keyed, fun fault failed => ?_, fun keys h => ⟨rfl, ?_⟩⟩
  · exact bind_eq_error.2 (.inl (stateT_bind_eq_error.2 (.inl failed)))
  · obtain ⟨home, r, t, failed⟩ := Catalog.circular_of_ofDocument h
    have fails : d.Fails [] home.1 r (.circular keys) :=
      Document.fails_of_resolve keyed [] home r t _ (fun _ none => by cases none) failed
    obtain ⟨front, last, whole, _, declared, chain, again, once⟩ :=
      fails.way home.2 List.nodup_nil rfl
    refine ⟨front, last, whole, declared, chain, ?_, List.Nodup.of_map _ once⟩
    obtain ⟨n, mem, key⟩ := List.mem_map.1 again
    have declaredAgain := declared n (List.mem_append_left _ mem)
    have declaredLast := declared last (List.mem_append_right _ List.mem_cons_self)
    exact keyed.key_inj declaredAgain declaredLast key ▸ mem

end

namespace Directory

/-- A struct that users refer to from another schema. -/
def address : Definition := .struct "Address" [⟨"Street", .primitive .string, true⟩]

/-- The name of an alias. -/
def idName : String := "UserId"

/-- An alias for texts. -/
def userId : Definition := .typedef idName (.primitive .string)

/-- A struct with a field of an alias and one of structs of another schema. -/
def user : Definition := .struct "User"
  [⟨"Id", .named idName, true⟩, ⟨"Homes", .list (.named "shared.Address"), false⟩]

/-- The schema of users. -/
def api : Schema := ⟨"api", "api.thrift", [user, userId]⟩

/-- The schema of addresses. -/
def shared : Schema := ⟨"shared", "shared.thrift", [address]⟩

/-- A user has an identifier of its own schema and addresses of another. -/
def users : Document := ⟨[api, shared], []⟩

/-- A folder holds files, and a file knows its folder. -/
def files : Document where
  schemas := [⟨"api", "api.thrift", [.struct "Root" [⟨"Top", .named "disk.Folder", true⟩]]⟩,
    ⟨"disk", "disk.thrift", [.struct "File" [⟨"Parent", .named "Folder", false⟩],
      .struct "Folder" [⟨"Files", .list (.named "File"), true⟩]]⟩]
  conversions := []

/-- The names of the users' document are valid. -/
theorem users_valid : users.validate = .ok () := by
  rw [Document.validate_eq_ok_iff]
  simp only [Schema.validate_eq_ok_iff]
  decide

/-- The names of the files' document are valid, which says nothing of circles. -/
theorem files_valid : files.validate = .ok () := by
  rw [Document.validate_eq_ok_iff]
  simp only [Schema.validate_eq_ok_iff]
  decide

/-- Users refer to addresses and no further, while files and folders refer to each other; the circle
is reported with the way into it. -/
theorem users_closed_files_circular :
    (users.Closed ∧ users.Acyclic) ∧ ∃ (front : List Declaration) (last : Declaration),
      ["api.Root", "disk.Folder", "disk.File", "disk.Folder"] =
          (front ++ [last]).map Declaration.key ∧
        List.IsChain files.Refers (front ++ [last]) ∧ last ∈ front := by
  have found : (users.resolveDefinitions.run []).toOption.isSome = true := by decide +kernel
  obtain ⟨⟨_, cache⟩, resolved⟩ := Option.isSome_iff_exists.1 found
  have circular : Catalog.ofDocument files =
      .error (.circular ["api.Root", "disk.Folder", "disk.File", "disk.Folder"]) := by
    with_unfolding_all rfl
  constructor
  · exact (resolves_iff_closed_acyclic users_valid (by decide)).1.1
      ⟨cache, toOption_eq_some.1 resolved⟩
  · obtain ⟨_, _, reported⟩ := resolves_iff_closed_acyclic files_valid (by decide)
    obtain ⟨_, front, last, keys, _, chain, again, _⟩ := reported _ circular
    exact ⟨front, last, keys, chain, again⟩

end Directory

/-! ## Plain unfolding -/

section
variable {d : Document} {c : Catalog}

/-- The type of every definition is the one type that it unfolds to, so it is the same in whatever
order schemas and definitions are declared. -/
theorem types_unfold (valid : d.validate = .ok ()) (plain : d.PlainNames)
    (h : Catalog.ofDocument d = .ok c) :
    (∀ n, d.Declares n → ∃ ty, c.type? n.key = some ty ∧ ∀ ty', d.UnfoldsTo n ty' ↔ ty' = ty) ∧
      ∀ d', d.Reorders d' → (∃ cache, d'.resolveDefinitions.run [] = .ok ((), cache)) ∧
        ∀ c', Catalog.ofDocument d' = .ok c' → c'.type? = c.type? := by
  have keyed := Document.keyed_of_validate valid plain
  -- both catalogs hold the unfoldings, which do not depend on the order
  have unfolded : ∀ n, d.Declares n → ∃ ty, d.UnfoldsTo n ty := by
    intro n declared
    obtain ⟨ty, _, unfolds⟩ := Catalog.exists_type? keyed h declared
    exact ⟨ty, unfolds⟩
  constructor
  · intro n declared
    obtain ⟨ty, known, unfolds⟩ := Catalog.exists_type? keyed h declared
    refine ⟨ty, known, fun ty' => ⟨fun unfolds' => ?_, fun same => same ▸ unfolds⟩⟩
    exact unfolds'.unique keyed declared.1 unfolds
  · intro d' same
    have keyed' := same.keyed keyed
    have unfolded' : ∀ n, d'.Declares n → ∃ ty, d'.UnfoldsTo n ty :=
      fun n declared => same.unfolded unfolded declared
    constructor
    · exact (Document.resolves_iff keyed').2
        (Document.closed_acyclic_of_unfolds keyed' unfolded')
    · intro c' h'
      funext key
      apply Option.ext
      intro ty
      rw [Catalog.type?_eq_some_iff keyed' h', Catalog.type?_eq_some_iff keyed h]
      exact same.unfoldsTo_iff keyed unfolded

end

namespace Directory

/-- The schemas of `users` and the definitions in each, the other way around. -/
def usersReversed : Document := ⟨[shared, { api with definitions := [userId, user] }], []⟩

/-- The reversed document declares the same. -/
theorem users_reorders : users.Reorders usersReversed := by
  refine ⟨fun s => { s with definitions := s.definitions.reverse }, fun s _ => ?_, ?_⟩
  · exact ⟨rfl, rfl, (List.reverse_perm s.definitions).symm⟩
  · exact List.Perm.swap _ _ _

/-- What the address unfolds to. -/
def addressTy : Ty :=
  .struct "Address" "shared.thrift" [⟨"Street", .primitive .string, true, "shared.thrift"⟩]

/-- What the user unfolds to: alias and addresses are written out. -/
def userTy : Ty := .struct "User" "api.thrift"
  [⟨"Id", .typedef idName "api.thrift" (.primitive .string), true, "api.thrift"⟩,
    ⟨"Homes", .list addressTy, false, "api.thrift"⟩]

/-- The user unfolds, through the alias and through the other schema. -/
theorem user_unfolds : users.UnfoldsTo ⟨api, user⟩ userTy := by
  have inApi : userId ∈ api.definitions := by decide
  have inShared : shared ∈ users.schemas ∧ address ∈ shared.definitions := by decide
  have id : users.Denotes api idName ⟨api, userId⟩ := .own inApi
  have home : users.Denotes api "shared.Address" ⟨shared, address⟩ :=
    .qualified (n := ⟨shared, address⟩) inShared
  exact .field (.named id (.typedef .primitive))
    (.field (.list (.named home (.field .primitive .empty))) .empty)

/-- The user has one type in the catalog, whichever of the two documents it is made of. -/
theorem user_typed_in_any_order :
    ∃ c c', Catalog.ofDocument users = .ok c ∧ Catalog.ofDocument usersReversed = .ok c' ∧
      c.type? "api.User" = some userTy ∧ c'.type? "api.User" = some userTy := by
  have first : (Catalog.ofDocument users).toOption.isSome = true := by decide +kernel
  have second : (Catalog.ofDocument usersReversed).toOption.isSome = true := by decide +kernel
  obtain ⟨c, first⟩ := Option.isSome_iff_exists.1 first
  obtain ⟨c', second⟩ := Option.isSome_iff_exists.1 second
  obtain ⟨unfolds, ordered⟩ := types_unfold users_valid (by decide) (toOption_eq_some.1 first)
  have declared : api ∈ users.schemas ∧ user ∈ api.definitions := by decide
  obtain ⟨ty, known, same⟩ := unfolds ⟨api, user⟩ declared
  obtain rfl := (same userTy).1 user_unfolds
  refine ⟨c, c', toOption_eq_some.1 first, toOption_eq_some.1 second, known, ?_⟩
  rw [(ordered usersReversed users_reorders).2 c' (toOption_eq_some.1 second)]
  exact known

end Directory

end Crosswalk
