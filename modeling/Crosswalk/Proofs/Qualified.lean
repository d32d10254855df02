import Crosswalk.Proofs.Coverage

/-!
# Qualified references

A reference with a dot can be written for a field and for an end of a conversion. A field is read by
one cut at the first dot. An end is cut there as well, and what is behind the dot is then read as a
reference of its own, which cuts it once more if it has another dot. So the two readings are one
where there is a single dot, and lead apart, if anywhere, where there are more.
-/

namespace Crosswalk
set_option autoImplicit false

namespace Document
variable {d : Document} {home target : d.Home} {reference qualifier name context : String}
  {cache cache' : Cache} {ty : Ty}

/-! ## Two readings -/

/-- The type that an end of a conversion names, be it a struct or not. -/
def endType (d : Document) (reference context : String) : Resolving Ty :=
  match cutReference reference with
  | none => throw (.typeNotFound reference context)
  | some (qualifier, name) =>
    match d.home? qualifier with
    | none => throw (.schemaNotFound qualifier)
    | some home => d.resolve [] home name

/-- The type of a field for which a reference is written in a schema. -/
def fieldType (d : Document) (home : d.Home) (reference : String) : Resolving Ty :=
  (TypeExpr.named reference).resolve (d.resolve [] home)

/-- Resolving a struct is finding the type that an end refers to, and taking a struct from behind
its names. -/
theorem resolveStruct_eq (d : Document) (reference context : String) :
    d.resolveStruct reference context = d.endType reference context >>= structOf reference := by
  unfold resolveStruct endType
  cases cutReference reference with
  | none => rfl
  | some names =>
    obtain ⟨qualifier, name⟩ := names
    dsimp only
    cases d.home? qualifier <;> rfl

/-- A step gives a type if it is taken with what is remembered. -/
def Gives (step : Resolving Ty) (cache : Cache) (ty : Ty) : Prop :=
  ∃ behind, step cache = .ok (ty, behind)

/-- A reference is one type for a field and for an end of a conversion, or for neither of them. -/
def ReadAlike (d : Document) (home : d.Home) (reference context : String) (cache : Cache) : Prop :=
  ∀ ty, Gives (d.endType reference context) cache ty ↔ Gives (d.fieldType home reference) cache ty

/-- A reference is no type for a field and none for an end of a conversion. -/
def ReadNowhere (d : Document) (home : d.Home) (reference context : String) (cache : Cache) :
    Prop :=
  ∀ ty, ¬ Gives (d.endType reference context) cache ty ∧
    ¬ Gives (d.fieldType home reference) cache ty

/-! ## One dot -/

/-- A qualified name is cut at the first dot, and so behind a qualifier that has none. -/
theorem cutReference_append (undotted : '.' ∉ qualifier.toList) (name : String) :
    cutReference (qualifier ++ "." ++ name) = some (qualifier, name) :=
  cutReference_key (s := Schema.empty qualifier "") undotted

/-- Where a reference leads is all that counts of it. -/
theorem resolve_congr {stack : List String} {r r' : String}
    (same : d.locate home r = d.locate target r') :
    d.resolve stack home r = d.resolve stack target r' := by
  funext cache
  rw [resolve, resolve, same]

/-- A name without dot is looked for in the schema that it is used in. -/
theorem locate_plain (home : d.Home) (plain : '.' ∉ name.toList) :
    d.locate home name = .ok (home, name) := by
  rw [locate, cutReference_eq_none plain]

/-- A name with a dot is looked for in the schema that its qualifier names. -/
theorem locate_cut (home : d.Home) (cut : cutReference reference = some (qualifier, name)) :
    d.locate home reference =
      match d.home? qualifier with
      | some schema => .ok (schema, name)
      | none => .error (.schemaNotFound qualifier) := by
  cases at_ : d.home? qualifier with
  | none => simp [locate, cut, at_]
  | some schema => simp [locate, cut, at_]

/-- A reference with a dot is one type for the fields of all schemas. -/
theorem fieldType_eq (cut : cutReference reference = some (qualifier, name))
    (home target : d.Home) : d.fieldType home reference = d.fieldType target reference :=
  resolve_congr ((locate_cut home cut).trans (locate_cut target cut).symm)

/-- A name without a dot is read in the schema that is named in front of it. -/
theorem endType_eq_fieldType (home : d.Home)
    (cut : cutReference reference = some (qualifier, name)) (plain : '.' ∉ name.toList) :
    d.endType reference context = d.fieldType home reference := by
  have located := locate_cut home cut
  rw [endType, cut]
  dsimp only
  cases at_ : d.home? qualifier with
  | none =>
    rw [at_] at located
    funext cache
    rw [fieldType, TypeExpr.resolve, resolve, located]
    rfl
  | some schema =>
    rw [at_] at located
    exact resolve_congr ((locate_plain schema plain).trans located.symm)

/-! ## More dots -/

/-- What a definition is resolved to has its name. -/
theorem name?_of_resolve_definition {x : Definition} {ref : String → Resolving Ty} {file : String}
    (h : x.resolve ref file cache = .ok (ty, cache')) : ty.name? = some x.name := by
  cases x with
  | struct name fields =>
    obtain ⟨members, _, _, h⟩ := stateT_bind_eq_ok.1 h
    obtain ⟨rfl, _⟩ := stateT_pure_eq_ok.1 h
    rfl
  | enum name values =>
    obtain ⟨rfl, _⟩ := stateT_pure_eq_ok.1 h
    rfl
  | typedef name target =>
    obtain ⟨inner, _, _, h⟩ := stateT_bind_eq_ok.1 h
    obtain ⟨rfl, _⟩ := stateT_pure_eq_ok.1 h
    rfl

/-- What a reference is resolved to has the name that the reference leads to. -/
theorem name?_of_resolve (valid : d.validate = .ok ()) (settled : d.Settled cache)
    (located : d.locate home reference = .ok (target, name))
    (h : d.resolve [] home reference cache = .ok (ty, cache')) : ty.name? = some name := by
  obtain ⟨schema, own, located', found⟩ := resolve_eq_ok h
  rw [located] at located'
  cases located'
  rcases found with ⟨known, _⟩ | ⟨x, _, _, _, found, resolved, _⟩
  · obtain ⟨home', x, mem, key, _, resolves⟩ := settled _ _ known
    obtain ⟨_, rfl⟩ :=
      names_of_key (undotted_of_mem valid target.2) (undotted_of_mem valid home'.2) key
    exact (x.resolve_heading resolves).2.1
  · rw [name?_of_resolve_definition resolved, Schema.name_of_find? found]

/-- Behind a second dot the readings give types of different names. -/
theorem not_both_of_dotted (valid : d.validate = .ok ()) (settled : d.Settled cache)
    (cut : cutReference reference = some (qualifier, name)) (dotted : '.' ∈ name.toList)
    (ending : Gives (d.endType reference context) cache ty) :
    ¬ Gives (d.fieldType home reference) cache ty := by
  rintro ⟨_, field⟩
  obtain ⟨_, ending⟩ := ending
  have located := locate_cut home cut
  rw [endType, cut] at ending
  dsimp only at ending
  cases at_ : d.home? qualifier with
  | none =>
    rw [at_] at ending
    cases ending
  | some schema =>
    rw [at_] at ending located
    obtain ⟨target, inner, located', _⟩ := resolve_eq_ok ending
    have whole : ty.name? = some name := name?_of_resolve valid settled located field
    have part : ty.name? = some inner := name?_of_resolve valid settled located' ending
    obtain rfl : name = inner := Option.some.inj (whole.symm.trans part)
    -- the part behind a dot is shorter than the whole
    cases second : cutReference name with
    | none =>
      rw [cutReference, Option.map_eq_none_iff, Text.cut?_eq_none_iff] at second
      exact second dotted
    | some names =>
      obtain ⟨before, behind⟩ := names
      rw [locate_cut schema second] at located'
      split at located'
      · cases located'
        have longer := congrArg String.length (eq_of_cutReference second)
        simp at longer
      · cases located'

/-! ## When the readings agree -/

/-- A reference with a dot is one type for the fields of all schemas. For an end of a conversion it is
that type as well, faults included, if there is no second dot in it. If there is one, the two agree
only where neither gives a type. -/
theorem read_alike_iff (valid : d.validate = .ok ()) (undotted : '.' ∉ qualifier.toList)
    (name context : String) (home : d.Home) :
    d.resolveStruct (qualifier ++ "." ++ name) context =
        d.endType (qualifier ++ "." ++ name) context >>= structOf (qualifier ++ "." ++ name) ∧
      (∀ target, d.fieldType home (qualifier ++ "." ++ name) =
        d.fieldType target (qualifier ++ "." ++ name)) ∧
      ('.' ∉ name.toList → d.endType (qualifier ++ "." ++ name) context =
        d.fieldType home (qualifier ++ "." ++ name)) ∧
      ∀ cache, d.Settled cache →
        (d.ReadAlike home (qualifier ++ "." ++ name) context cache ↔
          '.' ∉ name.toList ∨ d.ReadNowhere home (qualifier ++ "." ++ name) context cache) := by
  have cut := cutReference_append undotted name
  have plain : '.' ∉ name.toList → d.endType (qualifier ++ "." ++ name) context =
      d.fieldType home (qualifier ++ "." ++ name) := endType_eq_fieldType home cut
  refine ⟨resolveStruct_eq d _ context, fieldType_eq cut home, plain,
    fun cache settled => ⟨fun alike => ?_, ?_⟩⟩
  · by_cases dotted : '.' ∈ name.toList
    · refine .inr fun ty => ⟨fun ending => ?_, fun field => ?_⟩
      · exact not_both_of_dotted valid settled cut dotted ending ((alike ty).1 ending)
      · exact not_both_of_dotted valid settled cut dotted ((alike ty).2 field) field
    · exact .inl dotted
  · rintro (single | nowhere) ty
    · rw [plain single]
    · exact iff_of_false (nowhere ty).1 (nowhere ty).2

end Document

namespace Visit

def person : Definition := .struct "Person" [⟨"Name", .primitive .string, true⟩]

def guest : Definition := .struct "Guest" [⟨"Who", .named "shared.Person", true⟩]

def shared : Schema := ⟨"shared", "shared.thrift", [person]⟩

def api : Schema := ⟨"api", "api.thrift", [guest]⟩

/-- There is no type `shared.Person` in the schema `api`, but one from there is taken. -/
def greeting : ConversionDecl := ⟨"Greet", "api.shared.Person", "shared.Person", []⟩

def visit : Document := ⟨[api, shared], [greeting]⟩

def apiHome : visit.Home := ⟨api, by decide⟩

theorem visit_valid : visit.validate = .ok () := by
  rw [Document.validate_eq_ok_iff]
  simp only [Schema.validate_eq_ok_iff]
  decide

def personTy : Ty :=
  .struct "Person" "shared.thrift" [⟨"Name", .primitive .string, true, "shared.thrift"⟩]

theorem person_read_alike :
    visit.validate = .ok () ∧
      Document.Gives (visit.fieldType apiHome "shared.Person") [] personTy ∧
      Document.Gives (visit.endType "shared.Person" "") [] personTy ∧
      visit.ReadAlike apiHome "shared.Person" "" [] := by
  have undotted : '.' ∉ "shared".toList := by decide
  obtain ⟨_, _, same, alike⟩ :=
    Document.read_alike_iff visit_valid undotted "Person" "" apiHome
  have field : Document.Gives (visit.fieldType apiHome "shared.Person") [] personTy := by
    refine ⟨[("shared.Person", personTy)], ?_⟩
    rw [Document.fieldType, TypeExpr.resolve, Document.resolve]
    rfl
  have plain : '.' ∉ "Person".toList := by decide
  exact ⟨visit_valid, field, same plain ▸ field, (alike [] Document.settled_nil).2 (.inl plain)⟩

/-- The end of the conversion is a struct of another schema than the one that it names. -/
theorem person_read_apart :
    visit.validate = .ok () ∧
      visit.fieldType apiHome "api.shared.Person" [] =
        .error (.typeNotFound "shared.Person" "api") ∧
      Document.Gives (visit.endType "api.shared.Person" "") [] personTy ∧
      ¬ visit.ReadAlike apiHome "api.shared.Person" "" [] := by
  have field : visit.fieldType apiHome "api.shared.Person" [] =
      .error (.typeNotFound "shared.Person" "api") := by
    rw [Document.fieldType, TypeExpr.resolve, Document.resolve]
    rfl
  have ending : Document.Gives (visit.endType "api.shared.Person" "") [] personTy := by
    refine ⟨[("shared.Person", personTy)], ?_⟩
    show visit.resolve [] apiHome "shared.Person" [] = _
    rw [Document.resolve]
    rfl
  refine ⟨visit_valid, field, ending, fun alike => ?_⟩
  obtain ⟨_, found⟩ := (alike personTy).1 ending
  rw [field] at found
  cases found

end Visit

end Crosswalk
