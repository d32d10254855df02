import Crosswalk.Generation
import Crosswalk.Proofs.Resolution
import Crosswalk.Proofs.Validation

/-!
# Renaming

Names of conversions and fields are written in snake case, and keywords as raw identifiers, so names
that validation tells apart may become one. They do exactly if they have the same snake case, or one
has the snake case of a keyword and the other that of its raw form. Names that are in snake case
already stay apart.

`Merges` is the relation of names that become one identifier, by `identifier_ne_iff`; for lists of
names it is carried over by `pairwise_identifier_iff`. That the identifiers are the ones which the
text of a function has is said by `exists_readText_field` and `exists_writeText_field`, in which an
access of a field is followed to its place in the text.
-/

namespace Crosswalk
set_option autoImplicit false
open Text

/-! ## Names in snake case -/

/-- No character of the name is written as another, and none starts a word. -/
def Text.InSnakeCase (name : String) : Prop :=
  ∀ c ∈ name.toList, isGap c = false ∧ isUpper c = false ∧ toLower c = [c]

instance (name : String) : Decidable (InSnakeCase name) :=
  List.decidableBAll _ name.toList

theorem Text.InSnakeCase.snakeCase {name : String} (h : InSnakeCase name) :
    snakeCase name = name := by
  have after : ∀ (text : List Char) (prev : Option Char),
      (∀ c ∈ text, isGap c = false ∧ isUpper c = false ∧ toLower c = [c]) →
      snakeAfter prev text = text := by
    intro text
    induction text with
    | nil => exact fun _ _ => rfl
    | cons c rest ih =>
      intro prev each
      obtain ⟨gap, upper, lower⟩ := each c List.mem_cons_self
      have others := ih (some c) fun c' mem => each c' (List.mem_cons_of_mem c mem)
      simp [snakeAfter, gap, upper, lower, others]
  rw [Text.snakeCase, snakeChars, after name.toList none h, String.ofList_toList]

/-- The character with which an underscore can be spelled. -/
def Text.hyphen (c : Char) : Char :=
  if c = '_' then '-' else c

/-- A name has the snake case of its hyphenated form. -/
theorem Text.snakeCase_hyphen (name : String) : snakeCase (name.map hyphen) = snakeCase name := by
  -- neither character has case or is a digit, so they are the same to their neighbours
  have alike : ∀ c, isLower (hyphen c) = isLower c ∧ isUpper (hyphen c) = isUpper c ∧
      (hyphen c).isDigit = c.isDigit := by
    intro c
    by_cases underscore : c = '_'
    · subst underscore
      decide
    · simp [hyphen, underscore]
  have starts : ∀ (prev : Char) (next : Option Char),
      startsWord (hyphen prev) (next.map hyphen) = startsWord prev next := by
    intro prev next
    obtain ⟨lower, upper, digit⟩ := alike prev
    cases next with
    | none => simp [startsWord, lower, digit]
    | some c => simp [startsWord, lower, upper, digit, (alike c).1]
  have after : ∀ (text : List Char) (prev : Option Char),
      snakeAfter (prev.map hyphen) (text.map hyphen) = snakeAfter prev text := by
    intro text
    induction text with
    | nil => exact fun _ => rfl
    | cons c rest ih =>
      intro prev
      have others := ih (some c)
      by_cases underscore : c = '_'
      · subst underscore
        have kept : isGap '_' = false ∧ isUpper '_' = false ∧ toLower '_' = ['_'] := by decide
        simpa [snakeAfter, hyphen, isGap, kept] using others
      · have same : hyphen c = c := if_neg underscore
        have head : (rest.map hyphen).head? = rest.head?.map hyphen := List.head?_map
        have any : (prev.map hyphen).any (startsWord · (rest.head?.map hyphen)) =
            prev.any (startsWord · rest.head?) := by
          cases prev with
          | none => rfl
          | some p => exact starts p rest.head?
        rw [Option.map_some, same] at others
        rw [List.map_cons, same, snakeAfter, snakeAfter, head, any, others]
  rw [snakeCase, snakeCase, String.toList_map, snakeChars, snakeChars]
  exact congrArg String.ofList (after name.toList none)

/-! ## Identifiers -/

/-- Where a mark is put on some things, two become the same only if they are, or if one is the other
with the mark. -/
theorem marked_eq_iff {α : Type} {p : α → Prop} [DecidablePred p] {f : α → α} {v w : α}
    (inj : ∀ a b, f a = f b → a = b) (plain : ∀ a, p a → ¬ p (f a)) :
    (if p v then f v else v) = (if p w then f w else w) ↔
      v = w ∨ (p v ∧ w = f v) ∨ (p w ∧ v = f w) := by
  -- four cases by which of the two values is marked
  by_cases hv : p v
  · by_cases hw : p w
    · rw [if_pos hv, if_pos hw]
      constructor
      · exact fun same => .inl (inj v w same)
      · rintro (rfl | ⟨_, rfl⟩ | ⟨_, rfl⟩)
        · rfl
        · exact absurd hw (plain v hv)
        · exact absurd hv (plain w hw)
    -- only the first is marked, so it has to be what the second already is
    · rw [if_pos hv, if_neg hw]
      constructor
      · exact fun same => .inr (.inl ⟨hv, same.symm⟩)
      · rintro (rfl | ⟨_, same⟩ | ⟨marked, _⟩)
        · exact absurd hv hw
        · exact same.symm
        · exact absurd marked hw
  · by_cases hw : p w
    · rw [if_neg hv, if_pos hw]
      constructor
      · exact fun same => .inr (.inr ⟨hw, same⟩)
      · rintro (rfl | ⟨marked, _⟩ | ⟨_, same⟩)
        · exact absurd hw hv
        · exact absurd marked hv
        · exact same
    · rw [if_neg hv, if_neg hw]
      constructor
      · exact .inl
      · rintro (same | ⟨marked, _⟩ | ⟨marked, _⟩)
        · exact same
        · exact absurd marked hv
        · exact absurd marked hw

namespace Code
variable {a b v w : String}

/-- The second word is the raw form of the first, which is a keyword. -/
def IsRaw (v w : String) : Prop :=
  v ∈ keywords ∧ w = "r#" ++ v

instance : Decidable (IsRaw v w) :=
  inferInstanceAs (Decidable (_ ∧ _))

/-- Different names that are written alike. -/
def Merges (a b : String) : Prop :=
  a ≠ b ∧ (snakeCase a = snakeCase b ∨ IsRaw (snakeCase a) (snakeCase b) ∨
    IsRaw (snakeCase b) (snakeCase a))

instance : Decidable (Merges a b) :=
  inferInstanceAs (Decidable (_ ∧ _))

theorem escape_eq_iff : escape v = escape w ↔ v = w ∨ IsRaw v w ∨ IsRaw w v := by
  have plain : ∀ k ∈ keywords, "r#" ++ k ∉ keywords := by decide
  apply marked_eq_iff (p := (· ∈ keywords)) (f := ("r#" ++ ·))
  · exact fun _ _ => (String.append_right_inj _).1
  · exact plain

/-- Different names have different identifiers exactly if they are not merged. -/
theorem identifier_ne_iff (differ : a ≠ b) : identifier a ≠ identifier b ↔ ¬ Merges a b := by
  rw [Ne, identifier, identifier, escape_eq_iff, Merges]
  simp [differ]

/-- Items with different names have different identifiers exactly if no names are merged. -/
theorem pairwise_identifier_iff {α : Type} {f : α → String} {l : List α}
    (differ : (l.map f).Nodup) :
    l.Pairwise (fun x y => identifier (f x) ≠ identifier (f y)) ↔
      l.Pairwise fun x y => ¬ Merges (f x) (f y) := by
  have apart : l.Pairwise fun x y => f x ≠ f y := List.pairwise_map.1 differ
  constructor
  · exact fun h => (apart.and h).imp fun both => (identifier_ne_iff both.1).1 both.2
  · exact fun h => (apart.and h).imp fun both => (identifier_ne_iff both.1).2 both.2

theorem not_merges_of_inSnakeCase (ha : InSnakeCase a) (hb : InSnakeCase b) (ha' : '#' ∉ a.toList)
    (hb' : '#' ∉ b.toList) : ¬ Merges a b := by
  rintro ⟨differ, alike⟩
  rw [ha.snakeCase, hb.snakeCase] at alike
  rcases alike with same | ⟨_, rfl⟩ | ⟨_, rfl⟩
  · exact differ same
  · exact hb' (by simp)
  · exact ha' (by simp)

/-- No name with an underscore is safe from all others. -/
theorem merges_hyphenated (h : '_' ∈ a.toList) : Merges a (a.map hyphen) := by
  refine ⟨fun same => ?_, .inl (snakeCase_hyphen a).symm⟩
  rw [same, String.toList_map] at h
  obtain ⟨c, _, same⟩ := List.mem_map.1 h
  unfold hyphen at same
  split at same
  · exact absurd same (by decide)
  · next other => exact other same

/-! ## Fields in places -/

/-- If accesses are written one behind the other, what is written in front of a field does not
depend on it. -/
theorem exists_before_field {text : List Access → String}
    (step : ∀ access, ∃ lead, ∀ rest, rest ≠ [] → text (access :: rest) = lead ++ text rest)
    (last : ∀ name optional, text [.field name optional] = "." ++ identifier name)
    (accesses : List Access) :
    ∃ before, ∀ name optional,
      text (accesses ++ [.field name optional]) = before ++ identifier name := by
  induction accesses with
  | nil => exact ⟨".", last⟩
  | cons access rest ih =>
    obtain ⟨before, ih⟩ := ih
    obtain ⟨lead, step⟩ := step access
    refine ⟨lead ++ before, fun name optional => ?_⟩
    rw [List.cons_append, step _ (by simp), ih, String.append_assoc]

theorem exists_readText_field (s : Settings) (p : Place) :
    ∃ before, ∀ name optional, readText s (p.field name optional) = before ++ identifier name := by
  have step : ∀ access, ∃ lead, ∀ rest, rest ≠ [] →
      readAccesses (access :: rest) = lead ++ readAccesses rest := by
    intro access
    cases access with
    | field name optional =>
      refine ⟨"." ++ identifier name ++
        (if optional then ".clone().unwrap_or_default()" else ""), fun rest more => ?_⟩
      simp [readAccesses, more]
    | index binding => exact ⟨_, fun _ _ => rfl⟩
    | key binding => exact ⟨_, fun _ _ => rfl⟩
  obtain ⟨before, last⟩ := exists_before_field step (by simp [readAccesses]) p.accesses
  refine ⟨rootText s p.root ++ before, fun name optional => ?_⟩
  rw [readText, Place.field, last, String.append_assoc]

theorem exists_writeText_field (s : Settings) (p : Place) :
    ∃ before, ∀ name optional, writeText s (p.field name optional) = before ++ identifier name := by
  have step : ∀ access, ∃ lead, ∀ rest, rest ≠ [] →
      writeAccesses (access :: rest) = lead ++ writeAccesses rest := by
    intro access
    cases access with
    | field name optional =>
      refine ⟨"." ++ identifier name ++
        (if optional then ".get_or_insert_with(Default::default)" else ""), fun rest more => ?_⟩
      simp [writeAccesses, more]
    | index binding => exact ⟨_, fun _ _ => rfl⟩
    | key binding => exact ⟨_, fun _ _ => rfl⟩
  obtain ⟨before, last⟩ := exists_before_field step (by simp [writeAccesses]) p.accesses
  refine ⟨rootText s p.root ++ before, fun name optional => ?_⟩
  have plain : endsInKey (p.field name optional) = false := by simp [endsInKey, Place.field]
  rw [writeText, plain, Place.field, last]
  simp [String.append_assoc]

/-- Two fields are written differently wherever they are read or written to. -/
def Apart (f g : FieldDecl) : Prop :=
  ∀ (s : Settings) (p : Place),
    readText s (p.field f.name !f.required) ≠ readText s (p.field g.name !g.required) ∧
      writeText s (p.field f.name !f.required) ≠ writeText s (p.field g.name !g.required)

theorem apart_iff {f g : FieldDecl} : Apart f g ↔ identifier f.name ≠ identifier g.name := by
  constructor
  · intro apart same
    obtain ⟨before, read⟩ := exists_readText_field {} .input
    refine (apart {} .input).1 ?_
    rw [read, read, same]
  · intro differ s p
    obtain ⟨before, read⟩ := exists_readText_field s p
    obtain ⟨ahead, written⟩ := exists_writeText_field s p
    rw [read, read, written, written, Ne, Ne, String.append_right_inj, String.append_right_inj]
    exact ⟨differ, differ⟩

end Code

/-! ## Functions of a module -/

section
variable {cv : Converter} {cs : List Conversion} {c : Conversion} {text function : String}

/-- The text of a function is that of a converted block, between the names of the ends. -/
theorem Converter.generateOne_eq_ok (h : cv.generateOne c = .ok function) :
    ∃ table body source dest, MappingTable.ofMappings c.mappings = .ok table ∧
      cv.convert c.source.fields c.dest.fields table = .ok body ∧
      cv.structName c.source = .ok source ∧ cv.structName c.dest = .ok dest ∧
      function = Code.functionText cv.settings c.name source dest body := by
  obtain ⟨table, tabled, h⟩ := bind_eq_ok.1 h
  obtain ⟨body, converted, h⟩ := bind_eq_ok.1 h
  obtain ⟨source, ofSource, h⟩ := bind_eq_ok.1 h
  obtain ⟨dest, ofDest, h⟩ := bind_eq_ok.1 h
  exact ⟨table, body, source, dest, mapError_eq_ok.1 tabled, mapError_eq_ok.1 converted, ofSource,
    ofDest, (pure_eq_ok.1 h).symm⟩

/-- Functions are generated in the order of the conversions, and for all of them if none may be left
out. -/
theorem Converter.generateEach_eq_ok (h : cv.generateEach cs = .ok text) :
    ∃ generated functions, generated.Sublist cs ∧
      (cv.settings.failFast = true → generated = cs) ∧
      List.Forall₂ (fun c function => cv.generateOne c = .ok function) generated functions ∧
      text = String.join (functions.map ("\n" ++ ·)) := by
  -- induction on the conversions; each is generated or left out
  induction cs generalizing text with
  | nil =>
    cases h
    exact ⟨[], [], .slnil, fun _ => rfl, .nil, rfl⟩
  | cons c rest ih =>
    rw [generateEach] at h
    split at h
    · next function one =>
      obtain ⟨later, others, h⟩ := bind_eq_ok.1 h
      obtain rfl := pure_eq_ok.1 h
      obtain ⟨generated, functions, sublist, all, each, rfl⟩ := ih others
      refine ⟨c :: generated, function :: functions, sublist.cons_cons c, fun fast => ?_,
        .cons one each, ?_⟩
      · rw [all fast]
      · simp [String.append_assoc]
    · split at h
      · cases h
      -- a conversion is only left out if failing is not to end the run
      · next slow =>
        obtain ⟨generated, functions, sublist, _, each, rfl⟩ := ih h
        exact ⟨generated, functions, sublist.cons c, fun fast => absurd fast slow, each, rfl⟩

/-- The text is the header of a module and functions of these names, each behind an empty line. -/
def Catalog.Defines (c : Catalog) (s : Settings) (names : List String) (text : String) : Prop :=
  ∃ functions, List.Forall₂ (fun name function => ∃ source dest body,
      function = Code.functionText s name source dest body) names functions ∧
    text = c.header ++ String.join (functions.map ("\n" ++ ·))

theorem Catalog.exists_names {d : Document} {c : Catalog} (h : Catalog.ofDocument d = .ok c)
    (generated : c.generate cv = .ok text) :
    ∃ names, names.Sublist (d.conversions.map (·.name)) ∧
      (cv.settings.failFast = true → names = d.conversions.map (·.name)) ∧
      c.Defines cv.settings names text := by
  obtain ⟨_, _, generated⟩ := bind_eq_ok.1 generated
  obtain ⟨body, each, generated⟩ := bind_eq_ok.1 generated
  obtain rfl := pure_eq_ok.1 generated
  obtain ⟨conversions, functions, sublist, all, one, rfl⟩ := Converter.generateEach_eq_ok each
  rw [← Catalog.names_eq h]
  refine ⟨conversions.map (·.name), sublist.map _, fun fast => by rw [all fast], functions, ?_, rfl⟩
  rw [List.forall₂_map_left_iff]
  refine one.imp fun _ _ function => ?_
  obtain ⟨_, body, source, dest, _, _, _, _, text⟩ := Converter.generateOne_eq_ok function
  exact ⟨source, dest, body, text⟩

/-- The functions of a module have different names exactly if no names of their conversions are
merged, and the fields of a struct are written differently wherever they are read or written to
exactly if no names of them are. -/
theorem renamed_apart_iff {d : Document} {c : Catalog} (valid : d.validate = .ok ())
    (h : Catalog.ofDocument d = .ok c) (generated : c.generate cv = .ok text) :
    (∃ names, names.Sublist (d.conversions.map (·.name)) ∧
      (cv.settings.failFast = true → names = d.conversions.map (·.name)) ∧
      c.Defines cv.settings names text ∧
      ((names.map Code.identifier).Nodup ↔ names.Pairwise fun a b => ¬ Code.Merges a b)) ∧
    ∀ s ∈ d.schemas, ∀ name fields, .struct name fields ∈ s.definitions →
      (fields.Pairwise Code.Apart ↔
        fields.Pairwise fun f g => ¬ Code.Merges f.name g.name) := by
  constructor
  · obtain ⟨names, sublist, all, defines⟩ := Catalog.exists_names h generated
    have differ : names.Nodup := sublist.nodup (Document.validate_eq_ok_iff.1 valid).2.1
    refine ⟨names, sublist, all, defines, ?_⟩
    rw [List.Nodup, List.pairwise_map]
    exact Code.pairwise_identifier_iff (f := id) (by rwa [List.map_id])
  · intro s home name fields mem
    rw [← Code.pairwise_identifier_iff (Document.nodup_fields valid home mem)]
    exact ⟨fun apart => apart.imp Code.apart_iff.1, fun differ => differ.imp Code.apart_iff.2⟩

end

namespace Gateway

def members (first second : String) : List FieldDecl :=
  [⟨first, .primitive .string, true⟩, ⟨second, .primitive .string, true⟩]

def schema (first second : String) : Schema :=
  ⟨"api", "api.thrift", [.struct "User" (members first second)]⟩

/-- Conversions of two names that copy a user. -/
def copies (name other first second : String) : Document where
  schemas := [schema first second]
  conversions := [⟨name, "api.User", "api.User", []⟩, ⟨other, "api.User", "api.User", []⟩]

def cv : Converter :=
  { namespaces := .registry [("api.thrift", "crate::api")] }

/-- Whether a module is generated for the document. -/
def generates (d : Document) : Bool :=
  (Catalog.ofDocument d).toOption.any fun c => (c.generate cv).toOption.isSome

theorem exists_text {d : Document} (h : generates d = true) :
    ∃ c text, Catalog.ofDocument d = .ok c ∧ c.generate cv = .ok text := by
  obtain ⟨c, resolved, h⟩ := (Option.any_eq_true _ _).1 h
  obtain ⟨text, generated⟩ := Option.isSome_iff_exists.1 h
  exact ⟨c, text, toOption_eq_some.1 resolved, toOption_eq_some.1 generated⟩

theorem copies_valid {name other first second : String} (hn : name ≠ other)
    (hf : first ≠ second) : (copies name other first second).validate = .ok () := by
  have fields : (Definition.struct "User" (members first second)).validate = .ok () := by
    rw [Definition.validate, checkNames_eq_ok_iff]
    simpa [members] using hf
  have undotted : '.' ∉ "api".toList := by decide
  have checked : (schema first second).validate = .ok () := by
    rw [Schema.validate_eq_ok_iff]
    exact ⟨undotted, by simp [schema], by simpa [schema] using fields⟩
  rw [Document.validate_eq_ok_iff]
  simp [copies, checked, ConversionDecl.validate_eq_ok_iff, hn]

/-- Two functions of one name, in each of them two fields that are written as one. -/
theorem names_merged :
    (copies "CopyUser" "copy_user" "userId" "user_id").validate = .ok () ∧
      ∃ c text, Catalog.ofDocument (copies "CopyUser" "copy_user" "userId" "user_id") = .ok c ∧
        c.generate cv = .ok text ∧ c.Defines cv.settings ["CopyUser", "copy_user"] text ∧
        Code.identifier "CopyUser" = Code.identifier "copy_user" ∧
        ∀ (s : Settings) (p : Place) (optional : Bool), Code.readText s (p.field "userId" optional) =
            Code.readText s (p.field "user_id" optional) ∧
          Code.writeText s (p.field "userId" optional) =
            Code.writeText s (p.field "user_id" optional) := by
  have found : generates (copies "CopyUser" "copy_user" "userId" "user_id") = true := by
    decide +kernel
  obtain ⟨c, text, resolved, generated⟩ := exists_text found
  obtain ⟨names, _, all, defines⟩ := Catalog.exists_names resolved generated
  obtain rfl : names = ["CopyUser", "copy_user"] := all rfl
  refine ⟨copies_valid (by decide) (by decide), c, text, resolved, generated, defines,
    by decide, fun s p optional => ?_⟩
  have same : Code.identifier "userId" = Code.identifier "user_id" := by decide
  obtain ⟨before, read⟩ := Code.exists_readText_field s p
  obtain ⟨ahead, written⟩ := Code.exists_writeText_field s p
  rw [read, read, written, written, same]
  exact ⟨rfl, rfl⟩

theorem names_not_merged :
    (copies "copy_user" "share_user" "id" "name").validate = .ok () ∧
      ∃ c text, Catalog.ofDocument (copies "copy_user" "share_user" "id" "name") = .ok c ∧
        c.generate cv = .ok text ∧ (["copy_user", "share_user"].map Code.identifier).Nodup ∧
        (members "id" "name").Pairwise Code.Apart := by
  have valid : (copies "copy_user" "share_user" "id" "name").validate = .ok () :=
    copies_valid (by decide) (by decide)
  have found : generates (copies "copy_user" "share_user" "id" "name") = true := by decide +kernel
  obtain ⟨c, text, resolved, generated⟩ := exists_text found
  obtain ⟨⟨names, _, all, _, functions⟩, fields⟩ := renamed_apart_iff valid resolved generated
  obtain rfl : names = ["copy_user", "share_user"] := all rfl
  have conversions : ¬ Code.Merges "copy_user" "share_user" :=
    Code.not_merges_of_inSnakeCase (by decide) (by decide) (by decide) (by decide)
  have inside : ¬ Code.Merges "id" "name" :=
    Code.not_merges_of_inSnakeCase (by decide) (by decide) (by decide) (by decide)
  have home : schema "id" "name" ∈ (copies "copy_user" "share_user" "id" "name").schemas :=
    List.mem_cons_self
  refine ⟨valid, c, text, resolved, generated, functions.2 (by simpa), ?_⟩
  exact (fields _ home "User" (members "id" "name") List.mem_cons_self).2 (by simpa [members])

end Gateway

end Crosswalk
