import Crosswalk.Proofs.ModulePath
import Crosswalk.Proofs.PathGrammar
import Crosswalk.Proofs.SnakeCase
import Mathlib.Data.List.TakeWhile
import Mathlib.Logic.Relation

/-!
# Segments of module paths

Whatever characters a path has, its namespace is made of identifiers in lower case: one for each
component that names something, below the root. Components that name nothing can be put in and left
out, as long as the path stays a relative one.
-/

namespace Crosswalk
set_option autoImplicit false
open Text

/-! ## White space -/

/-- Only white space is trimmed away. -/
theorem Text.isBlank_of_trim {text : List Char} (h : trim text = []) :
    ∀ c ∈ text, isBlank c = true := by
  have solid := solid_head?_dropBlank text
  have none : dropBlank text = [] := by
    have behind : dropBlank (dropBlank text).reverse = [] := List.reverse_eq_nil_iff.1 h
    have all := List.dropWhile_eq_nil_iff.1 behind
    cases start : dropBlank text with
    | nil => rfl
    | cons c rest =>
      rw [start] at solid all
      have blank := all c (List.mem_reverse.2 List.mem_cons_self)
      rw [solid c rfl] at blank
      cases blank
  exact List.dropWhile_eq_nil_iff.1 none

/-- White space in lower case has no letters and digits. -/
theorem Text.isAsciiAlphanumeric_of_isBlank {c d : Char} (blank : isBlank c = true)
    (mem : d ∈ toLower c) : Namespaces.isAsciiAlphanumeric d = false := by
  have each : ∀ r ∈ blankRuns, ∀ k : Fin 11, r.first + k ≤ r.last →
      (toLower (Char.ofNat (r.first + k))).any Namespaces.isAsciiAlphanumeric = false := by
    decide +kernel
  have short : ∀ r ∈ blankRuns, r.last < r.first + 11 := by decide
  obtain ⟨r, run, inside⟩ := exists_mem_of_inRuns blank
  simp only [CodeRun.contains, Bool.and_eq_true, decide_eq_true_eq] at inside
  obtain ⟨⟨first, last⟩, _⟩ := inside
  have place : r.first + (c.toNat - r.first) = c.toNat := by omega
  have bound : c.toNat - r.first < 11 := by have := short r run; omega
  have clear := each r run ⟨c.toNat - r.first, bound⟩ (by simp only [place]; exact last)
  simp only [place, Char.ofNat_toNat] at clear
  exact Bool.eq_false_iff.2 (List.any_eq_false.1 clear d mem)

namespace Namespaces
variable {root file other space : String}

/-! ## Segments -/

/-- A lower-case letter or an underscore, then also digits, with a letter or a digit somewhere. -/
structure IsSegment (name : String) : Prop where
  first : ∃ c ∈ name.toList.head?, c.isLower = true ∨ c = '_'
  chars : ∀ c ∈ name.toList, c.isLower = true ∨ c.isDigit = true ∨ c = '_'
  used : ∃ c ∈ name.toList, c.isLower = true ∨ c.isDigit = true

/-- A spelling has lower-case letters, digits and underscores, for all upper-case letters are
lowered. -/
theorem lower_of_mem_spelling {component : List Char} {c : Char} (mem : c ∈ spelling component) :
    c.isLower = true ∨ c.isDigit = true ∨ c = '_' := by
  obtain ⟨d, among, rfl⟩ := List.mem_map.1 mem
  split
  · next letter =>
    have small : d.isUpper = false := isUpper_of_mem_snakeAfter among
    have kinds : (d.isUpper || d.isLower || d.isDigit) = true := letter
    rw [small, Bool.false_or, Bool.or_eq_true] at kinds
    exact kinds.imp_right .inl
  · exact .inr (.inr rfl)

/-- The module name of a component is a segment. -/
theorem isSegment_of_moduleName {component : List Char} {name : String}
    (h : moduleName component = .ok name) : IsSegment name := by
  obtain ⟨⟨c, used, differs⟩, rfl⟩ := moduleName_eq_ok_iff.1 h
  have chars : ∀ c ∈ spelling component, c.isLower = true ∨ c.isDigit = true ∨ c = '_' :=
    fun c mem => lower_of_mem_spelling mem
  generalize spelling component = word at used chars
  -- the character that makes the component one is a letter or a digit
  have letter : c.isLower = true ∨ c.isDigit = true :=
    (or_assoc.2 (chars c used)).resolve_right differs
  rw [shield]
  split
  -- a digit in front gets an underscore
  · refine ⟨⟨'_', ?_, .inr rfl⟩, ?_, ⟨c, ?_, letter⟩⟩
    · rw [String.toList_ofList]
      rfl
    · rw [String.toList_ofList]
      exact List.forall_mem_cons.2 ⟨.inr (.inr rfl), chars⟩
    · rw [String.toList_ofList]
      exact List.mem_cons_of_mem _ used
  · next digit =>
    refine ⟨?_, ?_, ⟨c, ?_, letter⟩⟩
    -- otherwise the first character is a letter or an underscore itself
    · cases word with
      | nil => cases used
      | cons first rest =>
        have plain : first.isDigit = false := by simpa using digit
        refine ⟨first, by rw [String.toList_ofList]; rfl, ?_⟩
        exact (chars first List.mem_cons_self).imp_right fun rest =>
          rest.resolve_left (by simp [plain])
    · rwa [String.toList_ofList]
    · rwa [String.toList_ofList]

/-- Taking the extension off the last component leaves as many. -/
theorem length_stems (cs : List (List Char)) : (stems cs).length = cs.length := by
  induction cs with
  | nil => rfl
  | cons c rest ih => rw [stems, List.length_cons, List.length_cons, ih]

/-- No component leads to the parent directory. -/
theorem parent_not_mem {cs : List (List Char)} {names : List String}
    (h : moduleNames cs = .ok names) : ['.', '.'] ∉ cs := by
  induction cs generalizing names with
  | nil => exact List.not_mem_nil
  | cons c rest ih =>
    rw [moduleNames] at h
    obtain ⟨other, h⟩ := refuse_eq_ok.1 h
    obtain ⟨_, _, h⟩ := bind_eq_ok.1 h
    obtain ⟨_, later, _⟩ := bind_eq_ok.1 h
    rw [List.mem_cons, not_or]
    exact ⟨Ne.symm other, ih later⟩

/-- The path leads from a directory to a file below it, and the namespace is the root, if there is
one, and a segment for each component that names something. -/
structure Sanitised (root file space : String) : Prop where
  named : trim file.toList ≠ []
  relative : file.toList.head? ≠ some '/'
  inside : ['.', '.'] ∉ splitOn '/' file.toList
  segments : ∃ names, names.length = (components file.toList).length ∧
    List.Forall₂ (fun c name => moduleName c = .ok name ∧ IsSegment name)
      (stems (components file.toList)) names ∧
    space = "::".intercalate (if root = "" then names else root :: names)

/-- The namespace of a file is its components, sanitised one by one, below the root. -/
theorem sanitised_of_modulePath (h : modulePath root file = .ok space) :
    Sanitised root file space := by
  obtain ⟨named, relative, names, found, rfl⟩ := modulePath_eq_ok_iff.1 h
  have each := moduleNames_eq_ok found
  refine ⟨named, relative, fun parent => ?_, names, ?_, ?_, rfl⟩
  · exact parent_not_mem found (List.mem_filter.2 ⟨parent, by decide⟩)
  · rw [← each.length_eq, length_stems]
  · exact each.imp fun _ _ own => ⟨own, isSegment_of_moduleName own⟩

/-! ## Components that name nothing -/

/-- The second list has a component more than the first, and that names nothing. -/
inductive Padded : List (List Char) → List (List Char) → Prop
  | mk {before after : List (List Char)} {c : List Char} (nothing : c = [] ∨ c = ['.']) :
      Padded (before ++ after) (before ++ c :: after)

/-- The paths differ in components that name nothing. -/
def SamePlace (file other : String) : Prop :=
  Relation.EqvGen Padded (splitOn '/' file.toList) (splitOn '/' other.toList)

/-- Empty components and dots do not count, so files at the same place have the same components. -/
theorem SamePlace.components_eq (h : SamePlace file other) :
    components file.toList = components other.toList := by
  unfold SamePlace at h
  unfold components
  generalize splitOn '/' file.toList = parts, splitOn '/' other.toList = parts' at h
  induction h with
  | rel _ _ padded =>
    obtain ⟨nothing⟩ := padded
    have dropped : ∀ c : List Char, c = [] ∨ c = ['.'] → ¬(c ≠ [] ∧ c ≠ ['.']) := by
      rintro c (rfl | rfl) ⟨solid, other⟩
      · exact solid rfl
      · exact other rfl
    rw [List.filter_append, List.filter_append, List.filter_cons_of_neg]
    simpa using dropped _ nothing
  | refl _ => rfl
  | symm _ _ _ ih => exact ih.symm
  | trans _ _ _ _ _ first second => exact first.trans second

/-- Components of white space have no names. -/
theorem trim_ne_nil_of_moduleNames {names : List String} (some : components file.toList ≠ [])
    (h : moduleNames (components file.toList) = .ok names) : trim file.toList ≠ [] := by
  -- a file of blanks only has one component, which would have to have a letter in it
  intro none
  obtain ⟨c, rest, split⟩ := List.exists_cons_of_ne_nil some
  rw [split] at h
  obtain ⟨name, _, own, _, _⟩ := List.forall₂_cons_left_iff.1 (moduleNames_eq_ok h)
  obtain ⟨⟨d, mem, differs⟩, _⟩ := moduleName_eq_ok_iff.1 own
  obtain ⟨d, among, rfl⟩ := List.mem_map.1 mem
  have whole : c ∈ splitOn '/' file.toList :=
    (List.mem_filter.1 (split ▸ List.mem_cons_self : c ∈ components file.toList)).1
  have part : ∀ x ∈ (if rest = [] then stem c else c), x ∈ c := by
    intro x mem
    split at mem
    · rw [← stem_append_extension c]
      exact List.mem_append_left _ mem
    · exact mem
  refine differs ?_
  -- a character is part of the spelling because it was in the component
  obtain rfl | ⟨x, inside, _, lower⟩ := mem_snakeAfter among
  · rfl
  · have blank := isBlank_of_trim none x (mem_of_mem_splitOn whole (part x inside))
    rw [isAsciiAlphanumeric_of_isBlank blank lower]
    rfl

/-- A file at the same place has the same namespace, if its path is relative and there is something
left. -/
theorem modulePath_of_samePlace (same : SamePlace file other)
    (relative : other.toList.head? ≠ some '/') (some : components file.toList ≠ [])
    (h : modulePath root file = .ok space) : modulePath root other = .ok space := by
  obtain ⟨_, _, names, found, rfl⟩ := modulePath_eq_ok_iff.1 h
  rw [same.components_eq] at found some
  exact modulePath_eq_ok_iff.2 ⟨trim_ne_nil_of_moduleNames some found, relative, names, found, rfl⟩

/-- A path that has a namespace is sanitised, and what names nothing in it does not matter. -/
theorem namespace_sanitised (root file : String) :
    (∀ space, modulePath root file = .ok space → Sanitised root file space) ∧
    ∀ other, SamePlace file other → file.toList.head? ≠ some '/' → other.toList.head? ≠ some '/' →
      components file.toList ≠ [] →
      ∀ space, modulePath root file = .ok space ↔ modulePath root other = .ok space := by
  refine ⟨fun space => sanitised_of_modulePath, fun other same relative relative' some space => ?_⟩
  have back : SamePlace other file := Relation.EqvGen.symm _ _ same
  constructor
  · exact modulePath_of_samePlace same relative' some
  · exact modulePath_of_samePlace back relative (same.components_eq ▸ some)

def plainPath : String :=
  "endpoints/GoogleNow.thrift"

/-- The same path with a component for the current directory and an empty one. -/
def paddedPath : String :=
  "./endpoints//GoogleNow.thrift"

theorem samePlace_padded : SamePlace plainPath paddedPath := by
  have plain : splitOn '/' plainPath.toList = ["endpoints".toList, "GoogleNow.thrift".toList] := by
    decide
  have padded : splitOn '/' paddedPath.toList =
      [['.'], "endpoints".toList, [], "GoogleNow.thrift".toList] := by
    decide
  have dot : Padded ([] ++ ["endpoints".toList, "GoogleNow.thrift".toList])
      ([] ++ ['.'] :: ["endpoints".toList, "GoogleNow.thrift".toList]) :=
    .mk (.inr rfl)
  have empty : Padded ([['.'], "endpoints".toList] ++ ["GoogleNow.thrift".toList])
      ([['.'], "endpoints".toList] ++ [] :: ["GoogleNow.thrift".toList]) :=
    .mk (.inl rfl)
  rw [SamePlace, plain, padded]
  exact .trans _ _ _ (.rel _ _ dot) (.rel _ _ empty)

theorem namespace_padded :
    Sanitised "crate::idl" plainPath "crate::idl::endpoints::google_now" ∧
      modulePath "crate::idl" paddedPath = .ok "crate::idl::endpoints::google_now" := by
  have found : modulePath "crate::idl" plainPath = .ok "crate::idl::endpoints::google_now" := by
    decide
  obtain ⟨sanitised, padding⟩ := namespace_sanitised "crate::idl" plainPath
  refine ⟨sanitised _ found, ?_⟩
  exact (padding paddedPath samePlace_padded (by decide) (by decide +kernel)
    (by decide) _).1 found

end Namespaces

end Crosswalk
