import Crosswalk.Proofs.Renaming
import Crosswalk.Proofs.Word

/-!
# Files with one module path

A module path is read off a file's path component by component, and names that differ in more than
spelling are told apart by it. Two files have one module path exactly if their components, the last
of them without its extension, have the same module names one by one; components have the same
module name if they are spelled alike, or but for an underscore that a digit has in front of it.

The text of a module path is cut back into its segments by `pathBehind_inj`, since no segment has a
separator in it. `shield_eq_iff` says which components get one name, and `modulePath_eq_ok_iff` and
`names_eq_iff` carry this from components to files, by the stems in which the last component has
lost its extension.
-/

namespace Crosswalk
set_option autoImplicit false
open Text

/-! ## Texts apart -/

/-- What stands before the first separator is read off from the front. -/
theorem append_cancel_of_not_mem {sep : Char} {a b behind after : List Char} (ha : sep ∉ a)
    (hb : sep ∉ b) (cut : ∀ c ∈ behind.head?, c = sep) (cut' : ∀ c ∈ after.head?, c = sep)
    (h : a ++ behind = b ++ after) : a = b ∧ behind = after := by
  rcases List.append_eq_append_iff.1 h with ⟨more, rfl, rfl⟩ | ⟨more, rfl, rfl⟩
  · cases more with
    | nil => simp
    | cons c more =>
      obtain rfl : c = sep := cut c rfl
      exact absurd (by simp) hb
  · cases more with
    | nil => simp
    | cons c more =>
      obtain rfl : c = sep := cut' c rfl
      exact absurd (by simp) ha

namespace Namespaces

/-! ## Names of modules -/

/-- The snake case of a component, with underscores for anything but ASCII letters and digits. -/
def spelling (component : List Char) : List Char :=
  (snakeChars component).map fun c => if isAsciiAlphanumeric c then c else '_'

/-- A word with an underscore in front of a digit that it begins with. -/
def shield (word : List Char) : List Char :=
  if word.head?.any Char.isDigit then '_' :: word else word

/-- The second word is the first with an underscore in front of a digit. -/
def IsShielded (v w : List Char) : Prop :=
  v.head?.any Char.isDigit = true ∧ w = '_' :: v

/-- Components that name one module. -/
def SameModule (c d : List Char) : Prop :=
  spelling c = spelling d ∨ IsShielded (spelling c) (spelling d) ∨
    IsShielded (spelling d) (spelling c)

instance {c d : List Char} : Decidable (SameModule c d) :=
  inferInstanceAs (Decidable (_ ∨ (_ ∧ _) ∨ (_ ∧ _)))

/-- Shielded words are equal if the words are, or if one of them is the other's shielded form. -/
theorem shield_eq_iff {v w : List Char} :
    shield v = shield w ↔ v = w ∨ IsShielded v w ∨ IsShielded w v := by
  apply marked_eq_iff (p := fun word => word.head?.any Char.isDigit = true) (f := ('_' :: ·))
  · exact fun _ _ same => (List.cons.inj same).2
  · intro word _
    simp

/-- A component has a module name if its spelling has more than underscores, which is its shielded
spelling. -/
theorem moduleName_eq_ok_iff {component : List Char} {name : String} :
    moduleName component = .ok name ↔
      (∃ c ∈ spelling component, c ≠ '_') ∧ name = String.ofList (shield (spelling component)) := by
  show (if (spelling component).all (· == '_') then Except.error _
    else if (spelling component).head?.any Char.isDigit then .ok _ else .ok _) = _ ↔ _
  have some : (spelling component).all (· == '_') = true ↔ ¬ ∃ c ∈ spelling component, c ≠ '_' := by
    simp
  by_cases blank : (spelling component).all (· == '_') = true
  · simp only [if_pos blank, some.1 blank, false_and, reduceCtorEq]
  · have used : ∃ c ∈ spelling component, c ≠ '_' := not_not.1 (mt some.2 blank)
    rw [if_neg blank, shield]
    split
    · exact ⟨fun h => ⟨used, (Except.ok.inj h).symm⟩, fun h => congrArg Except.ok h.2.symm⟩
    · exact ⟨fun h => ⟨used, (Except.ok.inj h).symm⟩, fun h => congrArg Except.ok h.2.symm⟩

/-- Module names are equal exactly if the components name one module. -/
theorem moduleName_eq_iff {c d : List Char} {a b : String} (ha : moduleName c = .ok a)
    (hb : moduleName d = .ok b) : a = b ↔ SameModule c d := by
  obtain ⟨_, rfl⟩ := moduleName_eq_ok_iff.1 ha
  obtain ⟨_, rfl⟩ := moduleName_eq_ok_iff.1 hb
  rw [String.ofList_inj, shield_eq_iff]
  rfl

/-- Anything but letters and digits is replaced in a spelling. -/
theorem isWordChar_of_mem_spelling {component : List Char} :
    ∀ c ∈ spelling component, isWordChar c = true := by
  intro c mem
  obtain ⟨c', _, rfl⟩ := List.mem_map.1 mem
  split
  · next letter => exact Bool.or_eq_true_iff.2 (.inl letter)
  · rfl

/-- The name of a module is an identifier. -/
theorem isIdentifier_of_moduleName {component : List Char} {name : String}
    (h : moduleName component = .ok name) : isIdentifier name = true := by
  obtain ⟨⟨other, used, differs⟩, rfl⟩ := moduleName_eq_ok_iff.1 h
  have chars : ∀ c ∈ spelling component, isWordChar c = true := isWordChar_of_mem_spelling
  generalize spelling component = word at used chars
  rw [isIdentifier_iff, String.toList_ofList]
  cases word with
  | nil => cases used
  | cons c rest =>
    obtain ⟨first, others⟩ := List.forall_mem_cons.1 chars
    rw [shield]
    split
    · exact ⟨'_', c :: rest, rfl, .inr rfl, fun _ => List.cons_ne_nil c rest, chars⟩
    · next digit =>
      refine ⟨c, rest, rfl, ?_, ?_, others⟩
      · have digit : c.isDigit = false := by simpa using digit
        simpa [isWordChar, digit] using first
      · rintro rfl rfl
        exact differs (List.mem_singleton.1 used)

/-! ## Components -/

/-- The components of a path, the last without its extension. -/
def stems : List (List Char) → List (List Char)
  | [] => []
  | component :: rest => (if rest = [] then stem component else component) :: stems rest

/-- What follows the stem of a component. -/
def extension (component : List Char) : List Char :=
  component.drop (stem component).length

/-- The stem of a component and its extension make up the component. -/
theorem stem_append_extension (component : List Char) :
    stem component ++ extension component = component := by
  have lead : stem component <+: component := by
    unfold stem
    induction component with
    | nil => exact List.nil_prefix
    | cons c rest ih =>
      rw [beforeLast?]
      cases found : beforeLast? '.' rest with
      | some before =>
        rw [found] at ih
        exact List.cons_prefix_cons.2 ⟨rfl, ih⟩
      | none =>
        show ((if c = '.' then some [] else none).getD (c :: rest)) <+: c :: rest
        by_cases dot : c = '.'
        · rw [if_pos dot]
          exact List.nil_prefix
        · rw [if_neg dot]
          exact List.prefix_rfl
  exact List.prefix_iff_eq_append.1 lead

/-- Paths are told apart by their stems and the extension of the last component. -/
theorem eq_of_stems_eq {cs ds : List (List Char)} (same : stems cs = stems ds)
    (last : cs.getLast?.map extension = ds.getLast?.map extension) : cs = ds := by
  -- induction on both lists; all but the last component are their own stems
  induction cs generalizing ds with
  | nil =>
    cases ds with
    | nil => rfl
    | cons d ds => cases same
  | cons c cs ih =>
    cases ds with
    | nil => cases same
    | cons d ds =>
      obtain ⟨first, rest⟩ := List.cons.inj same
      -- only the last component has an extension cut off
      by_cases alone : cs = []
      · subst alone
        obtain rfl : ds = [] := by
          cases ds with
          | nil => rfl
          | cons d' ds => cases rest
        have extensions : extension c = extension d := by simpa using last
        rw [if_pos rfl, if_pos rfl] at first
        rw [← stem_append_extension c, ← stem_append_extension d, first, extensions]
      · have others : ds ≠ [] := by
          rintro rfl
          cases cs with
          | nil => exact alone rfl
          | cons c' cs => cases rest
        rw [if_neg alone, if_neg others] at first
        rw [List.getLast?_cons_of_ne_nil alone, List.getLast?_cons_of_ne_nil others] at last
        rw [first, ih rest last]

/-- The names of modules are those of the components, the last without its extension. -/
theorem moduleNames_eq_ok {cs : List (List Char)} {names : List String}
    (h : moduleNames cs = .ok names) :
    List.Forall₂ (fun c name => moduleName c = .ok name) (stems cs) names := by
  induction cs generalizing names with
  | nil =>
    cases h
    exact .nil
  | cons c rest ih =>
    rw [moduleNames] at h
    obtain ⟨_, h⟩ := refuse_eq_ok.1 h
    obtain ⟨name, first, h⟩ := bind_eq_ok.1 h
    obtain ⟨others, later, h⟩ := bind_eq_ok.1 h
    obtain rfl := pure_eq_ok.1 h
    exact .cons first (ih later)

/-- Names of modules are the same exactly if those of the components are, one by one. -/
theorem names_eq_iff {cs ds : List (List Char)} {as bs : List String}
    (ha : List.Forall₂ (fun c name => moduleName c = .ok name) cs as)
    (hb : List.Forall₂ (fun c name => moduleName c = .ok name) ds bs) :
    as = bs ↔ List.Forall₂ SameModule cs ds := by
  induction ha generalizing ds bs with
  | nil =>
    cases hb with
    | nil => simp
    | cons => simp
  | cons first _ ih =>
    cases hb with
    | nil => simp
    | cons first' others =>
      rw [List.cons.injEq, List.forall₂_cons, moduleName_eq_iff first first', ih others]

/-! ## Module paths -/

/-- Names behind one that is not written here. -/
def pathBehind (names : List String) : List Char :=
  names.flatMap fun name => ':' :: ':' :: name.toList

/-- Behind the first segment of a path there is a separator or nothing. -/
theorem pathBehind_cut (names : List String) : ∀ c ∈ (pathBehind names).head?, c = ':' := by
  intro c head
  cases names with
  | nil => cases head
  | cons name rest => exact (Option.some.inj head).symm

/-- A joined path is its first segment, with the others behind it. -/
theorem toList_intercalate_cons (name : String) (rest : List String) :
    ("::".intercalate (name :: rest)).toList = name.toList ++ pathBehind rest := by
  induction rest generalizing name with
  | nil => simp [pathBehind]
  | cons next rest ih =>
    rw [String.intercalate_cons_cons, String.toList_append, String.toList_append, ih]
    simp [pathBehind]

/-- Segments without the separator are read off a path, one after the other. -/
theorem pathBehind_inj {as bs : List String} (ha : ∀ a ∈ as, ':' ∉ a.toList)
    (hb : ∀ b ∈ bs, ':' ∉ b.toList) (h : pathBehind as = pathBehind bs) : as = bs := by
  induction as generalizing bs with
  | nil =>
    cases bs with
    | nil => rfl
    | cons b bs => cases h
  | cons a as ih =>
    cases bs with
    | nil => cases h
    | cons b bs =>
      have same : a.toList ++ pathBehind as = b.toList ++ pathBehind bs := by
        simpa [pathBehind] using h
      obtain ⟨first, others⟩ := append_cancel_of_not_mem (ha a List.mem_cons_self)
        (hb b List.mem_cons_self) (pathBehind_cut as) (pathBehind_cut bs) same
      rw [String.toList_inj.1 first, ih (fun x mem => ha x (List.mem_cons_of_mem a mem))
        (fun x mem => hb x (List.mem_cons_of_mem b mem)) others]

/-- Names that can stand in a path. -/
def AreSegments (names : List String) : Prop :=
  ∀ name ∈ names, name ≠ "" ∧ ':' ∉ name.toList

/-- Module names have no separator in them and are not empty. -/
theorem areSegments_of_moduleNames {cs : List (List Char)} {names : List String}
    (h : moduleNames cs = .ok names) : AreSegments names := by
  intro name mem
  obtain ⟨c, _, found⟩ := exists_of_forall₂ (moduleNames_eq_ok h).flip mem
  have word := isIdentifier_of_moduleName found
  constructor
  · rintro rfl
    exact absurd word (by decide)
  · intro colon
    exact absurd (isWordChar_of_isIdentifier word ':' colon) (by decide)

/-- Names below a root. -/
def below (root : String) (names : List String) : String :=
  "::".intercalate (if root = "" then names else root :: names)

/-- Below one root, paths are equal only if their segments are. Under no root the first segment has
nothing in front of it. -/
theorem below_inj {root : String} {as bs : List String} (ha : AreSegments as)
    (hb : AreSegments bs) (h : below root as = below root bs) : as = bs := by
  have chars := congrArg String.toList h
  -- without a root the first segment has no separator in front of it
  by_cases top : root = ""
  · rw [below, below, if_pos top, if_pos top] at chars
    cases as with
    | nil =>
      cases bs with
      | nil => rfl
      | cons b bs =>
        -- a segment is not empty, so one path is not the beginning of nothing
        rw [toList_intercalate_cons] at chars
        have none : b.toList = [] := (List.append_eq_nil_iff.1 chars.symm).1
        exact absurd (String.toList_eq_nil_iff.1 none) (hb b List.mem_cons_self).1
    | cons a as =>
      cases bs with
      | nil =>
        rw [toList_intercalate_cons] at chars
        have none : a.toList = [] := (List.append_eq_nil_iff.1 chars).1
        exact absurd (String.toList_eq_nil_iff.1 none) (ha a List.mem_cons_self).1
      | cons b bs =>
        have both : pathBehind (a :: as) = pathBehind (b :: bs) := by
          rw [toList_intercalate_cons, toList_intercalate_cons] at chars
          simpa [pathBehind] using chars
        exact pathBehind_inj (fun x mem => (ha x mem).2) (fun x mem => (hb x mem).2) both
  · rw [below, below, if_neg top, if_neg top, toList_intercalate_cons, toList_intercalate_cons,
      List.append_cancel_left_eq] at chars
    exact pathBehind_inj (fun x mem => (ha x mem).2) (fun x mem => (hb x mem).2) chars

variable {root f g a b : String}

/-- The path of a module is that of the names of its file's components, below the root. -/
theorem modulePath_eq_ok_iff : modulePath root f = .ok a ↔
    trim f.toList ≠ [] ∧ f.toList.head? ≠ some '/' ∧
      ∃ names, moduleNames (components f.toList) = .ok names ∧ a = below root names := by
  have path : modulePath root f = .ok a ↔ modulePath? root f = .ok a := mapError_eq_ok
  rw [path, modulePath?, refuse_eq_ok, refuse_eq_ok, bind_eq_ok]
  simp only [pure_eq_ok, eq_comm (b := a), below]

/-- The namespace of a file is put together from module names. -/
theorem modulePath_eq_ok (h : modulePath root f = .ok a) :
    ∃ names, moduleNames (components f.toList) = .ok names ∧ a = below root names :=
  (modulePath_eq_ok_iff.1 h).2.2

/-- The qualified name of a type whose file has a namespace. -/
def qualifiedIn (space name : String) : String :=
  if space = "" then name else space ++ "::" ++ name

theorem qualify_eq_ok {namespaces : Namespaces} {space name : String}
    (h : namespaces f = .ok space) : qualify namespaces name f = .ok (qualifiedIn space name) := by
  rw [qualify, h]
  rfl

/-- A type has different qualified names in different namespaces. -/
theorem qualifiedIn_inj {name : String} (h : qualifiedIn a name = qualifiedIn b name) : a = b := by
  have longer : ∀ space : String, space ++ "::" ++ name ≠ name := by
    intro space same
    have length := congrArg String.length same
    simp at length
  unfold qualifiedIn at h
  split at h
  · next top =>
    split at h
    · next top' => rw [top, top']
    · exact absurd h.symm (longer b)
  · split at h
    · exact absurd h (longer a)
    · have chars := congrArg String.toList h
      simpa using h

/-- A component that is the name of its module: lower-case ASCII letters, digits and underscores, not
a digit first. -/
structure IsModuleName (component : List Char) : Prop where
  chars : ∀ c ∈ component, isWordChar c = true ∧ c.isUpper = false
  first : component.head?.any Char.isDigit = false

instance {component : List Char} : Decidable (IsModuleName component) :=
  decidable_of_iff ((component.all fun c => isWordChar c && !c.isUpper) = true ∧
      component.head?.any Char.isDigit = false)
    ⟨fun h => ⟨by simpa using h.1, h.2⟩, fun h => ⟨by simpa using h.chars, h.first⟩⟩

/-- A component that is a module name is its own module name. -/
theorem IsModuleName.shield_spelling {component : List Char} (h : IsModuleName component) :
    shield (spelling component) = component := by
  -- each character of a module name is kept by all that is done to a name
  have each : ∀ n : Fin 128, isWordChar (Char.ofNat n) = true → (Char.ofNat n).isUpper = false →
      isGap (Char.ofNat n) = false ∧ isUpper (Char.ofNat n) = false ∧
        toLower (Char.ofNat n) = [Char.ofNat n] := by decide
  have kept : InSnakeCase (String.ofList component) := by
    intro c mem
    rw [String.toList_ofList] at mem
    obtain ⟨word, lower⟩ := h.chars c mem
    exact forall_ascii (P := fun c => isWordChar c = true → c.isUpper = false →
      isGap c = false ∧ isUpper c = false ∧ toLower c = [c]) each (toNat_lt_of_isWordChar word)
      word lower
  have snake : snakeChars component = component := by
    have same := kept.snakeCase
    rwa [snakeCase, String.toList_ofList, String.ofList_inj] at same
  -- nothing is left to be replaced by an underscore
  have same : spelling component = component := by
    rw [spelling, snake]
    refine (List.map_congr_left fun c mem => ?_).trans (List.map_id component)
    rcases Bool.or_eq_true_iff.1 (h.chars c mem).1 with letter | underscore
    · exact if_pos letter
    · rw [beq_iff_eq.1 underscore]
      rfl
  rw [same, shield, if_neg (by simp [h.first])]

/-- Among components that are module names, only equal ones name one module. -/
theorem sameModule_iff_eq {c d : List Char} (hc : IsModuleName c) (hd : IsModuleName d) :
    SameModule c d ↔ c = d := by
  have names : shield (spelling c) = shield (spelling d) ↔ SameModule c d := shield_eq_iff
  rw [← names, hc.shield_spelling, hd.shield_spelling]

/-- Components that are the names of their modules name the same ones only if they are the same. -/
theorem forall₂_sameModule_iff {cs ds : List (List Char)} (hc : ∀ c ∈ cs, IsModuleName c)
    (hd : ∀ d ∈ ds, IsModuleName d) : List.Forall₂ SameModule cs ds ↔ cs = ds := by
  induction cs generalizing ds with
  | nil => cases ds <;> simp
  | cons c cs ih =>
    cases ds with
    | nil => simp
    | cons d ds =>
      rw [List.forall₂_cons, List.cons.injEq,
        sameModule_iff_eq (hc c List.mem_cons_self) (hd d List.mem_cons_self),
        ih (fun x mem => hc x (List.mem_cons_of_mem c mem))
          (fun x mem => hd x (List.mem_cons_of_mem d mem))]

/-- Two accepted files have one namespace exactly if their components name the same modules one by
one, and exactly then types of one name in them have one qualified name. So files whose components
are the names of their modules, with one extension, have one namespace only if they are the same
file. -/
theorem one_namespace_iff (hf : modulePath root f = .ok a) (hg : modulePath root g = .ok b) :
    (a = b ↔ List.Forall₂ SameModule (stems (components f.toList))
      (stems (components g.toList))) ∧
    (∀ name, ∃ n m, qualify (modulePath root) name f = .ok n ∧
      qualify (modulePath root) name g = .ok m ∧ (n = m ↔ a = b)) ∧
    ((∀ c ∈ stems (components f.toList) ++ stems (components g.toList), IsModuleName c) →
      (components f.toList).getLast?.map extension =
        (components g.toList).getLast?.map extension →
      (a = b ↔ components f.toList = components g.toList)) := by
  obtain ⟨as, each, rfl⟩ := modulePath_eq_ok hf
  obtain ⟨bs, each', rfl⟩ := modulePath_eq_ok hg
  have spaces : below root as = below root bs ↔ List.Forall₂ SameModule
      (stems (components f.toList)) (stems (components g.toList)) := by
    rw [← names_eq_iff (moduleNames_eq_ok each) (moduleNames_eq_ok each')]
    constructor
    · apply below_inj
      · exact areSegments_of_moduleNames each
      · exact areSegments_of_moduleNames each'
    · exact congrArg (below root)
  refine ⟨spaces, fun name => ?_, fun modules last => ?_⟩
  · refine ⟨_, _, qualify_eq_ok hf, qualify_eq_ok hg, qualifiedIn_inj, ?_⟩
    exact congrArg (qualifiedIn · name)
  · rw [spaces, forall₂_sameModule_iff (fun c mem => modules c (List.mem_append_left _ mem))
      fun d mem => modules d (List.mem_append_right _ mem)]
    constructor
    · exact fun same => eq_of_stems_eq same last
    · exact congrArg stems

/-- The second path has empty components and one of a dot, which name nothing. -/
theorem clients_apart :
    modulePath "crate" "clients/bar.thrift" = .ok "crate::clients::bar" ∧
      modulePath "crate" "./clients//baz.thrift" = .ok "crate::clients::baz" ∧
      components "clients/bar.thrift".toList ≠ components "./clients//baz.thrift".toList ∧
      "crate::clients::bar" ≠ "crate::clients::baz" := by
  have bar : modulePath "crate" "clients/bar.thrift" = .ok "crate::clients::bar" := by decide +kernel
  have baz : modulePath "crate" "./clients//baz.thrift" = .ok "crate::clients::baz" := by
    decide +kernel
  have differ : components "clients/bar.thrift".toList ≠
      components "./clients//baz.thrift".toList := by decide +kernel
  have modules := (one_namespace_iff bar baz).2.2 (by decide +kernel) (by decide +kernel)
  exact ⟨bar, baz, differ, mt modules.1 differ⟩

/-- A plus sign and an underscore are spelled alike. -/
theorem user_data_shared :
    modulePath "crate" "api/user_data.thrift" = .ok "crate::api::user_data" ∧
      modulePath "crate" "api/user+data.thrift" = .ok "crate::api::user_data" ∧
      components "api/user_data.thrift".toList ≠ components "api/user+data.thrift".toList ∧
      qualify (modulePath "crate") "User" "api/user_data.thrift" =
        qualify (modulePath "crate") "User" "api/user+data.thrift" := by
  decide +kernel

end Namespaces

end Crosswalk
