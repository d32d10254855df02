import Crosswalk.Proofs.Renaming

/-!
# Conversions that are left out

A conversion that cannot be generated leaves nothing behind. What the text of a function is does not
depend on whether others may be left out, so the setting only decides what becomes of a module in
which a conversion fails: its text without that conversion, or the first error.

Every step of the converter and every line of code is the same under both settings; these are the
`_withFailFast` lemmas, by mutual recursion as in the functions. `generateEach_eq` and
`generateEach_eq_error_iff` then say what a list of conversions gives, in terms of the single ones
that succeed.
-/

namespace Crosswalk
set_option autoImplicit false

/-! ## Runs that differ in the setting -/

/-- The same settings with another answer to what becomes of a failing conversion. -/
def Settings.withFailFast (s : Settings) (fast : Bool) : Settings :=
  { s with failFast := fast }

/-- A converter with the settings changed so. -/
def Converter.withFailFast (cv : Converter) (fast : Bool) : Converter :=
  { cv with settings := cv.settings.withFailFast fast }

namespace Converter
variable {cv : Converter} {fast : Bool}

/-- The body of a struct is the same if its fields are. -/
theorem structBody_withFailFast {level : Level} {name file : String} {fill fill' : Filler}
    (same : ∀ inner sources, fill inner sources = fill' inner sources) :
    (cv.withFailFast fast).structBody level name file fill =
      cv.structBody level name file fill' := by
  obtain rfl : fill = fill' := by
    funext inner sources
    exact same inner sources
  rfl

/-- An aggregate does not look at the setting. -/
theorem convertAggregate_withFailFast {shape : Shape} {dest : Ty}
    {body? : Option (Slot → Candidate → Except ConvertError Block)} {slot : Slot}
    {choice : Choice} :
    (cv.withFailFast fast).convertAggregate shape dest body? slot choice =
      cv.convertAggregate shape dest body? slot choice :=
  rfl

mutual

/-- Fields are converted alike. -/
theorem convertFields_withFailFast : ∀ (dests : List Field) (level : Level)
    (sources : List Field), (cv.withFailFast fast).convertFields level sources dests =
      cv.convertFields level sources dests
  | [], _, _ => rfl
  | f :: rest, level, sources => by
    have first := convertField_withFailFast f level sources
    have others := convertFields_withFailFast rest level sources
    rw [convertFields, convertFields, first, others]

/-- A field is converted alike. -/
theorem convertField_withFailFast : ∀ (f : Field) (level : Level) (sources : List Field),
    (cv.withFailFast fast).convertField level sources f = cv.convertField level sources f
  | ⟨name, type, required, file⟩, level, sources => by
    rw [convertField, convertField]
    congr 1
    funext choice
    exact convertType_withFailFast type level _ choice

/-- A slot is filled alike. -/
theorem convertType_withFailFast : ∀ (type : Ty) (level : Level) (slot : Slot) (choice : Choice),
    (cv.withFailFast fast).convertType level slot choice type =
      cv.convertType level slot choice type
  -- types without a level below do not look at the settings
  | .primitive _, _, _, _ => rfl
  | .enum .., _, _, _ => rfl
  | .typedef .., _, _, _ => rfl
  | .binary, _, _, _ => rfl
  | .set _, _, _, _ => rfl
  | .struct name file fields, level, slot, choice => by
    rw [convertType, convertType,
      structBody_withFailFast fun inner sources => convertFields_withFailFast fields inner sources]
  | .list element, level, slot, choice => by
    rw [convertType, convertType, elementBody?_withFailFast element level,
      convertAggregate_withFailFast]
  | .map key value, level, slot, choice => by
    rw [convertType, convertType, elementBody?_withFailFast value level,
      convertAggregate_withFailFast]

/-- Elements are filled alike. -/
theorem elementBody?_withFailFast : ∀ (type : Ty) (level : Level),
    (cv.withFailFast fast).elementBody? level type = cv.elementBody? level type
  | .primitive _, _ => rfl
  | .enum .., _ => rfl
  | .typedef .., _ => rfl
  | .binary, _ => rfl
  | .set _, _ => rfl
  | .struct name file fields, level => by
    rw [elementBody?, elementBody?,
      structBody_withFailFast fun inner sources => convertFields_withFailFast fields inner sources]
  | .list _, _ => rfl
  | .map .., _ => rfl

end

end Converter

namespace Code
variable {s : Settings} {fast : Bool}

mutual

/-- The lines of a block are the same. -/
theorem blockLines_withFailFast : ∀ (block : Block) (depth : Nat) (declared : List String),
    blockLines (s.withFailFast fast) depth declared block = blockLines s depth declared block
  | [], _, _ => rfl
  | statement :: rest, depth, declared => by
    rw [blockLines, blockLines, statementLines_withFailFast statement depth declared]
    simp only [blockLines_withFailFast rest]

/-- The lines of a statement are the same. -/
theorem statementLines_withFailFast : ∀ (statement : Statement) (depth : Nat)
    (declared : List String), statementLines (s.withFailFast fast) depth declared statement =
      statementLines s depth declared statement
  | .assign .., _, _ => rfl
  | .allocate .., _, _ => rfl
  | .branch condition yes no, depth, declared => by
    rw [statementLines, statementLines]
    simp only [blockLines_withFailFast yes, blockLines_withFailFast no]
    rfl
  | .loop iterable binding body, depth, declared => by
    rw [statementLines, statementLines]
    simp only [blockLines_withFailFast body]
    rfl

end

/-- The text of a function is the same. -/
theorem functionText_withFailFast (name source dest : String) (body : Block) :
    functionText (s.withFailFast fast) name source dest body =
      functionText s name source dest body := by
  have text : blockText (s.withFailFast fast) 1 body = blockText s 1 body := by
    unfold blockText
    rw [blockLines_withFailFast]
    rfl
  unfold functionText
  rw [text]
  rfl

end Code

/-- What is generated for a conversion does not depend on what becomes of failing ones. -/
theorem Converter.generateOne_withFailFast (cv : Converter) (fast : Bool) (x : Conversion) :
    (cv.withFailFast fast).generateOne x = cv.generateOne x := by
  have settings : (cv.withFailFast fast).settings = cv.settings.withFailFast fast := rfl
  have ends (s : Struct) : (cv.withFailFast fast).structName s = cv.structName s := rfl
  unfold generateOne convert
  simp only [convertFields_withFailFast, ends, settings, Code.functionText_withFailFast]

/-! ## The functions of a module -/

namespace Converter
variable {cv : Converter} {cs : List Conversion} {x : Conversion} {fast : Bool}

/-- Whether there is a function for a conversion. -/
def generates (cv : Converter) (x : Conversion) : Bool :=
  (cv.generateOne x).toOption.isSome

/-- The functions of the conversions for which there is one, in order. -/
def functions (cv : Converter) (cs : List Conversion) : List String :=
  cs.filterMap fun x => (cv.generateOne x).toOption

theorem generates_iff : cv.generates x = true ↔ ∃ text, cv.generateOne x = .ok text := by
  rw [generates, Option.isSome_iff_exists]
  exact exists_congr fun text => toOption_eq_some

theorem not_generates_iff : cv.generates x = false ↔ ∃ e, cv.generateOne x = .error e := by
  unfold generates
  cases cv.generateOne x <;> simp [Except.toOption]

/-- There is a function for the same conversions. -/
theorem generates_withFailFast : (cv.withFailFast fast).generates x = cv.generates x := by
  rw [generates, generates, generateOne_withFailFast]

/-- The functions are the same. -/
theorem functions_withFailFast : (cv.withFailFast fast).functions cs = cv.functions cs := by
  simp only [functions, generateOne_withFailFast]

/-- The functions are those of the conversions that have one. -/
theorem functions_filter : cv.functions (cs.filter cv.generates) = cv.functions cs := by
  unfold functions
  rw [List.filterMap_filter]
  congr 1
  funext x
  cases one : cv.generateOne x <;> simp [generates, one, Except.toOption]

/-- A module has the functions there are, if failing conversions may be left out or none fails. -/
theorem generateEach_eq (complete : cv.settings.failFast = true → ∀ x ∈ cs, cv.generates x = true) :
    cv.generateEach cs = .ok (String.join ((cv.functions cs).map ("\n" ++ ·))) := by
  -- a conversion that fails adds no text, unless it may not be left out
  induction cs with
  | nil => rfl
  | cons x rest ih =>
    have others := ih fun fast y mem => complete fast y (List.mem_cons_of_mem x mem)
    rw [generateEach, others]
    cases one : cv.generateOne x with
    | ok text =>
      have functions : cv.functions (x :: rest) = text :: cv.functions rest := by
        simp [Converter.functions, one, Except.toOption]
      rw [functions, List.map_cons, String.join_cons]
      rfl
    | error e =>
      have functions : cv.functions (x :: rest) = cv.functions rest := by
        simp [Converter.functions, one, Except.toOption]
      have slow : ¬ cv.settings.failFast = true := by
        intro fast
        obtain ⟨text, found⟩ := generates_iff.1 (complete fast x List.mem_cons_self)
        cases one.symm.trans found
      rw [functions]
      exact if_neg slow

/-- Where nothing may be left out, the error is that of the first conversion that fails. -/
theorem generateEach_eq_error_iff (fast : cv.settings.failFast = true) {e : GenerateError} :
    cv.generateEach cs = .error e ↔ ∃ before x after, cs = before ++ x :: after ∧
      (∀ y ∈ before, cv.generates y = true) ∧ cv.generateOne x = .error e := by
  -- the first that fails ends the run; those before it have their functions
  constructor
  · intro h
    induction cs with
    | nil => cases h
    | cons x rest ih =>
      rw [generateEach] at h
      split at h
      · next text one =>
        rcases bind_eq_error.1 h with others | ⟨_, _, done⟩
        · obtain ⟨before, y, after, rfl, generated, failed⟩ := ih others
          refine ⟨x :: before, y, after, rfl, ?_, failed⟩
          exact List.forall_mem_cons.2 ⟨generates_iff.2 ⟨text, one⟩, generated⟩
        · cases done
      · next failed one =>
        rw [if_pos fast] at h
        cases h
        exact ⟨[], x, rest, rfl, List.forall_mem_nil _, one⟩
  · rintro ⟨before, x, after, rfl, generated, failed⟩
    induction before with
    | nil =>
      rw [List.nil_append, generateEach, failed]
      exact if_pos fast
    | cons y before ih =>
      obtain ⟨first, generated⟩ := List.forall_mem_cons.1 generated
      obtain ⟨text, one⟩ := generates_iff.1 first
      rw [List.cons_append, generateEach, one]
      exact bind_eq_error.2 (.inl (ih generated))

end Converter

namespace Catalog
variable {c : Catalog} {cv : Converter} {fast : Bool}

/-- The same schemas and types with other conversions. -/
def withConversions (c : Catalog) (conversions : List Conversion) : Catalog :=
  { c with conversions }

/-- With valid settings a module is its header and then its functions. -/
theorem generate_of_valid (valid : cv.settings.validate = .ok ()) :
    c.generate (cv.withFailFast fast) =
      (cv.withFailFast fast).generateEach c.conversions >>= fun text => pure (c.header ++ text) := by
  have checked : (cv.withFailFast fast).settings.validate = .ok () := valid
  rw [generate, checked]
  rfl

/-- If no conversion fails, or those that do are left out, then the module has the functions of the
others. -/
theorem generate_eq_ok_of_complete (valid : cv.settings.validate = .ok ())
    (complete : fast = true → ∀ x ∈ c.conversions, cv.generates x = true) :
    c.generate (cv.withFailFast fast) =
      .ok (c.header ++ String.join ((cv.functions c.conversions).map ("\n" ++ ·))) := by
  have each : (cv.withFailFast fast).generateEach c.conversions =
      .ok (String.join (((cv.withFailFast fast).functions c.conversions).map ("\n" ++ ·))) := by
    apply Converter.generateEach_eq
    intro setting x mem
    exact Converter.generates_withFailFast.trans (complete setting x mem)
  rw [generate_of_valid valid, each, Converter.functions_withFailFast]
  rfl

end Catalog

/-- Leaving out conversions that fail is harmless. A module has a function for every conversion that
can be generated by itself, in order, and is the module of these conversions alone. Where nothing
may be left out it is the same module if no conversion fails, and else the error is that of the
first that does. -/
theorem left_out_without_trace (c : Catalog) (cv : Converter)
    (valid : cv.settings.validate = .ok ()) :
    (∀ x, cv.generates x = true ↔
      ∃ text, (c.withConversions [x]).generate (cv.withFailFast true) = .ok text) ∧
    c.generate (cv.withFailFast false) =
      .ok (c.header ++ String.join ((cv.functions c.conversions).map ("\n" ++ ·))) ∧
    (∀ fast, (c.withConversions (c.conversions.filter cv.generates)).generate
      (cv.withFailFast fast) = c.generate (cv.withFailFast false)) ∧
    ((∀ x ∈ c.conversions, cv.generates x = true) →
      c.generate (cv.withFailFast true) = c.generate (cv.withFailFast false)) ∧
    ∀ e, c.generate (cv.withFailFast true) = .error e ↔
      ∃ before x after, c.conversions = before ++ x :: after ∧
        (∀ y ∈ before, cv.generates y = true) ∧ cv.generateOne x = .error e := by
  have slow : c.generate (cv.withFailFast false) =
      .ok (c.header ++ String.join ((cv.functions c.conversions).map ("\n" ++ ·))) :=
    Catalog.generate_eq_ok_of_complete valid nofun
  refine ⟨fun x => ?_, slow, fun fast => ?_, fun all => ?_, fun e => ?_⟩
  -- a module of one conversion has its function exactly if there is one
  · constructor
    · intro generated
      have complete : ∀ y ∈ (c.withConversions [x]).conversions, cv.generates y = true := by
        intro y mem
        rw [List.mem_singleton.1 mem]
        exact generated
      exact ⟨_, Catalog.generate_eq_ok_of_complete valid fun _ => complete⟩
    · rintro ⟨text, whole⟩
      rw [Catalog.generate_of_valid valid] at whole
      obtain ⟨each, generated, _⟩ := bind_eq_ok.1 whole
      obtain ⟨kept, functions, _, all, related, _⟩ := Converter.generateEach_eq_ok generated
      obtain rfl : kept = [x] := all rfl
      obtain ⟨function, _, one⟩ := exists_of_forall₂ related List.mem_cons_self
      rw [Converter.generateOne_withFailFast] at one
      exact Converter.generates_iff.2 ⟨function, one⟩
  -- the conversions that are kept all have functions
  · have complete : ∀ x ∈ (c.withConversions (c.conversions.filter cv.generates)).conversions,
        cv.generates x = true :=
      fun x mem => (List.mem_filter.1 mem).2
    rw [Catalog.generate_eq_ok_of_complete valid fun _ => complete, slow]
    show Except.ok (c.header ++ String.join
      ((cv.functions (c.conversions.filter cv.generates)).map ("\n" ++ ·))) = _
    rw [Converter.functions_filter]
  · rw [slow, Catalog.generate_eq_ok_of_complete valid fun _ => all]
  -- the first that fails is the error of the run, since the header cannot fail
  · have first : (cv.withFailFast true).generateEach c.conversions = .error e ↔ _ :=
      Converter.generateEach_eq_error_iff rfl
    simp only [Converter.generateOne_withFailFast, Converter.generates_withFailFast] at first
    rw [← first, Catalog.generate_of_valid valid, bind_eq_error]
    constructor
    · rintro (failed | ⟨_, _, done⟩)
      · exact failed
      · cases done
    · exact .inl

namespace Gateway

/-! Of three conversions the second has a destination field without a source. -/

/-- A user with one field of the given name. -/
def user (name : String) : Struct :=
  ⟨"User", "api.thrift", [⟨name, .primitive .string, true, "api.thrift"⟩]⟩

def copy : Conversion := ⟨"Copy", user "Id", user "Id", []⟩

/-- The destination has a name, which the source has not. -/
def broken : Conversion := ⟨"Broken", user "Id", user "Name", []⟩

/-- Its name is there. -/
def share : Conversion := ⟨"Share", user "Name", user "Name", []⟩

/-- The broken conversion stands between two others. -/
def catalog : Catalog where
  schemas := [("api", "api.thrift")]
  types := []
  conversions := [copy, broken, share]

/-- The error of the broken conversion. -/
def missing : GenerateError :=
  .convert "Broken" ⟨Path.root.field "Name", .noSource⟩

/-- Leaving out the broken conversion gives the module without it; otherwise its error is that of
the module. -/
theorem broken_left_out :
    ∃ text, catalog.generate (cv.withFailFast false) = .ok text ∧
      (catalog.withConversions [copy, share]).generate (cv.withFailFast true) = .ok text ∧
      catalog.generate (cv.withFailFast true) = .error missing := by
  have valid : cv.settings.validate = .ok () := by decide
  have failed : cv.generateOne broken = .error missing := by decide +kernel
  have first : cv.generates copy = true := by decide +kernel
  have last : cv.generates share = true := by decide +kernel
  have none : cv.generates broken = false := Converter.not_generates_iff.2 ⟨_, failed⟩
  have kept : catalog.conversions.filter cv.generates = [copy, share] := by
    simp [catalog, first, none, last]
  obtain ⟨_, slow, filtered, _, errors⟩ := left_out_without_trace catalog cv valid
  have same := filtered true
  rw [kept] at same
  refine ⟨_, slow, same.trans slow, (errors missing).2 ⟨[copy], broken, [share], rfl, ?_, failed⟩⟩
  intro y mem
  rw [List.mem_singleton.1 mem]
  exact first

end Gateway

end Crosswalk
