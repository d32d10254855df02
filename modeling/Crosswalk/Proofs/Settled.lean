import Crosswalk.Proofs.Catalog

/-!
# What the search settles

Whatever the names of definitions are, the search settles the definitions that it enters and no
others: each gets its own declaration with the references in it replaced by what is remembered where
they lead. Nothing that is settled changes later, and what is on the stack is not settled by the
way.

`Entered` is the relation of what the search comes by, and `Settled` says of a cache that it holds
these definitions and no others, each with its references replaced. `StepSettles` is one level of
the search, with the references below assumed; `resolve_settles` is the run, by the same induction
on the stack as for unfoldings.
-/

namespace Crosswalk
set_option autoImplicit false

/-! ## Resolution by look-ups -/

section
variable {look look' : String → Option Ty} {file : String} {ty : Ty}

/-- A look-up that knows more gives the same types where the first one gives any. -/
theorem TypeExpr.resolve_mono {e : TypeExpr}
    (more : ∀ r ty, look r = some ty → look' r = some ty) (h : e.resolve look = some ty) :
    e.resolve look' = some ty := by
  induction e generalizing ty with
  | primitive p => exact h
  | binary => exact h
  | named name => exact more name ty h
  | list element ih =>
    obtain ⟨inner, first, h⟩ := Option.bind_eq_some_iff.1 h
    exact Option.bind_eq_some_iff.2 ⟨inner, ih first, h⟩
  | set element ih =>
    obtain ⟨inner, first, h⟩ := Option.bind_eq_some_iff.1 h
    exact Option.bind_eq_some_iff.2 ⟨inner, ih first, h⟩
  | map key value ihk ihv =>
    obtain ⟨keyTy, first, h⟩ := Option.bind_eq_some_iff.1 h
    obtain ⟨valueTy, second, h⟩ := Option.bind_eq_some_iff.1 h
    exact Option.bind_eq_some_iff.2
      ⟨keyTy, ihk first, Option.bind_eq_some_iff.2 ⟨valueTy, ihv second, h⟩⟩

/-- The same for the fields of a struct. -/
theorem FieldDecl.resolve_mono {fields : List FieldDecl} {members : List Field}
    (more : ∀ r ty, look r = some ty → look' r = some ty)
    (h : fields.mapM (·.resolve look file) = some members) :
    fields.mapM (·.resolve look' file) = some members := by
  induction fields generalizing members with
  | nil => exact h
  | cons f rest ih =>
    rw [List.mapM_cons] at h ⊢
    obtain ⟨member, first, h⟩ := Option.bind_eq_some_iff.1 h
    obtain ⟨others, later, h⟩ := Option.bind_eq_some_iff.1 h
    obtain ⟨type, resolved, first⟩ := Option.bind_eq_some_iff.1 first
    exact Option.bind_eq_some_iff.2 ⟨member,
      Option.bind_eq_some_iff.2 ⟨type, TypeExpr.resolve_mono more resolved, first⟩,
      Option.bind_eq_some_iff.2 ⟨others, ih later, h⟩⟩

/-- A definition stays what it is when more is remembered. -/
theorem Definition.resolve_mono {x : Definition}
    (more : ∀ r ty, look r = some ty → look' r = some ty) (h : x.resolve look file = some ty) :
    x.resolve look' file = some ty := by
  cases x with
  | struct name fields =>
    obtain ⟨members, inside, h⟩ := Option.bind_eq_some_iff.1 h
    exact Option.bind_eq_some_iff.2 ⟨members, FieldDecl.resolve_mono more inside, h⟩
  | enum name values => exact h
  | typedef name target =>
    obtain ⟨inner, inside, h⟩ := Option.bind_eq_some_iff.1 h
    exact Option.bind_eq_some_iff.2 ⟨inner, TypeExpr.resolve_mono more inside, h⟩

/-- All references of a type that is resolved have been found. -/
theorem TypeExpr.exists_of_resolve {e : TypeExpr} {r : String} (h : e.resolve look = some ty)
    (mem : r ∈ e.references) : ∃ inner, look r = some inner := by
  induction e generalizing ty with
  | primitive p => cases mem
  | binary => cases mem
  | named name =>
    obtain rfl := List.mem_singleton.1 mem
    exact ⟨ty, h⟩
  | list element ih =>
    obtain ⟨inner, first, _⟩ := Option.bind_eq_some_iff.1 h
    exact ih first mem
  | set element ih =>
    obtain ⟨inner, first, _⟩ := Option.bind_eq_some_iff.1 h
    exact ih first mem
  | map key value ihk ihv =>
    obtain ⟨keyTy, first, h⟩ := Option.bind_eq_some_iff.1 h
    obtain ⟨valueTy, second, _⟩ := Option.bind_eq_some_iff.1 h
    rcases List.mem_append.1 mem with mem | mem
    · exact ihk first mem
    · exact ihv second mem

theorem FieldDecl.exists_of_resolve {fields : List FieldDecl} {members : List Field}
    {f : FieldDecl} (h : fields.mapM (·.resolve look file) = some members) (mem : f ∈ fields) :
    ∃ ty, f.type.resolve look = some ty := by
  induction fields generalizing members with
  | nil => cases mem
  | cons g rest ih =>
    rw [List.mapM_cons] at h
    obtain ⟨member, first, h⟩ := Option.bind_eq_some_iff.1 h
    obtain ⟨others, later, _⟩ := Option.bind_eq_some_iff.1 h
    rcases List.mem_cons.1 mem with rfl | mem
    · obtain ⟨type, resolved, _⟩ := Option.bind_eq_some_iff.1 first
      exact ⟨type, resolved⟩
    · exact ih later mem

/-- All references of a definition that is resolved are found. -/
theorem Definition.exists_of_resolve {x : Definition} {r : String}
    (h : x.resolve look file = some ty) (mem : r ∈ x.references) :
    ∃ inner, look r = some inner := by
  cases x with
  | struct name fields =>
    obtain ⟨members, inside, _⟩ := Option.bind_eq_some_iff.1 h
    obtain ⟨f, among, mem⟩ := List.mem_flatMap.1 mem
    obtain ⟨type, resolved⟩ := FieldDecl.exists_of_resolve inside among
    exact TypeExpr.exists_of_resolve resolved mem
  | enum name values => cases mem
  | typedef name target =>
    obtain ⟨inner, inside, _⟩ := Option.bind_eq_some_iff.1 h
    exact TypeExpr.exists_of_resolve inside mem

/-- What a definition is resolved to is of its kind and has its name and file. -/
theorem Definition.resolve_heading {x : Definition} (h : x.resolve look file = some ty) :
    ty.kind = x.kind ∧ ty.name? = some x.name ∧ ty.file? = some file := by
  cases x with
  | struct name fields =>
    obtain ⟨members, _, h⟩ := Option.bind_eq_some_iff.1 h
    cases h
    exact ⟨rfl, rfl, rfl⟩
  | enum name values =>
    cases h
    exact ⟨rfl, rfl, rfl⟩
  | typedef name target =>
    obtain ⟨inner, _, h⟩ := Option.bind_eq_some_iff.1 h
    cases h
    exact ⟨rfl, rfl, rfl⟩

end

/-! ## What is entered -/

namespace Document
variable {d : Document} {home target : d.Home} {r : String} {x y : Definition}

/-- A reference in a schema is looked up as a definition of the schema that it leads to. -/
def LeadsTo (d : Document) (home : d.Home) (r : String) (target : d.Home) (x : Definition) : Prop :=
  ∃ name, d.locate home r = .ok (target, name) ∧ target.1.find? name = some x

/-- A definition is entered if the name of one, read as a reference, leads to it, or an end of a
conversion does, or a reference in one that is entered. -/
inductive Entered (d : Document) : d.Home → Definition → Prop
  | named {home target : d.Home} {x y : Definition} (mem : x ∈ home.1.definitions)
      (leads : d.LeadsTo home x.name target y) : Entered d target y
  | ending {c : ConversionDecl} {reference r : String} {home target : d.Home} {y : Definition}
      (mem : c ∈ d.conversions) (written : reference ∈ [c.source, c.dest])
      (ends : d.EndsIn reference home r) (leads : d.LeadsTo home r target y) : Entered d target y
  | inside {home target : d.Home} {x y : Definition} {r : String} (h : Entered d home x)
      (mem : r ∈ x.references) (leads : d.LeadsTo home r target y) : Entered d target y

/-- The type that is remembered where a reference leads. -/
def typeAt (d : Document) (cache : Cache) (home : d.Home) (r : String) : Option Ty :=
  match d.locate home r with
  | .ok (target, name) => cache.lookup (target.1.key name)
  | .error _ => none

/-- What is remembered for a definition is the definition, with its references looked up. -/
def Resolves (d : Document) (cache : Cache) (home : d.Home) (x : Definition) (ty : Ty) : Prop :=
  x.resolve (d.typeAt cache home) home.1.file = some ty

/-- All that is remembered is what definitions that are entered are resolved to. -/
def Settled (d : Document) (cache : Cache) : Prop :=
  ∀ key ty, cache.lookup key = some ty →
    ∃ home x, x ∈ home.1.definitions ∧ key = home.1.key x.name ∧ d.Entered home x ∧
      d.Resolves cache home x ty

/-- The search goes on from one cache to another, with definitions on the stack. -/
structure Proceeds (d : Document) (stack : List String) (before after : Cache) : Prop where
  settled : d.Settled after
  kept : ∀ key ty, before.lookup key = some ty → after.lookup key = some ty
  unmet : ∀ key ∈ stack, after.lookup key = before.lookup key

/-- Without a step nothing is settled that was not before. -/
theorem Proceeds.refl {stack : List String} {cache : Cache} (h : d.Settled cache) :
    d.Proceeds stack cache cache :=
  ⟨h, fun _ _ => id, fun _ _ => rfl⟩

/-- Two runs of the search, one after the other, are one run. -/
theorem Proceeds.trans {stack : List String} {a b c : Cache} (h : d.Proceeds stack a b)
    (h' : d.Proceeds stack b c) : d.Proceeds stack a c where
  settled := h'.settled
  kept key ty known := h'.kept key ty (h.kept key ty known)
  unmet key mem := (h'.unmet key mem).trans (h.unmet key mem)

variable {stack : List String} {cache cache' : Cache} {ref : String → Resolving Ty} {ty : Ty}

/-- What a reference leads to stays when more is remembered. -/
theorem typeAt_mono (more : ∀ key ty, cache.lookup key = some ty → cache'.lookup key = some ty)
    (known : d.typeAt cache home r = some ty) : d.typeAt cache' home r = some ty := by
  unfold typeAt at known ⊢
  split at known
  · exact more _ ty known
  · cases known

/-- So does the type of what is written. -/
theorem Resolves.mono (more : ∀ key ty, cache.lookup key = some ty → cache'.lookup key = some ty)
    (h : d.Resolves cache home x ty) : d.Resolves cache' home x ty :=
  Definition.resolve_mono (fun _ _ => typeAt_mono more) h

/-- A step that settles where a reference leads. -/
def StepSettles (d : Document) (stack : List String) (home : d.Home) (ref : String → Resolving Ty)
    (r : String) : Prop :=
  ∀ cache ty cache', d.Settled cache → ref r cache = .ok (ty, cache') →
    d.Proceeds stack cache cache' ∧ d.typeAt cache' home r = some ty

/-- An expression is resolved from what the cache holds behind it, if each of its references
settles. -/
theorem resolve_expr_settles {e : TypeExpr}
    (step : ∀ r ∈ e.references, d.StepSettles stack home ref r) (settled : d.Settled cache)
    (h : e.resolve ref cache = .ok (ty, cache')) :
    d.Proceeds stack cache cache' ∧ e.resolve (d.typeAt cache' home) = some ty := by
  -- induction on the type; what was found stays found as more is remembered
  induction e generalizing cache cache' ty with
  | primitive p =>
    obtain ⟨rfl, rfl⟩ := stateT_pure_eq_ok.1 h
    exact ⟨.refl settled, rfl⟩
  | binary =>
    obtain ⟨rfl, rfl⟩ := stateT_pure_eq_ok.1 h
    exact ⟨.refl settled, rfl⟩
  | named name => exact step name List.mem_cons_self cache ty cache' settled h
  | list element ih =>
    obtain ⟨inner, between, first, h⟩ := stateT_bind_eq_ok.1 h
    obtain ⟨rfl, rfl⟩ := stateT_pure_eq_ok.1 h
    obtain ⟨proceeds, found⟩ := ih step settled first
    exact ⟨proceeds, Option.bind_eq_some_iff.2 ⟨inner, found, rfl⟩⟩
  | set element ih =>
    obtain ⟨inner, between, first, h⟩ := stateT_bind_eq_ok.1 h
    obtain ⟨rfl, rfl⟩ := stateT_pure_eq_ok.1 h
    obtain ⟨proceeds, found⟩ := ih step settled first
    exact ⟨proceeds, Option.bind_eq_some_iff.2 ⟨inner, found, rfl⟩⟩
  | map key value ihk ihv =>
    obtain ⟨keyTy, between, first, h⟩ := stateT_bind_eq_ok.1 h
    obtain ⟨valueTy, after, second, h⟩ := stateT_bind_eq_ok.1 h
    obtain ⟨rfl, rfl⟩ := stateT_pure_eq_ok.1 h
    obtain ⟨proceeds, foundKey⟩ :=
      ihk (fun r mem => step r (List.mem_append_left _ mem)) settled first
    obtain ⟨proceeds', foundValue⟩ :=
      ihv (fun r mem => step r (List.mem_append_right _ mem)) proceeds.settled second
    -- the key was found before the value was resolved
    have later := TypeExpr.resolve_mono (fun _ _ => typeAt_mono proceeds'.kept) foundKey
    exact ⟨proceeds.trans proceeds', Option.bind_eq_some_iff.2
      ⟨keyTy, later, Option.bind_eq_some_iff.2 ⟨valueTy, foundValue, rfl⟩⟩⟩

/-- So are fields, where the cache grows from each to the next and all are read off the last. -/
theorem resolve_fields_settles {fields : List FieldDecl} {members : List Field}
    (step : ∀ f ∈ fields, ∀ r ∈ f.type.references, d.StepSettles stack home ref r)
    (settled : d.Settled cache)
    (h : fields.mapM (·.resolve ref home.1.file) cache = .ok (members, cache')) :
    d.Proceeds stack cache cache' ∧
      fields.mapM (·.resolve (d.typeAt cache' home) home.1.file) = some members := by
  induction fields generalizing cache members with
  | nil =>
    obtain ⟨rfl, rfl⟩ := stateT_pure_eq_ok.1 h
    exact ⟨.refl settled, rfl⟩
  | cons f rest ih =>
    rw [List.mapM_cons] at h
    obtain ⟨member, between, first, h⟩ := stateT_bind_eq_ok.1 h
    obtain ⟨others, after, later, h⟩ := stateT_bind_eq_ok.1 h
    obtain ⟨rfl, rfl⟩ := stateT_pure_eq_ok.1 h
    obtain ⟨type, between', resolved, first⟩ := stateT_bind_eq_ok.1 first
    obtain ⟨rfl, rfl⟩ := stateT_pure_eq_ok.1 first
    obtain ⟨proceeds, found⟩ := resolve_expr_settles (step f List.mem_cons_self) settled resolved
    obtain ⟨proceeds', foundOthers⟩ :=
      ih (fun g mem => step g (List.mem_cons_of_mem f mem)) proceeds.settled later
    have behind := TypeExpr.resolve_mono (fun _ _ => typeAt_mono proceeds'.kept) found
    refine ⟨proceeds.trans proceeds', ?_⟩
    rw [List.mapM_cons]
    exact Option.bind_eq_some_iff.2 ⟨_, Option.bind_eq_some_iff.2 ⟨type, behind, rfl⟩,
      Option.bind_eq_some_iff.2 ⟨others, foundOthers, rfl⟩⟩

/-- A definition is resolved to what it is by look-ups, if its references are settled. -/
theorem resolve_definition_settles
    (step : ∀ r ∈ x.references, d.StepSettles stack home ref r) (settled : d.Settled cache)
    (h : x.resolve ref home.1.file cache = .ok (ty, cache')) :
    d.Proceeds stack cache cache' ∧ d.Resolves cache' home x ty := by
  cases x with
  | struct name fields =>
    obtain ⟨members, between, resolved, h⟩ := stateT_bind_eq_ok.1 h
    obtain ⟨rfl, rfl⟩ := stateT_pure_eq_ok.1 h
    have each : ∀ f ∈ fields, ∀ r ∈ f.type.references, d.StepSettles stack home ref r :=
      fun f among r mem => step r (List.mem_flatMap.2 ⟨f, among, mem⟩)
    obtain ⟨proceeds, found⟩ := resolve_fields_settles each settled resolved
    exact ⟨proceeds, Option.bind_eq_some_iff.2 ⟨members, found, rfl⟩⟩
  | enum name values =>
    obtain ⟨rfl, rfl⟩ := stateT_pure_eq_ok.1 h
    exact ⟨.refl settled, rfl⟩
  | typedef name target =>
    obtain ⟨inner, between, resolved, h⟩ := stateT_bind_eq_ok.1 h
    obtain ⟨rfl, rfl⟩ := stateT_pure_eq_ok.1 h
    obtain ⟨proceeds, found⟩ := resolve_expr_settles step settled resolved
    exact ⟨proceeds, Option.bind_eq_some_iff.2 ⟨inner, found, rfl⟩⟩

/-- An entry for another key does not matter. -/
theorem lookup_cons_of_ne {key key' : String} (other : key ≠ key') :
    ((key', ty) :: cache).lookup key = cache.lookup key := by
  rw [List.lookup_cons, beq_eq_false_iff_ne.2 other]

/-- A definition that was not remembered is remembered next. -/
theorem Settled.cons (settled : d.Settled cache) (mem : x ∈ home.1.definitions)
    (unknown : cache.lookup (home.1.key x.name) = none) (entered : d.Entered home x)
    (resolves : d.Resolves cache home x ty) :
    d.Settled ((home.1.key x.name, ty) :: cache) ∧ ∀ key ty', cache.lookup key = some ty' →
      ((home.1.key x.name, ty) :: cache).lookup key = some ty' := by
  have kept : ∀ key ty', cache.lookup key = some ty' →
      ((home.1.key x.name, ty) :: cache).lookup key = some ty' := by
    intro key ty' known
    rw [lookup_cons_of_ne fun same => by simp [same, unknown] at known]
    exact known
  refine ⟨fun key ty' known => ?_, kept⟩
  rw [List.lookup_cons] at known
  split at known
  · next same =>
    obtain rfl : key = home.1.key x.name := by simpa using same
    cases known
    exact ⟨home, x, mem, rfl, entered, resolves.mono kept⟩
  · obtain ⟨home', x', mem', key', entered', resolves'⟩ := settled key ty' known
    exact ⟨home', x', mem', key', entered', resolves'.mono kept⟩

/-- The search for a reference settles where it leads. -/
theorem resolve_settles (stack : List String) :
    ∀ (home : d.Home) (r : String), (∀ target y, d.LeadsTo home r target y → d.Entered target y) →
      d.StepSettles stack home (d.resolve stack home) r := by
  induction stack using d.stack_induction with
  | step stack ih =>
    intro home r entered cache ty cache' settled h
    obtain ⟨target, name, located, ⟨known, rfl⟩ | opened⟩ := resolve_eq_ok h
    · refine ⟨.refl settled, ?_⟩
      rw [typeAt, located]
      exact known
    · obtain ⟨x, between, unknown, fresh, found, resolved, rfl⟩ := opened
      obtain rfl := Schema.name_of_find? found
      have entering : d.Entered target x := entered target x ⟨_, located, found⟩
      have step : ∀ r' ∈ x.references, d.StepSettles (stack ++ [target.1.key x.name]) target
          (d.resolve (stack ++ [target.1.key x.name]) target) r' :=
        fun r' mem => ih _ (key_mem target.2 found) fresh target r' fun _ _ => entering.inside mem
      obtain ⟨proceeds, resolves⟩ := resolve_definition_settles step settled resolved
      have open_ : target.1.key x.name ∈ stack ++ [target.1.key x.name] := by simp
      have still : between.lookup (target.1.key x.name) = none :=
        (proceeds.unmet _ open_).trans unknown
      obtain ⟨settled', kept⟩ :=
        proceeds.settled.cons (Schema.find?_mem found) still entering resolves
      refine ⟨⟨settled', fun key ty' known => kept key ty' (proceeds.kept key ty' known), ?_⟩, ?_⟩
      · intro key mem
        have other : key ≠ target.1.key x.name := fun same => fresh (same ▸ mem)
        rw [lookup_cons_of_ne other]
        exact proceeds.unmet key (List.mem_append_left _ mem)
      · rw [typeAt, located]
        simp

end Document

end Crosswalk
