import Crosswalk.Proofs.Reference

/-!
# Plain unfolding

The type that a definition stands for, with every reference in it replaced by what it denotes, as
seen from the schema that the reference is written in. `Unfolds` says so without a cache and without
an order of definitions: it has one rule for each form of type expressions and definitions. What
unfolds to a finite type refers to nothing that leads back to it.
-/

namespace Crosswalk
set_option autoImplicit false

/-- A type expression or a definition. -/
inductive Written
  | expr (e : TypeExpr)
  | definition (x : Definition)

/-- The names of definitions that are used. -/
def Written.references : Written → List String
  | expr e => e.references
  | definition x => x.references

/-- What is written in the schema `home` unfolds to a type. The fields of a struct and the named
types carry the file of the schema that declares them. -/
inductive Document.Unfolds (d : Document) : Schema → Written → Ty → Prop
  | primitive {home : Schema} {p : Primitive} :
      Unfolds d home (.expr (.primitive p)) (.primitive p)
  | binary {home : Schema} : Unfolds d home (.expr .binary) .binary
  | named {home : Schema} {r : String} {n : Declaration} {ty : Ty}
      (denotes : d.Denotes home r n) (h : Unfolds d n.schema (.definition n.definition) ty) :
      Unfolds d home (.expr (.named r)) ty
  | list {home : Schema} {e : TypeExpr} {ty : Ty} (h : Unfolds d home (.expr e) ty) :
      Unfolds d home (.expr (.list e)) (.list ty)
  | set {home : Schema} {e : TypeExpr} {ty : Ty} (h : Unfolds d home (.expr e) ty) :
      Unfolds d home (.expr (.set e)) (.set ty)
  | map {home : Schema} {key value : TypeExpr} {keyTy valueTy : Ty}
      (hk : Unfolds d home (.expr key) keyTy) (hv : Unfolds d home (.expr value) valueTy) :
      Unfolds d home (.expr (.map key value)) (.map keyTy valueTy)
  | enum {home : Schema} {name : String} {values : List String} :
      Unfolds d home (.definition (.enum name values)) (.enum name home.file values)
  | typedef {home : Schema} {name : String} {target : TypeExpr} {ty : Ty}
      (h : Unfolds d home (.expr target) ty) :
      Unfolds d home (.definition (.typedef name target)) (.typedef name home.file ty)
  | empty {home : Schema} {name : String} :
      Unfolds d home (.definition (.struct name [])) (.struct name home.file [])
  | field {home : Schema} {name : String} {f : FieldDecl} {rest : List FieldDecl} {ty : Ty}
      {members : List Field} (h : Unfolds d home (.expr f.type) ty)
      (others : Unfolds d home (.definition (.struct name rest)) (.struct name home.file members)) :
      Unfolds d home (.definition (.struct name (f :: rest)))
        (.struct name home.file (⟨f.name, ty, f.required, home.file⟩ :: members))

namespace Document
variable {d : Document} {home : Schema} {w : Written} {a ty : Ty} {n : Declaration}

/-- The definition unfolds to a type. -/
abbrev UnfoldsTo (d : Document) (n : Declaration) (ty : Ty) : Prop :=
  d.Unfolds n.schema (.definition n.definition) ty

/-- There is at most one type that something unfolds to. -/
theorem Unfolds.unique (keyed : d.Keyed) (h : d.Unfolds home w a) :
    home ∈ d.schemas → ∀ {b : Ty}, d.Unfolds home w b → a = b := by
  -- induction on the unfolding; the second one has to be made by the same rule
  induction h with
  | primitive | binary | enum | empty =>
    intro _ b h'
    cases h'
    rfl
  | named denotes h ih =>
    intro mem b h'
    cases h' with
    -- a reference denotes one definition only
    | named denotes' h' =>
      have declared := denotes.declares mem
      obtain rfl := denotes.unique keyed mem denotes'
      exact ih declared.1 h'
  | list h ih =>
    intro mem b h'
    cases h' with
    | list h' => rw [ih mem h']
  | set h ih =>
    intro mem b h'
    cases h' with
    | set h' => rw [ih mem h']
  | map hk hv ihk ihv =>
    intro mem b h'
    cases h' with
    | map hk' hv' => rw [ihk mem hk', ihv mem hv']
  | typedef h ih =>
    intro mem b h'
    cases h' with
    | typedef h' => rw [ih mem h']
  | field h others ih iho =>
    intro mem b h'
    cases h' with
    | field h' others' =>
      obtain rfl := ih mem h'
      have same := iho mem others'
      cases same
      rfl

/-! ## Closed and acyclic -/

/-- Every way of references that begins at the definition ends. -/
def Grounded (d : Document) (n : Declaration) : Prop :=
  Acc (Function.swap d.Refers) n

/-- From a grounded definition no way of references leads back to it. -/
theorem Grounded.not_cyclic (h : d.Grounded n) : ¬ Relation.TransGen d.Refers n n := by
  rw [← Relation.transGen_swap]
  have acc : Acc (Relation.TransGen (Function.swap d.Refers)) n := h.transGen
  clear h
  induction acc with
  | intro n _ ih => exact fun loop => ih n loop loop

/-- A definition is grounded if all that its references denote is. -/
theorem grounded_of_references (keyed : d.Keyed) (declared : d.Declares n)
    (h : ∀ r ∈ n.definition.references, ∃ m, d.Denotes n.schema r m ∧ d.Grounded m) :
    d.Grounded n := by
  refine Acc.intro n fun m => ?_
  rintro ⟨r, mem, denotes⟩
  obtain ⟨m', denotes', grounded⟩ := h r mem
  obtain rfl := denotes.unique keyed declared.1 denotes'
  exact grounded

/-- What unfolds to a type refers to grounded definitions only. -/
theorem Unfolds.grounded (keyed : d.Keyed) (h : d.Unfolds home w ty) :
    home ∈ d.schemas → ∀ r ∈ w.references, ∃ n, d.Denotes home r n ∧ d.Grounded n := by
  -- induction on the unfolding; a reference is grounded if those inside its definition are
  induction h with
  | primitive | binary | enum | empty =>
    intro _ r mem
    cases mem
  | @named home r n ty denotes h ih =>
    intro mem r' among
    obtain rfl : r' = r := List.mem_singleton.1 among
    have declared := denotes.declares mem
    exact ⟨n, denotes, grounded_of_references keyed declared (ih declared.1)⟩
  | list h ih | set h ih | typedef h ih => exact ih
  | map hk hv ihk ihv =>
    intro mem r among
    rcases List.mem_append.1 among with left | right
    · exact ihk mem r left
    · exact ihv mem r right
  | field h others ih iho =>
    intro mem r among
    rw [Written.references, Definition.references, List.flatMap_cons, List.mem_append] at among
    rcases among with first | later
    · exact ih mem r first
    · exact iho mem r later

end Document

/-! ## The order of declarations -/

/-- The same schema with its definitions in another order. -/
structure Schema.Reorders (s t : Schema) : Prop where
  name : s.name = t.name
  file : s.file = t.file
  definitions : s.definitions.Perm t.definitions

/-- Order does not matter for the key of a definition. -/
theorem Schema.Reorders.key {s t : Schema} (alike : s.Reorders t) (name : String) :
    s.key name = t.key name := by
  rw [Schema.key, Schema.key, alike.name]

/-- The same schemas in another order, each with its definitions in another order. -/
def Document.Reorders (d d' : Document) : Prop :=
  ∃ reordered : Schema → Schema, (∀ s ∈ d.schemas, s.Reorders (reordered s)) ∧
    (d.schemas.map reordered).Perm d'.schemas

namespace Document
variable {d d' : Document} {home home' : Schema} {w : Written} {ty : Ty} {n : Declaration}
  {r : String}

/-- Each schema is there after reordering, with its definitions in some order. -/
theorem Reorders.exists_after (same : d.Reorders d') {s : Schema} (mem : s ∈ d.schemas) :
    ∃ t ∈ d'.schemas, s.Reorders t := by
  obtain ⟨reordered, each, perm⟩ := same
  exact ⟨reordered s, perm.mem_iff.1 (List.mem_map_of_mem mem), each s mem⟩

/-- Each schema after reordering was there before. -/
theorem Reorders.exists_before (same : d.Reorders d') {t : Schema} (mem : t ∈ d'.schemas) :
    ∃ s ∈ d.schemas, s.Reorders t := by
  obtain ⟨reordered, each, perm⟩ := same
  obtain ⟨s, hs, rfl⟩ := List.mem_map.1 (perm.mem_iff.2 mem)
  exact ⟨s, hs, each s hs⟩

/-- Keys stay unique. -/
theorem Reorders.keyed (same : d.Reorders d') (keyed : d.Keyed) : d'.Keyed where
  schemas := by
    obtain ⟨reordered, each, perm⟩ := same
    have names : (d.schemas.map reordered).map (·.name) = d.schemas.map (·.name) := by
      rw [List.map_map]
      exact List.map_congr_left fun s mem => (each s mem).name.symm
    rw [← (perm.map _).nodup_iff, names]
    exact keyed.schemas
  undotted t mem := by
    obtain ⟨s, hs, alike⟩ := same.exists_before mem
    rw [← alike.name]
    exact keyed.undotted s hs
  definitions t mem := by
    obtain ⟨s, hs, alike⟩ := same.exists_before mem
    exact (alike.definitions.map _).nodup_iff.1 (keyed.definitions s hs)
  plain t mem x hx := by
    obtain ⟨s, hs, alike⟩ := same.exists_before mem
    exact keyed.plain s hs x (alike.definitions.mem_iff.2 hx)

/-- The same definition in the reordered document. -/
theorem Reorders.declares (same : d.Reorders d') (declared : d.Declares n) :
    ∃ t, n.schema.Reorders t ∧ d'.Declares ⟨t, n.definition⟩ := by
  obtain ⟨t, ht, alike⟩ := same.exists_after declared.1
  exact ⟨t, alike, ht, alike.definitions.mem_iff.1 declared.2⟩

/-- A reference denotes the same definition wherever this is declared. -/
theorem Denotes.reordered (h : d.Denotes home r n) (same : d.Reorders d')
    (alike : home.Reorders home') :
    ∃ t, n.schema.Reorders t ∧ d'.Denotes home' r ⟨t, n.definition⟩ := by
  cases h with
  | own hx => exact ⟨home', alike, .own (alike.definitions.mem_iff.1 hx)⟩
  | qualified declared =>
    obtain ⟨t, alike, declared'⟩ := same.declares declared
    have key : n.key = Declaration.key ⟨t, n.definition⟩ := alike.key n.definition.name
    exact ⟨t, alike, key ▸ .qualified declared'⟩

/-- Unfolding does not depend on the order of schemas and definitions. -/
theorem Unfolds.reordered (h : d.Unfolds home w ty) (same : d.Reorders d') :
    ∀ {home' : Schema}, home.Reorders home' → d'.Unfolds home' w ty := by
  -- induction on the unfolding; the schema around it is replaced by the one in the other document
  induction h with
  | primitive => exact fun _ => .primitive
  | binary => exact fun _ => .binary
  | named denotes h ih =>
    intro home' alike
    obtain ⟨t, alike', denotes'⟩ := denotes.reordered same alike
    exact .named denotes' (ih alike')
  | list h ih => exact fun alike => .list (ih alike)
  | set h ih => exact fun alike => .set (ih alike)
  | map hk hv ihk ihv => exact fun alike => .map (ihk alike) (ihv alike)
  | enum =>
    intro home' alike
    rw [alike.file]
    exact .enum
  | typedef h ih =>
    intro home' alike
    rw [alike.file]
    exact .typedef (ih alike)
  | empty =>
    intro home' alike
    rw [alike.file]
    exact .empty
  | field h others ih iho =>
    intro home' alike
    have rest := iho alike
    rw [alike.file] at rest ⊢
    exact .field (ih alike) rest

/-- A definition unfolds to the same type in the other order. -/
theorem Reorders.after (same : d.Reorders d') (declared : d.Declares n) :
    ∃ n', d'.Declares n' ∧ n'.key = n.key ∧ ∀ ty, d.UnfoldsTo n ty → d'.UnfoldsTo n' ty := by
  obtain ⟨t, alike, declared'⟩ := same.declares declared
  refine ⟨⟨t, n.definition⟩, declared', (alike.key n.definition.name).symm, fun ty h => ?_⟩
  exact h.reordered same alike

/-- Each definition of the other order is one of this order, with the same type. -/
theorem Reorders.before {n' : Declaration} (same : d.Reorders d') (declared : d'.Declares n') :
    ∃ n, d.Declares n ∧ n'.key = n.key ∧ ∀ ty, d.UnfoldsTo n ty → d'.UnfoldsTo n' ty := by
  obtain ⟨s, hs, alike⟩ := same.exists_before declared.1
  have declared' : d.Declares ⟨s, n'.definition⟩ :=
    ⟨hs, alike.definitions.mem_iff.2 declared.2⟩
  refine ⟨_, declared', (alike.key n'.definition.name).symm, fun ty h => ?_⟩
  exact h.reordered same alike

/-- If all definitions unfold, they do in any order. -/
theorem Reorders.unfolded (same : d.Reorders d')
    (unfolded : ∀ n, d.Declares n → ∃ ty, d.UnfoldsTo n ty) {n' : Declaration}
    (declared' : d'.Declares n') : ∃ ty, d'.UnfoldsTo n' ty := by
  obtain ⟨n, declared, _, carried⟩ := same.before declared'
  obtain ⟨ty, unfolds⟩ := unfolded n declared
  exact ⟨ty, carried ty unfolds⟩

/-- The types under the keys of a document whose definitions have types are those of the reordered
document. -/
theorem Reorders.unfoldsTo_iff (same : d.Reorders d') (keyed : d.Keyed)
    (unfolded : ∀ n, d.Declares n → ∃ ty, d.UnfoldsTo n ty) {key : String} :
    (∃ n, d'.Declares n ∧ n.key = key ∧ d'.UnfoldsTo n ty) ↔
      ∃ n, d.Declares n ∧ n.key = key ∧ d.UnfoldsTo n ty := by
  constructor
  · rintro ⟨n', declared', rfl, unfolds'⟩
    obtain ⟨n, declared, key, carried⟩ := same.before declared'
    obtain ⟨ty', unfolds⟩ := unfolded n declared
    have again := carried ty' unfolds
    obtain rfl := again.unique (same.keyed keyed) declared'.1 unfolds'
    exact ⟨n, declared, key.symm, unfolds⟩
  · rintro ⟨n, declared, rfl, unfolds⟩
    obtain ⟨n', declared', key, carried⟩ := same.after declared
    exact ⟨n', declared', key, carried ty unfolds⟩

end Document

end Crosswalk
