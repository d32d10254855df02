import Crosswalk.Proofs.Unfolding
import Mathlib.Data.List.Chain

/-!
# The search for definitions

What resolving one reference does: it takes the type of a definition from the cache, or enters the
definition and resolves the references in it. So every remembered type is an unfolding, and a
failure has a way of references that leads to it. The stack holds the definitions being entered;
fewer and fewer are left, which is what all inductions here are on.

`StepUnfolds` is what one level of the search does, assumed of the references below it; expressions,
fields and definitions follow from it (`resolve_expr_unfolds` and the two after it), and
`stack_induction` closes the circle. `Fails` is the derivation behind an error, with the references
on the way to it.
-/

namespace Crosswalk
set_option autoImplicit false

/-! ## What is remembered -/

namespace Document

/-- Every remembered type is what the definition with its key unfolds to. -/
def CacheSound (d : Document) (cache : Cache) : Prop :=
  ∀ key ty, (key, ty) ∈ cache → ∃ n, d.Declares n ∧ n.key = key ∧ d.UnfoldsTo n ty

/-- Nothing is forgotten, and what is remembered is sound. -/
structure Grows (d : Document) (before after : Cache) : Prop where
  kept : before ⊆ after
  sound : d.CacheSound after

variable {d : Document} {home : Schema} {ref : String → Resolving Ty} {cache cache' : Cache}
  {ty : Ty}

theorem Grows.refl (sound : d.CacheSound cache) : d.Grows cache cache :=
  ⟨List.Subset.refl _, sound⟩

theorem Grows.trans {a b c : Cache} (h : d.Grows a b) (h' : d.Grows b c) : d.Grows a c :=
  ⟨List.Subset.trans h.kept h'.kept, h'.sound⟩

theorem CacheSound.cons {n : Declaration} (sound : d.CacheSound cache) (declared : d.Declares n)
    (h : d.UnfoldsTo n ty) : d.CacheSound ((n.key, ty) :: cache) := by
  intro key other mem
  rcases List.mem_cons.1 mem with same | mem
  · cases same
    exact ⟨n, declared, rfl, h⟩
  · exact sound key other mem

/-- A step that resolves a reference written in a schema. -/
def StepUnfolds (d : Document) (home : Schema) (ref : String → Resolving Ty) (r : String) : Prop :=
  ∀ cache ty cache', d.CacheSound cache → ref r cache = .ok (ty, cache') →
    d.Grows cache cache' ∧ d.Unfolds home (.expr (.named r)) ty

/-- A type expression is resolved to what it unfolds to if its references are. -/
theorem resolve_expr_unfolds {e : TypeExpr} (step : ∀ r ∈ e.references, d.StepUnfolds home ref r)
    (sound : d.CacheSound cache) (h : e.resolve ref cache = .ok (ty, cache')) :
    d.Grows cache cache' ∧ d.Unfolds home (.expr e) ty := by
  -- induction on the type; the cache that one part leaves is sound, and the next part starts from
  -- it
  induction e generalizing cache cache' ty with
  | primitive p =>
    obtain ⟨rfl, rfl⟩ := stateT_pure_eq_ok.1 h
    exact ⟨.refl sound, .primitive⟩
  | binary =>
    obtain ⟨rfl, rfl⟩ := stateT_pure_eq_ok.1 h
    exact ⟨.refl sound, .binary⟩
  | named name => exact step name List.mem_cons_self cache ty cache' sound h
  | list element ih =>
    obtain ⟨inner, between, first, h⟩ := stateT_bind_eq_ok.1 h
    obtain ⟨rfl, rfl⟩ := stateT_pure_eq_ok.1 h
    obtain ⟨grows, unfolds⟩ := ih step sound first
    exact ⟨grows, .list unfolds⟩
  | set element ih =>
    obtain ⟨inner, between, first, h⟩ := stateT_bind_eq_ok.1 h
    obtain ⟨rfl, rfl⟩ := stateT_pure_eq_ok.1 h
    obtain ⟨grows, unfolds⟩ := ih step sound first
    exact ⟨grows, .set unfolds⟩
  | map key value ihk ihv =>
    obtain ⟨keyTy, between, first, h⟩ := stateT_bind_eq_ok.1 h
    obtain ⟨valueTy, after, second, h⟩ := stateT_bind_eq_ok.1 h
    obtain ⟨rfl, rfl⟩ := stateT_pure_eq_ok.1 h
    have inKey : ∀ r ∈ key.references, d.StepUnfolds home ref r :=
      fun r mem => step r (List.mem_append_left _ mem)
    have inValue : ∀ r ∈ value.references, d.StepUnfolds home ref r :=
      fun r mem => step r (List.mem_append_right _ mem)
    obtain ⟨grows, keyUnfolds⟩ := ihk inKey sound first
    obtain ⟨grows', valueUnfolds⟩ := ihv inValue grows.sound second
    exact ⟨grows.trans grows', .map keyUnfolds valueUnfolds⟩

theorem resolve_fields_unfolds {name : String} {fields : List FieldDecl} {members : List Field}
    (step : ∀ r ∈ (Definition.struct name fields).references, d.StepUnfolds home ref r)
    (sound : d.CacheSound cache)
    (h : fields.mapM (·.resolve ref home.file) cache = .ok (members, cache')) :
    d.Grows cache cache' ∧
      d.Unfolds home (.definition (.struct name fields)) (.struct name home.file members) := by
  induction fields generalizing cache members with
  | nil =>
    obtain ⟨rfl, rfl⟩ := stateT_pure_eq_ok.1 h
    exact ⟨.refl sound, .empty⟩
  | cons f rest ih =>
    rw [List.mapM_cons] at h
    obtain ⟨member, between, first, h⟩ := stateT_bind_eq_ok.1 h
    obtain ⟨others, after, later, h⟩ := stateT_bind_eq_ok.1 h
    obtain ⟨rfl, rfl⟩ := stateT_pure_eq_ok.1 h
    obtain ⟨ty, between', resolved, first⟩ := stateT_bind_eq_ok.1 first
    obtain ⟨rfl, rfl⟩ := stateT_pure_eq_ok.1 first
    have inField : ∀ r ∈ f.type.references, d.StepUnfolds home ref r :=
      fun r mem => step r (List.mem_append_left _ mem)
    have inRest : ∀ r ∈ (Definition.struct name rest).references, d.StepUnfolds home ref r :=
      fun r mem => step r (List.mem_append_right _ mem)
    obtain ⟨grows, unfolds⟩ := resolve_expr_unfolds inField sound resolved
    obtain ⟨grows', unfolds'⟩ := ih inRest grows.sound later
    exact ⟨grows.trans grows', .field unfolds unfolds'⟩

/-- A definition is resolved to what it unfolds to if its references are. -/
theorem resolve_definition_unfolds {x : Definition}
    (step : ∀ r ∈ x.references, d.StepUnfolds home ref r) (sound : d.CacheSound cache)
    (h : x.resolve ref home.file cache = .ok (ty, cache')) :
    d.Grows cache cache' ∧ d.Unfolds home (.definition x) ty := by
  cases x with
  | struct name fields =>
    obtain ⟨members, between, resolved, h⟩ := stateT_bind_eq_ok.1 h
    obtain ⟨rfl, rfl⟩ := stateT_pure_eq_ok.1 h
    exact resolve_fields_unfolds step sound resolved
  | enum name values =>
    obtain ⟨rfl, rfl⟩ := stateT_pure_eq_ok.1 h
    exact ⟨.refl sound, .enum⟩
  | typedef name target =>
    obtain ⟨inner, between, resolved, h⟩ := stateT_bind_eq_ok.1 h
    obtain ⟨rfl, rfl⟩ := stateT_pure_eq_ok.1 h
    obtain ⟨grows, unfolds⟩ := resolve_expr_unfolds step sound resolved
    exact ⟨grows, .typedef unfolds⟩

/-! ## What one step does -/

/-- Induction on the definitions left to enter. -/
theorem stack_induction {P : List String → Prop}
    (step : ∀ stack, (∀ key ∈ d.keys, key ∉ stack → P (stack ++ [key])) → P stack)
    (stack : List String) : P stack := by
  induction h : d.left stack using Nat.strongRecOn generalizing stack with
  | ind left ih =>
    apply step
    intro key mem fresh
    have fewer : d.left (stack ++ [key]) < left := h ▸ left_lt mem fresh
    exact ih _ fewer _ rfl

/-- A reference is resolved from the cache, or by entering the definition that it leads to. -/
theorem resolve_eq_ok {stack : List String} {home : d.Home} {r : String}
    (h : d.resolve stack home r cache = .ok (ty, cache')) :
    ∃ schema name, d.locate home r = .ok (schema, name) ∧
      (cache.lookup (schema.1.key name) = some ty ∧ cache' = cache ∨
        ∃ x between, cache.lookup (schema.1.key name) = none ∧ schema.1.key name ∉ stack ∧
          schema.1.find? name = some x ∧
          x.resolve (d.resolve (stack ++ [schema.1.key name]) schema) schema.1.file cache =
            .ok (ty, between) ∧ cache' = (schema.1.key name, ty) :: between) := by
  -- the branches that fail are ruled out one by one
  rw [resolve] at h
  split at h
  · cases h
  · next schema name located =>
    refine ⟨schema, name, located, ?_⟩
    dsimp only at h
    split at h
    · next known =>
      cases h
      exact .inl ⟨known, rfl⟩
    · next unknown =>
      split at h
      · cases h
      · next fresh =>
        split at h
        · cases h
        · next x found =>
          obtain ⟨⟨inner, between⟩, resolved, h⟩ := bind_eq_ok.1 h
          cases h
          exact .inr ⟨x, between, unknown, fresh, found, resolved, rfl⟩

/-- A reference fails because it leads nowhere, because it leads to a definition that is being
entered, or with a reference of the definition that it leads to. -/
theorem resolve_eq_error {stack : List String} {home : d.Home} {r : String} {e : SchemaError}
    (h : d.resolve stack home r cache = .error e) :
    d.locate home r = .error e ∨ ∃ schema name, d.locate home r = .ok (schema, name) ∧
      (schema.1.key name ∈ stack ∧ e = .circular (stack ++ [schema.1.key name]) ∨
        schema.1.find? name = none ∧ e = .typeNotFound name schema.1.name ∨
        ∃ x, schema.1.key name ∉ stack ∧ schema.1.find? name = some x ∧
          x.resolve (d.resolve (stack ++ [schema.1.key name]) schema) schema.1.file cache =
            .error e) := by
  -- the branches that succeed are ruled out one by one
  rw [resolve] at h
  split at h
  · next located =>
    cases h
    exact .inl located
  · next schema name located =>
    refine .inr ⟨schema, name, located, ?_⟩
    dsimp only at h
    split at h
    · cases h
    · split at h
      · next entered =>
        cases h
        exact .inl ⟨entered, rfl⟩
      · next fresh =>
        split at h
        · next missing =>
          cases h
          exact .inr (.inl ⟨missing, rfl⟩)
        · next x found =>
          rcases bind_eq_error.1 h with failed | ⟨_, _, h⟩
          · exact .inr (.inr ⟨x, fresh, found, failed⟩)
          · cases h

/-! ## The search finds unfoldings -/

/-- What a reference is resolved to is the unfolding of what it denotes, and it is remembered. -/
theorem resolve_unfolds (keyed : d.Keyed) (stack : List String) :
    ∀ (home : d.Home) (r : String) (cache : Cache) (ty : Ty) (cache' : Cache),
      d.CacheSound cache → d.resolve stack home r cache = .ok (ty, cache') →
      d.Grows cache cache' ∧
        ∃ n, d.Denotes home.1 r n ∧ d.UnfoldsTo n ty ∧ (n.key, ty) ∈ cache' := by
  -- induction on the stack, which grows by one definition of the document in each call
  induction stack using d.stack_induction with
  | step stack ih =>
    intro home r cache ty cache' sound h
    obtain ⟨schema, name, located, ⟨known, rfl⟩ | entered⟩ := resolve_eq_ok h
    -- a type from the cache is an unfolding by the soundness of the cache
    · have mem : (schema.1.key name, ty) ∈ cache' := mem_of_lookup known
      obtain ⟨n, declared, key, unfolds⟩ := sound _ _ mem
      exact ⟨.refl sound, n, keyed.denotes_of_key located declared key, unfolds, key ▸ mem⟩
    -- otherwise the references in the definition were resolved, each with a longer stack
    · obtain ⟨x, between, _, fresh, found, resolved, rfl⟩ := entered
      obtain rfl := Schema.name_of_find? found
      have declared : d.Declares ⟨schema.1, x⟩ := ⟨schema.2, Schema.find?_mem found⟩
      have step : ∀ r' ∈ x.references, d.StepUnfolds schema.1
          (d.resolve (stack ++ [schema.1.key x.name]) schema) r' := by
        intro r' _ c t c' sound' done
        obtain ⟨grows, n, denotes, unfolds, _⟩ :=
          ih _ (key_mem schema.2 found) fresh schema r' c t c' sound' done
        exact ⟨grows, .named denotes unfolds⟩
      obtain ⟨grows, unfolds⟩ := resolve_definition_unfolds step sound resolved
      refine ⟨⟨fun entry mem => List.mem_cons_of_mem _ (grows.kept mem), ?_⟩, ?_⟩
      · exact grows.sound.cons declared unfolds
      · exact ⟨⟨schema.1, x⟩, denotes_of_locate located found, unfolds, List.mem_cons_self⟩

/-! ## How the search fails -/

/-- A type expression fails with one of its references. -/
theorem resolve_expr_error {e : TypeExpr} {fault : SchemaError}
    (h : e.resolve ref cache = .error fault) : ∃ r ∈ e.references, ∃ c, ref r c = .error fault := by
  -- induction on the type; one of its references is what failed
  induction e generalizing cache with
  | primitive p => cases h
  | binary => cases h
  | named name => exact ⟨name, List.mem_cons_self, cache, h⟩
  | list element ih =>
    rcases stateT_bind_eq_error.1 h with inside | ⟨_, _, _, h⟩
    · exact ih inside
    · cases h
  | set element ih =>
    rcases stateT_bind_eq_error.1 h with inside | ⟨_, _, _, h⟩
    · exact ih inside
    · cases h
  | map key value ihk ihv =>
    rcases stateT_bind_eq_error.1 h with inKey | ⟨_, between, _, h⟩
    · obtain ⟨r, mem, failed⟩ := ihk inKey
      exact ⟨r, List.mem_append_left _ mem, failed⟩
    · rcases stateT_bind_eq_error.1 h with inValue | ⟨_, _, _, h⟩
      · obtain ⟨r, mem, failed⟩ := ihv inValue
        exact ⟨r, List.mem_append_right _ mem, failed⟩
      · cases h

/-- A definition fails with one of its references. -/
theorem resolve_definition_error {x : Definition} {file : String} {fault : SchemaError}
    (h : x.resolve ref file cache = .error fault) :
    ∃ r ∈ x.references, ∃ c, ref r c = .error fault := by
  cases x with
  | struct name fields =>
    rcases stateT_bind_eq_error.1 h with inside | ⟨_, _, _, h⟩
    · obtain ⟨f, mem, between, failed⟩ := stateT_exists_of_mapM_error inside
      rcases stateT_bind_eq_error.1 failed with failed | ⟨_, _, _, h⟩
      · obtain ⟨r, among, failed⟩ := resolve_expr_error failed
        exact ⟨r, List.mem_flatMap.2 ⟨f, mem, among⟩, failed⟩
      · cases h
    · cases h
  | enum name values => cases h
  | typedef name target =>
    rcases stateT_bind_eq_error.1 h with inside | ⟨_, _, _, h⟩
    · exact resolve_expr_error inside
    · cases h

/-- How a reference that is written in a schema fails while definitions are being entered: it
denotes nothing, it denotes one of them, or it denotes another, in which a reference fails. -/
inductive Fails (d : Document) : List String → Schema → String → SchemaError → Prop
  | dangling {stack : List String} {home : Schema} {r : String} {e : SchemaError}
      (nothing : ∀ n, ¬ d.Denotes home r n) (cause : ∀ keys, e ≠ .circular keys) :
      Fails d stack home r e
  | circle {stack : List String} {home : Schema} {r : String} {n : Declaration}
      (denotes : d.Denotes home r n) (entered : n.key ∈ stack) :
      Fails d stack home r (.circular (stack ++ [n.key]))
  | inside {stack : List String} {home : Schema} {r r' : String} {n : Declaration}
      {e : SchemaError} (denotes : d.Denotes home r n) (fresh : n.key ∉ stack)
      (mem : r' ∈ n.definition.references)
      (h : Fails d (stack ++ [n.key]) n.schema r' e) : Fails d stack home r e

theorem locate_eq_error {home : d.Home} {r : String} {e : SchemaError}
    (h : d.locate home r = .error e) : ∃ qualifier, e = .schemaNotFound qualifier := by
  unfold locate at h
  split at h
  · cases h
  · split at h
    · cases h
    · cases h
      exact ⟨_, rfl⟩

theorem fails_of_resolve (keyed : d.Keyed) (stack : List String) :
    ∀ (home : d.Home) (r : String) (cache : Cache) (e : SchemaError),
      (∀ key ∈ stack, key ∈ d.keys) → d.resolve stack home r cache = .error e →
      d.Fails stack home.1 r e := by
  -- induction on the stack, as for success
  induction stack using d.stack_induction with
  | step stack ih =>
    intro home r cache e declared h
    -- three causes here: no schema, a circle, and no definition; or one further inside
    rcases resolve_eq_error h with unlocated | ⟨schema, name, located, why⟩
    · obtain ⟨qualifier, rfl⟩ := locate_eq_error unlocated
      refine .dangling (fun n denotes => ?_) (by simp)
      obtain ⟨_, _, located, _⟩ := keyed.locate_of_denotes denotes
      rw [unlocated] at located
      cases located
    · rcases why with ⟨entered, rfl⟩ | ⟨missing, rfl⟩ | ⟨x, fresh, found, failed⟩
      · obtain ⟨n, at_, key⟩ := mem_keys_iff.1 (declared _ entered)
        rw [← key] at entered ⊢
        exact .circle (keyed.denotes_of_key located at_ key) entered
      · refine .dangling (fun n denotes => ?_) (by simp)
        obtain ⟨target, same, located', found⟩ := keyed.locate_of_denotes denotes
        rw [located] at located'
        cases located'
        rw [same, found] at missing
        cases missing
      · obtain rfl := Schema.name_of_find? found
        have known := key_mem schema.2 found
        obtain ⟨r', mem, c, failed⟩ := resolve_definition_error failed
        -- the definitions on the stack are those of the document, so the recursion comes to an end
        have onStack : ∀ key ∈ stack ++ [schema.1.key x.name], key ∈ d.keys := by
          intro key mem
          rcases List.mem_append.1 mem with old | new
          · exact declared key old
          · rw [List.mem_singleton.1 new]
            exact known
        have inner := ih _ known fresh schema r' c e onStack failed
        exact .inside (denotes_of_locate located found) fresh mem inner

section
variable {stack : List String} {r : String}

/-- A circle is reported with the definitions on the way into it, each referring to the next. The key
of the last is on the stack or stands before, and no other key is there twice. -/
theorem Fails.way {e : SchemaError} (h : d.Fails stack home r e) :
    home ∈ d.schemas → stack.Nodup → ∀ {keys : List String}, e = .circular keys →
      ∃ (front : List Declaration) (last : Declaration),
        keys = stack ++ (front ++ [last]).map Declaration.key ∧
        (∀ n ∈ (front ++ [last]).head?, d.Denotes home r n) ∧
        (∀ n ∈ front ++ [last], d.Declares n) ∧ List.IsChain d.Refers (front ++ [last]) ∧
        last.key ∈ stack ++ front.map Declaration.key ∧
        (stack ++ front.map Declaration.key).Nodup := by
  -- induction on the failure; the way grows at its front, and the stack says what it must not meet
  -- again
  induction h with
  | dangling nothing cause => exact fun _ _ _ same => absurd same (cause _)
  | @circle stack home r n denotes entered =>
    intro mem differ keys same
    cases same
    refine ⟨[], n, rfl, ?_, ?_, .singleton n, by simpa using entered, by simpa using differ⟩
    · simpa using denotes
    · simpa using denotes.declares mem
  | @inside stack home r r' n e denotes fresh mem h ih =>
    intro at_ differ keys same
    have declared := denotes.declares at_
    have differ' : (stack ++ [n.key]).Nodup := List.nodup_append_comm.1 (by simp [fresh, differ])
    obtain ⟨front, last, whole, first, each, chain, again, once⟩ := ih declared.1 differ' same
    refine ⟨n :: front, last, ?_, ?_, ?_, ?_, ?_, ?_⟩
    · simpa using whole
    · simpa using denotes
    · exact List.forall_mem_cons.2 ⟨declared, each⟩
    · exact List.isChain_cons.2 ⟨fun next hn => ⟨r', mem, first next hn⟩, chain⟩
    · simpa using again
    · simpa using once

/-- In a closed document without cycles nothing fails. -/
theorem Fails.elim (keyed : d.Keyed) (closed : d.Closed) (acyclic : d.Acyclic) {e : SchemaError}
    (h : d.Fails stack home r e) : home ∈ d.schemas → (∃ n, d.Denotes home r n) →
      (∀ key ∈ stack, ∃ m, d.Declares m ∧ m.key = key ∧
        ∀ n, d.Denotes home r n → Relation.TransGen d.Refers m n) → False := by
  induction h with
  | dangling nothing cause =>
    rintro _ ⟨n, denotes⟩ _
    exact nothing n denotes
  | @circle stack home r n denotes entered =>
    intro mem _ leads
    obtain ⟨m, declared, key, leads⟩ := leads _ entered
    obtain rfl := keyed.key_inj declared (denotes.declares mem) key
    exact acyclic m declared (leads m denotes)
  | @inside stack home r r' n e denotes fresh mem h ih =>
    intro at_ _ leads
    have declared := denotes.declares at_
    refine ih declared.1 (closed n declared r' mem) fun key among => ?_
    rcases List.mem_append.1 among with old | new
    · obtain ⟨m, declared', same, leads⟩ := leads key old
      exact ⟨m, declared', same, fun k denotes' => (leads n denotes).tail ⟨r', mem, denotes'⟩⟩
    · obtain rfl := List.mem_singleton.1 new
      exact ⟨n, declared, rfl, fun k denotes' => .single ⟨r', mem, denotes'⟩⟩

end

end Document

end Crosswalk
