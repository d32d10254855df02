import Mathlib.Data.List.Forall2

/-!
# Steps that succeed

What is known of the parts of a computation that gives a result.

The first part is on `Except`: a step of a `do` block is taken apart by `bind_eq_ok` and
`bind_eq_error`, a list of steps by `mapM_eq_ok_iff` and `mapM_eq_error_iff`, and `FailsOnly` bounds
the errors of what is put together from steps. The second part says the same of steps that pass a
state on; what each of them keeps is kept by the list.
-/

namespace Crosswalk
set_option autoImplicit false

/-- What stands on one side has a counterpart on the other. -/
theorem exists_of_forall₂ {α β : Type} {R : α → β → Prop} {l : List α} {bs : List β}
    (h : List.Forall₂ R l bs) {a : α} (mem : a ∈ l) : ∃ b ∈ bs, R a b := by
  induction h with
  | nil => cases mem
  | cons first _ ih =>
    rcases List.mem_cons.1 mem with rfl | mem
    · exact ⟨_, List.mem_cons_self, first⟩
    · obtain ⟨b, among, related⟩ := ih mem
      exact ⟨b, List.mem_cons_of_mem _ among, related⟩

/-- What is looked up in a list of pairs is in it. -/
theorem mem_of_lookup {α β : Type} [BEq α] [LawfulBEq α] {pairs : List (α × β)} {a : α} {b : β}
    (found : pairs.lookup a = some b) : (a, b) ∈ pairs := by
  obtain ⟨before, behind, rfl, _⟩ := List.lookup_eq_some_iff.1 found
  simp

section Except
variable {ε α β : Type}

/-- A step succeeds with what comes behind it if both succeed. -/
theorem bind_eq_ok {x : Except ε α} {f : α → Except ε β} {b : β} :
    (x >>= f) = .ok b ↔ ∃ a, x = .ok a ∧ f a = .ok b := by
  cases x <;> simp [bind, Except.bind]

/-- It fails if one of the two fails. -/
theorem bind_eq_error {x : Except ε α} {f : α → Except ε β} {e : ε} :
    (x >>= f) = .error e ↔ x = .error e ∨ ∃ a, x = .ok a ∧ f a = .error e := by
  cases x <;> simp [bind, Except.bind]

/-- What does nothing succeeds with its value. -/
theorem pure_eq_ok {a b : α} : (pure a : Except ε α) = .ok b ↔ a = b := by
  simp [pure, Except.pure]

/-- A result is mapped if there is one. -/
theorem map_eq_ok {f : α → β} {x : Except ε α} {b : β} :
    x.map f = .ok b ↔ ∃ a, x = .ok a ∧ f a = b := by
  cases x <;> simp [Except.map]

/-- Mapping the errors changes no result. -/
theorem mapError_eq_ok {δ : Type} {f : ε → δ} {x : Except ε α} {a : α} :
    x.mapError f = .ok a ↔ x = .ok a := by
  cases x <;> simp [Except.mapError]

/-- The option of a result holds it if the step succeeds. -/
theorem toOption_eq_some {x : Except ε α} {a : α} : x.toOption = some a ↔ x = .ok a := by
  cases x <;> simp [Except.toOption]

/-- A step behind a refusal succeeds if there is no cause to refuse. -/
theorem refuse_eq_ok {p : Prop} [Decidable p] {e : ε} {f : PUnit → Except ε β} {b : β} :
    (if p then throw e >>= f else f ⟨⟩) = .ok b ↔ ¬ p ∧ f ⟨⟩ = .ok b := by
  by_cases cause : p <;> simp [cause, bind, Except.bind, throw, throwThe, MonadExceptOf.throw]

/-- A check of all members of a list passes if it passes on each. -/
theorem forM_eq_ok_iff {check : α → Except ε Unit} {l : List α} :
    l.forM check = .ok () ↔ ∀ a ∈ l, check a = .ok () := by
  rw [List.forM_eq_forM]
  induction l with
  | nil => simp [pure_eq_ok]
  | cons a l ih =>
    rw [List.forM_cons, bind_eq_ok, List.forall_mem_cons]
    constructor
    · rintro ⟨_, first, others⟩
      exact ⟨first, ih.1 others⟩
    · rintro ⟨first, others⟩
      exact ⟨(), first, ih.2 others⟩

/-- The results of a list of steps stand in the order of the steps. -/
theorem forall₂_of_mapM {f : α → Except ε β} {l : List α} {bs : List β} (h : l.mapM f = .ok bs) :
    List.Forall₂ (fun a b => f a = .ok b) l bs := by
  induction l generalizing bs with
  | nil =>
    obtain rfl : [] = bs := by simpa [pure_eq_ok] using h
    exact .nil
  | cons a rest ih =>
    rw [List.mapM_cons, bind_eq_ok] at h
    obtain ⟨b, first, h⟩ := h
    obtain ⟨bs', others, h⟩ := bind_eq_ok.1 h
    obtain rfl : b :: bs' = bs := pure_eq_ok.1 h
    exact .cons first (ih others)

/-- A list is mapped if each member is, to the result that stands in its place. -/
theorem mapM_eq_ok_iff {f : α → Except ε β} {l : List α} {bs : List β} :
    l.mapM f = .ok bs ↔ List.Forall₂ (fun a b => f a = .ok b) l bs := by
  refine ⟨forall₂_of_mapM, fun each => ?_⟩
  induction each with
  | nil => rfl
  | cons first _ ih => rw [List.mapM_cons, first, ih]; rfl

/-- Every result of a list of steps is that of one of them. -/
theorem exists_of_mem_mapM {f : α → Except ε β} {l : List α} {bs : List β}
    (h : l.mapM f = .ok bs) {b : β} (mem : b ∈ bs) : ∃ a ∈ l, f a = .ok b :=
  exists_of_forall₂ (List.Forall₂.flip (forall₂_of_mapM h)) mem

/-- A list of steps fails with the first of them that does. -/
theorem mapM_eq_error_iff {f : α → Except ε β} {l : List α} {e : ε} :
    l.mapM f = .error e ↔ ∃ before a after, l = before ++ a :: after ∧
      (∀ c ∈ before, ∃ b, f c = .ok b) ∧ f a = .error e := by
  constructor
  · intro h
    induction l with
    | nil => cases h
    | cons a rest ih =>
      rw [List.mapM_cons] at h
      rcases bind_eq_error.1 h with failed | ⟨b, done, h⟩
      · exact ⟨[], a, rest, rfl, by simp, failed⟩
      · rcases bind_eq_error.1 h with failed | ⟨_, _, h⟩
        · obtain ⟨before, c, after, rfl, each, failed⟩ := ih failed
          exact ⟨a :: before, c, after, rfl, List.forall_mem_cons.2 ⟨⟨b, done⟩, each⟩, failed⟩
        · cases h
  · rintro ⟨before, a, after, rfl, each, failed⟩
    induction before with
    | nil => rw [List.nil_append, List.mapM_cons, failed]; rfl
    | cons c before ih =>
      obtain ⟨⟨b, done⟩, each⟩ := List.forall_mem_cons.1 each
      rw [List.cons_append, List.mapM_cons]
      exact bind_eq_error.2 (.inr ⟨b, done, bind_eq_error.2 (.inl (ih each))⟩)

/-- A list of steps fails with one of them. -/
theorem exists_of_mapM_error {f : α → Except ε β} {l : List α} {e : ε}
    (h : l.mapM f = .error e) : ∃ a ∈ l, f a = .error e := by
  obtain ⟨before, a, after, rfl, _, failed⟩ := mapM_eq_error_iff.1 h
  exact ⟨a, by simp, failed⟩

/-- All errors that a step can end with have a property. -/
def FailsOnly (P : ε → Prop) (x : Except ε α) : Prop :=
  ∀ e, x = .error e → P e

namespace FailsOnly
variable {P Q : ε → Prop}

/-- A step that succeeds fails with nothing. -/
theorem ok {a : α} : FailsOnly P (.ok a) := by
  intro e h
  cases h

/-- A step that fails has its one error. -/
theorem error {e : ε} (h : P e) : FailsOnly P (.error e : Except ε α) := by
  rintro _ ⟨⟩
  exact h

/-- A weaker property holds too. -/
theorem mono {x : Except ε α} (h : FailsOnly P x) (weaker : ∀ e, P e → Q e) : FailsOnly Q x :=
  fun e failed => weaker e (h e failed)

/-- A step and what is done with its result. -/
theorem bind {x : Except ε α} {f : α → Except ε β} (first : FailsOnly P x)
    (next : ∀ a, x = .ok a → FailsOnly P (f a)) : FailsOnly P (x >>= f) := by
  intro e h
  rcases bind_eq_error.1 h with failed | ⟨a, done, failed⟩
  · exact first e failed
  · exact next a done e failed

/-- The errors of checks in a row are those of one of them. -/
theorem forM {check : α → Except ε Unit} {l : List α} (each : ∀ a ∈ l, FailsOnly P (check a)) :
    FailsOnly P (l.forM check) := by
  rw [List.forM_eq_forM]
  induction l with
  | nil => exact ok
  | cons a l ih =>
    rw [List.forM_cons]
    obtain ⟨first, others⟩ := List.forall_mem_cons.1 each
    exact bind first fun _ _ => ih others

/-- The errors of a step on an option are those on its value. -/
theorem optionMapM {f : α → Except ε β} {a? : Option α} (each : ∀ a ∈ a?, FailsOnly P (f a)) :
    FailsOnly P (a?.mapM f) := by
  cases a? with
  | none => exact ok
  | some a => exact bind (each a rfl) fun _ _ => ok

end FailsOnly

end Except

section StateT
variable {σ ε α β : Type}

/-- As `bind_eq_ok`, with a state that is handed on. -/
theorem stateT_bind_eq_ok {x : StateT σ (Except ε) α} {f : α → StateT σ (Except ε) β} {s s' : σ}
    {b : β} : (x >>= f) s = .ok (b, s') ↔ ∃ a t, x s = .ok (a, t) ∧ f a t = .ok (b, s') := by
  show (x s >>= fun p => f p.1 p.2) = _ ↔ _
  rw [bind_eq_ok]
  constructor
  · rintro ⟨⟨a, t⟩, hx, hf⟩
    exact ⟨a, t, hx, hf⟩
  · rintro ⟨a, t, hx, hf⟩
    exact ⟨(a, t), hx, hf⟩

/-- As `bind_eq_error`, with a state. -/
theorem stateT_bind_eq_error {x : StateT σ (Except ε) α} {f : α → StateT σ (Except ε) β} {s : σ}
    {e : ε} : (x >>= f) s = .error e ↔
      x s = .error e ∨ ∃ a t, x s = .ok (a, t) ∧ f a t = .error e := by
  show (x s >>= fun p => f p.1 p.2) = _ ↔ _
  rw [bind_eq_error, Prod.exists]

/-- What does nothing leaves the state. -/
theorem stateT_pure_eq_ok {s s' : σ} {a b : α} :
    (pure a : StateT σ (Except ε) α) s = .ok (b, s') ↔ a = b ∧ s = s' := by
  show Except.ok (a, s) = _ ↔ _
  simp

/-- A step without a state leaves it. -/
theorem stateT_lift_eq_ok {x : Except ε α} {s s' : σ} {a : α} :
    (liftM x : StateT σ (Except ε) α) s = .ok (a, s') ↔ x = .ok a ∧ s = s' := by
  show (x >>= fun a => pure (a, s)) = _ ↔ _
  simp only [bind_eq_ok, pure_eq_ok, Prod.mk.injEq]
  constructor
  · rintro ⟨b, hx, rfl, rfl⟩
    exact ⟨hx, rfl⟩
  · rintro ⟨hx, rfl⟩
    exact ⟨a, hx, rfl, rfl⟩

/-- A result that is thrown away was there. -/
theorem stateT_discard_eq_ok {x : StateT σ (Except ε) α} {s s' : σ} :
    discard x s = .ok ((), s') ↔ ∃ a, x s = .ok (a, s') := by
  show (x s >>= fun p => pure ((), p.2)) = _ ↔ _
  rw [bind_eq_ok, Prod.exists]
  simp [pure_eq_ok]

/-- Throwing away the result does not change an error. -/
theorem stateT_discard_eq_error {x : StateT σ (Except ε) α} {s : σ} {e : ε} :
    discard x s = .error e ↔ x s = .error e := by
  show (x s >>= fun p => pure ((), p.2)) = _ ↔ _
  rw [bind_eq_error]
  simp [pure, Except.pure]

/-- A step without a state fails as it does alone. -/
theorem stateT_lift_eq_error {x : Except ε α} {s : σ} {e : ε} :
    (liftM x : StateT σ (Except ε) α) s = .error e ↔ x = .error e := by
  show (x >>= fun a => pure (a, s)) = _ ↔ _
  rw [bind_eq_error]
  simp [pure, Except.pure]

/-- The results of a list of steps stand in the order of the steps, each of which is taken in a state
that has what every step keeps. -/
theorem stateT_forall₂_of_mapM_of_keeps {f : α → StateT σ (Except ε) β} {l : List α}
    {bs : List β} {s s' : σ} {I : σ → Prop}
    (step : ∀ a ∈ l, ∀ t b t', I t → f a t = .ok (b, t') → I t') (start : I s)
    (h : l.mapM f s = .ok (bs, s')) :
    List.Forall₂ (fun a b => a ∈ l ∧ ∃ t t', I t ∧ f a t = .ok (b, t')) l bs := by
  induction l generalizing bs s with
  | nil =>
    obtain ⟨rfl, _⟩ := stateT_pure_eq_ok.1 h
    exact .nil
  | cons a rest ih =>
    rw [List.mapM_cons, stateT_bind_eq_ok] at h
    obtain ⟨b, t, first, h⟩ := h
    obtain ⟨bs', t', others, h⟩ := stateT_bind_eq_ok.1 h
    obtain ⟨rfl, rfl⟩ := stateT_pure_eq_ok.1 h
    have next : I t := step a List.mem_cons_self s b t start first
    have later := ih (fun c mem => step c (List.mem_cons_of_mem a mem)) next others
    exact .cons ⟨List.mem_cons_self, s, t, start, first⟩
      (later.imp fun _ _ found => ⟨List.mem_cons_of_mem a found.1, found.2⟩)

/-- The results of a list of steps stand in the order of the steps. -/
theorem stateT_forall₂_of_mapM {f : α → StateT σ (Except ε) β} {l : List α} {bs : List β}
    {s s' : σ} (h : l.mapM f s = .ok (bs, s')) :
    List.Forall₂ (fun a b => ∃ t t', f a t = .ok (b, t')) l bs := by
  have each := stateT_forall₂_of_mapM_of_keeps (I := fun _ => True)
    (fun _ _ _ _ _ _ _ => trivial) trivial h
  refine each.imp fun a b found => ?_
  obtain ⟨_, t, t', _, taken⟩ := found
  exact ⟨t, t', taken⟩

/-- What every step keeps of the state holds behind all steps, and so does what a step brings about
if every step keeps that. -/
theorem stateT_mapM_brings {f : α → StateT σ (Except ε) β} {l : List α} {bs : List β} {s s' : σ}
    {I : σ → Prop} {Q : α → σ → Prop}
    (step : ∀ a ∈ l, ∀ t b t', I t → f a t = .ok (b, t') →
      I t' ∧ Q a t' ∧ ∀ c, Q c t → Q c t')
    (start : I s) (h : l.mapM f s = .ok (bs, s')) :
    I s' ∧ (∀ a ∈ l, Q a s') ∧ ∀ c, Q c s → Q c s' := by
  induction l generalizing bs s with
  | nil =>
    obtain ⟨_, rfl⟩ := stateT_pure_eq_ok.1 h
    exact ⟨start, (fun a mem => by cases mem), fun _ => id⟩
  | cons a rest ih =>
    rw [List.mapM_cons, stateT_bind_eq_ok] at h
    obtain ⟨b, t, first, h⟩ := h
    obtain ⟨bs', t', others, h⟩ := stateT_bind_eq_ok.1 h
    obtain ⟨_, rfl⟩ := stateT_pure_eq_ok.1 h
    obtain ⟨kept, brought, stays⟩ := step a List.mem_cons_self s b t start first
    obtain ⟨kept', each, stays'⟩ :=
      ih (fun c mem => step c (List.mem_cons_of_mem a mem)) kept others
    exact ⟨kept', List.forall_mem_cons.2 ⟨stays' a brought, each⟩, fun c q => stays' c (stays c q)⟩

/-- What every step keeps of the state holds behind all steps. -/
theorem stateT_mapM_keeps {f : α → StateT σ (Except ε) β} {l : List α} {bs : List β} {s s' : σ}
    {I : σ → Prop} (step : ∀ a ∈ l, ∀ t b t', I t → f a t = .ok (b, t') → I t') (start : I s)
    (h : l.mapM f s = .ok (bs, s')) : I s' :=
  (stateT_mapM_brings (Q := fun _ _ => True)
    (fun a mem t b t' kept done => ⟨step a mem t b t' kept done, trivial, fun _ => id⟩) start h).1

/-- Steps without results go through the states that a list of results does. -/
theorem stateT_mapM_of_forM {f : α → StateT σ (Except ε) PUnit} {l : List α} {s s' : σ}
    (h : l.forM f s = .ok ((), s')) : ∃ us, l.mapM f s = .ok (us, s') := by
  rw [List.forM_eq_forM] at h
  induction l generalizing s with
  | nil =>
    obtain ⟨_, rfl⟩ := stateT_pure_eq_ok.1 h
    exact ⟨[], rfl⟩
  | cons a rest ih =>
    rw [List.forM_cons, stateT_bind_eq_ok] at h
    obtain ⟨u, t, first, h⟩ := h
    obtain ⟨us, others⟩ := ih h
    refine ⟨u :: us, ?_⟩
    rw [List.mapM_cons]
    exact stateT_bind_eq_ok.2 ⟨u, t, first, stateT_bind_eq_ok.2 ⟨us, s', others, rfl⟩⟩

/-- If each turn keeps the invariant, brings about a property of its member and does not take away
those of others, then all members have theirs in the end. -/
theorem stateT_forM_brings {f : α → StateT σ (Except ε) PUnit} {l : List α} {s s' : σ}
    {I : σ → Prop} {Q : α → σ → Prop}
    (step : ∀ a ∈ l, ∀ t t', I t → f a t = .ok ((), t') → I t' ∧ Q a t' ∧ ∀ c, Q c t → Q c t')
    (start : I s) (h : l.forM f s = .ok ((), s')) : I s' ∧ ∀ a ∈ l, Q a s' := by
  obtain ⟨_, h⟩ := stateT_mapM_of_forM h
  obtain ⟨kept, brought, _⟩ := stateT_mapM_brings (fun a mem t _ => step a mem t) start h
  exact ⟨kept, brought⟩

/-- Steps are taken one after the other. -/
theorem stateT_mapM_append_eq_ok {f : α → StateT σ (Except ε) β} {l l' : List α} {bs : List β}
    {s s' : σ} : (l ++ l').mapM f s = .ok (bs, s') ↔ ∃ first t others, l.mapM f s = .ok (first, t) ∧
      l'.mapM f t = .ok (others, s') ∧ first ++ others = bs := by
  rw [List.mapM_append, stateT_bind_eq_ok]
  constructor
  · rintro ⟨first, t, done, h⟩
    obtain ⟨others, t', done', h⟩ := stateT_bind_eq_ok.1 h
    obtain ⟨rfl, rfl⟩ := stateT_pure_eq_ok.1 h
    exact ⟨first, t, others, done, done', rfl⟩
  · rintro ⟨first, t, others, done, done', rfl⟩
    exact ⟨first, t, done, stateT_bind_eq_ok.2 ⟨others, s', done', rfl⟩⟩

/-- A list of steps fails with the first of them that does, in the state that those before it
leave. -/
theorem stateT_mapM_eq_error_iff {f : α → StateT σ (Except ε) β} {l : List α} {s : σ} {e : ε} :
    l.mapM f s = .error e ↔ ∃ before a after bs t, l = before ++ a :: after ∧
      before.mapM f s = .ok (bs, t) ∧ f a t = .error e := by
  constructor
  · intro h
    induction l generalizing s with
    | nil => cases h
    | cons a rest ih =>
      rw [List.mapM_cons] at h
      rcases stateT_bind_eq_error.1 h with failed | ⟨b, t, done, h⟩
      · exact ⟨[], a, rest, [], s, rfl, rfl, failed⟩
      · rcases stateT_bind_eq_error.1 h with failed | ⟨_, _, _, h⟩
        · obtain ⟨before, c, after, bs, t', rfl, others, failed⟩ := ih failed
          refine ⟨a :: before, c, after, b :: bs, t', rfl, ?_, failed⟩
          rw [List.mapM_cons]
          exact stateT_bind_eq_ok.2 ⟨b, t, done, stateT_bind_eq_ok.2 ⟨bs, t', others, rfl⟩⟩
        · cases h
  · rintro ⟨before, a, after, bs, t, rfl, done, failed⟩
    rw [List.mapM_append]
    refine stateT_bind_eq_error.2 (.inr ⟨bs, t, done, stateT_bind_eq_error.2 (.inl ?_)⟩)
    rw [List.mapM_cons]
    exact stateT_bind_eq_error.2 (.inl failed)

/-- A list of steps fails with one of them. -/
theorem stateT_exists_of_mapM_error {f : α → StateT σ (Except ε) β} {l : List α} {s : σ} {e : ε}
    (h : l.mapM f s = .error e) : ∃ a ∈ l, ∃ t, f a t = .error e := by
  obtain ⟨before, a, after, _, t, rfl, _, failed⟩ := stateT_mapM_eq_error_iff.1 h
  exact ⟨a, by simp, t, failed⟩

/-- Steps in a row fail only as one of them does. -/
theorem stateT_exists_of_forM_error {f : α → StateT σ (Except ε) PUnit} {l : List α} {s : σ} {e : ε}
    (h : l.forM f s = .error e) : ∃ a ∈ l, ∃ t, f a t = .error e := by
  rw [List.forM_eq_forM] at h
  induction l generalizing s with
  | nil => cases h
  | cons a rest ih =>
    rw [List.forM_cons] at h
    rcases stateT_bind_eq_error.1 h with first | ⟨_, t, _, h⟩
    · exact ⟨a, List.mem_cons_self, s, first⟩
    · obtain ⟨c, mem, failed⟩ := ih h
      exact ⟨c, List.mem_cons_of_mem a mem, failed⟩

end StateT

end Crosswalk
