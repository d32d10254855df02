import Crosswalk.Statement

/-!
# Sites in a block

A site is where a statement stands: the statements around it, the innermost first, and those before
it in its block. `Everywhere` speaks of all statements of a block at their sites, and is computed
along the block.
-/

namespace Crosswalk
set_option autoImplicit false

namespace Binding

/-- The variable for the position or for the key. -/
def counter : Binding → String
  | .index position _ => position
  | .key name _ => name

/-- The variable for the element. -/
def value : Binding → String
  | .index _ value => value
  | .key _ value => value

/-- The variables that a loop binds. -/
def names (b : Binding) : List String :=
  [b.counter, b.value]

theorem counter_mem_names (b : Binding) : b.counter ∈ b.names :=
  List.mem_cons_self

end Binding

/-- A statement around others, with what comes before it in its block. -/
inductive Frame
  | yes (before : Block) (condition : Condition)
  | no (before : Block) (condition : Condition)
  | loop (before : Block) (iterable : Place) (binding : Binding)

/-- Where a statement stands. -/
structure Site where
  frames : List Frame
  before : Block

namespace Site

/-- The site of the first statement of a program. -/
def start : Site :=
  ⟨[], []⟩

/-- The site behind some statements in the same block. -/
def after (site : Site) (block : Block) : Site :=
  ⟨site.frames, site.before ++ block⟩

/-- The beginning of the first block of a branch. -/
def yes (site : Site) (c : Condition) : Site :=
  ⟨.yes site.before c :: site.frames, []⟩

/-- The beginning of the second block of a branch. -/
def no (site : Site) (c : Condition) : Site :=
  ⟨.no site.before c :: site.frames, []⟩

/-- The beginning of the body of a loop. -/
def loop (site : Site) (iterable : Place) (binding : Binding) : Site :=
  ⟨.loop site.before iterable binding :: site.frames, []⟩

@[simp] theorem after_nil (site : Site) : site.after [] = site := by
  simp [after]

@[simp] theorem after_after (site : Site) (a b : Block) :
    (site.after a).after b = site.after (a ++ b) := by
  simp [after]

@[simp] theorem frames_after (site : Site) (block : Block) :
    (site.after block).frames = site.frames := rfl

@[simp] theorem before_after (site : Site) (block : Block) :
    (site.after block).before = site.before ++ block := rfl

@[simp] theorem frames_yes (site : Site) (c : Condition) :
    (site.yes c).frames = .yes site.before c :: site.frames := rfl

@[simp] theorem frames_no (site : Site) (c : Condition) :
    (site.no c).frames = .no site.before c :: site.frames := rfl

@[simp] theorem frames_loop (site : Site) (iterable : Place) (binding : Binding) :
    (site.loop iterable binding).frames = .loop site.before iterable binding :: site.frames := rfl

end Site

/-- `Occurs site block s at`: in a block that begins at a site, a statement stands at another. -/
inductive Occurs : Site → Block → Site → Statement → Prop
  | here {start : Site} {s : Statement} {rest : Block} : Occurs start (s :: rest) start s
  | later {start site : Site} {s t : Statement} {rest : Block}
      (h : Occurs (start.after [s]) rest site t) : Occurs start (s :: rest) site t
  | yes {start site : Site} {t : Statement} {c : Condition} {yes no rest : Block}
      (h : Occurs (start.yes c) yes site t) : Occurs start (.branch c yes no :: rest) site t
  | no {start site : Site} {t : Statement} {c : Condition} {yes no rest : Block}
      (h : Occurs (start.no c) no site t) : Occurs start (.branch c yes no :: rest) site t
  | loop {start site : Site} {t : Statement} {iterable : Place} {binding : Binding}
      {body rest : Block} (h : Occurs (start.loop iterable binding) body site t) :
      Occurs start (.loop iterable binding body :: rest) site t

/-- What stands in a block stands in it wherever the block begins. -/
theorem Occurs.elsewhere {start site : Site} {block : Block} {t : Statement}
    (h : Occurs start block site t) : ∀ other, ∃ site', Occurs other block site' t := by
  induction h with
  | here => exact fun other => ⟨other, .here⟩
  | later _ ih => exact fun other => (ih _).imp fun _ => .later
  | yes _ ih => exact fun other => (ih _).imp fun _ => .yes
  | no _ ih => exact fun other => (ih _).imp fun _ => .no
  | loop _ ih => exact fun other => (ih _).imp fun _ => .loop

/-- What stands in a block stands in front of another too. -/
theorem Occurs.append_left {start site : Site} {a b : Block} {t : Statement}
    (h : Occurs start a site t) : Occurs start (a ++ b) site t := by
  induction h with
  | here => exact .here
  | later _ ih => exact .later ih
  | yes h => exact .yes h
  | no h => exact .no h
  | loop h => exact .loop h

/-- What stands in the second of two blocks stands behind the first. -/
theorem Occurs.append_right {start site : Site} {a b : Block} {t : Statement}
    (h : Occurs (start.after a) b site t) : Occurs start (a ++ b) site t := by
  induction a generalizing start with
  | nil => simpa using h
  | cons s rest ih => exact .later (ih (by simpa using h))

/-- Every statement has a property at its site. -/
def Everywhere (P : Site → Statement → Prop) (start : Site) (block : Block) : Prop :=
  ∀ site s, Occurs start block site s → P site s

/-! ## Presence checks -/

/-- Whether a frame is one of the two sides of a presence check. -/
def Frame.isCheck : Frame → Bool
  | .yes _ (.isPresent _) => true
  | .no _ (.isPresent _) => true
  | _ => false

/-- A site behind presence checks and nothing else, seen from another. -/
def Site.Behind (start site : Site) : Prop :=
  ∃ checks, site.frames = checks ++ start.frames ∧ ∀ f ∈ checks, f.isCheck = true

namespace Site.Behind
variable {start site : Site}

/-- A site is behind itself. -/
theorem refl : Behind start start :=
  ⟨[], rfl, by simp⟩

theorem after {block : Block} (h : Behind start site) : Behind start (site.after block) := h

theorem yes {p : Place} (h : Behind start site) : Behind start (site.yes (.isPresent p)) := by
  obtain ⟨checks, hf, hc⟩ := h
  exact ⟨.yes site.before (.isPresent p) :: checks, by simp [hf], by simpa [Frame.isCheck] using hc⟩

theorem no {p : Place} (h : Behind start site) : Behind start (site.no (.isPresent p)) := by
  obtain ⟨checks, hf, hc⟩ := h
  exact ⟨.no site.before (.isPresent p) :: checks, by simp [hf], by simpa [Frame.isCheck] using hc⟩

end Site.Behind

/-! ## All statements of a block -/

section Everywhere
variable {P : Site → Statement → Prop} {start : Site}

@[simp] theorem everywhere_nil : Everywhere P start [] := by
  intro site s h
  cases h

/-- The statements of a block are the first, with those inside it, and the rest. -/
theorem everywhere_cons {s : Statement} {rest : Block} :
    Everywhere P start (s :: rest) ↔
      Everywhere P start [s] ∧ Everywhere P (start.after [s]) rest := by
  -- a statement is the first, inside the first, or in the rest
  constructor
  · intro h
    refine ⟨fun site t ht => h site t ?_, fun site t ht => h site t (.later ht)⟩
    cases ht with
    | here => exact .here
    | later ht => cases ht
    | yes ht => exact .yes ht
    | no ht => exact .no ht
    | loop ht => exact .loop ht
  · rintro ⟨first, others⟩ site t ht
    cases ht with
    | here => exact first _ _ .here
    | later ht => exact others _ _ ht
    | yes ht => exact first _ _ (.yes ht)
    | no ht => exact first _ _ (.no ht)
    | loop ht => exact first _ _ (.loop ht)

/-- The statements of two blocks in a row. -/
theorem everywhere_append {a b : Block} :
    Everywhere P start (a ++ b) ↔ Everywhere P start a ∧ Everywhere P (start.after a) b := by
  induction a generalizing start with
  | nil => simp
  | cons s rest ih =>
    rw [List.cons_append, everywhere_cons, ih, @everywhere_cons P start s rest]
    simp [and_assoc]

@[simp] theorem everywhere_assign {target : Place} {value : Expr} :
    Everywhere P start [.assign target value] ↔ P start (.assign target value) := by
  refine ⟨fun h => h _ _ .here, fun h site t ht => ?_⟩
  cases ht with
  | here => exact h
  | later ht => cases ht

@[simp] theorem everywhere_allocate {target : Place} {storage : Storage} {hint? : Option Place} :
    Everywhere P start [.allocate target storage hint?] ↔
      P start (.allocate target storage hint?) := by
  refine ⟨fun h => h _ _ .here, fun h site t ht => ?_⟩
  cases ht with
  | here => exact h
  | later ht => cases ht

/-- The statements of a branch are itself and those on its sides. -/
@[simp] theorem everywhere_branch {c : Condition} {yes no : Block} :
    Everywhere P start [.branch c yes no] ↔
      P start (.branch c yes no) ∧ Everywhere P (start.yes c) yes ∧
        Everywhere P (start.no c) no := by
  constructor
  · intro h
    exact ⟨h _ _ .here, fun _ _ ht => h _ _ (.yes ht), fun _ _ ht => h _ _ (.no ht)⟩
  · rintro ⟨here, inYes, inNo⟩ site t ht
    cases ht with
    | here => exact here
    | later ht => cases ht
    | yes ht => exact inYes _ _ ht
    | no ht => exact inNo _ _ ht

/-- The statements of a loop are itself and those in its body. -/
@[simp] theorem everywhere_loop {iterable : Place} {binding : Binding} {body : Block} :
    Everywhere P start [.loop iterable binding body] ↔
      P start (.loop iterable binding body) ∧
        Everywhere P (start.loop iterable binding) body := by
  constructor
  · intro h
    exact ⟨h _ _ .here, fun _ _ ht => h _ _ (.loop ht)⟩
  · rintro ⟨here, inside⟩ site t ht
    cases ht with
    | here => exact here
    | later ht => cases ht
    | loop ht => exact inside _ _ ht

end Everywhere

end Crosswalk
