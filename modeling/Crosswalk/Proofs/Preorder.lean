import Crosswalk.Statement
import Mathlib.Data.List.Basic

/-!
# Walks in preorder

A walk keeps what it is still to visit on a stack. In each turn the statement on top gives way to
the blocks inside it, so that the stack from the top on is always what is left of the preorder. The
walk therefore ends after as many turns as there are statements, and has visited each of them once,
in the order of their addresses: a statement before what is inside it, and what is inside it before
what is behind it.
-/

namespace Crosswalk
set_option autoImplicit false

/-! ## Preorder -/

mutual

/-- A statement and then the blocks inside it, one after the other. -/
def Statement.preorder : Statement → List Statement
  | .assign target value => [.assign target value]
  | .allocate target storage sizeHint? => [.allocate target storage sizeHint?]
  | .branch condition yes no =>
    .branch condition yes no :: (Block.preorder yes ++ Block.preorder no)
  | .loop iterable binding body => .loop iterable binding body :: Block.preorder body

/-- The preorders of the statements, one after the other. -/
def Block.preorder : Block → List Statement
  | [] => []
  | s :: rest => s.preorder ++ Block.preorder rest

end

/-- A statement goes before the blocks inside it. -/
theorem Statement.preorder_eq (s : Statement) :
    s.preorder = s :: s.children.flatMap Block.preorder := by
  cases s <;> simp [preorder, children]

namespace Block

/-- The preorder of two blocks in a row. -/
theorem preorder_append (a b : Block) : preorder (a ++ b) = preorder a ++ preorder b := by
  induction a with
  | nil => rfl
  | cons s rest ih => rw [List.cons_append, preorder, preorder, ih, List.append_assoc]

theorem preorder_flatten (blocks : List Block) :
    preorder blocks.flatten = blocks.flatMap preorder := by
  induction blocks with
  | nil => rfl
  | cons block rest ih => rw [List.flatten_cons, preorder_append, ih, List.flatMap_cons]

/-- The recursive walk is the preorder. -/
theorem walk_eq_preorder (block : Block) : block.walk = block.preorder := by
  fun_induction walk block with
  | case1 => rfl
  | case2 s rest ih =>
    rw [ih, preorder_append, preorder_flatten, preorder, Statement.preorder_eq, List.cons_append]

/-- The walk of two blocks in a row. -/
theorem walk_append (a b : Block) : walk (a ++ b) = walk a ++ walk b := by
  simp only [walk_eq_preorder, preorder_append]

/-- The first statement is visited, then what is inside it, then the rest. -/
theorem walk_cons (s : Statement) (rest : Block) :
    walk (s :: rest) = s :: (walk s.children.flatten ++ walk rest) := by
  rw [walk, walk_append]

end Block

/-! ## The stack -/

/-- A walk under way. -/
structure Walk where
  /-- What is still to be visited, the next statement last. -/
  stack : List Statement
  visited : List Statement

namespace Walk

/-- The walk of a block before its first turn. -/
def start (block : Block) : Walk :=
  ⟨block.reverse, []⟩

/-- Puts blocks on a stack, from the last statement of the last block to the first of the first. -/
def push (stack : List Statement) (blocks : List Block) : List Statement :=
  blocks.reverse.foldl (fun stack block => stack ++ block.reverse) stack

/-- Visits the statement on top of the stack, in whose place come the blocks inside it. -/
def turn? (w : Walk) : Option Walk :=
  w.stack.getLast?.map fun s => ⟨push w.stack.dropLast s.children, w.visited ++ [s]⟩

/-- Some turns of a walk, if there is so much to visit. -/
def turns : Nat → Walk → Option Walk
  | 0, w => some w
  | n + 1, w => w.turn?.bind (turns n)

/-- The blocks are put on the stack in reverse. -/
theorem push_eq (stack : List Statement) (blocks : List Block) :
    push stack blocks = stack ++ blocks.flatten.reverse := by
  induction blocks with
  | nil => simp [push]
  | cons block rest ih =>
    rw [push, List.reverse_cons, List.foldl_concat, ← push, ih]
    simp

/-- A turn leaves on the stack what comes behind the statement that it visits. -/
theorem turn?_reverse_cons (s : Statement) (rest : Block) (visited : List Statement) :
    turn? ⟨(s :: rest).reverse, visited⟩ =
      some ⟨(s.children.flatten ++ rest).reverse, visited ++ [s]⟩ := by
  simp [turn?, push_eq]

/-- From any stack on, the walk visits what is on it and inside it and stops. -/
theorem turns_sizeAll (pending : Block) (visited : List Statement) :
    turns (Statement.sizeAll pending) ⟨pending.reverse, visited⟩ =
      some ⟨[], visited ++ pending.walk⟩ := by
  fun_induction Block.walk pending generalizing visited with
  | case1 => simp [turns, Statement.sizeAll]
  | case2 s rest ih =>
    have size : Statement.sizeAll (s :: rest) =
        Statement.sizeAll (s.children.flatten ++ rest) + 1 := by
      rw [Statement.sizeAll, ← Statement.sizeAll_children, Statement.sizeAll_append]
      omega
    rw [size, turns, turn?_reverse_cons, Option.bind_some, ih, List.append_assoc]
    rfl

end Walk

/-! ## Addresses -/

mutual

/-- What is at an address inside a statement, which begins with the number of a block. -/
def Statement.at? (s : Statement) : List Nat → Option Statement
  | [] => some s
  | number :: rest => s.children[number]?.bind fun block => Block.at? block rest

/-- What is at an address inside a block, which begins with the position of a statement. -/
def Block.at? (block : Block) : List Nat → Option Statement
  | [] => none
  | position :: rest => block[position]?.bind fun s => Statement.at? s rest

end

/-- The contents of numbered parts, the number of the part going before the address in it. -/
def numbered (number : Nat) :
    List (List (List Nat × Statement)) → List (List Nat × Statement)
  | [] => []
  | part :: rest => part.map (Prod.map (number :: ·) id) ++ numbered (number + 1) rest

mutual

/-- The statements of the preorder with their addresses. -/
def Statement.located : Statement → List (List Nat × Statement)
  | .assign target value => [([], .assign target value)]
  | .allocate target storage sizeHint? => [([], .allocate target storage sizeHint?)]
  | .branch condition yes no =>
    ([], .branch condition yes no) ::
      numbered 0 [numbered 0 (locatedEach yes), numbered 0 (locatedEach no)]
  | .loop iterable binding body =>
    ([], .loop iterable binding body) :: numbered 0 [numbered 0 (locatedEach body)]

/-- The located statements of each statement of a block. -/
def locatedEach : Block → List (List (List Nat × Statement))
  | [] => []
  | s :: rest => s.located :: locatedEach rest

end

/-- The statements of a block with their addresses in it. -/
def Block.located (block : Block) : List (List Nat × Statement) :=
  numbered 0 (block.map Statement.located)

theorem locatedEach_eq (block : Block) : locatedEach block = block.map Statement.located := by
  induction block with
  | nil => rfl
  | cons s rest ih => rw [locatedEach, ih, List.map_cons]

/-- A statement is at the empty address, and the blocks inside it are numbered. -/
theorem Statement.located_eq (s : Statement) :
    s.located = ([], s) :: numbered 0 (s.children.map Block.located) := by
  cases s <;> simp [located, children, Block.located, locatedEach_eq, numbered]

section
variable {parts : List (List (List Nat × Statement))} {number : Nat} {a : List Nat}
  {t : Statement}

/-- Without their addresses the contents are those of the parts. -/
theorem map_snd_numbered : (numbered number parts).map Prod.snd =
    parts.flatMap fun part => part.map Prod.snd := by
  induction parts generalizing number with
  | nil => rfl
  | cons part rest ih => simp [numbered, ih]

/-- What is in a part is at the part's number, followed by the address in it. -/
theorem mem_numbered_iff : (a, t) ∈ numbered number parts ↔
    ∃ i part rest, parts[i]? = some part ∧ (rest, t) ∈ part ∧ a = (number + i) :: rest := by
  -- induction on the parts; the number of a part is its distance from the first
  induction parts generalizing number with
  | nil => simp [numbered]
  | cons part others ih =>
    rw [numbered, List.mem_append, ih]
    constructor
    · rintro (mem | ⟨i, part', rest, found, mem, rfl⟩)
      · obtain ⟨⟨rest, _⟩, among, same⟩ := List.mem_map.1 mem
        obtain ⟨rfl, rfl⟩ := Prod.mk.inj same
        exact ⟨0, part, rest, rfl, among, rfl⟩
      · exact ⟨i + 1, part', rest, found, mem, by rw [Nat.add_right_comm]; rfl⟩
    · rintro ⟨i, part', rest, found, mem, rfl⟩
      cases i with
      | zero =>
        obtain rfl : part = part' := by simpa using found
        exact .inl (List.mem_map.2 ⟨_, mem, rfl⟩)
      | succ i => exact .inr ⟨i, part', rest, found, mem, by rw [Nat.add_right_comm]; rfl⟩

theorem not_mem_numbered_nil : ([], t) ∉ numbered number parts := by
  intro mem
  obtain ⟨_, _, _, _, _, same⟩ := mem_numbered_iff.1 mem
  cases same

/-- What is looked up part by part is what is numbered part by part. -/
theorem mem_numbered_map_iff {α : Type} {items : List α} {part : α → List (List Nat × Statement)}
    {at? : α → List Nat → Option Statement}
    (h : ∀ x ∈ items, ∀ a t, (a, t) ∈ part x ↔ at? x a = some t) (i : Nat) (rest : List Nat) :
    (i :: rest, t) ∈ numbered 0 (items.map part) ↔ items[i]?.bind (at? · rest) = some t := by
  rw [mem_numbered_iff, Option.bind_eq_some_iff]
  constructor
  · rintro ⟨j, _, _, found, mem, same⟩
    obtain ⟨rfl, rfl⟩ := List.cons.inj same
    rw [List.getElem?_map, Option.map_eq_some_iff] at found
    obtain ⟨x, here, rfl⟩ := found
    rw [Nat.zero_add]
    exact ⟨x, here, (h x (List.mem_of_getElem? here) _ t).1 mem⟩
  · rintro ⟨x, here, found⟩
    refine ⟨i, part x, rest, by rw [List.getElem?_map, here]; rfl, ?_, by rw [Nat.zero_add]⟩
    exact (h x (List.mem_of_getElem? here) rest t).2 found

/-- Addresses ascend from part to part if they do so in each. -/
theorem pairwise_numbered
    (h : ∀ part ∈ parts, (part.map Prod.fst).Pairwise (· < ·)) :
    ((numbered number parts).map Prod.fst).Pairwise (· < ·) := by
  -- addresses of one part differ behind their first number, those of two in it
  induction parts generalizing number with
  | nil => exact .nil
  | cons part rest ih =>
    obtain ⟨own, others⟩ := List.forall_mem_cons.1 h
    rw [numbered, List.map_append]
    refine List.pairwise_append.2 ⟨?_, ih others, ?_⟩
    · rw [List.map_map]
      have led := own.map (number :: ·) fun a b less => List.cons_lt_cons_iff.2 (.inr ⟨rfl, less⟩)
      rwa [List.map_map] at led
    · intro a first b second
      obtain ⟨_, mem, rfl⟩ := List.mem_map.1 first
      obtain ⟨⟨_, _⟩, _, rfl⟩ := List.mem_map.1 mem
      obtain ⟨⟨_, _⟩, mem, rfl⟩ := List.mem_map.1 second
      obtain ⟨i, _, _, _, _, rfl⟩ := mem_numbered_iff.1 mem
      exact List.cons_lt_cons_iff.2 (.inl (by omega))

end

/-! ## Statements inside statements -/

/-- A statement is no larger than its block. -/
theorem Statement.size_le_of_mem {t : Statement} {block : Block} (h : t ∈ block) :
    t.size ≤ sizeAll block := by
  induction block with
  | nil => cases h
  | cons s rest ih =>
    rw [sizeAll]
    rcases List.mem_cons.1 h with rfl | h
    · omega
    · have := ih h
      omega

/-- What holds of a statement if it holds of those in the blocks inside it holds of all. -/
theorem Statement.inside_induction {P : Statement → Prop}
    (step : ∀ s : Statement, (∀ block ∈ s.children, ∀ t ∈ block, P t) → P s) (s : Statement) :
    P s := by
  induction size : s.size using Nat.strongRecOn generalizing s with
  | ind n ih =>
    refine step s fun block inside t mem => ih t.size ?_ t rfl
    have smaller := size_le_of_mem (List.mem_flatten.2 ⟨block, inside, mem⟩)
    have whole := sizeAll_children s
    omega

namespace Block

/-- The located statements of a block are its preorder, if this is so for each. -/
theorem map_snd_located_of {block : Block} (h : ∀ s ∈ block, s.located.map Prod.snd = s.preorder) :
    block.located.map Prod.snd = block.preorder := by
  rw [located, map_snd_numbered, List.flatMap_map]
  induction block with
  | nil => rfl
  | cons s rest ih =>
    obtain ⟨own, others⟩ := List.forall_mem_cons.1 h
    rw [List.flatMap_cons, own, ih others, preorder]

/-- The addresses in a block ascend, if they do in each of its statements. -/
theorem pairwise_located_of {block : Block}
    (h : ∀ s ∈ block, (s.located.map Prod.fst).Pairwise (· < ·)) :
    (block.located.map Prod.fst).Pairwise (· < ·) :=
  pairwise_numbered (List.forall_mem_map.2 h)

/-- A block has at an address what is located there, if this is so for each statement. -/
theorem mem_located_iff_of {block : Block}
    (h : ∀ s ∈ block, ∀ a t, (a, t) ∈ s.located ↔ s.at? a = some t) (a : List Nat)
    (t : Statement) : (a, t) ∈ block.located ↔ block.at? a = some t := by
  cases a with
  | nil => exact iff_of_false not_mem_numbered_nil nofun
  | cons i rest => exact mem_numbered_map_iff h i rest

end Block

namespace Statement

/-- The located statements are the preorder. -/
theorem map_snd_located (s : Statement) : s.located.map Prod.snd = s.preorder := by
  induction s using inside_induction with
  | step s ih =>
    rw [located_eq, preorder_eq, List.map_cons, map_snd_numbered, List.flatMap_map]
    congr 1
    exact List.flatMap_congr fun block inside => Block.map_snd_located_of (ih block inside)

/-- Their addresses ascend. -/
theorem pairwise_located (s : Statement) : (s.located.map Prod.fst).Pairwise (· < ·) := by
  induction s using inside_induction with
  | step s ih =>
    rw [located_eq, List.map_cons, List.pairwise_cons]
    refine ⟨fun a mem => ?_, pairwise_numbered (List.forall_mem_map.2 fun block inside =>
      Block.pairwise_located_of (ih block inside))⟩
    obtain ⟨⟨_, _⟩, among, rfl⟩ := List.mem_map.1 mem
    obtain ⟨_, _, _, _, _, rfl⟩ := mem_numbered_iff.1 among
    exact List.nil_lt_cons _ _

/-- A statement is located where its address leads. -/
theorem mem_located_iff (s : Statement) (a : List Nat) (t : Statement) :
    (a, t) ∈ s.located ↔ s.at? a = some t := by
  induction s using inside_induction generalizing a t with
  | step s ih =>
    rw [located_eq, List.mem_cons]
    cases a with
    | nil => simp [not_mem_numbered_nil, at?, eq_comm]
    | cons i rest =>
      rw [or_iff_right (by simp)]
      exact mem_numbered_map_iff (fun block mem => Block.mem_located_iff_of (ih block mem)) i rest

end Statement

namespace Block

/-- A walk with a stack stops after as many turns as there are statements. It visits them in
preorder, that is each address of a statement once, in ascending order. -/
theorem walks_in_preorder (block : Block) :
    Walk.turns (Statement.sizeAll block) (Walk.start block) = some ⟨[], block.walk⟩ ∧
      Walk.turn? ⟨[], block.walk⟩ = none ∧
      block.walk = block.preorder ∧
      ∃ addresses : List (List Nat), addresses.Pairwise (· < ·) ∧
        (∀ a, a ∈ addresses ↔ (block.at? a).isSome) ∧
        block.walk.map some = addresses.map block.at? := by
  have mem : ∀ a t, (a, t) ∈ block.located ↔ block.at? a = some t :=
    mem_located_iff_of fun s _ => s.mem_located_iff
  refine ⟨Walk.turns_sizeAll block [], rfl, walk_eq_preorder block, block.located.map Prod.fst,
    pairwise_located_of fun s _ => s.pairwise_located, fun a => ?_, ?_⟩
  · simp [mem, Option.isSome_iff_exists]
  · rw [walk_eq_preorder, ← map_snd_located_of fun s _ => s.map_snd_located, List.map_map,
      List.map_map]
    exact List.map_congr_left fun (a, t) among => ((mem a t).1 among).symm

end Block

end Crosswalk
