import Crosswalk.Markup.Node

/-!
# Balanced tokens

Closed elements side by side have balanced tokens, and `nest` reads them back wherever they stand.
The tokens that it reads without a fault are those of closed elements and of elements left open.
-/

namespace Crosswalk.Markup
set_option autoImplicit false

/-- The tokens of closed elements; one without children may have an end tag all the same. -/
inductive Spells : List Node → List Token → Prop
  | nil : Spells [] []
  | empty {tag : Tag} {nodes : List Node} {tokens : List Token} (others : Spells nodes tokens) :
      Spells (.mk tag [] .closed :: nodes) (.empty tag :: tokens)
  | element {tag : Tag} {children nodes : List Node} {inner tokens : List Token}
      (inside : Spells children inner) (others : Spells nodes tokens) :
      Spells (.mk tag children .closed :: nodes) (.open tag :: inner ++ .close tag.name :: tokens)

namespace Spells
variable {nodes nodes' : List Node} {tokens tokens' : List Token}

theorem append (h : Spells nodes tokens) (h' : Spells nodes' tokens') :
    Spells (nodes ++ nodes') (tokens ++ tokens') := by
  induction h with
  | nil => exact h'
  | empty _ ih => exact .empty ih
  | element inside _ _ ih =>
    rw [List.cons_append, List.append_assoc]
    exact .element inside ih

/-- The tokens end with the end tag of the last element or are that element's only tag. -/
theorem getLast? (h : Spells nodes tokens) {n : Node} (last : nodes.getLast? = some n) :
    tokens.getLast? = some (.close n.name) ∨ tokens.getLast? = some (.empty n.tag) := by
  induction h with
  | nil => cases last
  | @empty tag nodes tokens others ih =>
    cases others with
    | nil =>
      obtain rfl : Node.mk tag [] .closed = n := by simpa using last
      exact .inr rfl
    | empty _ => exact ih (by simpa using last)
    | element _ _ => exact ih (by simpa using last)
  | @element tag children nodes inner tokens inside others _ ih =>
    rw [List.getLast?_append]
    cases others with
    | nil =>
      obtain rfl : Node.mk tag children .closed = n := by simpa using last
      exact .inl rfl
    | empty _ => simpa using ih (by simpa using last)
    | element _ _ => simpa using ih (by simpa using last)

end Spells

/-- Elements are read back whatever stands before them and behind them. -/
theorem nest_spells {nodes : List Node} {tokens : List Token} (h : Spells nodes tokens)
    (fault? : Option Fault) (outer : List Enclosing) (done : List Node) (rest : List Token) :
    nest fault? outer done (tokens ++ rest) = nest fault? outer (nodes.reverse ++ done) rest := by
  induction h generalizing outer done rest with
  | nil => rfl
  | empty _ ih => rw [List.cons_append, nest, ih, List.reverse_cons, List.append_assoc]; rfl
  | @element tag children nodes inner tokens _ _ ihi ih =>
    rw [List.cons_append, List.cons_append, List.append_assoc, nest, ihi, List.append_nil,
      List.cons_append, nest, if_pos rfl, ih, List.reverse_reverse, List.reverse_cons,
      List.append_assoc]
    rfl

theorem Spells.nest_eq {nodes : List Node} {tokens : List Token} (h : Spells nodes tokens) :
    nest none [] [] tokens = ⟨nodes, none⟩ := by
  have read := nest_spells h none [] [] []
  rwa [List.append_nil, List.append_nil, nest, collapse, List.reverse_reverse] at read

/-- The tokens of elements inside open ones; `done` holds those of the innermost, last first. -/
inductive Opens : List Enclosing → List Node → List Token → Prop
  | outermost {done : List Node} {tokens : List Token} (h : Spells done.reverse tokens) :
      Opens [] done tokens
  | inside {e : Enclosing} {outer : List Enclosing} {done : List Node} {tokens inner : List Token}
      (around : Opens outer e.before tokens) (h : Spells done.reverse inner) :
      Opens (e :: outer) done (tokens ++ .open e.tag :: inner)

namespace Opens
variable {outer : List Enclosing} {done : List Node} {tokens : List Token}

theorem snoc (h : Opens outer done tokens) {n : Node} {more : List Token} (one : Spells [n] more) :
    Opens outer (n :: done) (tokens ++ more) := by
  cases h with
  | outermost h => exact .outermost (List.reverse_cons ▸ h.append one)
  | inside around h =>
    rw [List.append_assoc, List.cons_append]
    exact .inside around (List.reverse_cons ▸ h.append one)

theorem close {e : Enclosing} (h : Opens (e :: outer) done tokens) :
    Opens outer (.mk e.tag done.reverse .closed :: e.before) (tokens ++ [.close e.tag.name]) := by
  cases h with
  | inside around h =>
    rw [List.append_assoc]
    exact around.snoc (.element h .nil)

end Opens

/-- Tokens that are read without a fault leave elements open and have closed all others. -/
theorem exists_opens_of_nest {outer : List Enclosing} {done : List Node} {before tokens : List Token}
    (opens : Opens outer done before) (sound : (nest none outer done tokens).fault? = none) :
    ∃ outer' done', Opens outer' done' (before ++ tokens) ∧
      nest none outer done tokens = ⟨collapse .cut outer' done', none⟩ := by
  induction tokens generalizing outer done before with
  | nil => exact ⟨outer, done, (List.append_nil before).symm ▸ opens, rfl⟩
  | cons token tokens ih =>
    rw [List.append_cons]
    cases token with
    | «open» tag =>
      exact ih (Opens.inside (e := ⟨tag, done⟩) opens .nil) sound
    | empty tag => exact ih (opens.snoc (.empty .nil)) sound
    | close name =>
      cases outer with
      | nil => cases sound
      | cons e outer =>
        rw [nest] at sound ⊢
        split at sound
        · next same =>
          rw [if_pos same]
          subst same
          exact ih opens.close sound
        · cases sound

end Crosswalk.Markup
