import Crosswalk.Conversion.Level
import Crosswalk.Proofs.Table
import Mathlib.Data.Set.Card

/-!
# Entries under a path

In the order of paths nothing comes between a path and its extensions but further extensions. So
the entries from a path on that start with it, up to the first that does not, are all entries at or
under it, and a level sees exactly what was last inserted for each path under its own.
-/

namespace Crosswalk
set_option autoImplicit false

/-! ## Lists in which a condition ends once -/

section
variable {α : Type} {l : List α} {P : α → Bool}

/-- Where a condition that ends once has ended, nothing behind fulfills it. -/
theorem filter_eq_nil_of_pairwise {a : α}
    (h : (a :: l).Pairwise fun x y => P y = true → P x = true) (ends : P a = false) :
    l.filter P = [] := by
  refine List.filter_eq_nil_iff.2 fun x mem holds => ?_
  rw [(List.pairwise_cons.1 h).1 x mem holds] at ends
  cases ends

/-- So taking elements while it holds takes all of those that fulfill it. -/
theorem takeWhile_eq_filter (h : l.Pairwise fun x y => P y = true → P x = true) :
    l.takeWhile P = l.filter P := by
  induction l with
  | nil => rfl
  | cons a l ih =>
    cases holds : P a with
    | true => simp [holds, ih (List.pairwise_cons.1 h).2]
    | false => simp [holds, filter_eq_nil_of_pairwise h holds]

/-- Dropping elements while it holds leaves those that do not. -/
theorem dropWhile_eq_filter (h : l.Pairwise fun x y => P y = true → P x = true) :
    l.dropWhile P = l.filter fun x => !P x := by
  induction l with
  | nil => rfl
  | cons a l ih =>
    cases holds : P a with
    | true => simp [holds, ih (List.pairwise_cons.1 h).2]
    | false =>
      have none := List.filter_eq_nil_iff.1 (filter_eq_nil_of_pairwise h holds)
      have all : (l.filter fun x => !P x) = l :=
        List.filter_eq_self.2 fun x mem => by simpa using none x mem
      simp [holds, all]

end

/-! ## Extensions of a path -/

namespace Path
variable {lead p q : Path}

/-- A path starts with another if the segments of this come first. -/
theorem startsWith_iff : p.startsWith lead = true ↔ lead.segments <+: p.segments :=
  List.isPrefixOf_iff_prefix

/-- A longer path does not come before what it starts with. -/
theorem compareSegments_append (lead rest : List Segment) :
    compareSegments (lead ++ rest) lead ≠ .lt := by
  induction lead with
  | nil => cases rest <;> simp [compareSegments]
  | cons a lead ih =>
    have same : a.compare a = .eq := Std.ReflCmp.compare_self
    rw [List.cons_append, compareSegments, same]
    exact ih

/-- A path does not come before one that it starts with. -/
theorem compare_ne_lt_of_startsWith (h : p.startsWith lead = true) : p.compare lead ≠ .lt := by
  obtain ⟨rest, extended⟩ := startsWith_iff.1 h
  rw [compare, ← extended]
  exact compareSegments_append lead.segments rest

/-- What lies between a path and one that starts with it starts with it as well. This is why the
scan may stop at the first path that does not. -/
theorem isPrefix_of_between {lead p q : List Segment} (first : compareSegments p lead ≠ .lt)
    (second : compareSegments p q = .lt) (h : lead <+: q) : lead <+: p := by
  induction lead generalizing p q with
  | nil => exact List.nil_prefix
  | cons a lead ih =>
    obtain ⟨rest, rfl⟩ := h
    cases p with
    | nil => exact absurd rfl first
    | cons b p =>
      rw [List.cons_append, compareSegments] at second
      rw [compareSegments] at first
      cases order : b.compare a with
      | lt => simp [order] at first
      | gt => simp [order] at second
      | eq =>
        obtain rfl := Segment.eq_of_compare order
        rw [order] at first second
        exact List.cons_prefix_cons.2 ⟨rfl, ih first second (List.prefix_append lead rest)⟩

/-- A path between another and an extension of it is an extension, too. -/
theorem startsWith_of_between (first : p.compare lead ≠ .lt) (second : p.compare q = .lt)
    (h : q.startsWith lead = true) : p.startsWith lead = true :=
  startsWith_iff.2 (isPrefix_of_between first second (startsWith_iff.1 h))

theorem startsWith_of_isUnder (h : p.isUnder lead = true) : p.startsWith lead = true :=
  (Bool.and_eq_true_iff.1 h).2

end Path

namespace MappingTable
variable {t : MappingTable} {lead p : Path} {e : Entry}

/-! ## The scan -/

/-- The scan from a path on stops too early for no entry under the path. -/
theorem Ascends.under_eq_filter (h : t.Ascends) (lead : Path) :
    t.under lead = t.entries.filter fun entry => entry.1.isUnder lead := by
  -- the entries ascend, so those before the path come first
  have ascends : t.entries.Pairwise fun a b => a.1.compare b.1 = .lt := List.pairwise_map.1 h
  have before : t.entries.Pairwise fun a b =>
      (b.1.compare lead == .lt) = true → (a.1.compare lead == .lt) = true := by
    refine ascends.imp fun less below => ?_
    rw [beq_iff_eq] at below ⊢
    exact Std.TransCmp.lt_trans less below
  -- behind them, those that start with the path are together
  have contiguous : (t.entries.filter fun a => !(a.1.compare lead == .lt)).Pairwise fun a b =>
      b.1.startsWith lead = true → a.1.startsWith lead = true := by
    refine (ascends.filter _).imp_of_mem fun mem _ less extends_ => ?_
    have behind := (List.mem_filter.1 mem).2
    exact Path.startsWith_of_between (by simpa using behind) less extends_
  show ((t.entries.dropWhile _).takeWhile _).filter _ = _
  rw [dropWhile_eq_filter before, takeWhile_eq_filter contiguous, List.filter_filter,
    List.filter_filter]
  -- the two conditions of the range follow from being under the path
  refine List.filter_congr fun entry _ => ?_
  show (entry.1.isUnder lead && entry.1.startsWith lead && !(entry.1.compare lead == .lt)) =
    entry.1.isUnder lead
  cases under : entry.1.isUnder lead with
  | false => rfl
  | true =>
    have starts := Path.startsWith_of_isUnder under
    simp [starts, Path.compare_ne_lt_of_startsWith starts]

/-- A table has one entry for a path, which looking it up finds. -/
theorem Ascends.mem_entries_iff (h : t.Ascends) : (p, e) ∈ t.entries ↔ t.get? p = some e := by
  constructor
  · intro mem
    obtain ⟨before, after, split⟩ := List.append_of_mem mem
    have differ := h.nodup
    rw [paths, split, List.map_append] at differ
    refine List.lookup_eq_some_iff.2 ⟨before, after, split, fun other among => ?_⟩
    have apart := (List.nodup_append.1 differ).2.2 _ (List.mem_map_of_mem among) p (by simp)
    simpa using Ne.symm apart
  · intro found
    exact mem_of_lookup found

/-- The scan finds the entries of exactly those paths that are under the given one. -/
theorem Ascends.mem_under_iff (h : t.Ascends) :
    (p, e) ∈ t.under lead ↔ p.isUnder lead = true ∧ t.get? p = some e := by
  rw [h.under_eq_filter, List.mem_filter, h.mem_entries_iff, and_comm]

/-- The scan gives its entries in ascending order. -/
theorem Ascends.pairwise_under (h : t.Ascends) (lead : Path) :
    ((t.under lead).map Prod.fst).Pairwise fun p q => p.compare q = .lt := by
  rw [h.under_eq_filter]
  exact List.Pairwise.sublist (List.filter_sublist.map _) h

end MappingTable

/-! ## What a level sees -/

namespace Level
variable {p : Path} {e : Entry}

/-- The entry of a level for a path is one that the scan under the level's path gives. -/
theorem mapping?_eq_some_iff (l : Level) (h : l.table.Ascends) :
    l.mapping? p = some e ↔ (p, e) ∈ l.table.under l.path := by
  rw [h.mem_under_iff]
  exact Option.ite_none_right_eq_some

/-- A level counts the paths for which it sees an entry. -/
theorem encard_mapping? (l : Level) (h : l.table.Ascends) :
    {p | ∃ e, l.mapping? p = some e}.encard = l.mappingCount := by
  have differ : ((l.table.under l.path).map Prod.fst).Nodup := by
    refine (h.pairwise_under l.path).imp fun less same => ?_
    subst same
    simp at less
  have visible : {p | ∃ e, l.mapping? p = some e} =
      (((l.table.under l.path).map Prod.fst).toFinset : Set Path) := by
    ext p
    simp [l.mapping?_eq_some_iff h]
  rw [visible, Set.encard_coe_eq_coe_finsetCard, List.toFinset_card_of_nodup differ,
    List.length_map]
  rfl

end Level

namespace MappingTable

/-! ## Tables built by insertions -/

/-- The table of entries that are inserted one by one. -/
def ofInserts (inserts : List (Path × Entry)) : MappingTable :=
  inserts.foldl (fun t (path, entry) => t.insert path entry) empty

theorem ofInserts_concat (inserts : List (Path × Entry)) (path : Path) (entry : Entry) :
    ofInserts (inserts ++ [(path, entry)]) = (ofInserts inserts).insert path entry :=
  List.foldl_concat ..

/-- However it is built, a table is in order. -/
theorem ascends_ofInserts (inserts : List (Path × Entry)) : (ofInserts inserts).Ascends := by
  induction inserts using List.reverseRecOn with
  | nil => exact .nil
  | append_singleton inserts last ih =>
    rw [ofInserts_concat]
    exact ih.insert

/-- What was inserted last for a path is there. -/
theorem get?_ofInserts (inserts : List (Path × Entry)) (p : Path) :
    (ofInserts inserts).get? p = inserts.reverse.lookup p := by
  induction inserts using List.reverseRecOn with
  | nil => rfl
  | append_singleton inserts last ih =>
    obtain ⟨path, entry⟩ := last
    rw [ofInserts_concat, List.reverse_concat, List.lookup_cons]
    cases same : p == path with
    | true =>
      obtain rfl := beq_iff_eq.1 same
      exact get?_insert_self
    | false => rw [get?_insert_of_ne (beq_eq_false_iff_ne.1 same), ih]

/-- The entries found under a path are all entries under it, in ascending order, each the last that
was inserted for its path. A level at the path sees these and counts them. -/
theorem sees_exactly_under (inserts : List (Path × Entry)) (lead : Path) (dest source : Place)
    (depth : Nat) :
    let t := ofInserts inserts
    let level : Level := ⟨lead, dest, source, depth, t⟩
    t.under lead = t.entries.filter (fun (p, _) => p.isUnder lead) ∧
      ((t.under lead).map Prod.fst).Pairwise (fun p q => p.compare q = .lt) ∧
      (∀ p e, (p, e) ∈ t.under lead ↔
        p.isUnder lead = true ∧ inserts.reverse.lookup p = some e) ∧
      (∀ p e, level.mapping? p = some e ↔ (p, e) ∈ t.under lead) ∧
      {p | ∃ e, level.mapping? p = some e}.encard = level.mappingCount := by
  intro t level
  have ascends : t.Ascends := ascends_ofInserts inserts
  refine ⟨ascends.under_eq_filter lead, ascends.pairwise_under lead, fun p e => ?_,
    fun p e => level.mapping?_eq_some_iff ascends, level.encard_mapping? ascends⟩
  rw [ascends.mem_under_iff, get?_ofInserts]

/-- A path is under another by its segments and not by its text. -/
example (e : Entry) :
    let foo := Path.root.field "Foo"
    ((ofInserts [((Path.root.field "FooBar").field "Baz", e), ((foo.field "Qux").index, e),
      (foo, e), (foo.field "Baz", e)]).under foo).map (·.1.text) = ["Foo.Baz", "Foo.Qux[index]"] := by
  rfl

end MappingTable

end Crosswalk
