import Crosswalk.MappingTable
import Crosswalk.Proofs.Except
import Crosswalk.Proofs.PathText
import Mathlib.Data.List.Dedup
import Mathlib.Data.List.Induction

/-!
# Mapping tables

Paths are totally ordered, and a table keeps its entries in ascending order. So it has one entry for
each path that mappings lead to, that of the last of them.
-/

namespace Crosswalk
set_option autoImplicit false

/-! ## The order of paths -/

/-- Only equal segments compare as equal. -/
theorem Segment.eq_of_compare {a b : Segment} (h : a.compare b = .eq) : a = b := by
  cases a <;> cases b <;> simp_all [Segment.compare]

instance : Std.TransCmp Segment.compare where
  eq_swap {a b} := by
    cases a with
    | field name =>
      cases b with
      | field name' => exact Std.OrientedOrd.eq_swap
      | _ => rfl
    | _ => cases b <;> rfl
  isLE_trans {a b c} := by
    cases a with
    | field name =>
      cases b with
      | field name' =>
        cases c with
        | field name'' => exact Std.TransOrd.isLE_trans
        | _ => simp [Segment.compare]
      | _ => cases c <;> simp [Segment.compare]
    | _ => cases b <;> cases c <;> simp [Segment.compare]

/-- The order of paths is the lexicographic one. -/
theorem Path.compareSegments_eq (as bs : List Segment) :
    compareSegments as bs = List.compareLex Segment.compare as bs := by
  induction as generalizing bs with
  | nil => cases bs <;> rfl
  | cons a as ih =>
    cases bs with
    | nil => rfl
    | cons b bs => rw [compareSegments, List.compareLex_cons_cons, ih]

namespace Path
variable {p q : Path}

theorem compare_eq (p q : Path) :
    p.compare q = List.compareLex Segment.compare p.segments q.segments :=
  compareSegments_eq p.segments q.segments

instance : Std.TransCmp Path.compare where
  eq_swap {p q} := by
    rw [compare_eq, compare_eq]
    exact Std.OrientedCmp.eq_swap
  isLE_trans {p q r} := by
    rw [compare_eq, compare_eq, compare_eq]
    exact Std.TransCmp.isLE_trans

@[simp] theorem compare_self (p : Path) : p.compare p = .eq :=
  Std.ReflCmp.compare_self

/-- Only equal paths compare as equal. -/
theorem eq_of_compare (h : p.compare q = .eq) : p = q := by
  obtain ⟨as⟩ := p
  obtain ⟨bs⟩ := q
  congr 1
  change compareSegments as bs = .eq at h
  induction as generalizing bs with
  | nil => cases bs <;> simp_all [compareSegments]
  | cons a as ih =>
    cases bs with
    | nil => simp [compareSegments] at h
    | cons b bs =>
      obtain ⟨first, rest⟩ := Ordering.then_eq_eq.1 h
      rw [Segment.eq_of_compare first, ih bs rest]

end Path

/-! ## Entries -/

/-- The entry of a mapping. -/
def Mapping.entry (m : Mapping) : Entry where
  source := .ofFields m.source
  field := m.field
  parentsOptional := m.parentsOptional
  overrides := m.overrides

namespace MappingTable
variable {path q : Path} {entry : Entry} {entries : List (Path × Entry)} {t : MappingTable}

/-- An entry is found under the path that it was inserted under. -/
theorem get?_insert_self : (t.insert path entry).get? path = some entry := by
  show (insertInto path entry t.entries).lookup path = some entry
  induction t.entries with
  | nil => simp [insertInto]
  | cons first rest ih =>
    obtain ⟨p, e⟩ := first
    rw [insertInto]
    split
    · simp
    · simp
    · next greater =>
      have other : (path == p) = false := by
        rw [beq_eq_false_iff_ne]
        rintro rfl
        simp at greater
      rw [List.lookup_cons, other, ih]

/-- Entries under other paths stay as they were. -/
theorem get?_insert_of_ne {p : Path} (other : p ≠ path) :
    (t.insert path entry).get? p = t.get? p := by
  have new : (p == path) = false := by simpa using other
  show (insertInto path entry t.entries).lookup p = t.entries.lookup p
  induction t.entries with
  | nil => simp [insertInto, List.lookup_cons, new]
  | cons first rest ih =>
    obtain ⟨q, e⟩ := first
    rw [insertInto]
    split
    · simp [List.lookup_cons, new]
    · next same =>
      obtain rfl := Path.eq_of_compare same
      simp [List.lookup_cons, new]
    · rw [List.lookup_cons, List.lookup_cons, ih]

/-- The paths that have entries. -/
def paths (t : MappingTable) : List Path :=
  t.entries.map Prod.fst

/-- An insertion adds its path and removes none. -/
theorem mem_paths_insert : q ∈ (t.insert path entry).paths ↔ q = path ∨ q ∈ t.paths := by
  show q ∈ (insertInto path entry t.entries).map Prod.fst ↔ _ ∨ q ∈ t.entries.map Prod.fst
  induction t.entries with
  | nil => simp [insertInto]
  | cons first rest ih =>
    obtain ⟨p, e⟩ := first
    rw [insertInto]
    split
    · simp
    · next same =>
      obtain rfl := Path.eq_of_compare same
      simp
    · rw [List.map_cons, List.mem_cons, ih, List.map_cons, List.mem_cons, or_left_comm]

/-- The paths of a table ascend. -/
def Ascends (t : MappingTable) : Prop :=
  t.paths.Pairwise fun p q => p.compare q = .lt

/-- Insertion keeps the paths in order: it goes past the smaller ones and replaces an equal one. -/
theorem Ascends.insert (h : t.Ascends) : (t.insert path entry).Ascends := by
  obtain ⟨entries⟩ := t
  show ((insertInto path entry entries).map Prod.fst).Pairwise _
  -- induction on the entries; the new one is put before the first that is greater
  induction entries with
  | nil => exact List.pairwise_singleton _ _
  | cons first rest ih =>
    obtain ⟨p, e⟩ := first
    obtain ⟨above, ascends⟩ := List.pairwise_cons.1 h
    rw [insertInto]
    split
    · next less =>
      refine List.pairwise_cons.2 ⟨fun q mem => ?_, h⟩
      rcases List.mem_cons.1 mem with rfl | mem
      · exact less
      · exact Std.TransCmp.lt_trans less (above q mem)
    -- an entry at the same path is replaced
    · next same =>
      obtain rfl := Path.eq_of_compare same
      exact h
    · next greater =>
      refine List.pairwise_cons.2 ⟨fun q mem => ?_, ih ascends⟩
      have either : q = path ∨ q ∈ (MappingTable.mk rest).paths := mem_paths_insert.1 mem
      rcases either with rfl | mem
      · exact Std.OrientedCmp.lt_of_gt greater
      · exact above q mem

/-- In ascending order no path stands twice. -/
theorem Ascends.nodup (h : t.Ascends) : t.paths.Nodup := by
  refine List.Pairwise.imp (fun less same => ?_) h
  subst same
  simp at less

/-! ## Tables of mappings -/

variable {mappings : List Mapping} {m : Mapping}

/-- The last mapping is entered last. -/
theorem ofMappings_concat (h : ofMappings (mappings ++ [m]) = .ok t) :
    ∃ before path, ofMappings mappings = .ok before ∧ Path.parse m.dest = .ok path ∧
      t = before.insert path m.entry := by
  rw [ofMappings, List.foldlM_append] at h
  obtain ⟨before, first, h⟩ := bind_eq_ok.1 h
  rw [List.foldlM_cons] at h
  obtain ⟨_, inserted, h⟩ := bind_eq_ok.1 h
  obtain ⟨path, parsed, inserted⟩ := bind_eq_ok.1 inserted
  obtain rfl := pure_eq_ok.1 inserted
  obtain rfl := pure_eq_ok.1 h
  exact ⟨before, path, first, parsed, rfl⟩

/-- A table that is built by insertions is in order. -/
theorem ascends_ofMappings (h : ofMappings mappings = .ok t) : t.Ascends := by
  induction mappings using List.reverseRecOn generalizing t with
  | nil =>
    obtain rfl := pure_eq_ok.1 h
    exact .nil
  | append_singleton mappings m ih =>
    obtain ⟨before, path, first, _, rfl⟩ := ofMappings_concat h
    exact (ih first).insert

/-- The text of every mapping is that of a path. -/
theorem exists_path_of_ofMappings (h : ofMappings mappings = .ok t) (mem : m ∈ mappings) :
    ∃ path, Path.parse m.dest = .ok path := by
  induction mappings using List.reverseRecOn generalizing t with
  | nil => cases mem
  | append_singleton mappings last ih =>
    obtain ⟨before, path, first, parsed, _⟩ := ofMappings_concat h
    rcases List.mem_append.1 mem with mem | mem
    · exact ih first mem
    · obtain rfl := List.mem_singleton.1 mem
      exact ⟨path, parsed⟩

/-- The paths of a table are those that the mappings' destinations are read as. -/
theorem mem_paths_ofMappings (h : ofMappings mappings = .ok t) :
    q ∈ t.paths ↔ ∃ m ∈ mappings, Path.parse m.dest = .ok q := by
  induction mappings using List.reverseRecOn generalizing t with
  | nil =>
    obtain rfl := pure_eq_ok.1 h
    simp [paths, empty]
  | append_singleton mappings m ih =>
    obtain ⟨before, path, first, parsed, rfl⟩ := ofMappings_concat h
    rw [mem_paths_insert, ih first]
    simp [or_and_right, exists_or, parsed, or_comm, eq_comm]

/-- The entry at a path is that of the last mapping to it. -/
theorem get?_ofMappings (h : ofMappings mappings = .ok t) (path : Path) :
    t.get? path =
      (mappings.reverse.find? fun m => (Path.parse m.dest).toOption = some path).map
        Mapping.entry := by
  induction mappings using List.reverseRecOn generalizing t with
  | nil =>
    obtain rfl := pure_eq_ok.1 h
    rfl
  | append_singleton mappings m ih =>
    obtain ⟨before, last, first, parsed, rfl⟩ := ofMappings_concat h
    rw [List.reverse_append, List.reverse_singleton, List.singleton_append, List.find?_cons, parsed]
    by_cases same : last = path
    · subst same
      simp [Except.toOption, get?_insert_self]
    · rw [get?_insert_of_ne (Ne.symm same), ih first]
      simp [Except.toOption, same]

/-- There are as many entries as there are different texts, when these are tidied. -/
theorem size_ofMappings (h : ofMappings mappings = .ok t) :
    t.size = (mappings.map fun m => Path.tidied m.dest).dedup.length := by
  have parsed : ∀ p ∈ t.paths, ∃ m ∈ mappings, Path.parse m.dest = .ok p :=
    fun p => (mem_paths_ofMappings h).1
  -- paths are told apart by their texts
  have differ : (t.paths.map Path.text).Nodup := by
    refine List.Nodup.map_on (fun p hp q hq same => ?_) (ascends_ofMappings h).nodup
    obtain ⟨m, _, first⟩ := parsed p hp
    obtain ⟨m', _, second⟩ := parsed q hq
    rw [Path.text_eq_tidied first, Path.text_eq_tidied second] at same
    exact (Path.eq_iff_tidied_eq first second).2 same
  -- the texts of the paths are those of the mappings, each once
  have perm : (t.paths.map Path.text).Perm (mappings.map fun m => Path.tidied m.dest).dedup := by
    refine (List.perm_ext_iff_of_nodup differ (List.nodup_dedup _)).2 fun text => ?_
    rw [List.mem_dedup, List.mem_map, List.mem_map]
    constructor
    · rintro ⟨p, mem, rfl⟩
      obtain ⟨m, among, read⟩ := parsed p mem
      exact ⟨m, among, (Path.text_eq_tidied read).symm⟩
    · rintro ⟨m, among, rfl⟩
      obtain ⟨p, read⟩ := exists_path_of_ofMappings h among
      exact ⟨p, (mem_paths_ofMappings h).2 ⟨m, among, read⟩, Path.text_eq_tidied read⟩
  have length := perm.length_eq
  rwa [List.length_map, paths, List.length_map] at length

end MappingTable

end Crosswalk
