import Crosswalk.Proofs.Renaming
import Crosswalk.Proofs.Word

/-!
# Snake case

Snake case loses nothing of a name but how its words were told apart: without underscores it is the
name in lower case without its separators, which are underscores, hyphens and spaces. An underscore
that snake case adds stands between two characters that are none, so it is never the first character
and never next to another underscore.

`written` is what one character becomes after the one before it, and `snakeAfter_eq` says that snake
case is the concatenation of that. So all facts are about single characters (`written_cases`,
`written_before`, `written_behind`), and are carried to texts by induction on the characters
(`mem_snakeAfter`, `filter_snakeAfter`, `exists_separator`).
-/

namespace Crosswalk.Text
set_option autoImplicit false

/-! ## Lower case -/

/-- A code point is its own image or has one at a place of a run. -/
theorem mapRuns_cases (runs : List CaseRun) (n : Nat) :
    mapRuns runs n = n ∨ ∃ r ∈ runs, ∃ k ≤ r.last - r.first, mapRuns runs n = k + r.image := by
  induction runs with
  | nil => exact .inl rfl
  | cons r rest ih =>
    rw [mapRuns]
    split
    · exact .inl rfl
    · split
      · next inside =>
        have last : n ≤ r.last := by
          simp only [CodeRun.contains, Bool.and_eq_true, decide_eq_true_eq] at inside
          exact inside.1.2
        exact .inr ⟨r, List.mem_cons_self, n - r.first, by omega, rfl⟩
      · obtain same | ⟨r', mem, k, place, image⟩ := ih
        · exact .inl same
        · exact .inr ⟨r', List.mem_cons_of_mem r mem, k, place, image⟩

/-- No character but `c` itself stands in the lower case of `c` unless it comes behind the capitals
and signs of ASCII. -/
theorem mem_toLower {c d : Char} (mem : d ∈ toLower c) : d = c ∨ 'a' ≤ d := by
  rw [toLower] at mem
  split at mem
  -- the one letter that is written as two
  · right
    rcases List.mem_cons.1 mem with rfl | mem
    · decide
    · rw [List.mem_singleton.1 mem]
      decide
  · obtain rfl := List.mem_singleton.1 mem
    -- all others are written as they are, or as a letter from one of the runs
    rcases mapRuns_cases loweringRuns c.toNat with same | ⟨r, run, k, place, image⟩
    · exact .inl (by rw [same, Char.ofNat_toNat])
    -- no run comes down to before the small letters, or out of the characters
    · have images : ∀ r ∈ loweringRuns, 0x61 ≤ r.image ∧ (r.last - r.first + r.image < 0xd800 ∨
          0xdfff < r.image ∧ r.last - r.first + r.image < 0x110000) := by decide +kernel
      obtain ⟨above, character⟩ := images r run
      have valid : (k + r.image).isValidChar := by
        rcases character with low | ⟨high, bound⟩
        · exact .inl (by omega)
        · exact .inr ⟨by omega, by omega⟩
      have code : (Char.ofNat (k + r.image)).toNat = k + r.image := by
        rw [Char.ofNat, dif_pos valid]
        rfl
      right
      rw [image]
      show 'a'.val ≤ (Char.ofNat (k + r.image)).val
      rw [UInt32.le_iff_toNat_le]
      show 0x61 ≤ (Char.ofNat (k + r.image)).toNat
      omega

theorem toLower_ne_nil (c : Char) : toLower c ≠ [] := by
  rw [toLower]
  split <;> exact List.cons_ne_nil _ _

theorem isUpper_of_mem_toLower {c d : Char} (mem : d ∈ toLower c) : d.isUpper = false := by
  have lowered : ∀ n : Fin 128, (toLower (Char.ofNat n)).any Char.isUpper = false := by
    decide
  cases capital : d.isUpper with
  | false => rfl
  | true =>
    have between : d.val ≥ 'A'.val ∧ d.val ≤ 'Z'.val := of_decide_eq_true capital
    rcases mem_toLower mem with rfl | above
    · have small : d.toNat < 128 :=
        Nat.lt_of_le_of_lt (UInt32.le_iff_toNat_le.1 between.2) (by decide)
      have kept := forall_ascii (P := fun c => (toLower c).any Char.isUpper = false) lowered small
      exact absurd capital (List.any_eq_false.1 kept d mem)
    · have order : 'a' ≤ 'Z' := Char.le_trans above between.2
      exact absurd order (by decide)

/-- The characters that are written as underscores. -/
def isSeparator (c : Char) : Bool :=
  c == '_' || isGap c

theorem isSeparator_iff {c : Char} : isSeparator c = true ↔ c = '_' ∨ c = '-' ∨ c = ' ' := by
  simp [isSeparator, isGap]

theorem underscore_not_mem_toLower {c : Char} (h : isSeparator c = false) : '_' ∉ toLower c := by
  intro mem
  rcases mem_toLower mem with rfl | le
  · exact absurd h (by decide)
  · exact absurd le (by decide)

/-! ## Characters and their neighbours -/

/-- What a character is written as between its neighbours. -/
def written (prev : Option Char) (c : Char) (next : Option Char) : List Char :=
  if isGap c then ['_']
  else if isUpper c && prev.any (startsWord · next) then '_' :: toLower c
  else toLower c

theorem snakeAfter_eq (prev : Option Char) (c : Char) (rest : List Char) :
    snakeAfter prev (c :: rest) = written prev c rest.head? ++ snakeAfter (some c) rest := by
  rw [snakeAfter, written]
  split
  · rfl
  · split <;> rfl

variable {prev next : Option Char} {c : Char} {s u v : List Char}

theorem written_separator (h : isSeparator c = true) : written prev c next = ['_'] := by
  rcases isSeparator_iff.1 h with rfl | rfl | rfl
  · have plain : isGap '_' = false ∧ isUpper '_' = false ∧ toLower '_' = ['_'] := by decide
    simp [written, plain]
  · rfl
  · rfl

/-- Other characters are written in lower case, behind an underscore or not. -/
theorem written_cases (h : isSeparator c = false) (prev next : Option Char) :
    written prev c next = toLower c ∨ written prev c next = '_' :: toLower c := by
  have gap : isGap c = false := (Bool.or_eq_false_iff.1 h).2
  rw [written, gap, if_neg Bool.false_ne_true]
  split
  · exact .inr rfl
  · exact .inl rfl

/-- No word starts behind a separator. -/
theorem written_behind (behind : ∀ p ∈ prev, isSeparator p = true) (h : isSeparator c = false) :
    written prev c next = toLower c := by
  have gap : isGap c = false := (Bool.or_eq_false_iff.1 h).2
  have separators : ∀ p, isSeparator p = true →
      isLower p = false ∧ isUpper p = false ∧ p.isDigit = false := by
    intro p separator
    rcases isSeparator_iff.1 separator with rfl | rfl | rfl <;> decide
  have none : prev.any (startsWord · next) = false := by
    cases prev with
    | none => rfl
    | some p =>
      obtain ⟨lower, upper, digit⟩ := separators p (behind p rfl)
      simp [startsWord, lower, upper, digit]
  simp [written, gap, none]

/-- Before a separator a character is written as at the end. -/
theorem written_before {b : Char} (h : isSeparator b = true) :
    written prev c (some b) = written prev c none := by
  have lower : isLower b = false := by
    rcases isSeparator_iff.1 h with rfl | rfl | rfl <;> decide
  simp [written, startsWord, lower]

/-- Snake case is made of underscores and the lower case of the other characters. -/
theorem mem_snakeAfter {d : Char} (mem : d ∈ snakeAfter prev s) :
    d = '_' ∨ ∃ c ∈ s, isGap c = false ∧ d ∈ toLower c := by
  -- induction on the text; a letter is written behind an underscore or alone, and a separator as
  -- one
  induction s generalizing prev with
  | nil => cases mem
  | cons c rest ih =>
    rw [snakeAfter_eq, List.mem_append] at mem
    rcases mem with own | later
    · cases separator : isSeparator c with
      | true =>
        rw [written_separator separator] at own
        exact .inl (List.mem_singleton.1 own)
      | false =>
        have gap : isGap c = false := (Bool.or_eq_false_iff.1 separator).2
        rcases written_cases separator prev rest.head? with same | same
        · rw [same] at own
          exact .inr ⟨c, List.mem_cons_self, gap, own⟩
        · rw [same] at own
          rcases List.mem_cons.1 own with rfl | own
          · exact .inl rfl
          · exact .inr ⟨c, List.mem_cons_self, gap, own⟩
    · obtain rfl | ⟨c', among, lower⟩ := ih later
      · exact .inl rfl
      · exact .inr ⟨c', List.mem_cons_of_mem c among, lower⟩

/-- Snake case has no ASCII capitals. -/
theorem isUpper_of_mem_snakeAfter {d : Char} (mem : d ∈ snakeAfter prev s) : d.isUpper = false := by
  obtain rfl | ⟨c, _, _, lower⟩ := mem_snakeAfter mem
  · rfl
  · exact isUpper_of_mem_toLower lower

/-! ## Names -/

/-- Without underscores the snake case is the text in lower case without its separators. -/
theorem filter_snakeAfter (prev : Option Char) (s : List Char) :
    (snakeAfter prev s).filter (· ≠ '_') = (s.filter (!isSeparator ·)).flatMap toLower := by
  induction s generalizing prev with
  | nil => rfl
  | cons c rest ih =>
    rw [snakeAfter_eq, List.filter_append, ih]
    cases separator : isSeparator c with
    | true => simp [written_separator separator, separator]
    | false =>
      have kept : (toLower c).filter (· ≠ '_') = toLower c :=
        List.filter_eq_self.2 fun d mem => by
          have other : d ≠ '_' := fun same => underscore_not_mem_toLower separator (same ▸ mem)
          simpa using other
      have own : (written prev c rest.head?).filter (· ≠ '_') = toLower c := by
        rcases written_cases separator prev rest.head? with same | same
        · rw [same, kept]
        · rw [same, List.filter_cons_of_neg (by simp), kept]
      rw [own, List.filter_cons_of_pos (by simp [separator]), List.flatMap_cons]

/-- At the beginning and behind a separator, only a separator is written with an underscore in
front. -/
theorem exists_separator (behind : ∀ p ∈ prev, isSeparator p = true)
    (h : snakeAfter prev s = '_' :: v) :
    ∃ b q, s = b :: q ∧ isSeparator b = true ∧ v = snakeAfter (some b) q := by
  cases s with
  | nil => cases h
  | cons b q =>
    rw [snakeAfter_eq] at h
    cases separator : isSeparator b with
    | true =>
      rw [written_separator separator] at h
      exact ⟨b, q, rfl, separator, (List.cons.inj h).2.symm⟩
    | false =>
      obtain ⟨d, more, lower⟩ := List.exists_cons_of_ne_nil (toLower_ne_nil b)
      rw [written_behind behind separator, lower] at h
      obtain rfl : d = '_' := (List.cons.inj h).1
      exact absurd (lower ▸ List.mem_cons_self) (underscore_not_mem_toLower separator)

/-- A separator and what is behind it make no difference to the characters before them. -/
theorem written_append (p : List Char) {b : Char} (h : isSeparator b = true) (q : List Char) :
    written prev c (p ++ b :: q).head? = written prev c p.head? := by
  cases p with
  | nil => exact written_before h
  | cons => rfl

/-- Two underscores side by side are those of two separators side by side. -/
theorem exists_separators (h : snakeAfter prev s = u ++ '_' :: '_' :: v) :
    ∃ p a b q, s = p ++ a :: b :: q ∧ isSeparator a = true ∧ isSeparator b = true ∧
      u = snakeAfter prev p ∧ v = snakeAfter (some b) q := by
  induction s generalizing prev u with
  | nil => simp [snakeAfter] at h
  | cons c rest ih =>
    have later : ∀ w, u = written prev c rest.head? ++ w →
        snakeAfter (some c) rest = w ++ '_' :: '_' :: v →
        ∃ p a b q, c :: rest = p ++ a :: b :: q ∧ isSeparator a = true ∧ isSeparator b = true ∧
          u = snakeAfter prev p ∧ v = snakeAfter (some b) q := by
      rintro w rfl tail
      obtain ⟨p, a, b, q, rfl, ha, hb, rfl, rfl⟩ := ih tail
      refine ⟨c :: p, a, b, q, rfl, ha, hb, ?_, rfl⟩
      rw [snakeAfter_eq, written_append p ha]
    rw [snakeAfter_eq] at h
    rcases List.append_eq_append_iff.1 h with ⟨w, front, tail⟩ | ⟨w, own, tail⟩
    · exact later w front tail
    · cases w with
      | nil => exact later [] (by simpa using own.symm) (by simpa using tail.symm)
      | cons d w =>
        obtain rfl : '_' = d := (List.cons.inj tail).1
        have next : '_' :: v = w ++ snakeAfter (some c) rest := (List.cons.inj tail).2
        cases separator : isSeparator c with
        | true =>
          rw [written_separator separator] at own
          obtain ⟨rfl, rfl⟩ : u = [] ∧ w = [] := by
            cases u with
            | nil => exact ⟨rfl, (List.cons.inj own).2.symm⟩
            | cons => simp at own
          have behind : ∀ p ∈ some c, isSeparator p = true := by
            rintro p ⟨⟩
            exact separator
          obtain ⟨b, q, rfl, hb, rfl⟩ := exists_separator behind next.symm
          exact ⟨[], c, b, q, rfl, separator, hb, rfl, rfl⟩
        | false =>
          -- an underscore before the lower case of a character is the only one written for it
          have clear := underscore_not_mem_toLower separator
          rcases written_cases separator prev rest.head? with same | same
          · exact absurd (by rw [← same, own]; simp) clear
          · rw [same] at own
            cases u with
            | nil =>
              obtain rfl : toLower c = w := (List.cons.inj own).2
              obtain ⟨d, more, lower⟩ := List.exists_cons_of_ne_nil (toLower_ne_nil c)
              rw [lower] at next clear
              exact absurd (by rw [(List.cons.inj next).1]; exact List.mem_cons_self) clear
            | cons d u =>
              have among : toLower c = u ++ '_' :: w := (List.cons.inj own).2
              exact absurd (by rw [among]; simp) clear

/-! ## ASCII names -/

/-- In the snake case of an ASCII text every character is written as itself. -/
theorem inSnakeCase_snakeCase {s : String} (ascii : ∀ c ∈ s.toList, c.toNat < 128) :
    InSnakeCase (snakeCase s) := by
  have each : ∀ n : Fin 128, isGap (Char.ofNat n) = false → (toLower (Char.ofNat n)).all
      (fun d => !isGap d && !isUpper d && toLower d == [d]) = true := by decide
  intro d mem
  rw [snakeCase, String.toList_ofList] at mem
  obtain rfl | ⟨c, among, gap, lower⟩ := mem_snakeAfter mem
  · decide
  · have kept := forall_ascii (P := fun c => isGap c = false → (toLower c).all
      (fun d => !isGap d && !isUpper d && toLower d == [d]) = true) each (ascii c among) gap
    simpa [and_assoc] using List.all_eq_true.1 kept d lower

/-- Snake case loses nothing: without underscores it is the name in lower case without separators,
an underscore is first only if a separator is, and two are side by side only where two separators
are. An ASCII name in snake case has no capital, hyphen or space, and is its own snake case. -/
theorem snakeCase_lossless (name : String) :
    (snakeCase name).toList.filter (· ≠ '_') =
      (name.toList.filter (!isSeparator ·)).flatMap toLower ∧
    ((snakeCase name).toList.head? = some '_' → ∃ c ∈ name.toList.head?, isSeparator c = true) ∧
    (∀ u v, (snakeCase name).toList = u ++ '_' :: '_' :: v →
      ∃ p a b q, name.toList = p ++ a :: b :: q ∧ isSeparator a = true ∧ isSeparator b = true ∧
        u = snakeChars p ∧ v = snakeAfter (some b) q) ∧
    ((∀ c ∈ name.toList, c.toNat < 128) →
      (∀ d ∈ (snakeCase name).toList, isUpper d = false ∧ d ≠ '-' ∧ d ≠ ' ') ∧
        snakeCase (snakeCase name) = snakeCase name) := by
  have chars : (snakeCase name).toList = snakeAfter none name.toList := String.toList_ofList
  rw [chars]
  refine ⟨filter_snakeAfter none name.toList, fun first => ?_, fun u v => exists_separators,
    fun ascii => ⟨fun d mem => ?_, (inSnakeCase_snakeCase ascii).snakeCase⟩⟩
  · obtain ⟨v, shape⟩ := List.head?_eq_some_iff.1 first
    obtain ⟨b, q, text, separator, _⟩ := exists_separator (by simp) shape
    exact ⟨b, by rw [text]; rfl, separator⟩
  · obtain ⟨gap, upper, _⟩ := inSnakeCase_snakeCase ascii d (chars ▸ mem)
    refine ⟨upper, ?_, ?_⟩ <;>
      · rintro rfl
        cases gap

example : snakeCase "MDEntry-Px" = "md_entry_px" := by
  decide

end Crosswalk.Text
