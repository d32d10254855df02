import Crosswalk.Proofs.Emission.Sound
import Crosswalk.Proofs.Nesting
import Crosswalk.Proofs.Staging

/-!
# Variables that do not clash

The variables for a list or map are named by a configured word and the identifier of its path. Two
of them are the same if the paths are spelled alike; and one can be a word that is configured for
something else, or look as if it began with the other word, since neither is checked. Where the
words lead nothing else, spelling alone decides.

By `assigns_iff_staged` the variables that are assigned are those of the staged paths, and each is a
lead and the identifier of its path (`mem_stagedVars`). Two of them are compared by their leads and
by what is behind these (`LeadsFree.lead_eq`, `LeadsFree.ident_eq`), and `noClash_iff` says when all
are apart.
-/

namespace Crosswalk
set_option autoImplicit false
open Converter

/-! ## What is assigned -/

/-- What stands in a part of a block stands in the block. -/
theorem Block.Within.occurs {part block : Block} (h : part.Within block) {t : Statement} :
    (∃ start site, Occurs start part site t) →
      ∀ start, ∃ site, Occurs start block site t := by
  intro inPart
  induction h with
  | here =>
    obtain ⟨start, site, at_⟩ := inPart
    exact at_.elsewhere
  | left _ ih => exact fun start => (ih start).imp fun _ => .append_left
  | @right a b _ ih => exact fun start => (ih (start.after a)).imp fun _ => .append_right
  | yes _ ih => exact fun start => (ih (start.yes _)).imp fun _ => .yes
  | no _ ih => exact fun start => (ih (start.no _)).imp fun _ => .no
  | loop _ ih => exact fun start => (ih (start.loop _ _)).imp fun _ => .loop

/-- A statement of the block, at whatever depth, assigns the variable. -/
def Block.Assigns (block : Block) (name : String) : Prop :=
  ∃ site t, Occurs .start block site t ∧ t.assigned? = some name

/-- The block of an aggregate with two sources assigns the variables that it is staged in. -/
theorem assigns_aggregateBlock {s : Settings} {slot : Slot} {shape : Shape} {choice : Choice}
    {element name : String} {boxed : Bool} {turn : Block} (two : choice.fallback?.isSome = true)
    (mem : name ∈ stagedVars s slot.path boxed) :
    (aggregateBlock s slot shape choice element boxed turn).Assigns name := by
  obtain ⟨primary, fallback?⟩ := choice
  obtain ⟨fallback, rfl⟩ := Option.isSome_iff_exists.1 two
  rw [aggregateBlock, stage_block, List.append_assoc, takeBlock]
  rcases List.mem_cons.1 mem with rfl | mem
  · exact ⟨_, _, .here, rfl⟩
  · cases boxed with
    | false => cases mem
    | true =>
      obtain rfl := List.mem_singleton.1 mem
      exact ⟨_, _, .later .here, rfl⟩

/-- A list or map with two sources assigns the variables that are made for it. -/
theorem Emits.assigns_staged {cv : Converter} {level : Level} {f : Field} {choice : Choice}
    {block : Block} {path : Path} {boxed : Bool} {name : String}
    (h : Emits cv (.value level (level.slot f) choice f.type) block)
    (staged : level.Stages f choice path boxed)
    (mem : name ∈ stagedVars cv.settings path boxed) : block.Assigns name := by
  obtain ⟨rfl, two, shape, element, kind, rfl⟩ := staged
  generalize level.slot f = slot at h mem
  generalize f.type = type at h kind
  cases h with
  | copied copied => simp [Ty.elements?_of_isCopied copied] at kind
  | binary => cases kind
  | struct => cases kind
  | elements kind' whole =>
    obtain ⟨rfl, rfl⟩ : shape = _ ∧ element = _ := by simpa using kind.symm.trans kind'
    exact assigns_aggregateBlock two (whole ▸ mem)
  | structs kind' =>
    obtain ⟨rfl, rfl⟩ : shape = _ ∧ element = _ := by simpa using kind.symm.trans kind'
    exact assigns_aggregateBlock two mem

/-- A program assigns the variables that are made for its lists and maps and no others. -/
theorem assigns_iff_staged {cv : Converter} {sources dests : List Field} {table : MappingTable}
    {block : Block} (h : cv.convert sources dests table = .ok block) (name : String) :
    block.Assigns name ↔ ∃ path boxed, Staged cv table sources dests path boxed ∧
      name ∈ stagedVars cv.settings path boxed := by
  have emitted := emits_of_convert h
  constructor
  -- an assignment to a variable is a staging, since all others write below the output
  · rintro ⟨site, t, at_, assigned⟩
    obtain ⟨target, written, root⟩ := target?_of_assigned? assigned
    rcases emitted.writesOwn _ site t at_ target written with ⟨f, mem, output, _⟩ | own
    · cases output.symm.trans root
    · obtain ⟨var, optional, rfl, deep, given, f, choice, reached, path, boxed, staged, mem⟩ := own
      cases root
      exact ⟨path, boxed, ⟨deep, given, f, choice, reached, staged⟩, mem⟩
  -- a path with two sources is reached, and its staging assigns the variables
  · rintro ⟨path, boxed, ⟨deep, given, f, choice, reached, staged⟩, mem⟩
    obtain ⟨part, filled, within⟩ := reached.emits emitted
    obtain ⟨site, t, at_, assigned⟩ := filled.assigns_staged staged mem
    obtain ⟨site', at_'⟩ := within.occurs ⟨_, _, at_⟩ .start
    exact ⟨site', t, at_', assigned⟩

/-! ## Names of variables -/

/-- The variables for one aggregate differ from each other, from those for any other, and from the
parameters of conversions and the variables of loops. -/
structure NoClash (s : Settings) (staged : Path → Bool → Prop) : Prop where
  one : ∀ p boxed, staged p boxed → (stagedVars s p boxed).Nodup
  others : ∀ p q boxed boxed', staged p boxed → staged q boxed' → p ≠ q →
    List.Disjoint (stagedVars s p boxed) (stagedVars s q boxed')
  fixed : ∀ p boxed, staged p boxed →
    List.Disjoint (stagedVars s p boxed) [s.source, s.dest, s.index, s.key, s.value]

namespace Settings
variable {s : Settings} {p q : Path} {boxed boxed' : Bool} {name : String}

/-- The configured identifiers. -/
def words (s : Settings) : List String :=
  s.identifiers.map (·.2)

/-- The identifiers that lead the names of variables for lists and maps. -/
def leads (s : Settings) : List String :=
  [s.sourceList, s.overrideFlag]

/-- No configured identifier begins like a variable for a list or map. -/
def LeadsFree (s : Settings) : Prop :=
  ∀ lead ∈ s.leads, ∀ word ∈ s.words, ¬ (lead ++ "_").toList <+: word.toList

instance : Decidable s.LeadsFree :=
  inferInstanceAs (Decidable (∀ lead ∈ s.leads, ∀ word ∈ s.words,
    ¬ (lead ++ "_").toList <+: word.toList))

/-- The leading identifiers are configured. -/
theorem leads_subset_words : s.leads ⊆ s.words := by
  simp [leads, words, identifiers]

/-- The parameters and the variables of loops are configured. -/
theorem fixed_subset_words : [s.source, s.dest, s.index, s.key, s.value] ⊆ s.words := by
  simp [words, identifiers]

/-- Identifiers that pass the check differ from each other and from those before them. -/
theorem nodup_of_checkIdentifiers {seen : List String} {items : List (Setting × String)}
    (h : checkIdentifiers seen items = .ok ()) :
    (items.map (·.2)).Nodup ∧ ∀ item ∈ items, item.2 ∉ seen := by
  -- what was seen grows along the list; `ih` says that the rest avoids it
  induction items generalizing seen with
  | nil => exact ⟨List.nodup_nil, fun _ mem => by cases mem⟩
  | cons item rest ih =>
    obtain ⟨setting, text⟩ := item
    rw [checkIdentifiers] at h
    split at h
    · cases h
    · split at h
      · cases h
      · next fresh =>
        obtain ⟨differ, unseen⟩ := ih h
        refine ⟨List.nodup_cons.2 ⟨fun mem => ?_, differ⟩, fun item mem => ?_⟩
        · obtain ⟨other, hm, same⟩ := List.mem_map.1 mem
          exact unseen other hm (same ▸ List.mem_cons_self)
        · rcases List.mem_cons.1 mem with rfl | mem
          · exact fresh
          · exact fun seen => unseen item mem (List.mem_cons_of_mem _ seen)

/-- The two identifiers that lead names of variables are different. -/
theorem leads_differ (h : s.validate = .ok ()) : s.sourceList ≠ s.overrideFlag := by
  obtain ⟨_, checked, _⟩ := bind_eq_ok.1 h
  have differ := (nodup_of_checkIdentifiers checked).1
  simp only [identifiers, List.map_cons, List.map_nil, List.nodup_cons, List.mem_cons] at differ
  exact fun same => differ.2.2.2.2.2.1 (.inl same)

/-- Each variable begins with a leading identifier and ends with the spelling of the path. -/
theorem mem_stagedVars (h : name ∈ stagedVars s p boxed) :
    ∃ lead ∈ s.leads, name = lead ++ "_" ++ p.ident := by
  rcases sourceListVar_or_overrideFlagVar h with rfl | rfl
  · exact ⟨s.sourceList, List.mem_cons_self, rfl⟩
  · exact ⟨s.overrideFlag, by simp [leads], rfl⟩

/-- Where a text goes on with an underscore, it is either all of another text or begins like it. -/
theorem eq_or_leads {a b x y : String} (h : a ++ "_" ++ x = b ++ "_" ++ y) :
    a = b ∨ (a ++ "_").toList <+: b.toList ∨ (b ++ "_").toList <+: a.toList := by
  have chars : a.toList ++ '_' :: x.toList = b.toList ++ '_' :: y.toList := by
    simpa using congrArg String.toList h
  -- of two texts that a mark ends, either both end there or one goes on behind the mark
  have cases : ∀ {k l more : List Char} {u v : List Char}, l = k ++ more →
      '_' :: u = more ++ '_' :: v → k = l ∨ k ++ ['_'] <+: l := by
    intro k l more u v whole rest
    cases more with
    | nil => exact .inl (by simpa using whole.symm)
    | cons c more =>
      obtain rfl : '_' = c := (List.cons.inj rest).1
      exact .inr ⟨more, by simp [whole]⟩
  rw [String.toList_append, String.toList_append]
  rcases List.append_eq_append_iff.1 chars with ⟨more, whole, rest⟩ | ⟨more, whole, rest⟩
  · exact (cases whole rest).imp String.toList_inj.1 .inl
  · exact (cases whole rest).imp (fun same => (String.toList_inj.1 same).symm) .inr

/-- If the words lead nothing else, two variables that are equal have one leading identifier. -/
theorem LeadsFree.lead_eq (free : s.LeadsFree) {a b x y : String} (ha : a ∈ s.leads)
    (hb : b ∈ s.leads) (h : a ++ "_" ++ x = b ++ "_" ++ y) : a = b := by
  rcases eq_or_leads h with same | begins | begins
  · exact same
  · exact absurd begins (free a ha b (leads_subset_words hb))
  · exact absurd begins (free b hb a (leads_subset_words ha))

/-- Then only paths of one identifier share a variable. -/
theorem LeadsFree.ident_eq (free : s.LeadsFree) (hp : name ∈ stagedVars s p boxed)
    (hq : name ∈ stagedVars s q boxed') : p.ident = q.ident := by
  obtain ⟨a, ha, rfl⟩ := mem_stagedVars hp
  obtain ⟨b, hb, same⟩ := mem_stagedVars hq
  obtain rfl := free.lead_eq ha hb same
  simpa [String.append_right_inj] using same

/-- The variables for one aggregate differ if their leading identifiers do. -/
theorem LeadsFree.nodup (free : s.LeadsFree) (differ : s.sourceList ≠ s.overrideFlag) :
    (stagedVars s p boxed).Nodup := by
  cases boxed with
  | false => simp [stagedVars]
  | true =>
    have apart : sourceListVar s p ≠ overrideFlagVar s p :=
      fun same => differ (free.lead_eq List.mem_cons_self (by simp [leads]) same)
    simpa [stagedVars] using apart

/-- The variables for an aggregate are none of the parameters and none of a loop's. -/
theorem LeadsFree.disjoint (free : s.LeadsFree) :
    List.Disjoint (stagedVars s p boxed) [s.source, s.dest, s.index, s.key, s.value] := by
  intro name staged fixed
  obtain ⟨lead, mem, rfl⟩ := mem_stagedVars staged
  refine free lead mem _ (fixed_subset_words fixed) ⟨p.ident.toList, ?_⟩
  simp

end Settings

section
variable {cv : Converter} {table : MappingTable} {sources dests : List Field}

/-- Then only paths that are spelled alike make variables clash. -/
theorem noClash_iff (differ : cv.settings.sourceList ≠ cv.settings.overrideFlag)
    (free : cv.settings.LeadsFree) :
    NoClash cv.settings (Staged cv table sources dests) ↔
      ∀ p q boxed boxed', Staged cv table sources dests p boxed →
        Staged cv table sources dests q boxed' → p.Alike q → p = q := by
  constructor
  · intro apart p q boxed boxed' hp hq alike
    by_contra other
    have same : sourceListVar cv.settings p = sourceListVar cv.settings q := by
      rw [sourceListVar, sourceListVar, Path.ident, Path.ident, alike]
    exact apart.others p q boxed boxed' hp hq other List.mem_cons_self (same ▸ List.mem_cons_self)
  · intro spelled
    refine ⟨fun p boxed _ => free.nodup differ, ?_, fun p boxed _ => free.disjoint⟩
    intro p q boxed boxed' hp hq other name mem mem'
    obtain ⟨_, leads⟩ := hp.fieldAt
    obtain ⟨_, leads'⟩ := hq.fieldAt
    have alike := (Path.ident_eq_iff_alike leads.ne_nil leads'.ne_nil).1 (free.ident_eq mem mem')
    exact other (spelled p q boxed boxed' hp hq alike)

/-- Two aggregates whose paths are spelled alike are one, if the names at each level are spelled
apart. -/
theorem Staged.eq_of_alike (differ : EachStruct SpellingsDiffer dests) {p q : Path}
    {boxed boxed' : Bool} (hp : Staged cv table sources dests p boxed)
    (hq : Staged cv table sources dests q boxed') (alike : p.Alike q) : p = q := by
  obtain ⟨_, leads⟩ := hp.fieldAt
  obtain ⟨_, leads'⟩ := hq.fieldAt
  have same := leads.eq_of_alike differ leads' alike
  cases p
  cases q
  simpa using same

end

/-- Where no configured identifier begins like the variables for lists and maps, these clash exactly
if paths are spelled alike, and so not at all in a tree of differently spelled names. -/
theorem staged_vars_apart {cv : Converter} {sources dests : List Field} {table : MappingTable}
    {block : Block} (valid : cv.settings.validate = .ok ()) (free : cv.settings.LeadsFree)
    (h : cv.convert sources dests table = .ok block) :
    (∀ name, block.Assigns name ↔ ∃ path boxed, Staged cv table sources dests path boxed ∧
        name ∈ stagedVars cv.settings path boxed) ∧
      (NoClash cv.settings (Staged cv table sources dests) ↔
        ∀ p q boxed boxed', Staged cv table sources dests p boxed →
          Staged cv table sources dests q boxed' → p.Alike q → p = q) ∧
      (EachStruct SpellingsDiffer dests → NoClash cv.settings (Staged cv table sources dests)) := by
  have differ := Settings.leads_differ valid
  exact ⟨assigns_iff_staged h, noClash_iff differ free, fun spelled =>
    (noClash_iff differ free).2 fun _ _ _ _ hp hq alike => hp.eq_of_alike spelled hq alike⟩

namespace Shelf

/-! The lists of a conversion that differ in spelling and some that do not. -/

/-- Each of the lists on the shelf has two sources, so it is staged. -/
theorem staged (settings : Settings) {names : List String} {name : String} {choice : Choice}
    (mem : name ∈ names)
    (chosen : (Level.top (table names)).choose (sources names) name = .ok choice)
    (two : choice.fallback?.isSome = true) :
    Staged (converter settings) (table names) (sources names) (dests names)
      (Path.root.field name) true :=
  ⟨_, _, rows true name, choice, .here (List.mem_map_of_mem mem) chosen, rfl, two, .list, row.toTy,
    rfl, rfl⟩

/-- With `Owner` and `OwnerTags` and the default words, no variables clash. -/
theorem staged_vars_apart_tags :
    ∃ block, (converter {}).convert (sources ["Owner", "OwnerTags"]) (dests ["Owner", "OwnerTags"])
        (table ["Owner", "OwnerTags"]) = .ok block ∧
      (Settings.validate {} = .ok () ∧ Settings.LeadsFree {}) ∧
      block.Assigns "source_list_owner_tags" ∧ block.Assigns "is_overridden_owner" ∧
      NoClash {} (Staged (converter {}) (table ["Owner", "OwnerTags"])
        (sources ["Owner", "OwnerTags"]) (dests ["Owner", "OwnerTags"])) := by
  have converts : ∃ block, (converter {}).convert (sources ["Owner", "OwnerTags"])
      (dests ["Owner", "OwnerTags"]) (table ["Owner", "OwnerTags"]) = .ok block := ⟨_, rfl⟩
  have spelled : SpellingsDiffer (dests ["Owner", "OwnerTags"]) := by
    unfold SpellingsDiffer
    decide
  obtain ⟨block, h⟩ := converts
  obtain ⟨assigned, _, apart⟩ := @staged_vars_apart (converter {}) _ _ _ _ rfl (by decide) h
  refine ⟨block, h, ⟨rfl, by decide⟩, (assigned _).2 ?_, (assigned _).2 ?_,
    apart (eachStruct spelled (by unfold SpellingsDiffer; decide))⟩
  · exact ⟨_, _, staged {} (by decide : "OwnerTags" ∈ _) rfl rfl, by decide⟩
  · exact ⟨_, _, staged {} (by decide : "Owner" ∈ _) rfl rfl, by decide⟩

/-- The variables for the lists of a conversion clash, although the names of its fields differ. -/
def Clashes (settings : Settings) (names : List String) : Prop :=
  settings.validate = .ok () ∧ EachStruct NamesDiffer (dests names) ∧
    (∃ block, (converter settings).convert (sources names) (dests names) (table names) =
      .ok block) ∧
    ¬ NoClash settings (Staged (converter settings) (table names) (sources names) (dests names))

/-- What one word leads can be led by the other. -/
def overlapping : Settings :=
  { sourceList := "list", overrideFlag := "list_of" }

/-- The parameter of conversions is named like the variable for a list. -/
def covered : Settings :=
  { source := "source_list_rows" }

/-- Names of the same words clash, and so do variables led by words that overlap, with each other or
with the parameter of the conversion. -/
theorem staged_vars_clash :
    Clashes {} ["tags", "tags_"] ∧
      Clashes overlapping ["OfRows", "Rows"] ∧ Clashes covered ["Rows"] := by
  have differ : ∀ names : List String, names.Nodup → EachStruct NamesDiffer (dests names) := by
    intro names nodup
    refine eachStruct ?_ (List.nodup_singleton _)
    simpa [NamesDiffer, dests, rows, Function.comp_def] using nodup
  refine ⟨⟨rfl, differ _ (by decide), ⟨_, rfl⟩, fun apart => ?_⟩,
    ⟨rfl, differ _ (by decide), ⟨_, rfl⟩, fun apart => ?_⟩,
    ⟨rfl, differ _ (by decide), ⟨_, rfl⟩, fun apart => ?_⟩⟩
  -- two paths with one spelling
  · have tags := staged {} (by decide : "tags" ∈ ["tags", "tags_"]) rfl rfl
    have tags_ := staged {} (by decide : "tags_" ∈ ["tags", "tags_"]) rfl rfl
    have other := apart.others _ _ _ _ tags tags_ (by decide)
    exact @other "source_list_tags" (by decide) (by decide)
  -- what one word leads is led by the other
  · have ofRows := staged overlapping (by decide : "OfRows" ∈ ["OfRows", "Rows"]) rfl rfl
    have rows := staged overlapping (by decide : "Rows" ∈ ["OfRows", "Rows"]) rfl rfl
    have other := apart.others _ _ _ _ ofRows rows (by decide)
    exact @other "list_of_rows" (by decide) (by decide)
  -- a parameter named like a variable
  · have rows := staged covered (by decide : "Rows" ∈ ["Rows"]) rfl rfl
    have fixed := apart.fixed _ _ rows
    exact @fixed "source_list_rows" (by decide) (by decide)

end Shelf

end Crosswalk
