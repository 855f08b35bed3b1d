import DocWeave.Entity.Lineage
import Mathlib.Data.List.Induction
import Mathlib.Data.List.Nodup
import Mathlib.Data.List.Perm.Subperm
import Mathlib.Logic.Relation

/-!
# Lineages of a hierarchy

A list of classes is ordered if each of them stands behind its own bases. Settling a class keeps its
lineage ordered, and an ordered list with no repetition leaves no room for a cycle. Rounds end only when
every class that is not settled has a base that is not settled, so what stays unsettled leads into a
cycle, and the walk along unsettled bases ends on it.
-/

namespace DocWeave.Entity.Hierarchy

open Relation

/-- `base` is among the bases of `heir`. -/
def Base (hierarchy : Hierarchy) (heir base : String) : Prop :=
  ∃ bases, (heir, bases) ∈ hierarchy ∧ base ∈ bases

/-- Every class of the list stands behind all of its bases. -/
def Ordered (hierarchy : Hierarchy) (names : List String) : Prop :=
  ∀ before name after, names = before ++ name :: after → ∀ base, hierarchy.Base name base → base ∈ before

/-- The ancestors of a class, bases first, and last the class itself. -/
structure IsLineage (hierarchy : Hierarchy) (name : String) (lineage : List String) : Prop where
  nodup : lineage.Nodup
  ordered : hierarchy.Ordered lineage
  last : ∃ front, lineage = front ++ [name]
  ancestor : ∀ member ∈ lineage, ReflTransGen hierarchy.Base name member

variable {hierarchy : Hierarchy}

theorem ordered_nil : hierarchy.Ordered [] := by
  intro before name after split
  simp at split

theorem ordered_concat {names : List String} {name : String} :
    hierarchy.Ordered (names ++ [name]) ↔
      hierarchy.Ordered names ∧ ∀ base, hierarchy.Base name base → base ∈ names := by
  constructor
  · intro ordered
    refine ⟨?_, ordered names name [] rfl⟩
    intro before other after split
    exact ordered before other (after ++ [name]) (by simp [split])
  · rintro ⟨ordered, behind⟩ before other after split
    rcases List.eq_nil_or_concat' after with rfl | ⟨rest, last, rfl⟩
    · obtain ⟨rfl, same⟩ := List.append_inj' split rfl
      cases same
      exact behind
    · have shorter : names = before ++ other :: rest := by
        rw [← List.cons_append, ← List.append_assoc] at split
        exact (List.append_inj' split rfl).1
      exact ordered before other rest shorter

theorem Ordered.base_mem {names : List String} (ordered : hierarchy.Ordered names) {name base : String}
    (member : name ∈ names) (link : hierarchy.Base name base) : base ∈ names := by
  obtain ⟨before, after, rfl⟩ := List.append_of_mem member
  exact List.mem_append_left _ (ordered before name after rfl base link)

theorem Ordered.ancestor_mem {names : List String} (ordered : hierarchy.Ordered names)
    {name ancestor : String} (member : name ∈ names)
    (reached : ReflTransGen hierarchy.Base name ancestor) : ancestor ∈ names := by
  induction reached with
  | refl => exact member
  | tail _ link ih => exact ordered.base_mem ih link

/-- A base comes earlier, so an ancestor does. -/
theorem Ordered.ancestor_before {before after : List String} {name ancestor : String}
    (ordered : hierarchy.Ordered (before ++ name :: after))
    (reached : TransGen hierarchy.Base name ancestor) : ancestor ∈ before := by
  have front : hierarchy.Ordered before := by
    intro start other rest split
    exact ordered start other (rest ++ name :: after) (by simp [split])
  obtain ⟨base, link, further⟩ := TransGen.head'_iff.mp reached
  exact front.ancestor_mem (ordered before name after rfl base link) further

theorem Ordered.acyclic {names : List String} (ordered : hierarchy.Ordered names) (nodup : names.Nodup)
    {name : String} (member : name ∈ names) : ¬ TransGen hierarchy.Base name name := by
  intro cycle
  obtain ⟨before, after, rfl⟩ := List.append_of_mem member
  have earlier := ordered.ancestor_before cycle
  exact (List.disjoint_of_nodup_append nodup) earlier (by simp)

/-- No class of an ordered list derives from a class behind it. -/
theorem Ordered.pairwise {names : List String} (ordered : hierarchy.Ordered names) (nodup : names.Nodup) :
    names.Pairwise fun earlier later => ¬ TransGen hierarchy.Base earlier later := by
  induction names using List.reverseRecOn with
  | nil => exact .nil
  | append_singleton names name ih =>
    obtain ⟨front, _⟩ := ordered_concat.mp ordered
    apply List.pairwise_append.mpr
    refine ⟨ih front nodup.of_append_left, List.pairwise_singleton _ _, ?_⟩
    intro earlier listed later last derives
    rw [List.mem_singleton.mp last] at derives
    have again : name ∈ names := front.ancestor_mem listed derives.to_reflTransGen
    exact List.disjoint_of_nodup_append nodup again (List.mem_singleton_self name)

/-- The part of a list that a join adds keeps the order. -/
theorem Ordered.append_new {joined names : List String} (left : hierarchy.Ordered joined)
    (right : hierarchy.Ordered names) :
    hierarchy.Ordered (joined ++ names.filter (!joined.contains ·)) := by
  induction names using List.reverseRecOn with
  | nil => simpa using left
  | append_singleton names name ih =>
    obtain ⟨front, behind⟩ := ordered_concat.mp right
    have before := ih front
    by_cases present : name ∈ joined
    · simpa [present] using before
    · have grown : names.filter (!joined.contains ·) ++ [name]
          = (names ++ [name]).filter (!joined.contains ·) := by simp [present]
      rw [← grown, ← List.append_assoc]
      refine ordered_concat.mpr ⟨before, ?_⟩
      intro base link
      by_cases known : base ∈ joined <;> simp [known, behind base link]

/-! ### Joining lineages -/

/-- What holds of nothing and of each list, and survives a join, holds of all lists joined. -/
theorem merge_induction {motive : List String → Prop} {lineages : List (List String)} (nil : motive [])
    (join : ∀ joined, motive joined → ∀ lineage ∈ lineages,
      motive (joined ++ lineage.filter (!joined.contains ·))) : motive (merge lineages) := by
  unfold merge
  generalize [] = start at nil
  induction lineages generalizing start with
  | nil => exact nil
  | cons lineage rest ih =>
    apply ih
    · intro joined holds other member
      exact join joined holds other (List.mem_cons_of_mem _ member)
    · exact join start nil lineage List.mem_cons_self

theorem nodup_merge {lineages : List (List String)} (each : ∀ lineage ∈ lineages, lineage.Nodup) :
    (merge lineages).Nodup := by
  apply merge_induction List.nodup_nil
  intro joined nodup lineage member
  refine List.nodup_append.mpr ⟨nodup, (each lineage member).filter _, ?_⟩
  rintro name old _ added rfl
  simp [old] at added

theorem ordered_merge {lineages : List (List String)}
    (each : ∀ lineage ∈ lineages, hierarchy.Ordered lineage) : hierarchy.Ordered (merge lineages) :=
  merge_induction ordered_nil fun _ ordered lineage member => ordered.append_new (each lineage member)

theorem mem_merge {lineages : List (List String)} {name : String} :
    name ∈ merge lineages ↔ ∃ lineage ∈ lineages, name ∈ lineage := by
  suffices general : ∀ start : List String,
      name ∈ lineages.foldl (fun joined lineage => joined ++ lineage.filter (!joined.contains ·)) start ↔
        name ∈ start ∨ ∃ lineage ∈ lineages, name ∈ lineage by
    simpa [merge] using general []
  induction lineages with
  | nil => simp
  | cons lineage rest ih =>
    intro start
    rw [List.foldl_cons, ih]
    by_cases known : name ∈ start <;> simp [known]

/-- A class with one base, named any number of times, adds nothing between that base and itself. -/
theorem merge_replicate (lineage : List String) (count : Nat) :
    merge (List.replicate (count + 1) lineage) = lineage := by
  induction count with
  | zero => simp [merge]
  | succ count ih =>
    rw [List.replicate_succ', merge, List.foldl_append, ← merge, ih]
    simp

/-! ### Settling -/

theorem allSettled_eq_some {settled : Lineages} {bases : List String} {lineages : List (List String)} :
    allSettled settled bases = some lineages ↔
      (bases.map fun base => settled.lookup base) = lineages.map some := by
  induction bases generalizing lineages with
  | nil => cases lineages <;> simp [allSettled]
  | cons base rest ih =>
    unfold allSettled
    cases lineages with
    | nil => cases settled.lookup base <;> cases allSettled settled rest <;> simp
    | cons first tail =>
      rw [List.map_cons, List.map_cons, List.cons.injEq, ← ih]
      cases settled.lookup base <;> cases allSettled settled rest <;> simp

theorem allSettled_eq_none {settled : Lineages} {bases : List String} :
    allSettled settled bases = none ↔ ∃ base ∈ bases, settled.lookup base = none := by
  induction bases with
  | nil => simp [allSettled]
  | cons base rest ih =>
    rw [allSettled, List.exists_mem_cons_iff, ← ih]
    cases settled.lookup base <;> cases allSettled settled rest <;> simp

theorem mem_of_lookup {α : Type} {entries : List (String × α)} {name : String} {value : α}
    (found : entries.lookup name = some value) : (name, value) ∈ entries := by
  obtain ⟨front, back, rfl, _⟩ := List.lookup_eq_some_iff.mp found
  simp

theorem lookup_of_mem {α : Type} {entries : List (String × α)} (nodup : (entries.map Prod.fst).Nodup)
    {name : String} {value : α} (member : (name, value) ∈ entries) : entries.lookup name = some value := by
  induction entries with
  | nil => simp at member
  | cons entry rest ih =>
    rw [List.map_cons, List.nodup_cons] at nodup
    rcases List.mem_cons.mp member with rfl | later
    · simp
    · have other : name ≠ entry.1 := by
        rintro rfl
        exact nodup.1 (List.mem_map.mpr ⟨_, later, rfl⟩)
      rw [List.lookup_cons, beq_false_of_ne other]
      exact ih nodup.2 later

theorem base_iff (distinct : (hierarchy.map Prod.fst).Nodup) {name base : String} {bases : List String}
    (entry : (name, bases) ∈ hierarchy) : hierarchy.Base name base ↔ base ∈ bases := by
  constructor
  · rintro ⟨others, other, member⟩
    have same := (lookup_of_mem distinct other).symm.trans (lookup_of_mem distinct entry)
    cases same
    exact member
  · intro member
    exact ⟨bases, entry, member⟩

/-- What is settled has the lineage that the lineages of its bases give. -/
structure Settled (hierarchy : Hierarchy) (settled : Lineages) : Prop where
  distinct : (settled.map Prod.fst).Nodup
  isLineage : ∀ name lineage, (name, lineage) ∈ settled → hierarchy.IsLineage name lineage
  joined : ∀ name lineage, (name, lineage) ∈ settled → ∃ bases lineages, (name, bases) ∈ hierarchy ∧
    allSettled settled bases = some lineages ∧ lineage = merge lineages ++ [name]

theorem settled_nil : hierarchy.Settled [] where
  distinct := List.nodup_nil
  isLineage _ _ member := nomatch member
  joined _ _ member := nomatch member

theorem Settled.isLineage_of_mem {settled : Lineages} (sound : hierarchy.Settled settled)
    {bases : List String} {lineages : List (List String)} (found : allSettled settled bases = some lineages)
    {lineage : List String} (member : lineage ∈ lineages) :
    ∃ base ∈ bases, hierarchy.IsLineage base lineage := by
  have each := allSettled_eq_some.mp found
  have listed : some lineage ∈ bases.map fun base => settled.lookup base := by
    rw [each]
    exact List.mem_map_of_mem member
  obtain ⟨base, among, known⟩ := List.mem_map.mp listed
  exact ⟨base, among, sound.isLineage base lineage (mem_of_lookup known)⟩

theorem Settled.mem_merge_of_base {settled : Lineages} (sound : hierarchy.Settled settled)
    {bases : List String} {lineages : List (List String)} (found : allSettled settled bases = some lineages)
    {base : String} (member : base ∈ bases) : base ∈ merge lineages := by
  have each := allSettled_eq_some.mp found
  have listed : settled.lookup base ∈ lineages.map some := by
    rw [← each]
    exact List.mem_map_of_mem member
  obtain ⟨lineage, among, known⟩ := List.mem_map.mp listed
  obtain ⟨front, rfl⟩ := (sound.isLineage base lineage (mem_of_lookup known.symm)).last
  exact mem_merge.mpr ⟨_, among, by simp⟩

/-- The lineages of the bases, joined, and the class behind them are its lineage. -/
theorem Settled.isLineage_join (distinct : (hierarchy.map Prod.fst).Nodup) {settled : Lineages}
    (sound : hierarchy.Settled settled) {name : String} {bases : List String}
    (entry : (name, bases) ∈ hierarchy) {lineages : List (List String)}
    (found : allSettled settled bases = some lineages) :
    hierarchy.IsLineage name (merge lineages ++ [name]) := by
  have reached : ∀ member ∈ merge lineages, TransGen hierarchy.Base name member := by
    intro member among
    obtain ⟨lineage, listed, inside⟩ := mem_merge.mp among
    obtain ⟨base, direct, isLineage⟩ := sound.isLineage_of_mem found listed
    exact TransGen.head' ((base_iff distinct entry).mpr direct) (isLineage.ancestor member inside)
  -- Among its ancestors the class would be before itself.
  have fresh : name ∉ merge lineages := by
    intro among
    obtain ⟨lineage, listed, inside⟩ := mem_merge.mp among
    obtain ⟨base, _, isLineage⟩ := sound.isLineage_of_mem found listed
    exact isLineage.ordered.acyclic isLineage.nodup inside (reached name among)
  constructor
  · refine List.nodup_append.mpr ⟨nodup_merge ?_, List.nodup_singleton name, ?_⟩
    · intro lineage listed
      obtain ⟨_, _, isLineage⟩ := sound.isLineage_of_mem found listed
      exact isLineage.nodup
    · rintro member among _ own rfl
      exact fresh (List.mem_singleton.mp own ▸ among)
  · refine ordered_concat.mpr ⟨ordered_merge ?_, ?_⟩
    · intro lineage listed
      obtain ⟨_, _, isLineage⟩ := sound.isLineage_of_mem found listed
      exact isLineage.ordered
    · intro base link
      exact sound.mem_merge_of_base found ((base_iff distinct entry).mp link)
  · exact ⟨_, rfl⟩
  · intro member among
    rcases List.mem_append.mp among with above | own
    · exact (reached member above).to_reflTransGen
    · rw [List.mem_singleton.mp own]

/-- A lineage that is found stays found when more classes are settled. -/
theorem lookup_append {settled added : Lineages} {name : String} {lineage : List String}
    (found : settled.lookup name = some lineage) : (settled ++ added).lookup name = some lineage := by
  rw [List.lookup_append, found, Option.some_or]

theorem allSettled_append {settled added : Lineages} {bases : List String} {lineages : List (List String)}
    (found : allSettled settled bases = some lineages) :
    allSettled (settled ++ added) bases = some lineages := by
  induction bases generalizing lineages with
  | nil => simpa [allSettled] using found
  | cons base rest ih =>
    rw [allSettled] at found ⊢
    split at found
    · rename_i lineage others known remaining
      rw [lookup_append known, ih remaining]
      exact found
    · cases found

theorem Settled.settleClass (distinct : (hierarchy.map Prod.fst).Nodup) {settled : Lineages}
    (sound : hierarchy.Settled settled) {entry : String × List String} (listed : entry ∈ hierarchy) :
    hierarchy.Settled (settleClass settled entry) := by
  unfold Hierarchy.settleClass
  split
  · exact sound
  rename_i absent
  split
  · rename_i lineages found
    have fresh : entry.1 ∉ settled.map Prod.fst := by
      intro present
      obtain ⟨⟨name, lineage⟩, member, rfl⟩ := List.mem_map.mp present
      simp [lookup_of_mem sound.distinct member] at absent
    constructor
    · rw [List.map_append, List.nodup_append]
      refine ⟨sound.distinct, List.nodup_singleton _, ?_⟩
      rintro name old _ added rfl
      exact fresh (List.mem_singleton.mp added ▸ old)
    · intro name lineage member
      rcases List.mem_append.mp member with old | added
      · exact sound.isLineage name lineage old
      · cases List.mem_singleton.mp added
        exact sound.isLineage_join distinct listed found
    · intro name lineage member
      rcases List.mem_append.mp member with old | added
      · obtain ⟨bases, others, known, all, same⟩ := sound.joined name lineage old
        exact ⟨bases, others, known, allSettled_append all, same⟩
      · cases List.mem_singleton.mp added
        exact ⟨entry.2, lineages, listed, allSettled_append found, rfl⟩
  · exact sound

theorem Settled.sweep (distinct : (hierarchy.map Prod.fst).Nodup) {settled : Lineages}
    (sound : hierarchy.Settled settled) {entries : Hierarchy} (listed : entries ⊆ hierarchy) :
    hierarchy.Settled (entries.foldl Hierarchy.settleClass settled) := by
  induction entries generalizing settled with
  | nil => exact sound
  | cons entry rest ih =>
    have step := sound.settleClass distinct (listed List.mem_cons_self)
    exact ih step fun _ later => listed (List.mem_cons_of_mem _ later)

theorem Settled.settleRounds (distinct : (hierarchy.map Prod.fst).Nodup) (rounds : Nat)
    {settled : Lineages} (sound : hierarchy.Settled settled) :
    hierarchy.Settled (hierarchy.settleRounds rounds settled) := by
  induction rounds generalizing settled with
  | zero => exact sound
  | succ rounds ih =>
    unfold Hierarchy.settleRounds
    split
    · exact sound
    · exact ih (sound.sweep distinct (List.Subset.refl _))

theorem Settled.lineage_of_single (distinct : (hierarchy.map Prod.fst).Nodup) {settled : Lineages}
    (sound : hierarchy.Settled settled) {name base : String} {lineage : List String}
    (member : (name, lineage) ∈ settled) (only : ∀ other, hierarchy.Base name other ↔ other = base) :
    ∃ above, settled.lookup base = some above ∧ lineage = above ++ [name] := by
  obtain ⟨bases, lineages, entry, found, rfl⟩ := sound.joined name lineage member
  have same : ∀ other ∈ bases, other = base := by
    intro other listed
    exact (only other).mp ((base_iff distinct entry).mpr listed)
  have listed : base ∈ bases := (base_iff distinct entry).mp ((only base).mpr rfl)
  obtain ⟨count, size⟩ := Nat.exists_eq_add_one.mpr (List.length_pos_of_mem listed)
  -- A class may list its only base several times, and the copies of the lineage merge into one.
  have copies : bases = List.replicate (count + 1) base := by
    rw [List.eq_replicate_iff]
    exact ⟨size, same⟩
  have each := allSettled_eq_some.mp found
  rw [copies, List.map_replicate] at each
  cases known : settled.lookup base with
  | none =>
    rw [known] at each
    cases lineages <;> simp [List.replicate_succ] at each
  | some above =>
    rw [known] at each
    have all : lineages = List.replicate (count + 1) above := by
      apply List.map_injective_iff.mpr fun _ _ => Option.some.inj
      rw [← each, List.map_replicate]
    exact ⟨above, rfl, by rw [all, merge_replicate]⟩

/-! ### What stays unsettled -/

/-- Every class that is not settled has a base that is not settled. -/
def Saturated (hierarchy : Hierarchy) (settled : Lineages) : Prop :=
  ∀ entry ∈ hierarchy, settled.lookup entry.1 = none → ∃ base ∈ entry.2, settled.lookup base = none

theorem prefix_settleClass (settled : Lineages) (entry : String × List String) :
    settled <+: Hierarchy.settleClass settled entry := by
  unfold Hierarchy.settleClass
  split
  · exact List.prefix_rfl
  · split
    · exact List.prefix_append _ _
    · exact List.prefix_rfl

theorem prefix_sweep (entries : Hierarchy) (settled : Lineages) :
    settled <+: entries.foldl Hierarchy.settleClass settled := by
  induction entries generalizing settled with
  | nil => exact List.prefix_rfl
  | cons entry rest ih => exact (prefix_settleClass settled entry).trans (ih _)

/-- A sweep that settles nothing new settles nothing at any of its steps. -/
theorem settleClass_eq_of_sweep {entries : Hierarchy} {settled : Lineages}
    (fixed : entries.foldl Hierarchy.settleClass settled = settled) :
    ∀ entry ∈ entries, Hierarchy.settleClass settled entry = settled := by
  induction entries with
  | nil => simp
  | cons first rest ih =>
    have still : Hierarchy.settleClass settled first = settled := by
      have after := prefix_sweep rest (Hierarchy.settleClass settled first)
      rw [← List.foldl_cons, fixed] at after
      exact after.eq_of_length_le (prefix_settleClass settled first).length_le
    rw [List.foldl_cons, still] at fixed
    intro entry member
    rcases List.mem_cons.mp member with rfl | later
    · exact still
    · exact ih fixed entry later

theorem saturated_of_sweep {settled : Lineages}
    (fixed : hierarchy.foldl Hierarchy.settleClass settled = settled) :
    hierarchy.Saturated settled := by
  intro entry member absent
  have still := settleClass_eq_of_sweep fixed entry member
  rw [Hierarchy.settleClass, if_neg (by simp [absent])] at still
  split at still
  · simp at still
  · rename_i missing
    exact allSettled_eq_none.mp missing

theorem Settled.subset {settled : Lineages} (sound : hierarchy.Settled settled) :
    settled.map Prod.fst ⊆ hierarchy.map Prod.fst := by
  intro name member
  obtain ⟨⟨name, lineage⟩, listed, rfl⟩ := List.mem_map.mp member
  obtain ⟨bases, _, entry, _⟩ := sound.joined name lineage listed
  exact List.mem_map.mpr ⟨_, entry, rfl⟩

/-- As many lineages as classes leave no class unsettled. -/
theorem Settled.saturated_of_length {settled : Lineages} (sound : hierarchy.Settled settled)
    (full : hierarchy.length ≤ settled.length) : hierarchy.Saturated settled := by
  intro entry member absent
  have perm := (List.subperm_of_subset sound.distinct sound.subset).perm_of_length_le (by simpa using full)
  have present : entry.1 ∈ settled.map Prod.fst := perm.mem_iff.mpr (List.mem_map_of_mem member)
  obtain ⟨⟨name, lineage⟩, listed, same⟩ := List.mem_map.mp present
  rw [← same, lookup_of_mem sound.distinct listed] at absent
  cases absent

theorem settleRounds_of_sweep {settled : Lineages}
    (fixed : hierarchy.foldl Hierarchy.settleClass settled = settled) (rounds : Nat) :
    hierarchy.settleRounds rounds settled = settled := by
  induction rounds with
  | zero => rfl
  | succ rounds ih => rw [Hierarchy.settleRounds, fixed, ih, ite_self]

/-- A round settles a class or is the last one that could, so enough rounds settle all they can. -/
theorem Settled.saturated_settleRounds (distinct : (hierarchy.map Prod.fst).Nodup) {rounds : Nat}
    {settled : Lineages} (sound : hierarchy.Settled settled)
    (enough : hierarchy.length ≤ settled.length + rounds) :
    hierarchy.Saturated (hierarchy.settleRounds rounds settled) := by
  induction rounds generalizing settled with
  | zero => exact sound.saturated_of_length enough
  | succ rounds ih =>
    unfold Hierarchy.settleRounds
    split
    · rename_i full
      exact sound.saturated_of_length (Nat.le_of_eq full.symm)
    have next := sound.sweep distinct (List.Subset.refl _)
    have grown := prefix_sweep hierarchy settled
    by_cases fixed : hierarchy.foldl Hierarchy.settleClass settled = settled
    · rw [fixed, settleRounds_of_sweep fixed]
      exact saturated_of_sweep fixed
    · have longer : settled.length < (hierarchy.foldl Hierarchy.settleClass settled).length := by
        apply Nat.lt_of_le_of_ne grown.length_le
        intro same
        exact fixed (grown.eq_of_length same).symm
      exact ih next (by omega)

theorem settled_settle (distinct : (hierarchy.map Prod.fst).Nodup) : hierarchy.Settled hierarchy.settle :=
  settled_nil.settleRounds distinct _

theorem saturated_settle (distinct : (hierarchy.map Prod.fst).Nodup) :
    hierarchy.Saturated hierarchy.settle :=
  settled_nil.saturated_settleRounds distinct (by simp)

/-- A class of the hierarchy that is not settled. -/
def Unsettled (hierarchy : Hierarchy) (settled : Lineages) (name : String) : Prop :=
  name ∈ hierarchy.map Prod.fst ∧ settled.lookup name = none

theorem Saturated.unsettledBase {settled : Lineages} (saturated : hierarchy.Saturated settled)
    (distinct : (hierarchy.map Prod.fst).Nodup)
    (known : ∀ heir base, hierarchy.Base heir base → base ∈ hierarchy.map Prod.fst) {name : String}
    (unsettled : hierarchy.Unsettled settled name) :
    ∃ base, unsettledBase? hierarchy settled name = some base ∧ hierarchy.Base name base ∧
      hierarchy.Unsettled settled base := by
  obtain ⟨⟨name, bases⟩, entry, rfl⟩ := List.mem_map.mp unsettled.1
  have listed : hierarchy.lookup name = some bases := lookup_of_mem distinct entry
  obtain ⟨candidate, among, free⟩ := saturated _ entry unsettled.2
  have present : (unsettledBase? hierarchy settled name).isSome := by
    rw [unsettledBase?, listed, List.find?_isSome]
    exact ⟨candidate, among, by simp [free]⟩
  obtain ⟨base, found⟩ := Option.isSome_iff_exists.mp present
  have absent := found
  rw [unsettledBase?, listed] at found absent
  have link : hierarchy.Base name base := ⟨bases, entry, List.mem_of_find?_eq_some found⟩
  refine ⟨base, by rw [unsettledBase?, listed, found], link, known name base link, ?_⟩
  simpa using List.find?_some absent

/-- The classes on the path lead to the one that is visited, so a class that is met again is on a cycle. The
path has no repetition, so it cannot outgrow the hierarchy. -/
theorem Saturated.walk_cycle {settled : Lineages} (saturated : hierarchy.Saturated settled)
    (distinct : (hierarchy.map Prod.fst).Nodup)
    (known : ∀ heir base, hierarchy.Base heir base → base ∈ hierarchy.map Prod.fst) {steps : Nat}
    {path : List String} {name : String} (enough : hierarchy.length < path.length + steps)
    (nodup : path.Nodup) (inside : path ⊆ hierarchy.map Prod.fst)
    (leads : ∀ member ∈ path, TransGen hierarchy.Base member name)
    (unsettled : hierarchy.Unsettled settled name) :
    TransGen hierarchy.Base (walk hierarchy settled steps path name)
      (walk hierarchy settled steps path name) := by
  -- The path grows without repetition, so it meets itself before the steps run out.
  induction steps generalizing path name with
  | zero =>
    have short := (List.subperm_of_subset nodup inside).length_le
    simp only [List.length_map] at short
    omega
  | succ steps ih =>
    obtain ⟨base, found, link, free⟩ := saturated.unsettledBase distinct known unsettled
    unfold walk
    by_cases met : name ∈ path
    · rw [if_pos (by simpa using met)]
      exact leads name met
    · rw [if_neg (by simpa using met), found]
      refine ih ?_ (List.nodup_cons.mpr ⟨met, nodup⟩) ?_ ?_ free
      · simp only [List.length_cons]
        omega
      · exact List.cons_subset.mpr ⟨unsettled.1, inside⟩
      · intro member visited
        rcases List.mem_cons.mp visited with rfl | earlier
        · exact .single link
        · exact (leads member earlier).tail link

/-! ### The lineages of a hierarchy -/

theorem lineages_eq_error (distinct : (hierarchy.map Prod.fst).Nodup)
    (known : ∀ heir base, hierarchy.Base heir base → base ∈ hierarchy.map Prod.fst) {name : String}
    (fault : hierarchy.lineages = .error name) : TransGen hierarchy.Base name name := by
  unfold lineages at fault
  dsimp only at fault
  split at fault
  · rename_i entry found
    cases fault
    have unsettled : hierarchy.Unsettled hierarchy.settle entry.1 :=
      ⟨List.mem_map_of_mem (List.mem_of_find?_eq_some found), by simpa using List.find?_some found⟩
    exact (saturated_settle distinct).walk_cycle distinct known (by simp) List.nodup_nil (by simp)
      (by simp) unsettled
  · cases fault

theorem lineages_eq_ok (distinct : (hierarchy.map Prod.fst).Nodup) {settled : Lineages}
    (success : hierarchy.lineages = .ok settled) :
    hierarchy.Settled settled ∧ ∀ entry ∈ hierarchy, (settled.lookup entry.1).isSome := by
  unfold lineages at success
  dsimp only at success
  split at success
  · cases success
  · rename_i complete
    cases success
    refine ⟨settled_settle distinct, ?_⟩
    intro entry member
    simpa [Option.isSome_iff_ne_none] using List.find?_eq_none.mp complete entry member

/-- The hierarchy has no lineages exactly if it has a cycle. -/
theorem exists_lineages_eq_error_iff (distinct : (hierarchy.map Prod.fst).Nodup)
    (known : ∀ heir base, hierarchy.Base heir base → base ∈ hierarchy.map Prod.fst) :
    (∃ name, hierarchy.lineages = .error name) ↔ ∃ name, TransGen hierarchy.Base name name := by
  constructor
  · rintro ⟨name, fault⟩
    exact ⟨name, lineages_eq_error distinct known fault⟩
  · rintro ⟨name, cycle⟩
    cases result : hierarchy.lineages with
    | error name => exact ⟨name, rfl⟩
    | ok settled =>
      obtain ⟨sound, complete⟩ := lineages_eq_ok distinct result
      obtain ⟨_, ⟨bases, entry, _⟩, _⟩ := TransGen.head'_iff.mp cycle
      obtain ⟨lineage, found⟩ := Option.isSome_iff_exists.mp (complete _ entry)
      have isLineage := sound.isLineage name lineage (mem_of_lookup found)
      obtain ⟨front, whole⟩ := isLineage.last
      exact absurd cycle (isLineage.ordered.acyclic isLineage.nodup (by simp [whole]))

end DocWeave.Entity.Hierarchy
