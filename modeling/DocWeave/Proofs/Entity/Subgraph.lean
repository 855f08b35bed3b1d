import DocWeave.Proofs.Entity.Heirs

/-!
# Larger graphs

What finalizing makes of a class is decided by what is above it. So a graph and a larger one, which may list their
classes in different orders, make the same of the classes that they share.
-/

namespace DocWeave

open Entity Relation

namespace Entity.Hierarchy

/-- A class has the same lineage in a larger hierarchy. -/
theorem Settled.lineage_eq {smaller larger : Hierarchy} (distinct : (larger.map Prod.fst).Nodup)
    (sub : smaller ⊆ larger) {old new : Lineages} (sound : smaller.Settled old) (grown : larger.Settled new)
    {name : String} {lineage other : List String} (first : (name, lineage) ∈ old) (second : (name, other) ∈ new) :
    other = lineage := by
  -- The lineages that are joined are shorter than the one that they give.
  induction size : lineage.length using Nat.strongRecOn generalizing name lineage other with
  | ind length ih =>
    subst size
    obtain ⟨bases, above, entry, found, rfl⟩ := sound.joined name lineage first
    obtain ⟨others, further, listed, known, rfl⟩ := grown.joined name other second
    cases (lookup_of_mem distinct (sub entry)).symm.trans (lookup_of_mem distinct listed)
    have oldLookups := allSettled_eq_some.mp found
    have newLookups := allSettled_eq_some.mp known
    have same : ∀ base ∈ bases, new.lookup base = old.lookup base := by
      intro base member
      obtain ⟨oldLineage, inside, oldKnown⟩ : ∃ oldLineage ∈ above, old.lookup base = some oldLineage := by
        have image : old.lookup base ∈ above.map some := oldLookups ▸ List.mem_map_of_mem member
        obtain ⟨oldLineage, inside, equal⟩ := List.mem_map.mp image
        exact ⟨oldLineage, inside, equal.symm⟩
      obtain ⟨newLineage, newKnown⟩ : ∃ newLineage, new.lookup base = some newLineage := by
        have image : new.lookup base ∈ further.map some := newLookups ▸ List.mem_map_of_mem member
        obtain ⟨newLineage, _, equal⟩ := List.mem_map.mp image
        exact ⟨newLineage, equal.symm⟩
      have nodup := (sound.isLineage base oldLineage (mem_of_lookup oldKnown)).nodup
      have joined : oldLineage ⊆ merge above := fun item listed => mem_merge.mpr ⟨oldLineage, inside, listed⟩
      have shorter := (List.subperm_of_subset nodup joined).length_le
      have smaller : oldLineage.length < (merge above ++ [name]).length := by
        rw [List.length_append, List.length_singleton]
        omega
      rw [oldKnown, newKnown, ih oldLineage.length smaller (mem_of_lookup oldKnown) (mem_of_lookup newKnown) rfl]
    rw [List.map_congr_left same, oldLookups] at newLookups
    rw [List.map_injective_iff.mpr (fun _ _ => Option.some.inj) newLookups]

end Entity.Hierarchy

namespace Graph

/-! ### Look-ups that find the same classes -/

section Congr

variable {graph other : Graph} {self : Entity.Class}

theorem properAncestors_congr (same : ∀ name ∈ self.lineage, other.class? name = graph.class? name) :
    other.properAncestors self = graph.properAncestors self :=
  List.filterMap_congr fun name above => same name (List.mem_reverse.mp (List.mem_of_mem_drop above))

theorem lineageClasses_congr (same : ∀ name ∈ self.ancestry, other.class? name = graph.class? name) :
    other.lineageClasses self = graph.lineageClasses self :=
  List.filterMap_congr same

end Congr

/-! ### Part of a graph -/

/-- The classes of the graph are classes of `whole` too, and none of them has a base from outside. -/
structure Within (graph whole : Graph) : Prop where
  distinct : (graph.classes.map (·.name)).Nodup
  distinct_whole : (whole.classes.map (·.name)).Nodup
  classes : graph.classes ⊆ whole.classes
  complete : ¬ graph.LacksBase

namespace Within

variable {graph whole : Graph} (within : graph.Within whole)

include within

theorem mem_of_name {self : Entity.Class} (member : self ∈ whole.classes)
    (old : self.name ∈ graph.classes.map (·.name)) : self ∈ graph.classes := by
  obtain ⟨other, listed, named⟩ := List.mem_map.mp old
  have found := class?_of_mem within.distinct_whole (within.classes listed)
  rw [named, class?_of_mem within.distinct_whole member] at found
  rwa [Option.some.inj found]

theorem class?_eq {name : String} (old : name ∈ graph.classes.map (·.name)) :
    whole.class? name = graph.class? name := by
  obtain ⟨self, member, rfl⟩ := List.mem_map.mp old
  rw [class?_of_mem within.distinct member, class?_of_mem within.distinct_whole (within.classes member)]

/-- Shared classes that are changed in the same way are looked up with the same result. -/
theorem class?_change_eq {first second : Graph} {f g : Entity.Class → Entity.Class}
    (firstClasses : first.classes = graph.classes.map f) (secondClasses : second.classes = whole.classes.map g)
    (firstNamed : ∀ self, (f self).name = self.name) (secondNamed : ∀ self, (g self).name = self.name)
    (same : ∀ self ∈ graph.classes, g self = f self) {name : String} (old : name ∈ graph.classes.map (·.name)) :
    second.class? name = first.class? name := by
  rw [class?_change firstClasses firstNamed, class?_change secondClasses secondNamed, within.class?_eq old]
  cases found : graph.class? name with
  | none => rfl
  | some self => rw [Option.map_some, Option.map_some, same self (mem_of_class? found).1]

theorem base_of_base {heir base : String} (link : graph.Base heir base) : whole.Base heir base := by
  obtain ⟨self, member, named, declared⟩ := link
  exact ⟨self, within.classes member, named, declared⟩

theorem base_iff {heir base : String} (old : heir ∈ graph.classes.map (·.name)) :
    whole.Base heir base ↔ graph.Base heir base := by
  constructor
  · rintro ⟨self, member, rfl, declared⟩
    exact ⟨self, within.mem_of_name member old, rfl, declared⟩
  · exact within.base_of_base

/-- Nothing from outside is above a shared class. -/
theorem above_iff {heir ancestor : String} (old : heir ∈ graph.classes.map (·.name)) :
    ReflTransGen whole.Base heir ancestor ↔ ReflTransGen graph.Base heir ancestor := by
  constructor
  · intro path
    induction path using ReflTransGen.head_induction_on with
    | refl => exact .refl
    | head link _ ih =>
      have inside := (within.base_iff old).mp link
      exact .head inside (ih (base_known within.complete _ _ inside))
  · exact ReflTransGen.mono (fun _ _ => within.base_of_base) heir ancestor

variable {lineages wider : Hierarchy.Lineages} (found : graph.resolved.hierarchy.lineages = .ok lineages)
  (widerFound : whole.resolved.hierarchy.lineages = .ok wider) (inheriting : Bool)

include found widerFound

theorem located_eq {self : Entity.Class} (member : self ∈ graph.classes) :
    located wider self = located lineages self := by
  have distinct : (graph.resolved.hierarchy.map Prod.fst).Nodup := by
    rw [hierarchy_resolved_names]
    exact within.distinct
  have distinctWhole : (whole.resolved.hierarchy.map Prod.fst).Nodup := by
    rw [hierarchy_resolved_names]
    exact within.distinct_whole
  have sub : graph.resolved.hierarchy ⊆ whole.resolved.hierarchy := by
    rw [hierarchy_resolved, hierarchy_resolved]
    exact List.map_subset _ within.classes
  have entry : (self.name, self.declaredBases) ∈ graph.resolved.hierarchy := by
    rw [hierarchy_resolved]
    exact List.mem_map_of_mem member
  obtain ⟨sound, settled⟩ := Hierarchy.lineages_eq_ok distinct found
  obtain ⟨widerSound, widerSettled⟩ := Hierarchy.lineages_eq_ok distinctWhole widerFound
  obtain ⟨lineage, known⟩ := Option.isSome_iff_exists.mp (settled _ entry)
  obtain ⟨other, widerKnown⟩ := Option.isSome_iff_exists.mp (widerSettled _ (sub entry))
  have same : other = lineage := Hierarchy.Settled.lineage_eq distinctWhole sub sound widerSound
    (Hierarchy.mem_of_lookup known) (Hierarchy.mem_of_lookup widerKnown)
  rw [located, located, known, widerKnown, same]

/-- A shared class is given the same members. -/
theorem heir_eq {self : Entity.Class} (member : self ∈ graph.classes) :
    whole.heir inheriting wider self = graph.heir inheriting lineages self := by
  have own := within.located_eq found widerFound member
  cases inheriting with
  | false => exact own
  | true =>
    -- Members are inherited from ancestors, and these are shared.
    have same : ∀ name ∈ (located lineages self).lineage,
        (whole.resolved.withLineages wider).class? name = (graph.resolved.withLineages lineages).class? name := by
      intro name above
      have inside := Class.lineage_subset_ancestry _ above
      have old := ancestry_known within.distinct within.complete found member inside
      exact within.class?_change_eq (classes_withLineages graph lineages) (classes_withLineages whole wider)
        (fun _ => rfl) (fun _ => rfl) (fun _ => within.located_eq found widerFound) old
    simp only [heir, own, inheritedMethods, inheritedProperties, properAncestors_congr same]

theorem final_eq {self : Entity.Class} (member : self ∈ graph.classes) :
    whole.final inheriting wider self = graph.final inheriting lineages self := by
  have same : ∀ name ∈ (graph.heir inheriting lineages self).ancestry,
      (whole.heirs inheriting wider).class? name = (graph.heirs inheriting lineages).class? name := by
    intro name above
    rw [ancestry_heir] at above
    have old := ancestry_known within.distinct within.complete found member above
    exact within.class?_change_eq (classes_heirs graph inheriting lineages) (classes_heirs whole inheriting wider)
      heir_name heir_name (fun _ => within.heir_eq found widerFound inheriting) old
  rw [final, final, within.heir_eq found widerFound inheriting member, hasEffective, hasEffective,
    lineageClasses_congr same]

theorem class?_finalWith {name : String} (old : name ∈ graph.classes.map (·.name)) :
    (whole.finalWith inheriting wider).class? name = (graph.finalWith inheriting lineages).class? name :=
  within.class?_change_eq (classes_finalWith graph inheriting lineages) (classes_finalWith whole inheriting wider)
    final_name final_name (fun _ => within.final_eq found widerFound inheriting) old

/-- A shared class has the same effective fragments. -/
theorem effective_finalWith {self : Entity.Class} (member : self ∈ (graph.finalWith inheriting lineages).classes)
    (key : FragmentKey) : (whole.finalWith inheriting wider).effective self key =
      (graph.finalWith inheriting lineages).effective self key := by
  rw [classes_finalWith] at member
  obtain ⟨raw, listed, rfl⟩ := List.mem_map.mp member
  rw [effective, effective, lineageClasses_congr]
  intro name above
  rw [ancestry_final] at above
  exact within.class?_finalWith found widerFound inheriting
    (ancestry_known within.distinct within.complete found listed above)

end Within

end Graph

end DocWeave
