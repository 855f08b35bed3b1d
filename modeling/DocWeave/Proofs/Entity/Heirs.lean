import DocWeave.Proofs.Entity.Bases

/-!
# What finalizing makes of an entity

A class keeps its own members, with copies of the members of its ancestors behind them. Everything is marked,
and nothing else about an entity changes.
-/

namespace DocWeave

open Entity Relation

namespace Entity

section PickNew

variable {α : Type} {name : α → String} {taken : List String} {candidates : List (String × α)}

theorem mem_of_mem_pickNew {entry : String × α} (member : entry ∈ pickNew name taken candidates) :
    entry ∈ candidates ∧ name entry.2 ∉ taken := by
  induction candidates generalizing taken with
  | nil => cases member
  | cons first rest ih =>
    unfold pickNew at member
    split at member
    · obtain ⟨listed, free⟩ := ih member
      exact ⟨List.mem_cons_of_mem _ listed, free⟩
    · rename_i fresh
      rcases List.mem_cons.mp member with rfl | later
      · exact ⟨List.mem_cons_self, by simpa using fresh⟩
      · obtain ⟨listed, free⟩ := ih later
        exact ⟨List.mem_cons_of_mem _ listed, fun present => free (List.mem_cons_of_mem _ present)⟩

theorem nodup_pickNew : ((pickNew name taken candidates).map (fun entry => name entry.2)).Nodup := by
  induction candidates generalizing taken with
  | nil => exact List.nodup_nil
  | cons first rest ih =>
    unfold pickNew
    split
    · exact ih
    · refine List.nodup_cons.mpr ⟨?_, ih⟩
      intro again
      obtain ⟨entry, member, same⟩ := List.mem_map.mp again
      exact (mem_of_mem_pickNew member).2 (same ▸ List.mem_cons_self)

/-- A candidate that is not picked has a name that is taken, before or by one that is picked. -/
theorem taken_or_picked {entry : String × α} (listed : entry ∈ candidates) :
    name entry.2 ∈ taken ∨ name entry.2 ∈ (pickNew name taken candidates).map fun entry => name entry.2 := by
  induction candidates generalizing taken with
  | nil => cases listed
  | cons first rest ih =>
    unfold pickNew
    split
    · rename_i known
      rcases List.mem_cons.mp listed with rfl | later
      · exact .inl (by simpa using known)
      · exact ih later
    · rw [List.map_cons, List.mem_cons]
      rcases List.mem_cons.mp listed with rfl | later
      · exact .inr (.inl rfl)
      · have further : name entry.2 ∈ name first.2 :: taken ∨ _ := ih later
        rcases further with before | picked
        · rcases List.mem_cons.mp before with same | old
          · exact .inr (.inl same)
          · exact .inl old
        · exact .inr (.inr picked)

/-- What is picked is the first candidate of its name. -/
theorem find?_of_mem_pickNew {entry : String × α} (member : entry ∈ pickNew name taken candidates) :
    (candidates.find? fun other => name other.2 = name entry.2) = some entry := by
  induction candidates generalizing taken with
  | nil => cases member
  | cons first rest ih =>
    unfold pickNew at member
    split at member
    · rename_i known
      have other : name first.2 ≠ name entry.2 := by
        intro same
        exact (mem_of_mem_pickNew member).2 (same ▸ by simpa using known)
      rw [List.find?_cons_of_neg (by simpa using other)]
      exact ih member
    · rcases List.mem_cons.mp member with rfl | later
      · exact List.find?_cons_of_pos (by simp)
      · have other : name first.2 ≠ name entry.2 := by
          intro same
          exact (mem_of_mem_pickNew later).2 (same ▸ List.mem_cons_self)
        rw [List.find?_cons_of_neg (by simpa using other)]
        exact ih later

theorem mem_map_pickNew {picked : String} :
    picked ∈ (pickNew name taken candidates).map (fun entry => name entry.2) ↔
      picked ∉ taken ∧ picked ∈ candidates.map fun entry => name entry.2 := by
  constructor
  · intro new
    obtain ⟨entry, listed, rfl⟩ := List.mem_map.mp new
    obtain ⟨candidate, free⟩ := mem_of_mem_pickNew listed
    exact ⟨free, List.mem_map_of_mem candidate⟩
  · rintro ⟨free, listed⟩
    obtain ⟨entry, candidate, rfl⟩ := List.mem_map.mp listed
    exact (taken_or_picked candidate).resolve_left free

theorem mem_append_pickNew {picked : String} :
    picked ∈ taken ++ (pickNew name taken candidates).map (fun entry => name entry.2) ↔
      picked ∈ taken ∨ picked ∈ candidates.map fun entry => name entry.2 := by
  rw [List.mem_append]
  constructor
  · intro member
    apply member.imp_right
    intro new
    obtain ⟨entry, listed, rfl⟩ := List.mem_map.mp new
    exact List.mem_map_of_mem (mem_of_mem_pickNew listed).1
  · rintro (old | new)
    · exact .inl old
    · obtain ⟨entry, listed, rfl⟩ := List.mem_map.mp new
      exact taken_or_picked listed

theorem nodup_append_pickNew (distinct : taken.Nodup) :
    (taken ++ (pickNew name taken candidates).map fun entry => name entry.2).Nodup := by
  apply distinct.append nodup_pickNew
  intro old known new
  obtain ⟨entry, listed, rfl⟩ := List.mem_map.mp new
  exact (mem_of_mem_pickNew listed).2 known

theorem pickNew_eq_nil (known : ∀ entry ∈ candidates, name entry.2 ∈ taken) : pickNew name taken candidates = [] := by
  apply List.eq_nil_iff_forall_not_mem.mpr
  intro entry member
  obtain ⟨listed, free⟩ := mem_of_mem_pickNew member
  exact free (known entry listed)

/-- Picking goes by names, so a change that keeps them can be made before or after it. -/
theorem pickNew_map (change : α → α) (named : ∀ item, name (change item) = name item) :
    pickNew name taken (candidates.map (Prod.map id change)) =
      (pickNew name taken candidates).map (Prod.map id change) := by
  induction candidates generalizing taken with
  | nil => rfl
  | cons first rest ih =>
    rw [List.map_cons, pickNew, pickNew, Prod.map_snd, named]
    split
    · exact ih
    · rw [ih, List.map_cons]
      rfl

end PickNew

theorem Class.lineage_subset_ancestry (self : Class) : self.lineage ⊆ self.ancestry := by
  unfold Class.ancestry
  split
  · rename_i none
    simp [List.isEmpty_iff.mp none]
  · exact List.Subset.refl _

end Entity

namespace Graph

theorem eq_of_parts {first second : Graph} (module : first.module = second.module)
    (functions : first.functions = second.functions) (classes : first.classes = second.classes)
    (finalized : first.finalized = second.finalized) : first = second := by
  cases first
  cases second
  simp_all

/-! ### Look-ups in a graph whose classes are changed one by one -/

section Change

variable {graph changed : Graph} {change : Entity.Class → Entity.Class}
  (classes : changed.classes = graph.classes.map change)
  (named : ∀ self, (change self).name = self.name)

include classes named

theorem class?_change (name : String) : changed.class? name = (graph.class? name).map change := by
  unfold class?
  rw [classes, List.find?_map]
  simp only [Function.comp_def, named]

theorem lineageClasses_change {self : Entity.Class} (lineage : (change self).lineage = self.lineage) :
    changed.lineageClasses (change self) = (graph.lineageClasses self).map change := by
  unfold lineageClasses Class.ancestry
  rw [lineage, named, List.map_filterMap]
  simp only [class?_change classes named]

theorem hasEffective_change {self : Entity.Class} (lineage : (change self).lineage = self.lineage)
    (fragments : ∀ other, (change other).fragments = other.fragments) :
    changed.hasEffective (change self) = graph.hasEffective self := by
  unfold hasEffective
  rw [lineageClasses_change classes named lineage, List.any_map]
  simp [Function.comp_def, fragments]

end Change

/-! ### The classes of a finalized graph -/

variable (graph : Graph) (inheriting : Bool) (lineages : Hierarchy.Lineages)

/-- A class with its lineage. -/
def located (self : Entity.Class) : Entity.Class :=
  { withBases self with lineage := (lineages.lookup self.name).getD [] }

/-- The graph before it is marked. -/
def heirs : Graph :=
  let placed := graph.resolved.withLineages lineages
  if inheriting then placed.inheritMembers else placed

/-- A class before it is marked. -/
def heir (self : Entity.Class) : Entity.Class :=
  let placed := graph.resolved.withLineages lineages
  let own := located lineages self
  if inheriting then
    { own with methods := own.methods ++ placed.inheritedMethods own,
               properties := own.properties ++ placed.inheritedProperties own }
  else own

/-- What finalizing makes of a class. -/
def final (self : Entity.Class) : Entity.Class :=
  (graph.heir inheriting lineages self).mark
    ((graph.heirs inheriting lineages).hasEffective (graph.heir inheriting lineages self))

theorem classes_withLineages :
    (graph.resolved.withLineages lineages).classes = graph.classes.map (located lineages) := by
  rw [withLineages, resolved, List.map_map]
  rfl

theorem classes_heirs :
    (graph.heirs inheriting lineages).classes = graph.classes.map (graph.heir inheriting lineages) := by
  cases inheriting
  · exact classes_withLineages graph lineages
  · have placed := classes_withLineages graph lineages
    simp only [heirs, if_true, inheritMembers]
    rw [placed, List.map_map]
    rfl

theorem finalWith_eq :
    graph.finalWith inheriting lineages =
      { (graph.heirs inheriting lineages).markIncluded with finalized := true } := rfl

theorem classes_finalWith :
    (graph.finalWith inheriting lineages).classes = graph.classes.map (graph.final inheriting lineages) := by
  have marked := classes_heirs graph inheriting lineages
  simp only [finalWith_eq, markIncluded]
  rw [marked, List.map_map]
  rfl

theorem module_finalWith : (graph.finalWith inheriting lineages).module = graph.module := by
  cases inheriting <;> rfl

theorem functions_finalWith :
    (graph.finalWith inheriting lineages).functions = graph.functions.map (Entity.Function.mark true) := by
  cases inheriting <;> rfl

/-- The copy of a method that an ancestor declares. -/
def IsInheritedMethod (self : Entity.Class) (method : Entity.Function) : Prop :=
  ∃ ancestor ∈ graph.classes, ∃ source ∈ ancestor.methods, method = source.inherit self.name ancestor.name

/-- The copy of a property that an ancestor declares. -/
def IsInheritedProperty (self : Entity.Class) (property : Entity.Property) : Prop :=
  ∃ ancestor ∈ graph.classes, ∃ source ∈ ancestor.properties,
    property = source.inherit self.name ancestor.name

theorem mem_properAncestors {graph : Graph} {self ancestor : Entity.Class}
    (member : ancestor ∈ graph.properAncestors self) :
    ancestor ∈ graph.classes ∧ ancestor.name ∈ self.lineage := by
  obtain ⟨name, listed, found⟩ := List.mem_filterMap.mp member
  obtain ⟨known, rfl⟩ := mem_of_class? found
  exact ⟨known, List.mem_reverse.mp (List.mem_of_mem_drop listed)⟩

theorem exists_of_mem_inheritedMethods {graph : Graph} {self : Entity.Class} {method : Entity.Function}
    (member : method ∈ graph.inheritedMethods self) : graph.IsInheritedMethod self method := by
  obtain ⟨⟨source, inherited⟩, picked, rfl⟩ := List.mem_map.mp member
  obtain ⟨ancestor, above, listed⟩ := List.mem_flatMap.mp (mem_of_mem_pickNew picked).1
  obtain ⟨_, own, same⟩ := List.mem_map.mp listed
  cases same
  exact ⟨ancestor, (mem_properAncestors above).1, inherited, (List.mem_filter.mp own).1, rfl⟩

theorem exists_of_mem_inheritedProperties {graph : Graph} {self : Entity.Class} {property : Entity.Property}
    (member : property ∈ graph.inheritedProperties self) : graph.IsInheritedProperty self property := by
  obtain ⟨⟨source, inherited⟩, picked, rfl⟩ := List.mem_map.mp member
  obtain ⟨ancestor, above, listed⟩ := List.mem_flatMap.mp (mem_of_mem_pickNew picked).1
  obtain ⟨_, own, same⟩ := List.mem_map.mp listed
  cases same
  exact ⟨ancestor, (mem_properAncestors above).1, inherited, (List.mem_filter.mp own).1, rfl⟩

section Final

variable {graph : Graph} {inheriting : Bool} {lineages : Hierarchy.Lineages} (self : Entity.Class)

@[simp]
theorem final_name : (graph.final inheriting lineages self).name = self.name := by
  cases inheriting <;> rfl

@[simp]
theorem final_doc : (graph.final inheriting lineages self).doc = self.doc := by
  cases inheriting <;> rfl

@[simp]
theorem final_position : (graph.final inheriting lineages self).position = self.position := by
  cases inheriting <;> rfl

@[simp]
theorem final_fragments : (graph.final inheriting lineages self).fragments = self.fragments := by
  cases inheriting <;> rfl

theorem heir_name : (graph.heir inheriting lineages self).name = self.name := by
  cases inheriting <;> rfl

theorem ancestry_heir : (graph.heir inheriting lineages self).ancestry = (located lineages self).ancestry := by
  cases inheriting <;> rfl

theorem ancestry_final : (graph.final inheriting lineages self).ancestry = (located lineages self).ancestry := by
  cases inheriting <;> rfl

theorem included_final :
    (graph.final inheriting lineages self).included =
      (graph.finalWith inheriting lineages).hasEffective (graph.final inheriting lineages self) := by
  have marked : (graph.finalWith inheriting lineages).classes = (graph.heirs inheriting lineages).classes.map
      fun self => self.mark ((graph.heirs inheriting lineages).hasEffective self) := rfl
  exact (hasEffective_change marked (fun _ => rfl) rfl (fun _ => rfl)).symm

end Final

/-- The classes of a lineage are the class itself and its ancestors. -/
theorem mem_lineageClasses {graph : Graph} (distinct : (graph.classes.map (·.name)).Nodup) {self : Entity.Class}
    (stored : graph.StoredLineage self) {ancestor : Entity.Class} :
    ancestor ∈ graph.lineageClasses self ↔
      ancestor ∈ graph.classes ∧ ReflTransGen graph.Base self.name ancestor.name := by
  have own : self.name ∈ self.lineage := List.mem_of_getLast? stored.last
  have whole : self.ancestry = self.lineage := if_neg (by simpa using List.ne_nil_of_mem own)
  rw [lineageClasses, whole, List.mem_filterMap]
  constructor
  · rintro ⟨name, above, found⟩
    obtain ⟨member, rfl⟩ := mem_of_class? found
    exact ⟨member, (stored.mem_iff _).mp above⟩
  · rintro ⟨member, above⟩
    exact ⟨ancestor.name, (stored.mem_iff _).mpr above, class?_of_mem distinct member⟩

/-- Every name in a lineage is the name of a class. -/
theorem ancestry_known {graph : Graph} (distinct : (graph.classes.map (·.name)).Nodup) (complete : ¬ graph.LacksBase)
    {lineages : Hierarchy.Lineages} (found : graph.resolved.hierarchy.lineages = .ok lineages) {self : Entity.Class}
    (member : self ∈ graph.classes) {name : String} (above : name ∈ (located lineages self).ancestry) :
    name ∈ graph.classes.map (·.name) := by
  have listed : self.name ∈ graph.classes.map (·.name) := List.mem_map_of_mem member
  have sound := (Hierarchy.lineages_eq_ok (by rwa [hierarchy_resolved_names]) found).1
  unfold Class.ancestry at above
  split at above
  · rwa [List.mem_singleton.mp above]
  · cases known : lineages.lookup self.name with
    | none => simp [located, known] at above
    | some lineage =>
      have inside : name ∈ lineage := by simpa [located, known] using above
      have path := (sound.isLineage _ _ (Hierarchy.mem_of_lookup known)).ancestor name inside
      rw [hierarchy_resolved_base] at path
      exact above_known complete listed path

theorem hasEffective_eq_false {graph : Graph} (distinct : (graph.classes.map (·.name)).Nodup) {self : Entity.Class}
    (stored : graph.StoredLineage self) :
    graph.hasEffective self = false ↔
      ∀ ancestor ∈ graph.classes, ReflTransGen graph.Base self.name ancestor.name → ancestor.fragments = [] := by
  simp only [hasEffective, List.any_eq_false, mem_lineageClasses distinct stored]
  simp

/-- A class is left out exactly if neither it nor an ancestor has a fragment. -/
theorem included_final_eq_false {graph : Graph} (distinct : graph.Distinct) {inheriting : Bool}
    {lineages : Hierarchy.Lineages} (found : graph.resolved.hierarchy.lineages = .ok lineages)
    {self : Entity.Class} (member : self ∈ graph.classes) :
    (graph.final inheriting lineages self).included = false ↔
      ∀ ancestor ∈ graph.classes, ReflTransGen graph.Base self.name ancestor.name → ancestor.fragments = [] := by
  have classes := classes_finalWith graph inheriting lineages
  have names : ((graph.finalWith inheriting lineages).classes.map (·.name)).Nodup := by
    simpa [classes, Function.comp_def] using distinct.classes
  have listed : graph.final inheriting lineages self ∈ (graph.finalWith inheriting lineages).classes := by
    rw [classes]
    exact List.mem_map_of_mem member
  rw [included_final, hasEffective_eq_false names (storedLineage_finalWith distinct inheriting found listed),
    base_finalWith, classes]
  simp

/-- A class without effective fragments in the finalized graph was there before, and none of its ancestors had one. -/
theorem plain_of_hasEffective {graph final : Graph} (distinct : graph.Distinct) {inheriting : Bool}
    {findings : List Diagnostic} (success : graph.finalize inheriting = (final, .ok findings)) {self : Entity.Class}
    (member : self ∈ final.classes) (left : final.hasEffective self = false) :
    self.name ∈ graph.classes.map (·.name) ∧
      ∀ ancestor ∈ graph.classes, ReflTransGen graph.Base self.name ancestor.name → ancestor.fragments = [] := by
  obtain ⟨lineages, found, rfl, _⟩ := finalWith_of_finalize distinct success
  rw [classes_finalWith] at member
  obtain ⟨raw, listed, rfl⟩ := List.mem_map.mp member
  rw [← included_final, included_final_eq_false distinct found listed] at left
  rw [final_name]
  exact ⟨List.mem_map_of_mem listed, left⟩

/-- The methods of a finalized class are its own, with copies of inherited ones behind them. -/
theorem methods_final (self : Entity.Class) : ∃ inherited,
    (graph.final inheriting lineages self).methods =
      (self.methods ++ inherited).map (Function.mark (graph.final inheriting lineages self).included) ∧
    ∀ method ∈ inherited, graph.IsInheritedMethod self method := by
  cases inheriting with
  | false => exact ⟨[], by simp [final, heir, located, withBases, Class.mark], by simp⟩
  | true =>
    refine ⟨_, rfl, ?_⟩
    intro method member
    obtain ⟨ancestor, listed, source, own, same⟩ := exists_of_mem_inheritedMethods member
    rw [classes_withLineages] at listed
    obtain ⟨raw, known, rfl⟩ := List.mem_map.mp listed
    exact ⟨raw, known, source, own, same⟩

theorem properties_final (self : Entity.Class) : ∃ inherited,
    (graph.final inheriting lineages self).properties =
      (self.properties ++ inherited).map (Property.mark (graph.final inheriting lineages self).included) ∧
    ∀ property ∈ inherited, graph.IsInheritedProperty self property := by
  cases inheriting with
  | false => exact ⟨[], by simp [final, heir, located, withBases, Class.mark], by simp⟩
  | true =>
    refine ⟨_, rfl, ?_⟩
    intro property member
    obtain ⟨ancestor, listed, source, own, same⟩ := exists_of_mem_inheritedProperties member
    rw [classes_withLineages] at listed
    obtain ⟨raw, known, rfl⟩ := List.mem_map.mp listed
    exact ⟨raw, known, source, own, same⟩

theorem exists_of_mem_methods_final {self : Entity.Class} {method : Entity.Function}
    (member : method ∈ (graph.final inheriting lineages self).methods) :
    ∃ source, (source ∈ self.methods ∨ graph.IsInheritedMethod self source) ∧
      method = source.mark (graph.final inheriting lineages self).included := by
  obtain ⟨inherited, whole, copies⟩ := methods_final graph inheriting lineages self
  rw [whole] at member
  obtain ⟨source, inside, rfl⟩ := List.mem_map.mp member
  exact ⟨source, (List.mem_append.mp inside).imp_right (copies source), rfl⟩

theorem exists_of_mem_properties_final {self : Entity.Class} {property : Entity.Property}
    (member : property ∈ (graph.final inheriting lineages self).properties) :
    ∃ source, (source ∈ self.properties ∨ graph.IsInheritedProperty self source) ∧
      property = source.mark (graph.final inheriting lineages self).included := by
  obtain ⟨inherited, whole, copies⟩ := properties_final graph inheriting lineages self
  rw [whole] at member
  obtain ⟨source, inside, rfl⟩ := List.mem_map.mp member
  exact ⟨source, (List.mem_append.mp inside).imp_right (copies source), rfl⟩

theorem mark_mem_methods_final {self : Entity.Class} {method : Entity.Function} (declared : method ∈ self.methods) :
    method.mark (graph.final inheriting lineages self).included ∈ (graph.final inheriting lineages self).methods := by
  obtain ⟨inherited, whole, _⟩ := methods_final graph inheriting lineages self
  rw [whole]
  exact List.mem_map_of_mem (List.mem_append_left _ declared)

theorem mark_mem_properties_final {self : Entity.Class} {property : Entity.Property}
    (declared : property ∈ self.properties) :
    property.mark (graph.final inheriting lineages self).included ∈
      (graph.final inheriting lineages self).properties := by
  obtain ⟨inherited, whole, _⟩ := properties_final graph inheriting lineages self
  rw [whole]
  exact List.mem_map_of_mem (List.mem_append_left _ declared)

end Graph

end DocWeave
