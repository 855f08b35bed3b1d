import DocWeave.Proofs.Entity.Failure
import DocWeave.Proofs.Entity.Reading
import DocWeave.Proofs.Entity.Subgraph

/-!
# Finalizing again

A graph that was finalized can be given further entities and be finalized again. What was inherited is there already
and is not inherited a second time, so the runs in between leave no trace in the graph that is finalized last.
-/

namespace DocWeave

open Entity Manifest Relation

namespace Entity

/-! ### What a class declares -/

/-- The class without what finalizing finds out about it, but with the members that it inherited. -/
def Class.bare (self : Class) : Class :=
  { self.mark false with bases := [], lineage := [] }

/-- The bare class with the members that it declares itself. -/
def Class.declared (self : Class) : Class :=
  { self.bare with methods := self.bare.ownMethods, properties := self.bare.ownProperties }

/-- The class with further members. -/
def Class.gain (self : Class) (methods : List Function) (properties : List Property) : Class :=
  { self with methods := self.methods ++ methods, properties := self.properties ++ properties }

theorem Function.mark_comp (first second : Bool) : Function.mark second ∘ Function.mark first = Function.mark second :=
  rfl

theorem Property.mark_comp (first second : Bool) : Property.mark second ∘ Property.mark first = Property.mark second :=
  rfl

theorem Class.mark_mark (first second : Bool) (self : Class) : (self.mark first).mark second = self.mark second := by
  simp [Class.mark, Function.mark_comp, Property.mark_comp]

@[simp]
theorem Class.bare_mark (exported : Bool) (self : Class) : (self.mark exported).bare = self.bare := by
  rw [Class.bare, Class.mark_mark]
  rfl

theorem Class.mark_gain (exported : Bool) (self : Class) (methods : List Function) (properties : List Property) :
    (self.gain methods properties).mark exported =
      (self.mark exported).gain (methods.map (Function.mark exported)) (properties.map (Property.mark exported)) := by
  simp [Class.mark, Class.gain]

theorem Class.gain_nil (self : Class) : self.gain [] [] = self := by
  simp [Class.gain]

/-- Members from elsewhere do not count as declared. -/
theorem Class.declared_gain (self : Class) {methods : List Function} {properties : List Property}
    (methodsFrom : ∀ method ∈ methods, method.inheritedFrom ≠ none)
    (propertiesFrom : ∀ property ∈ properties, property.inheritedFrom ≠ none) :
    (self.gain methods properties).declared = self.declared := by
  have noMethods : (methods.map (Function.mark false)).filter (·.inheritedFrom.isNone) = [] := by
    simpa [Function.mark] using methodsFrom
  have noProperties : (properties.map (Property.mark false)).filter (·.inheritedFrom.isNone) = [] := by
    simpa [Property.mark] using propertiesFrom
  simp [Class.declared, Class.ownMethods, Class.ownProperties, Class.bare, Class.mark, Class.gain, noMethods,
    noProperties]

theorem Class.methods_declared (self : Class) :
    self.declared.methods = self.ownMethods.map (Function.mark false) :=
  List.filter_map

theorem Class.properties_declared (self : Class) :
    self.declared.properties = self.ownProperties.map (Property.mark false) :=
  List.filter_map

end Entity

namespace Graph

theorem located_bare (lineages : Hierarchy.Lineages) (self : Entity.Class) :
    (located lineages self).bare = self.bare := rfl

theorem mark_located_bare (lineages : Hierarchy.Lineages) (self : Entity.Class) :
    (located lineages self.bare).mark false = (located lineages self).mark false := by
  simp [located, withBases, Class.bare, Class.mark, Class.declaredBases, Function.mark_comp, Property.mark_comp]

/-- The lineage of a class goes by its name. -/
theorem mark_located_eq (lineages : Hierarchy.Lineages) {self other : Entity.Class} (same : self.bare = other.bare) :
    (located lineages self).mark false = (located lineages other).mark false := by
  rw [← mark_located_bare, same, mark_located_bare]

/-! ### Graphs with the same declarations -/

/-- But for its mark, an inherited method is read off what the ancestors declare. -/
theorem marked_inheritedMethods (graph : Graph) (self : Entity.Class) :
    (graph.inheritedMethods self).map (Function.mark false) =
      (pickNew (·.name) ((self.mark false).methods.map (·.name))
        (((graph.properAncestors self).map Class.declared).flatMap fun ancestor =>
          ancestor.methods.map (ancestor.name, ·))).map
        fun entry => entry.2.inherit self.name entry.1 := by
  have candidates : (((graph.properAncestors self).map Class.declared).flatMap fun ancestor =>
      ancestor.methods.map (ancestor.name, ·)) =
        ((graph.properAncestors self).flatMap fun ancestor =>
          ancestor.ownMethods.map (ancestor.name, ·)).map (Prod.map id (Function.mark false)) := by
    simp only [List.map_flatMap, List.flatMap_map, List.map_map, Class.methods_declared]
    rfl
  have names : (self.mark false).methods.map (·.name) = self.methods.map (·.name) := by
    simp only [Class.mark, List.map_map]
    rfl
  rw [candidates, names, pickNew_map (Function.mark false) fun _ => rfl, inheritedMethods, List.map_map, List.map_map]
  rfl

theorem marked_inheritedProperties (graph : Graph) (self : Entity.Class) :
    (graph.inheritedProperties self).map (Property.mark false) =
      (pickNew (·.name) ((self.mark false).properties.map (·.name))
        (((graph.properAncestors self).map Class.declared).flatMap fun ancestor =>
          ancestor.properties.map (ancestor.name, ·))).map
        fun entry => entry.2.inherit self.name entry.1 := by
  have candidates : (((graph.properAncestors self).map Class.declared).flatMap fun ancestor =>
      ancestor.properties.map (ancestor.name, ·)) =
        ((graph.properAncestors self).flatMap fun ancestor =>
          ancestor.ownProperties.map (ancestor.name, ·)).map (Prod.map id (Property.mark false)) := by
    simp only [List.map_flatMap, List.flatMap_map, List.map_map, Class.properties_declared]
    rfl
  have names : (self.mark false).properties.map (·.name) = self.properties.map (·.name) := by
    simp only [Class.mark, List.map_map]
    rfl
  rw [candidates, names, pickNew_map (Property.mark false) fun _ => rfl, inheritedProperties, List.map_map,
    List.map_map]
  rfl

/-- What a class has inherited is taken, so that it is not inherited again. -/
theorem inheritedMethods_gain (graph : Graph) (self : Entity.Class) (properties : List Entity.Property) :
    graph.inheritedMethods (self.gain (graph.inheritedMethods self) properties) = [] := by
  rw [inheritedMethods, List.map_eq_nil_iff]
  apply pickNew_eq_nil
  intro entry listed
  rw [Class.gain, List.map_append, List.mem_append]
  apply (taken_or_picked listed).imp_right
  intro picked
  rw [inheritedMethods, List.map_map]
  exact picked

theorem inheritedProperties_gain (graph : Graph) (self : Entity.Class) (methods : List Entity.Function) :
    graph.inheritedProperties (self.gain methods (graph.inheritedProperties self)) = [] := by
  rw [inheritedProperties, List.map_eq_nil_iff]
  apply pickNew_eq_nil
  intro entry listed
  rw [Class.gain, List.map_append, List.mem_append]
  apply (taken_or_picked listed).imp_right
  intro picked
  rw [inheritedProperties, List.map_map]
  exact picked

section Declared

variable {graph other : Graph} (same : other.classes.map Class.declared = graph.classes.map Class.declared)

include same

theorem class?_declared (name : String) :
    (other.class? name).map Class.declared = (graph.class? name).map Class.declared := by
  have within : ∀ graph : Graph, (graph.class? name).map Class.declared =
      (graph.classes.map Class.declared).find? (·.name = name) := by
    intro graph
    rw [class?, List.find?_map]
    rfl
  rw [within, within, same]

theorem classes_declared (names : List String) :
    (names.filterMap other.class?).map Class.declared = (names.filterMap graph.class?).map Class.declared := by
  rw [List.map_filterMap, List.map_filterMap]
  simp only [class?_declared same]

variable {self now : Entity.Class} (equal : now.mark false = self.mark false)

include equal

theorem properAncestors_declared :
    (other.properAncestors now).map Class.declared = (graph.properAncestors self).map Class.declared := by
  have lineage : now.lineage = self.lineage := congrArg (·.lineage) equal
  rw [properAncestors, lineage, classes_declared same, ← properAncestors]

theorem inheritedMethods_declared :
    (other.inheritedMethods now).map (Function.mark false) =
      (graph.inheritedMethods self).map (Function.mark false) := by
  have name : now.name = self.name := congrArg (·.name) equal
  rw [marked_inheritedMethods, marked_inheritedMethods, equal, name, properAncestors_declared same equal]

theorem inheritedProperties_declared :
    (other.inheritedProperties now).map (Property.mark false) =
      (graph.inheritedProperties self).map (Property.mark false) := by
  have name : now.name = self.name := congrArg (·.name) equal
  rw [marked_inheritedProperties, marked_inheritedProperties, equal, name, properAncestors_declared same equal]

theorem hasEffective_declared : other.hasEffective now = graph.hasEffective self := by
  have ancestry : now.ancestry = self.ancestry := by
    change (now.mark false).ancestry = (self.mark false).ancestry
    rw [equal]
  have within : ∀ (graph : Graph) (self : Entity.Class), graph.hasEffective self =
      ((graph.lineageClasses self).map Class.declared).any (!·.fragments.isEmpty) := by
    intro graph self
    rw [hasEffective, List.any_map]
    rfl
  rw [within, within, lineageClasses, ancestry, classes_declared same, ← lineageClasses]

end Declared

/-! ### Classes that were finalized before -/

variable {raw graph : Graph} {inheriting : Bool} {lineages : Hierarchy.Lineages}

theorem heir_eq_gain (self : Entity.Class) :
    raw.heir true lineages self = (located lineages self).gain
      ((raw.resolved.withLineages lineages).inheritedMethods (located lineages self))
      ((raw.resolved.withLineages lineages).inheritedProperties (located lineages self)) := rfl

theorem declared_heir (self : Entity.Class) : (raw.heir inheriting lineages self).declared = self.declared := by
  cases inheriting with
  | false => rfl
  | true =>
    rw [heir_eq_gain, Class.declared_gain]
    · rfl
    · intro method member
      obtain ⟨ancestor, _, source, _, rfl⟩ := exists_of_mem_inheritedMethods member
      simp [Entity.Function.inherit]
    · intro property member
      obtain ⟨ancestor, _, source, _, rfl⟩ := exists_of_mem_inheritedProperties member
      simp [Entity.Property.inherit]

/-- A class as it was declared, or as finalizing a part of the graph left it. -/
inductive Stage (raw : Graph) (inheriting : Bool) (self : Entity.Class) : Entity.Class → Prop
  | fresh : Stage raw inheriting self self
  | finalized {old : Graph} {lineages : Hierarchy.Lineages} (within : old.Within raw)
      (found : old.resolved.hierarchy.lineages = .ok lineages) (member : self ∈ old.classes) :
      Stage raw inheriting self (old.heir inheriting lineages self)

/-- The graph is what edits have made of `raw`, to which the same entities were added without finalizing it. -/
structure Ahead (inheriting : Bool) (raw graph : Graph) : Prop where
  module : graph.module = raw.module
  functions : graph.functions.map (Entity.Function.mark true) = raw.functions.map (Entity.Function.mark true)
  classes : List.Forall₂ (fun self bare => ∃ source, raw.Stage inheriting self source ∧ bare = source.bare)
    raw.classes (graph.classes.map Class.bare)

theorem Stage.declared {self source : Entity.Class} (stage : raw.Stage inheriting self source) :
    source.declared = self.declared := by
  cases stage with
  | fresh => rfl
  | finalized _ _ _ => exact declared_heir self

/-- Finalizing gives a class what it was declared to have, whatever was done to it before. -/
theorem Stage.heir_eq {self source now : Entity.Class} (stage : raw.Stage inheriting self source)
    (found : raw.resolved.hierarchy.lineages = .ok lineages)
    (same : graph.classes.map Class.declared = raw.classes.map Class.declared) (bare : now.bare = source.bare) :
    (graph.heir inheriting lineages now).mark false = (raw.heir inheriting lineages self).mark false := by
  have own := mark_located_eq lineages bare
  cases inheriting with
  | false =>
    apply own.trans
    cases stage with
    | fresh => rfl
    | finalized within oldFound member => exact mark_located_eq lineages (located_bare _ self)
  | true =>
    have placed : (graph.resolved.withLineages lineages).classes.map Class.declared =
        (raw.resolved.withLineages lineages).classes.map Class.declared := by
      rw [classes_withLineages, classes_withLineages, List.map_map, List.map_map]
      exact same
    rw [heir_eq_gain, Class.mark_gain, inheritedMethods_declared placed own, inheritedProperties_declared placed own,
      own, ← Class.mark_gain]
    cases stage with
    | fresh => rfl
    | finalized within oldFound member =>
      rw [← within.heir_eq oldFound found true member]
      -- The class has all the members that it could inherit.
      have still : located lineages (raw.heir true lineages self) = raw.heir true lineages self := rfl
      rw [still, heir_eq_gain, inheritedMethods_gain, inheritedProperties_gain, Class.gain_nil]

theorem classes_heirs_declared : (graph.heirs inheriting lineages).classes.map Class.declared =
    graph.classes.map Class.declared := by
  rw [classes_heirs, List.map_map]
  apply List.map_congr_left
  intro self _
  exact declared_heir self

theorem Stage.final_eq {self source now : Entity.Class} (stage : raw.Stage inheriting self source)
    (found : raw.resolved.hierarchy.lineages = .ok lineages)
    (same : graph.classes.map Class.declared = raw.classes.map Class.declared) (bare : now.bare = source.bare) :
    graph.final inheriting lineages now = raw.final inheriting lineages self := by
  have heir := stage.heir_eq found same bare
  have heirs : (graph.heirs inheriting lineages).classes.map Class.declared =
      (raw.heirs inheriting lineages).classes.map Class.declared := by
    rw [classes_heirs_declared, classes_heirs_declared, same]
  rw [final, final, hasEffective_declared heirs heir, ← Class.mark_mark false, heir, Class.mark_mark]

namespace Ahead

theorem refl (inheriting : Bool) (raw : Graph) : Ahead inheriting raw raw where
  module := rfl
  functions := rfl
  classes := by
    rw [List.forall₂_map_right_iff, List.forall₂_same]
    exact fun self _ => ⟨self, .fresh, rfl⟩

variable (ahead : Ahead inheriting raw graph)

include ahead

theorem stages : List.Forall₂ (fun self now => ∃ source, raw.Stage inheriting self source ∧ now.bare = source.bare)
    raw.classes graph.classes :=
  List.forall₂_map_right_iff.mp ahead.classes

theorem declared : graph.classes.map Class.declared = raw.classes.map Class.declared := by
  apply Eq.symm
  apply map_eq_map_of_forall₂ ahead.stages
  rintro self now ⟨source, stage, bare⟩
  rw [← stage.declared, Class.declared, Class.declared, bare]

/-- What can be said of the declarations holds of both graphs. -/
theorem map_eq {α : Type} (f : Entity.Class → α) (reads : ∀ self, f self.declared = f self) :
    graph.classes.map f = raw.classes.map f := by
  have through : ∀ classes : List Entity.Class, classes.map f = (classes.map Class.declared).map f := by
    intro classes
    rw [List.map_map]
    apply List.map_congr_left
    exact fun self _ => (reads self).symm
  rw [through, ahead.declared, ← through]

theorem names : graph.classes.map (·.name) = raw.classes.map (·.name) :=
  ahead.map_eq (·.name) fun _ => rfl

theorem functionNames : graph.functions.map (·.qualifiedName) = raw.functions.map (·.qualifiedName) := by
  have through : ∀ functions : List Entity.Function, functions.map (·.qualifiedName) =
      (functions.map (Entity.Function.mark true)).map (·.qualifiedName) := by
    intro functions
    rw [List.map_map]
    rfl
  rw [through, ahead.functions, ← through]

theorem distinct (rawDistinct : raw.Distinct) : graph.Distinct where
  classes := ahead.names ▸ rawDistinct.classes
  functions := ahead.functionNames ▸ rawDistinct.functions

theorem hierarchy_eq : graph.resolved.hierarchy = raw.resolved.hierarchy := by
  rw [hierarchy_resolved, hierarchy_resolved]
  exact ahead.map_eq (fun self => (self.name, self.declaredBases)) fun _ => rfl

theorem finalWith_eq (found : raw.resolved.hierarchy.lineages = .ok lineages) :
    graph.finalWith inheriting lineages = raw.finalWith inheriting lineages := by
  have classes : (graph.finalWith inheriting lineages).classes = (raw.finalWith inheriting lineages).classes := by
    rw [classes_finalWith, classes_finalWith]
    apply Eq.symm
    apply map_eq_map_of_forall₂ ahead.stages
    rintro self now ⟨source, stage, bare⟩
    exact (stage.final_eq found ahead.declared bare).symm
  have functions : (graph.finalWith inheriting lineages).functions = (raw.finalWith inheriting lineages).functions := by
    rw [functions_finalWith, functions_finalWith, ahead.functions]
  have module : (graph.finalWith inheriting lineages).module = (raw.finalWith inheriting lineages).module := by
    rw [module_finalWith, module_finalWith, ahead.module]
  exact eq_of_parts module functions classes rfl

theorem finalize_iff (rawDistinct : raw.Distinct) {final : Graph} {found : List Diagnostic} :
    graph.finalize inheriting = (final, .ok found) ↔ raw.finalize inheriting = (final, .ok found) := by
  have sound : (∃ final found, graph.finalize inheriting = (final, .ok found)) ↔
      ∃ final found, raw.finalize inheriting = (final, .ok found) := by
    rw [exists_finalize_eq_ok_iff (ahead.distinct rawDistinct), exists_finalize_eq_ok_iff rawDistinct, lacksBase_iff,
      lacksBase_iff, ahead.names, ← hierarchy_resolved_base, ← hierarchy_resolved_base, ahead.hierarchy_eq]
  by_cases ends : ∃ final found, raw.finalize inheriting = (final, .ok found)
  · obtain ⟨_, _, rawDone⟩ := ends
    obtain ⟨_, _, done⟩ := sound.mpr ⟨_, _, rawDone⟩
    obtain ⟨rawLineages, rawKnown, rfl, rfl⟩ := finalWith_of_finalize rawDistinct rawDone
    obtain ⟨lineages, known, rfl, rfl⟩ := finalWith_of_finalize (ahead.distinct rawDistinct) done
    rw [ahead.hierarchy_eq, rawKnown] at known
    cases known
    rw [done, rawDone, ahead.finalWith_eq rawKnown]
  · constructor
    · exact fun success => absurd (sound.mp ⟨_, _, success⟩) ends
    · exact fun success => absurd ⟨_, _, success⟩ ends

end Ahead

/-! ### Edits -/

/-- A change to a graph. -/
inductive Edit where
  | addFunction (added : Entity.Function)
  | addClass (added : Entity.Class)
  | finalize

/-- Whether the change adds an entity. -/
def Edit.adds : Edit → Bool
  | .finalize => false
  | _ => true

/-- Change a graph. What cannot be added leaves the graph as it is. -/
def edit (inheriting : Bool) (graph : Graph) : Edit → Graph × Except Fault (List Diagnostic)
  | .addFunction added =>
    match graph.addFunction added with
    | .ok grown => (grown, .ok [])
    | .error fault => (graph, .error fault)
  | .addClass added =>
    match graph.addClass added with
    | .ok grown => (grown, .ok [])
    | .error fault => (graph, .error fault)
  | .finalize => graph.finalize inheriting

/-- Make changes one after the other, whether they succeed or not. -/
def edits (inheriting : Bool) (graph : Graph) (changes : List Edit) : Graph :=
  changes.foldl (fun graph change => (graph.edit inheriting change).1) graph

theorem edit_addFunction (added : Entity.Function) : graph.edit inheriting (.addFunction added) =
    if added.qualifiedName ∈ graph.functions.map (·.qualifiedName) then
      (graph, .error (.duplicate .function added.qualifiedName))
    else ({ graph with functions := graph.functions ++ [added] }, .ok []) := by
  have taken : (graph.function? added.qualifiedName).isSome ↔
      added.qualifiedName ∈ graph.functions.map (·.qualifiedName) := by
    simp [function?]
  by_cases present : added.qualifiedName ∈ graph.functions.map (·.qualifiedName)
  · rw [if_pos present, edit, addFunction, if_pos (taken.mpr present)]
  · rw [if_neg present, edit, addFunction, if_neg (mt taken.mp present)]

theorem edit_addClass (added : Entity.Class) : graph.edit inheriting (.addClass added) =
    if added.name ∈ graph.classes.map (·.name) then (graph, .error (.duplicate .class added.name))
    else ({ graph with classes := graph.classes ++ [added] }, .ok []) := by
  have taken : (graph.class? added.name).isSome ↔ added.name ∈ graph.classes.map (·.name) := by
    simp [class?]
  by_cases present : added.name ∈ graph.classes.map (·.name)
  · rw [if_pos present, edit, addClass, if_pos (taken.mpr present)]
  · rw [if_neg present, edit, addClass, if_neg (mt taken.mp present)]

theorem Distinct.edit (distinct : graph.Distinct) (inheriting : Bool) {change : Edit} (adds : change.adds) :
    (graph.edit inheriting change).1.Distinct := by
  cases change with
  | addFunction added =>
    rw [Graph.edit]
    split
    · rename_i success
      exact distinct.addFunction success
    · exact distinct
  | addClass added =>
    rw [Graph.edit]
    split
    · rename_i success
      exact distinct.addClass success
    · exact distinct
  | finalize => cases adds

theorem Distinct.edits (distinct : graph.Distinct) (inheriting : Bool) (changes : List Edit) :
    (graph.edits inheriting (changes.filter Edit.adds)).Distinct := by
  induction changes generalizing graph with
  | nil => exact distinct
  | cons change rest ih =>
    by_cases adds : change.adds
    · rw [List.filter_cons_of_pos adds]
      exact ih (distinct.edit inheriting adds)
    · rw [List.filter_cons_of_neg adds]
      exact ih distinct

/-- After a fault only the bases of classes have changed. -/
theorem finalize_error {fault : Fault} (failure : (graph.finalize inheriting).2 = .error fault) :
    ∃ classes, (graph.finalize inheriting).1 = { graph with classes } ∧
      classes.map Class.bare = graph.classes.map Class.bare := by
  obtain ⟨same, fails⟩ := fails_of_finalize (Prod.ext rfl failure)
  refine ⟨_, same, (map_eq_map_of_forall₂ fails.forall₂ ?_).symm⟩
  intro before after other
  rw [other]
  rfl

theorem Stage.mono {grown : Graph} (distinct : (grown.classes.map (·.name)).Nodup) (sub : raw.classes ⊆ grown.classes)
    {self source : Entity.Class} (stage : raw.Stage inheriting self source) : grown.Stage inheriting self source := by
  cases stage with
  | fresh => exact .fresh
  | finalized within found member =>
    have wider : Within _ grown :=
      { within with distinct_whole := distinct, classes := fun _ old => sub (within.classes old) }
    exact .finalized wider found member

namespace Ahead

variable (ahead : Ahead inheriting raw graph)

include ahead

/-- An add succeeds on both graphs or on neither. -/
theorem outcome_eq {change : Edit} (adds : change.adds) :
    (graph.edit inheriting change).2 = (raw.edit inheriting change).2 := by
  cases change with
  | addFunction added =>
    rw [edit_addFunction, edit_addFunction, ahead.functionNames]
    split <;> rfl
  | addClass added =>
    rw [edit_addClass, edit_addClass, ahead.names]
    split <;> rfl
  | finalize => cases adds

theorem stages_mono {grown : Graph} (distinct : (grown.classes.map (·.name)).Nodup)
    (sub : raw.classes ⊆ grown.classes) :
    List.Forall₂ (fun self bare => ∃ source, grown.Stage inheriting self source ∧ bare = source.bare)
      raw.classes (graph.classes.map Class.bare) := by
  apply ahead.classes.imp
  rintro self bare ⟨source, stage, same⟩
  exact ⟨source, stage.mono distinct sub, same⟩

theorem add (distinct : raw.Distinct) {change : Edit} (adds : change.adds) :
    Ahead inheriting (raw.edit inheriting change).1 (graph.edit inheriting change).1 := by
  have grown := distinct.edit inheriting adds
  cases change with
  | addFunction added =>
    rw [edit_addFunction, edit_addFunction, ahead.functionNames]
    split
    · exact ahead
    · refine ⟨ahead.module, ?_, ahead.stages_mono distinct.classes (List.Subset.refl _)⟩
      rw [List.map_append, List.map_append, ahead.functions]
  | addClass added =>
    rw [edit_addClass] at grown
    rw [edit_addClass, edit_addClass, ahead.names]
    split
    · exact ahead
    · rename_i fresh
      rw [if_neg fresh] at grown
      refine ⟨ahead.module, ahead.functions, ?_⟩
      rw [List.map_append]
      apply List.rel_append
      · exact ahead.stages_mono grown.classes (List.subset_append_left _ _)
      · exact .cons ⟨added, .fresh, rfl⟩ .nil
  | finalize => cases adds

/-- Whether finalizing succeeds or not, the graph stays ahead. -/
theorem finalize (distinct : raw.Distinct) : Ahead inheriting raw (graph.finalize inheriting).1 := by
  cases outcome : (graph.finalize inheriting).2 with
  | error fault =>
    obtain ⟨classes, left, same⟩ := finalize_error outcome
    rw [left]
    exact { ahead with classes := same ▸ ahead.classes }
  | ok found =>
    have success : raw.finalize inheriting = ((graph.finalize inheriting).1, .ok found) := by
      rw [← ahead.finalize_iff distinct, ← outcome]
    obtain ⟨complete, _⟩ := (exists_finalize_eq_ok_iff distinct inheriting).mp ⟨_, _, success⟩
    obtain ⟨lineages, known, final, _⟩ := finalWith_of_finalize distinct success
    have within : raw.Within raw := ⟨distinct.classes, distinct.classes, List.Subset.refl _, complete⟩
    rw [final]
    constructor
    · exact module_finalWith raw inheriting lineages
    · rw [functions_finalWith, List.map_map, Entity.Function.mark_comp]
    · rw [classes_finalWith, List.map_map, List.forall₂_map_right_iff, List.forall₂_same]
      intro self member
      exact ⟨_, .finalized within known member, Class.bare_mark _ _⟩

theorem run (distinct : raw.Distinct) (changes : List Edit) :
    Ahead inheriting (raw.edits inheriting (changes.filter Edit.adds)) (graph.edits inheriting changes) := by
  induction changes generalizing raw graph with
  | nil => exact ahead
  | cons change rest ih =>
    by_cases adds : change.adds
    · rw [List.filter_cons_of_pos adds]
      exact ih (ahead.add distinct adds) (distinct.edit inheriting adds)
    · rw [List.filter_cons_of_neg adds]
      cases change with
      | finalize => exact ih (ahead.finalize distinct) distinct
      | addFunction | addClass => exact absurd rfl adds

end Ahead

theorem edit_error {change : Edit} (adds : change.adds) {fault : Fault}
    (failure : (graph.edit inheriting change).2 = .error fault) :
    (graph.edit inheriting change).1 = graph ∧ ∃ kind name, fault = .duplicate kind name := by
  cases change with
  | addFunction added =>
    rw [edit_addFunction] at failure ⊢
    split at failure
    · rename_i taken
      cases failure
      exact ⟨by rw [if_pos taken], _, _, rfl⟩
    · cases failure
  | addClass added =>
    rw [edit_addClass] at failure ⊢
    split at failure
    · rename_i taken
      cases failure
      exact ⟨by rw [if_pos taken], _, _, rfl⟩
    · cases failure
  | finalize => cases adds

/-- Finalizing a graph that was edited in any way gives what it would have given without the runs before it. Adds are
not affected by these runs either, and finalizing once more changes nothing. -/
theorem finalize_edits {manifest : Manifest} {warnings : List Diagnostic}
    (built : ofManifest manifest = .ok (graph, warnings)) (inheriting : Bool) (changes : List Edit) :
    (∀ final found, (graph.edits inheriting changes).finalize inheriting = (final, .ok found) ↔
      (graph.edits inheriting (changes.filter Edit.adds)).finalize inheriting = (final, .ok found)) ∧
    (∀ final found, (graph.edits inheriting changes).finalize inheriting = (final, .ok found) →
      final.finalize inheriting = (final, .ok found)) ∧
    ∀ change : Edit, change.adds →
      ((graph.edits inheriting changes).edit inheriting change).2 =
        ((graph.edits inheriting (changes.filter Edit.adds)).edit inheriting change).2 ∧
      ∀ fault, ((graph.edits inheriting changes).edit inheriting change).2 = .error fault →
        ((graph.edits inheriting changes).edit inheriting change).1 = graph.edits inheriting changes ∧
        ∃ kind name, fault = .duplicate kind name := by
  have distinct : graph.Distinct := (reads_of_ofManifest built).2.1
  have added := distinct.edits inheriting changes
  have ahead := (Ahead.refl inheriting graph).run distinct changes
  refine ⟨fun final found => ahead.finalize_iff added, ?_, fun change adds => ⟨ahead.outcome_eq adds, ?_⟩⟩
  · intro final found success
    have still : (graph.edits inheriting changes).finalize inheriting = (final, .ok found) ↔
        ((graph.edits inheriting changes).finalize inheriting).1.finalize inheriting = (final, .ok found) :=
      (ahead.finalize_iff added).trans ((ahead.finalize added).finalize_iff added).symm
    rw [success] at still
    exact still.mp rfl
  · intro fault failure
    exact edit_error adds failure

/-- A class that inherits a method. -/
def growing : Manifest where
  module := { name := "growing" }
  classes := [{ name := "Leaf", bases := ["Plant"], doc := "_CPP_: int age;" },
    { name := "Plant", methods := [{ name := "water", doc := "_CPP_: return;", arity := { params := 1 } }] }]

/-- A further class, which inherits from the first. -/
def needle : Entity.Class where
  name := "Needle"
  doc := ""
  description := ""
  fragments := []
  position := ⟨"growing.py", none⟩
  baseNames := ["Leaf"]
  methods := []
  properties := []

/-- The class is added, and after a run it cannot be added again. -/
def needleAdded : List Edit :=
  [.finalize, .addClass needle, .finalize, .addClass needle]

theorem edits_of_growing : ∃ graph warnings final found, ofManifest growing = .ok (graph, warnings) ∧
    (graph.edits true needleAdded).finalize true = (final, .ok found) ∧
    (graph.edits true [.addClass needle, .addClass needle]).finalize true = (final, .ok found) ∧
    final.finalize true = (final, .ok found) := by
  have evaluated : (ofManifest growing >>= fun built => ((built.1.edits true needleAdded).finalize true).2 >>= fun _ =>
      (.ok () : Except Fault Unit)) = .ok () := by decide +kernel
  obtain ⟨⟨graph, warnings⟩, built, evaluated⟩ := bind_eq_ok.mp evaluated
  obtain ⟨found, finalized, _⟩ := bind_eq_ok.mp evaluated
  have success : (graph.edits true needleAdded).finalize true = (_, .ok found) := Prod.ext rfl finalized
  obtain ⟨once, again, _⟩ := finalize_edits built true needleAdded
  exact ⟨graph, warnings, _, found, built, success, (once _ found).mp success, again _ found success⟩

end Graph

end DocWeave
