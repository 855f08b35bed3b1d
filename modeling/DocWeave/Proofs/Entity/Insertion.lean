import DocWeave.Proofs.Entity.Subgraph
import DocWeave.Proofs.Render.View

/-!
# Entities that are not exported

A graph is extended by functions without fragments, and by classes without fragments whose bases have none either.
The classes that were there keep their lineages and their members, and what is added is not included. So both graphs
are alike to the rendering.
-/

namespace DocWeave

open Entity Relation

/-! ### Insertion into a list -/

/-- The list `whole` is `old` with `added` somewhere in it. -/
def Inserted {α : Type} (added old whole : List α) : Prop :=
  ∃ before after, old = before ++ after ∧ whole = before ++ added ++ after

namespace Inserted

variable {α β : Type} {added old whole : List α} (inserted : Inserted added old whole)

theorem refl (old : List α) : Inserted [] old old :=
  ⟨old, [], by simp, by simp⟩

include inserted

theorem mem_iff {item : α} : item ∈ whole ↔ item ∈ old ∨ item ∈ added := by
  obtain ⟨before, after, rfl, rfl⟩ := inserted
  simp only [List.mem_append]
  tauto

theorem sublist : old.Sublist whole := by
  obtain ⟨before, after, rfl, rfl⟩ := inserted
  rw [List.append_assoc]
  exact (List.sublist_append_right added after).append_left before

theorem map (f : α → β) : Inserted (added.map f) (old.map f) (whole.map f) := by
  obtain ⟨before, after, rfl, rfl⟩ := inserted
  exact ⟨before.map f, after.map f, by simp, by simp⟩

theorem filterMap (f : α → Option β) : Inserted (added.filterMap f) (old.filterMap f) (whole.filterMap f) := by
  obtain ⟨before, after, rfl, rfl⟩ := inserted
  exact ⟨before.filterMap f, after.filterMap f, by simp, by simp⟩

/-- Items that are not looked for do not change what is found. -/
theorem find?_eq {p : α → Bool} (silent : ∀ item ∈ added, p item = false) : whole.find? p = old.find? p := by
  obtain ⟨before, after, rfl, rfl⟩ := inserted
  have skipped : added.find? p = .none := List.find?_eq_none.mpr fun item member => by simp [silent item member]
  simp [List.find?_append, skipped]

/-- Items that become something else are left out of it again. -/
theorem filter_map_eq {f g : α → β} {p : β → Bool} (same : ∀ item ∈ old, g item = f item)
    (silent : ∀ item ∈ added, p (g item) = false) : (whole.map g).filter p = (old.map f).filter p := by
  obtain ⟨before, after, rfl, rfl⟩ := inserted
  have skipped : (added.map g).filter p = [] := by
    simpa [List.filter_eq_nil_iff] using silent
  rw [← List.map_congr_left same]
  simp [List.filter_append, skipped]

end Inserted

namespace Graph

/-! ### Extended graphs -/

/-- The graph `whole` also has the new functions and classes. None of them has a fragment, and a new class inherits
only from classes that were there and have no fragments. -/
structure Extended (graph : Graph) (newFunctions : List Entity.Function) (newClasses : List Entity.Class)
    (whole : Graph) : Prop where
  distinct : whole.Distinct
  module : whole.module = graph.module
  functions : Inserted newFunctions graph.functions whole.functions
  classes : Inserted newClasses graph.classes whole.classes
  silent : ∀ function ∈ newFunctions, function.fragments = []
  plain : ∀ self ∈ newClasses, self.fragments = []
  known : ∀ self ∈ newClasses, ∀ base ∈ self.declaredBases, base ∈ graph.classes.map (·.name)
  ineffective : ∀ self ∈ newClasses, ∀ base ∈ self.declaredBases, ∀ ancestor ∈ graph.classes,
    ReflTransGen graph.Base base ancestor.name → ancestor.fragments = []

namespace Extended

variable {graph whole : Graph} {newFunctions : List Entity.Function} {newClasses : List Entity.Class}
  (extended : graph.Extended newFunctions newClasses whole)

include extended

theorem names : Inserted (newClasses.map (·.name)) (graph.classes.map (·.name)) (whole.classes.map (·.name)) :=
  extended.classes.map (·.name)

theorem distinct_old : graph.Distinct where
  classes := extended.distinct.classes.sublist extended.names.sublist
  functions := extended.distinct.functions.sublist (extended.functions.map (·.qualifiedName)).sublist

theorem mem_old {self : Entity.Class} (member : self ∈ graph.classes) : self ∈ whole.classes :=
  extended.classes.mem_iff.mpr (.inl member)

theorem mem_new {self : Entity.Class} (added : self ∈ newClasses) : self ∈ whole.classes :=
  extended.classes.mem_iff.mpr (.inr added)

theorem fresh {name : String} (old : name ∈ graph.classes.map (·.name)) : name ∉ newClasses.map (·.name) := by
  intro added
  obtain ⟨before, after, listed, all⟩ := extended.names
  have nodup := extended.distinct.classes
  rw [all, List.nodup_append, List.nodup_append] at nodup
  rw [listed, List.mem_append] at old
  rcases old with first | last
  · exact nodup.1.2.2 name first name added rfl
  · exact nodup.2.2 name (List.mem_append_right _ added) name last rfl

theorem mem_of_name_new {self : Entity.Class} (member : self ∈ whole.classes)
    (new : self.name ∈ newClasses.map (·.name)) : self ∈ newClasses := by
  rcases extended.classes.mem_iff.mp member with listed | added
  · exact absurd new (extended.fresh (List.mem_map_of_mem listed))
  · exact added

theorem class?_eq {name : String} (old : name ∉ newClasses.map (·.name)) :
    whole.class? name = graph.class? name := by
  apply extended.classes.find?_eq
  intro self added
  have other : self.name ≠ name := fun same => old (same ▸ List.mem_map_of_mem added)
  simpa using other

/-! ### Bases -/

variable (complete : ¬ graph.LacksBase)

include complete

theorem within : graph.Within whole where
  distinct := extended.distinct_old.classes
  distinct_whole := extended.distinct.classes
  classes := fun _ => extended.mem_old
  complete := complete

theorem base_old {heir base : String} (link : whole.Base heir base) : base ∈ graph.classes.map (·.name) := by
  obtain ⟨self, member, named, declared⟩ := link
  rcases extended.classes.mem_iff.mp member with old | added
  · exact base_known complete heir base ⟨self, old, named, declared⟩
  · exact extended.known self added base declared

theorem complete_whole : ¬ whole.LacksBase := by
  rintro ⟨self, member, base, listed, notRoot, missing⟩
  have declared : base ∈ self.declaredBases := mem_declaredBases.mpr ⟨listed, notRoot⟩
  have old := extended.base_old complete ⟨self, member, rfl, declared⟩
  exact class?_eq_none.mp missing (extended.names.mem_iff.mpr (.inl old))

/-- A cycle only visits bases, and these are old. -/
theorem acyclic_whole (acyclic : ¬ ∃ name, TransGen graph.Base name name) :
    ¬ ∃ name, TransGen whole.Base name name := by
  rintro ⟨name, cycle⟩
  obtain ⟨_, _, last⟩ := TransGen.tail'_iff.mp cycle
  obtain ⟨base, first, back⟩ := TransGen.head'_iff.mp cycle
  have link := ((extended.within complete).base_iff (extended.base_old complete last)).mp first
  have path := ((extended.within complete).above_iff (extended.base_old complete first)).mp back
  exact acyclic ⟨name, .head' link path⟩

/-- A new class is not included, and neither is anything that it inherits from. -/
theorem included_new {wider : Hierarchy.Lineages} (widerFound : whole.resolved.hierarchy.lineages = .ok wider)
    (inheriting : Bool) {self : Entity.Class} (added : self ∈ newClasses) :
    (whole.final inheriting wider self).included = false := by
  rw [included_final_eq_false extended.distinct widerFound (extended.mem_new added)]
  intro ancestor listed path
  have new : self.name ∈ newClasses.map (·.name) := List.mem_map_of_mem added
  -- An ancestor is the class itself, or it is reached through a base. There everything is old.
  rcases ReflTransGen.cases_head path with same | ⟨base, ⟨heir, member, named, declared⟩, above⟩
  · exact extended.plain ancestor (extended.mem_of_name_new listed (same ▸ new))
  · have own := extended.mem_of_name_new member (named ▸ new)
    have known := extended.known heir own base declared
    have climb := ((extended.within complete).above_iff known).mp above
    have old := (extended.within complete).mem_of_name listed (above_known complete known climb)
    exact extended.ineffective heir own base declared ancestor old climb

/-! ### Rendering -/

variable {lineages wider : Hierarchy.Lineages} (found : graph.resolved.hierarchy.lineages = .ok lineages)
  (widerFound : whole.resolved.hierarchy.lineages = .ok wider) (inheriting : Bool)

include found widerFound

theorem exports_eq (name : String) :
    (whole.finalWith inheriting wider).exports name = (graph.finalWith inheriting lineages).exports name := by
  -- A new name was not exported because it was missing, and it is not exported now.
  by_cases new : name ∈ newClasses.map (·.name)
  · obtain ⟨self, added, rfl⟩ := List.mem_map.mp new
    have absent : graph.class? self.name = none := class?_eq_none.mpr fun old => extended.fresh old new
    rw [exports, exports, class?_change (classes_finalWith whole inheriting wider) final_name,
      class?_change (classes_finalWith graph inheriting lineages) final_name, absent,
      class?_of_mem extended.distinct.classes (extended.mem_new added)]
    exact extended.included_new complete widerFound inheriting added
  by_cases old : name ∈ graph.classes.map (·.name)
  · rw [exports, exports, (extended.within complete).class?_finalWith found widerFound inheriting old]
  · have absent : graph.class? name = none := class?_eq_none.mpr old
    rw [exports, exports, class?_change (classes_finalWith whole inheriting wider) final_name,
      class?_change (classes_finalWith graph inheriting lineages) final_name, extended.class?_eq new, absent,
      Option.map_none, Option.map_none]

/-- The new functions and classes do not show. -/
theorem alike : (graph.finalWith inheriting lineages).Alike (whole.finalWith inheriting wider) where
  module := by rw [module_finalWith, module_finalWith, extended.module]
  functions := by
    rw [includedFunctions, includedFunctions, functions_finalWith, functions_finalWith]
    apply extended.functions.filter_map_eq fun _ _ => rfl
    intro function added
    simp [Function.mark, extended.silent function added]
  classes := by
    rw [includedClasses, includedClasses, classes_finalWith, classes_finalWith]
    apply extended.classes.filter_map_eq
    · exact fun _ => (extended.within complete).final_eq found widerFound inheriting
    · exact fun _ => extended.included_new complete widerFound inheriting
  exports := funext (extended.exports_eq complete found widerFound inheriting)
  effective := by
    intro self exported
    funext key
    exact (extended.within complete).effective_finalWith found widerFound inheriting (List.mem_filter.mp exported).1 key

omit complete found widerFound in
/-- If finalizing a graph succeeds, so does finalizing the graph with what is new, and rendering does not tell the two
apart. -/
theorem exists_alike_of_finalize {final : Graph} {findings : List Diagnostic}
    (success : graph.finalize inheriting = (final, .ok findings)) :
    ∃ wholeFinal others, whole.finalize inheriting = (wholeFinal, .ok others) ∧ final.Alike wholeFinal := by
  obtain ⟨complete, acyclic⟩ := (exists_finalize_eq_ok_iff extended.distinct_old inheriting).mp ⟨_, _, success⟩
  obtain ⟨lineages, found, rfl, -⟩ := finalWith_of_finalize extended.distinct_old success
  obtain ⟨wholeFinal, others, done⟩ := (exists_finalize_eq_ok_iff extended.distinct inheriting).mpr
    ⟨extended.complete_whole complete, extended.acyclic_whole complete acyclic⟩
  obtain ⟨wider, widerFound, rfl, -⟩ := finalWith_of_finalize extended.distinct done
  exact ⟨_, others, done, extended.alike complete found widerFound inheriting⟩

end Extended

end Graph

end DocWeave
