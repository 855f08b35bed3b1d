import DocWeave.Proofs.Outcome
import DocWeave.Render.Module

/-!
# What rendering looks at

The texts of a graph show its module, the functions and classes that are included, with the fragments that these
classes have, and whether a class of some name is exported. Two graphs that are alike in this have the same texts.
-/

namespace DocWeave

open Code Entity Render Tag

/-- The graphs do not differ in anything that rendering looks at. -/
structure Graph.Alike (graph other : Graph) : Prop where
  module : other.module = graph.module
  functions : other.includedFunctions = graph.includedFunctions
  classes : other.includedClasses = graph.includedClasses
  exports : other.exports = graph.exports
  effective : ∀ self ∈ graph.includedClasses, other.effective self = graph.effective self

namespace Render

theorem concat_congr {α : Type} {part other : α → Except Fault (List Step)} {items : List α}
    (same : ∀ item ∈ items, other item = part item) : concat other items = concat part items := by
  induction items with
  | nil => rfl
  | cons item rest ih =>
    rw [List.forall_mem_cons] at same
    rw [concat, concat, same.1, ih same.2]

variable {graph other : Graph} (options : Options) (alike : graph.Alike other)

include alike

theorem scope_congr : (⟨other, options⟩ : Context).scope = (⟨graph, options⟩ : Context).scope := by
  rw [Context.scope, Context.scope, alike.exports]
  rfl

theorem expand_congr (site : Site) (fragment : Fragment) :
    (⟨other, options⟩ : Context).expand site fragment = (⟨graph, options⟩ : Context).expand site fragment := by
  rw [Context.expand, Context.expand, scope_congr options alike]

theorem definition_congr (head : String) (site : Site) (fragment : Fragment) :
    definition ⟨other, options⟩ head site fragment = definition ⟨graph, options⟩ head site fragment := by
  rw [definition, definition, expand_congr options alike]

theorem functionBody_congr (head : String) (function : Entity.Function) :
    functionBody ⟨other, options⟩ head function = functionBody ⟨graph, options⟩ head function := by
  unfold functionBody
  split
  · exact definition_congr options alike _ _ _
  · rfl

theorem functionDefinition_congr (function : Entity.Function) :
    functionDefinition ⟨other, options⟩ function = functionDefinition ⟨graph, options⟩ function := by
  unfold functionDefinition
  dsimp only
  rw [functionBody_congr options alike]
  rfl

theorem methodDefinition_congr (self : Entity.Class) (method : Entity.Function) :
    methodDefinition ⟨other, options⟩ self method = methodDefinition ⟨graph, options⟩ self method := by
  unfold methodDefinition
  dsimp only
  rw [functionBody_congr options alike]
  rfl

theorem accessor_congr (head : String) (property : Entity.Property) (fragment? : Option Fragment) :
    accessor ⟨other, options⟩ head property fragment? = accessor ⟨graph, options⟩ head property fragment? := by
  unfold accessor
  split
  · exact definition_congr options alike _ _ _
  · rfl

theorem propertyDefinition_congr (self : Entity.Class) (property : Entity.Property) :
    propertyDefinition ⟨other, options⟩ self property = propertyDefinition ⟨graph, options⟩ self property := by
  unfold propertyDefinition
  dsimp only
  rw [accessor_congr options alike, accessor_congr options alike]
  rfl

theorem classBodies_congr (self : Entity.Class) :
    classBodies ⟨other, options⟩ self = classBodies ⟨graph, options⟩ self := by
  unfold classBodies
  rw [concat_congr fun method _ => methodDefinition_congr options alike self method,
    concat_congr fun property _ => propertyDefinition_congr options alike self property]
  rfl

theorem ancestorTexts_congr (self : Entity.Class) (entries : List (Entity.Class × Fragment)) :
    ancestorTexts ⟨other, options⟩ self entries = ancestorTexts ⟨graph, options⟩ self entries := by
  induction entries with
  | nil => rfl
  | cons entry rest ih => rw [ancestorTexts, ancestorTexts, expand_congr options alike, ih]

theorem effectiveText_congr {self : Entity.Class} (member : self ∈ graph.includedClasses) (key : FragmentKey) :
    effectiveText ⟨other, options⟩ self key = effectiveText ⟨graph, options⟩ self key := by
  rw [effectiveText, effectiveText, alike.effective self member, ancestorTexts_congr options alike]

theorem structDefinition_congr {self : Entity.Class} (member : self ∈ graph.includedClasses) :
    structDefinition ⟨other, options⟩ self = structDefinition ⟨graph, options⟩ self := by
  unfold structDefinition
  simp only [effectiveText_congr options alike member]
  rfl

theorem moduleFragment_congr (key : FragmentKey) :
    moduleFragment ⟨other, options⟩ key = moduleFragment ⟨graph, options⟩ key := by
  unfold moduleFragment
  rw [alike.module]
  dsimp only
  split
  · rw [expand_congr options alike]
  · rfl

theorem classTables_congr (self : Entity.Class) :
    classTables ⟨other, options⟩ self = classTables ⟨graph, options⟩ self := by
  unfold classTables typeObject
  dsimp only
  rw [alike.module]
  rfl

theorem moduleTables_congr : moduleTables ⟨other, options⟩ = moduleTables ⟨graph, options⟩ := by
  unfold moduleTables
  dsimp only
  rw [alike.module, alike.functions]
  rfl

theorem moduleRegistration_congr : moduleRegistration ⟨other, options⟩ = moduleRegistration ⟨graph, options⟩ := by
  unfold moduleRegistration
  dsimp only
  rw [alike.module, alike.classes]
  rfl

theorem interfaceSteps_congr : interfaceSteps ⟨other, options⟩ = interfaceSteps ⟨graph, options⟩ := by
  unfold interfaceSteps
  rw [moduleFragment_congr options alike]
  dsimp only
  rw [alike.module]

theorem implementationSteps_congr : implementationSteps ⟨other, options⟩ = implementationSteps ⟨graph, options⟩ := by
  unfold implementationSteps
  rw [moduleFragment_congr options alike, moduleTables_congr options alike, moduleRegistration_congr options alike]
  dsimp only
  rw [alike.module, alike.functions, alike.classes,
    concat_congr fun self member => structDefinition_congr options alike member,
    concat_congr fun function _ => functionDefinition_congr options alike function,
    concat_congr fun self _ => classBodies_congr options alike self,
    List.flatMap_congr fun self _ => classTables_congr options alike self]
  rfl

/-- Graphs that are alike have the same texts. -/
theorem render_congr : other.render options = graph.render options := by
  unfold Graph.render
  dsimp only
  rw [interfaceSteps_congr options alike, implementationSteps_congr options alike]

end Render

end DocWeave
