import DocWeave.Proofs.Code.Output
import DocWeave.Proofs.Entity.Bases
import DocWeave.Proofs.Outcome
import DocWeave.Render.Module

/-!
# The places where rendering expands fragments

Rendering stops only at a fragment that cannot be expanded. The place of the fragment is that of the module,
of a function, of a member of a class, or of a class for one of its ancestors.
-/

namespace DocWeave

open Code Render Tag

namespace Graph

/-- Rendering the graph expands the fragment at the place. -/
inductive Expands (graph : Graph) : Site → Fragment → Prop
  | module {fragment} (own : fragment ∈ graph.module.fragments) :
      Expands graph (moduleSite graph.module fragment) fragment
  | function {function fragment} (member : function ∈ graph.functions) (own : fragment ∈ function.fragments) :
      Expands graph (functionSite function fragment) fragment
  | method {self method fragment} (owner : self ∈ graph.classes) (member : method ∈ self.methods)
      (own : fragment ∈ method.fragments) : Expands graph (functionSite method fragment) fragment
  | property {self property fragment} (owner : self ∈ graph.classes) (member : property ∈ self.properties)
      (own : fragment ∈ property.fragments) : Expands graph (propertySite property fragment) fragment
  | ancestor {self ancestor fragment} (heir : self ∈ graph.classes) (above : ancestor ∈ graph.classes)
      (own : fragment ∈ ancestor.fragments) : Expands graph (ancestorSite self ancestor fragment) fragment

/-- Rendering the graph writes the fragment, expanded at the place, in the code of a class or outside of all classes. A
class writes the fragments of its ancestors anew. -/
inductive Renders (graph : Graph) : Option Entity.Class → Site → Fragment → Prop
  | module {key fragment} (supported : key ∈ EntityKind.module.keys)
      (found : Fragment.find? graph.module.fragments key = some fragment) :
      Renders graph none (moduleSite graph.module fragment) fragment
  | function {function fragment} (listed : function ∈ graph.includedFunctions)
      (found : function.body? = some fragment) : Renders graph none (functionSite function fragment) fragment
  | ancestor {self ancestor key fragment} (listed : self ∈ graph.includedClasses)
      (supported : key ∈ EntityKind.class.keys) (effective : (ancestor, fragment) ∈ graph.effective self key) :
      Renders graph (some self) (ancestorSite self ancestor fragment) fragment
  | method {self method fragment} (listed : self ∈ graph.includedClasses) (own : method ∈ self.includedMethods)
      (found : method.body? = some fragment) : Renders graph (some self) (functionSite method fragment) fragment
  | property {self property fragment} (listed : self ∈ graph.includedClasses)
      (own : property ∈ self.includedProperties)
      (found : property.getter? = some fragment ∨ property.setter? = some fragment) :
      Renders graph (some self) (propertySite property fragment) fragment

theorem mem_of_mem_effective {graph : Graph} {self ancestor : Entity.Class} {key : FragmentKey}
    {fragment : Fragment} (member : (ancestor, fragment) ∈ graph.effective self key) :
    ancestor ∈ graph.lineageClasses self ∧ Fragment.find? ancestor.fragments key = some fragment := by
  obtain ⟨_, above, found⟩ := List.mem_filterMap.mp member
  obtain ⟨_, found, same⟩ := Option.map_eq_some_iff.mp found
  cases same
  exact ⟨above, found⟩

theorem mem_of_mem_lineageClasses {graph : Graph} {self ancestor : Entity.Class}
    (above : ancestor ∈ graph.lineageClasses self) : ancestor ∈ graph.classes := by
  obtain ⟨name, _, found⟩ := List.mem_filterMap.mp above
  exact (mem_of_class? found).1

theorem Renders.expands {graph : Graph} {owner? : Option Entity.Class} {site : Site} {fragment : Fragment}
    (renders : graph.Renders owner? site fragment) : graph.Expands site fragment := by
  cases renders with
  | module _ found => exact .module (List.mem_of_find?_eq_some found)
  | function listed found => exact .function (List.mem_filter.mp listed).1 (List.mem_of_find?_eq_some found)
  | ancestor listed _ effective =>
    obtain ⟨above, found⟩ := mem_of_mem_effective effective
    exact .ancestor (List.mem_filter.mp listed).1 (mem_of_mem_lineageClasses above) (List.mem_of_find?_eq_some found)
  | method listed own found =>
    exact .method (List.mem_filter.mp listed).1 (List.mem_filter.mp own).1 (List.mem_of_find?_eq_some found)
  | property listed own found =>
    have inside := found.elim List.mem_of_find?_eq_some List.mem_of_find?_eq_some
    exact .property (List.mem_filter.mp listed).1 (List.mem_filter.mp own).1 inside

theorem Expands.offset_eq {graph : Graph} {site : Site} {fragment : Fragment}
    (expands : graph.Expands site fragment) : site.offset = fragment.offset := by
  cases expands <;> rfl

end Graph

namespace Render

variable {context : Context} {fault : Fault}

/-- An expansion of the graph fails in this way. -/
def FailsToExpand (context : Context) (fault : Fault) : Prop :=
  ∃ site fragment, context.graph.Expands site fragment ∧
    context.scope.expand site fragment.body = .error fault

/-- A fragment that rendering writes cannot be expanded. -/
def FailsToWrite (context : Context) (fault : Fault) : Prop :=
  ∃ owner? site fragment, context.graph.Renders owner? site fragment ∧
    context.scope.expand site fragment.body = .error fault

theorem FailsToWrite.failsToExpand (fails : FailsToWrite context fault) : FailsToExpand context fault := by
  obtain ⟨_, site, fragment, renders, failure⟩ := fails
  exact ⟨site, fragment, renders.expands, failure⟩

section Fails

variable {owner? : Option Entity.Class} {self : Entity.Class}

theorem fails_of_expand {site : Site} {fragment : Fragment} (renders : context.graph.Renders owner? site fragment)
    (failure : context.expand site fragment = .error fault) : FailsToWrite context fault :=
  ⟨owner?, site, fragment, renders, map_eq_error.mp failure⟩

theorem exists_of_concat_error {α : Type} {part : α → Except Fault (List Step)} {items : List α}
    (failure : concat part items = .error fault) : ∃ item ∈ items, part item = .error fault := by
  induction items with
  | nil => cases failure
  | cons item rest ih =>
    rcases bind_eq_error.mp failure with failed | ⟨_, _, others⟩
    · exact ⟨item, List.mem_cons_self, failed⟩
    rcases bind_eq_error.mp others with later | ⟨_, _, done⟩
    · obtain ⟨other, member, failed⟩ := ih later
      exact ⟨other, List.mem_cons_of_mem _ member, failed⟩
    · cases done

theorem fails_of_definition {head : String} {site : Site} {fragment : Fragment}
    (renders : context.graph.Renders owner? site fragment)
    (failure : definition context head site fragment = .error fault) : FailsToWrite context fault := by
  rcases bind_eq_error.mp failure with failed | ⟨_, _, done⟩
  · exact fails_of_expand renders failed
  · cases done

theorem fails_of_functionBody {head : String} {function : Entity.Function}
    (renders : ∀ fragment, function.body? = some fragment →
      context.graph.Renders owner? (functionSite function fragment) fragment)
    (failure : functionBody context head function = .error fault) : FailsToWrite context fault := by
  unfold functionBody at failure
  split at failure
  · rename_i fragment found
    exact fails_of_definition (renders fragment found) failure
  · cases failure

theorem fails_of_moduleFragment {key : FragmentKey} (supported : key ∈ EntityKind.module.keys)
    (failure : moduleFragment context key = .error fault) : FailsToWrite context fault := by
  unfold moduleFragment at failure
  dsimp only at failure
  split at failure
  · rename_i fragment found
    rcases bind_eq_error.mp failure with failed | ⟨_, _, done⟩
    · exact fails_of_expand (.module supported found) failed
    · cases done
  · cases failure

theorem fails_of_ancestorTexts {entries : List (Entity.Class × Fragment)}
    (renders : ∀ entry ∈ entries, context.graph.Renders owner? (ancestorSite self entry.1 entry.2) entry.2)
    (failure : ancestorTexts context self entries = .error fault) : FailsToWrite context fault := by
  induction entries with
  | nil => cases failure
  | cons entry rest ih =>
    rcases bind_eq_error.mp failure with failed | ⟨_, _, others⟩
    · exact fails_of_expand (renders entry List.mem_cons_self) failed
    rcases bind_eq_error.mp others with later | ⟨_, _, done⟩
    · exact ih (fun other member => renders other (List.mem_cons_of_mem _ member)) later
    · cases done

theorem fails_of_effectiveText (listed : self ∈ context.graph.includedClasses) {key : FragmentKey}
    (supported : key ∈ EntityKind.class.keys) (failure : effectiveText context self key = .error fault) :
    FailsToWrite context fault := by
  rcases bind_eq_error.mp failure with failed | ⟨_, _, done⟩
  · exact fails_of_ancestorTexts (fun _ member => .ancestor listed supported member) failed
  · cases done

theorem fails_of_structDefinition (listed : self ∈ context.graph.includedClasses)
    (failure : structDefinition context self = .error fault) : FailsToWrite context fault := by
  rcases bind_eq_error.mp failure with failed | ⟨_, _, failure⟩
  · exact fails_of_effectiveText listed (by decide) failed
  rcases bind_eq_error.mp failure with failed | ⟨_, _, failure⟩
  · exact fails_of_effectiveText listed (by decide) failed
  rcases bind_eq_error.mp failure with failed | ⟨_, _, failure⟩
  · exact fails_of_effectiveText listed (by decide) failed
  rcases bind_eq_error.mp failure with failed | ⟨_, _, done⟩
  · exact fails_of_effectiveText listed (by decide) failed
  · cases done

theorem fails_of_methodDefinition (listed : self ∈ context.graph.includedClasses)
    {method : Entity.Function} (member : method ∈ self.includedMethods)
    (failure : methodDefinition context self method = .error fault) : FailsToWrite context fault := by
  rcases bind_eq_error.mp failure with failed | ⟨_, _, done⟩
  · exact fails_of_functionBody (fun _ found => .method listed member found) failed
  · cases done

theorem fails_of_accessor {property : Entity.Property} {head : String} {fragment? : Option Fragment}
    (renders : ∀ fragment, fragment? = some fragment →
      context.graph.Renders owner? (propertySite property fragment) fragment)
    (failure : accessor context head property fragment? = .error fault) : FailsToWrite context fault := by
  cases fragment? with
  | none => cases failure
  | some fragment => exact fails_of_definition (renders fragment rfl) failure

theorem fails_of_propertyDefinition (listed : self ∈ context.graph.includedClasses)
    {property : Entity.Property} (member : property ∈ self.includedProperties)
    (failure : propertyDefinition context self property = .error fault) : FailsToWrite context fault := by
  rcases bind_eq_error.mp failure with failed | ⟨_, _, failure⟩
  · exact fails_of_accessor (fun _ found => .property listed member (.inl found)) failed
  rcases bind_eq_error.mp failure with failed | ⟨_, _, done⟩
  · exact fails_of_accessor (fun _ found => .property listed member (.inr found)) failed
  · cases done

theorem fails_of_classBodies (listed : self ∈ context.graph.includedClasses)
    (failure : classBodies context self = .error fault) : FailsToWrite context fault := by
  rcases bind_eq_error.mp failure with failed | ⟨_, _, failure⟩
  · obtain ⟨method, member, failed⟩ := exists_of_concat_error failed
    exact fails_of_methodDefinition listed member failed
  rcases bind_eq_error.mp failure with failed | ⟨_, _, done⟩
  · obtain ⟨property, member, failed⟩ := exists_of_concat_error failed
    exact fails_of_propertyDefinition listed member failed
  · cases done

theorem fails_of_functionDefinition {function : Entity.Function} (member : function ∈ context.graph.includedFunctions)
    (failure : functionDefinition context function = .error fault) : FailsToWrite context fault := by
  rcases bind_eq_error.mp failure with failed | ⟨_, _, done⟩
  · exact fails_of_functionBody (fun _ found => .function member found) failed
  · cases done

theorem fails_of_interfaceSteps (failure : interfaceSteps context = .error fault) :
    FailsToWrite context fault := by
  rcases bind_eq_error.mp failure with failed | ⟨_, _, done⟩
  · exact fails_of_moduleFragment (by decide) failed
  · cases done

theorem fails_of_implementationSteps (failure : implementationSteps context = .error fault) :
    FailsToWrite context fault := by
  rcases bind_eq_error.mp failure with failed | ⟨_, _, failure⟩
  · exact fails_of_moduleFragment (by decide) failed
  rcases bind_eq_error.mp failure with failed | ⟨_, _, failure⟩
  · obtain ⟨self, member, failed⟩ := exists_of_concat_error failed
    exact fails_of_structDefinition member failed
  rcases bind_eq_error.mp failure with failed | ⟨_, _, failure⟩
  · obtain ⟨function, member, failed⟩ := exists_of_concat_error failed
    exact fails_of_functionDefinition member failed
  rcases bind_eq_error.mp failure with failed | ⟨_, _, done⟩
  · obtain ⟨self, member, failed⟩ := exists_of_concat_error failed
    exact fails_of_classBodies member failed
  · cases done

end Fails

end Render

end DocWeave
