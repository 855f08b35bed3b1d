import DocWeave.Proofs.Pipeline.Agreement
import DocWeave.Proofs.Render.Tags

/-!
# Tags of a rendered module

In a graph that was built from a manifest and finalized, copies of inherited members belong to the class that inherits
them. So a tag without a class means the heir, and the implementation declares and defines whatever a tag mentions.
-/

namespace DocWeave

open Entity Render Tag

namespace Graph

variable {manifest : Manifest} {warnings : List Diagnostic} {graph : Graph}

theorem owned_of_reads (reads : graph.Reads manifest warnings) : graph.Owned := by
  constructor
  · intro function member
    obtain ⟨_, _, read⟩ := exists_of_forall₂_right reads.functions member
    exact read.owned
  · intro self member method declared
    obtain ⟨_, _, read⟩ := exists_of_forall₂_right reads.classes member
    obtain ⟨_, _, own⟩ := exists_of_forall₂_right read.methods declared
    rw [own.owned, read.name]
  · intro self member property declared
    obtain ⟨_, _, read⟩ := exists_of_forall₂_right reads.classes member
    obtain ⟨_, _, own⟩ := exists_of_forall₂_right read.properties declared
    rw [own.owned, read.name]

/-- A copy of an inherited member belongs to the heir. -/
theorem Owned.finalWith (owned : graph.Owned) (inheriting : Bool) (lineages : Hierarchy.Lineages) :
    (graph.finalWith inheriting lineages).Owned := by
  constructor
  · rw [functions_finalWith]
    intro function member
    obtain ⟨old, known, rfl⟩ := List.mem_map.mp member
    exact owned.functions old known
  · rw [classes_finalWith]
    intro self listed method declared
    obtain ⟨old, known, rfl⟩ := List.mem_map.mp listed
    rw [final_name]
    obtain ⟨source, own | ⟨_, _, _, _, rfl⟩, rfl⟩ := exists_of_mem_methods_final graph inheriting lineages declared
    · exact owned.methods old known source own
    · rfl
  · rw [classes_finalWith]
    intro self listed property declared
    obtain ⟨old, known, rfl⟩ := List.mem_map.mp listed
    rw [final_name]
    obtain ⟨source, own | ⟨_, _, _, _, rfl⟩, rfl⟩ := exists_of_mem_properties_final graph inheriting lineages declared
    · exact owned.properties old known source own
    · rfl

end Graph

/-- Every tag in the code of a finalized graph means an included class: the one that it names, or else the one that has
the code. The implementation declares and defines everything that the tag mentions. -/
theorem rendered_tags_agree {manifest : Manifest} {raw final : Graph} {warnings found : List Diagnostic}
    {inheriting : Bool} {options : Options} {artifacts : Artifacts}
    (built : Graph.ofManifest manifest = .ok (raw, warnings))
    (finalized : raw.finalize inheriting = (final, .ok found)) (rendered : final.render options = .ok artifacts) :
    ∀ owner? site fragment, final.Renders owner? site fragment →
      TagsAgree ⟨final, options⟩ owner? site fragment artifacts.implementation := by
  obtain ⟨reads, distinct, _⟩ := Graph.reads_of_ofManifest built
  have sourced := (Graph.sourced_of_reads reads).of_finalize distinct finalized
  obtain ⟨lineages, _, rfl, _⟩ := Graph.finalWith_of_finalize distinct finalized
  have owned := (Graph.owned_of_reads reads).finalWith inheriting lineages
  intro owner? site fragment renders
  exact tagsAgree_of_renders owned (Graph.coded_finalWith sourced) rendered renders

/-- A class copies its instances in a method, and another class inherits the method. -/
def chimes : Manifest where
  module := { name := "chimes" }
  classes := [
    { name := "Bell", doc := "_CPP_: int tone;",
      methods := [{ name := "cast", doc := "_CPP_: return (PyObject*) $COPY(self);" }] },
    { name := "Chime", bases := ["Bell"], doc := "_CPP_: $STRUCT(Bell)* first;" }]

def chimesOptions : Options :=
  Options.ofSettings "chimes" chimes.settings

/-- The heir copies its own instances. -/
theorem tags_of_chimes : ∃ raw warnings final found artifacts, Graph.ofManifest chimes = .ok (raw, warnings) ∧
    raw.finalize true = (final, .ok found) ∧ final.render chimesOptions = .ok artifacts ∧
    (∃ self ∈ final.includedClasses, self.name = "Chime" ∧ ∃ method ∈ self.includedMethods,
      method.inheritedFrom = some "Bell" ∧ ∃ fragment, method.body? = some fragment ∧
      (⟨final, chimesOptions⟩ : Context).scope.expand (functionSite method fragment) fragment.body =
        .ok "return (PyObject*) quill_copy_Chime(reinterpret_cast<Chime_struct*>(self));" ∧
      TagsAgree ⟨final, chimesOptions⟩ (some self) (functionSite method fragment) fragment artifacts.implementation) ∧
    ∀ owner? site fragment, final.Renders owner? site fragment →
      TagsAgree ⟨final, chimesOptions⟩ owner? site fragment artifacts.implementation := by
  have evaluated : (Graph.ofManifest chimes >>= fun built => (built.1.finalize true).2 >>= fun _ =>
      interfaceSteps ⟨(built.1.finalize true).1, chimesOptions⟩ >>= fun _ =>
      implementationSteps ⟨(built.1.finalize true).1, chimesOptions⟩ >>= fun _ =>
      (.ok ((built.1.finalize true).1.includedClasses.any fun self => self.name = "Chime" ∧
        self.includedMethods.any fun method => method.inheritedFrom = some "Bell" ∧
          method.body?.any fun fragment =>
            (⟨(built.1.finalize true).1, chimesOptions⟩ : Context).scope.expand (functionSite method fragment)
              fragment.body =
              .ok "return (PyObject*) quill_copy_Chime(reinterpret_cast<Chime_struct*>(self));") :
        Except Fault Bool)) = .ok true := by decide +kernel
  obtain ⟨⟨raw, warnings⟩, built, evaluated⟩ := bind_eq_ok.mp evaluated
  obtain ⟨found, finalized, evaluated⟩ := bind_eq_ok.mp evaluated
  obtain ⟨interface, first, evaluated⟩ := bind_eq_ok.mp evaluated
  obtain ⟨implementation, second, evaluated⟩ := bind_eq_ok.mp evaluated
  obtain ⟨self, listed, evaluated⟩ := List.any_eq_true.mp (Except.ok.inj evaluated)
  obtain ⟨name, evaluated⟩ := of_decide_eq_true evaluated
  obtain ⟨method, own, evaluated⟩ := List.any_eq_true.mp evaluated
  obtain ⟨inherited, evaluated⟩ := of_decide_eq_true evaluated
  obtain ⟨fragment, body, expanded⟩ := (Option.any_eq_true _ _).mp evaluated
  obtain ⟨artifacts, rendered⟩ := exists_render_of_steps first second
  have done : raw.finalize true = ((raw.finalize true).1, .ok found) := Prod.ext rfl finalized
  have agree := rendered_tags_agree built done rendered
  exact ⟨raw, warnings, _, found, _, built, done, rendered, ⟨self, listed, name, method, own, inherited, fragment, body,
    of_decide_eq_true expanded, agree _ _ _ (.method listed own body)⟩, agree⟩

end DocWeave
