import DocWeave.Proofs.Pipeline.Faults
import DocWeave.Proofs.Render.Agreement

/-!
# Tables and definitions of a rendered module

In a graph that was built from a manifest and finalized, whatever is included has code. So its definition is among the
parts of the implementation, before the tables that refer to it.
-/

namespace DocWeave

open Entity Render

theorem fragments_of_mark {exported : Bool} {function : Entity.Function}
    (included : (function.mark exported).included = true) : (function.mark exported).fragments ≠ [] := by
  have coded := (Bool.and_eq_true_iff.mp included).2
  intro missing
  have empty : function.fragments = [] := missing
  rw [empty] at coded
  cases coded

namespace Graph

variable {manifest : Manifest} {graph : Graph}

theorem coded_finalWith {inheriting : Bool} {lineages : Hierarchy.Lineages}
    (sourced : (graph.finalWith inheriting lineages).Sourced manifest) :
    Coded (graph.finalWith inheriting lineages) := by
  constructor
  · intro entity listed
    obtain ⟨member, included⟩ := List.mem_filter.mp listed
    have holds := sourced.functions entity member
    rw [functions_finalWith] at member
    obtain ⟨old, _, rfl⟩ := List.mem_map.mp member
    exact isSome_body? holds (fragments_of_mark included)
  · intro self listed method own
    obtain ⟨known, _⟩ := List.mem_filter.mp listed
    obtain ⟨member, included⟩ := List.mem_filter.mp own
    have holds := (sourced.classes self known).methods method member
    rw [classes_finalWith] at known
    obtain ⟨old, _, rfl⟩ := List.mem_map.mp known
    obtain ⟨source, _, rfl⟩ := exists_of_mem_methods_final graph inheriting lineages member
    exact isSome_body? holds (fragments_of_mark included)

end Graph

/-- The implementation of a finalized graph is the texts of its parts, and its tables agree with its definitions. -/
theorem render_agrees {manifest : Manifest} {raw final : Graph} {warnings found : List Diagnostic} {inheriting : Bool}
    {options : Options} {artifacts : Artifacts} (built : Graph.ofManifest manifest = .ok (raw, warnings))
    (finalized : raw.finalize inheriting = (final, .ok found)) (rendered : final.render options = .ok artifacts) :
    artifacts.implementation.toList =
      (parts final).flatMap (fun part => (part.text { graph := final, options }).toList) ∧
    (∀ part ∈ parts final, part.Succeeds { graph := final, options }) ∧
    Agrees { graph := final, options } := by
  obtain ⟨reads, distinct, _⟩ := Graph.reads_of_ofManifest built
  have sourced := (Graph.sourced_of_reads reads).of_finalize distinct finalized
  obtain ⟨lineages, _, rfl, _⟩ := Graph.finalWith_of_finalize distinct finalized
  have coded := Graph.coded_finalWith sourced
  obtain ⟨whole, succeeds⟩ := implementation_eq_parts rendered
  exact ⟨whole, succeeds, agrees_of_coded coded succeeds⟩

/-- A class with a method for every kind of entry, and properties that lack an accessor. -/
def counters : Manifest where
  module := { name := "counters", doc := "Counting." }
  functions := [{ name := "reset", doc := "Start again.\n\n_CPP_:\n    return NULL;" }]
  classes := [{
    name := "Counter", doc := "_CPP_:\n    int count;"
    methods := [{ name := "grow", doc := "_CPP_:\n    return self;" },
      { name := "__len__", doc := "_CPP_:\n    return 1;" },
      { name := "__add__", doc := "_CPP_:\n    return self;" },
      { name := "__str__", doc := "_CPP_:\n    return NULL;" },
      { name := "__eq__", doc := "_CPP_:\n    return NULL;" }]
    properties := [{ name := "count", doc := "The count.\n\n_CPP_(get):\n    return NULL;" },
      { name := "step", doc := "_CPP_(set):\n    return 0;", setter := true }] }]

theorem agreement_of_counters : ∃ raw warnings final found artifacts,
    Graph.ofManifest counters = .ok (raw, warnings) ∧ raw.finalize true = (final, .ok found) ∧
    final.render (Options.ofSettings "counters" counters.settings) = .ok artifacts ∧
    artifacts.implementation.toList = (parts final).flatMap (fun part =>
      (part.text { graph := final, options := Options.ofSettings "counters" counters.settings }).toList) ∧
    (∀ part ∈ parts final,
      part.Succeeds { graph := final, options := Options.ofSettings "counters" counters.settings }) ∧
    Agrees { graph := final, options := Options.ofSettings "counters" counters.settings } := by
  have success : (Graph.ofManifest counters >>= fun built => (built.1.finalize true).2 >>= fun _ =>
      interfaceSteps ⟨(built.1.finalize true).1, Options.ofSettings "counters" counters.settings⟩ >>= fun _ =>
      implementationSteps ⟨(built.1.finalize true).1, Options.ofSettings "counters" counters.settings⟩ >>= fun _ =>
      (.ok () : Except Fault Unit)) = .ok () := by decide +kernel
  obtain ⟨⟨raw, warnings⟩, built, success⟩ := bind_eq_ok.mp success
  obtain ⟨found, finalized, success⟩ := bind_eq_ok.mp success
  obtain ⟨interface, first, success⟩ := bind_eq_ok.mp success
  obtain ⟨implementation, second, _⟩ := bind_eq_ok.mp success
  obtain ⟨artifacts, rendered⟩ := exists_render_of_steps first second
  have done : raw.finalize true = ((raw.finalize true).1, .ok found) := Prod.ext rfl finalized
  exact ⟨raw, warnings, _, found, artifacts, built, done, rendered, render_agrees built done rendered⟩

end DocWeave
