import DocWeave.Proofs.Pipeline.Agreement
import DocWeave.Proofs.Pipeline.Ending
import DocWeave.Proofs.Pipeline.Members
import DocWeave.Proofs.Render.Items

/-!
# The symbols of a run

A run that succeeds defines every item once. Names in a manifest are told apart by kind and by class, but the symbols
that they are joined to are not, so items of different entities may get one symbol.
-/

namespace DocWeave

open Compilation Entity Render

section Apart

variable {manifest : Manifest} {outputName : Option String} {raw final : Graph} {repeats found : List Diagnostic}
  {artifacts : Artifacts} {state : Compilation}

/-- Names that the lints tell apart stay apart in the final graph. -/
theorem Completes.apart (completes : Completes manifest outputName raw final repeats found artifacts state)
    (distinct : manifest.Distinct) : Apart final := by
  obtain ⟨reads, rawDistinct, _⟩ := Graph.reads_of_ofManifest completes.built
  obtain ⟨lineages, _, rfl, _⟩ := Graph.finalWith_of_finalize rawDistinct completes.finalized
  have functions : ((raw.finalWith manifest.settings.inheritMembers lineages).functions.map (·.name)).Nodup := by
    rw [Graph.functions_finalWith, List.map_map]
    exact reads.functionNames ▸ distinct.functions
  have classes : ((raw.finalWith manifest.settings.inheritMembers lineages).classes.map (·.name)).Nodup := by
    rw [Graph.classes_finalWith, List.map_map]
    simpa only [Function.comp_def, Graph.final_name] using rawDistinct.classes
  have members : ∀ self ∈ (raw.finalWith manifest.settings.inheritMembers lineages).classes,
      (self.methods.map (·.name)).Nodup ∧ (self.properties.map (·.name)).Nodup := by
    intro self listed
    rw [Graph.classes_finalWith] at listed
    obtain ⟨old, member, rfl⟩ := List.mem_map.mp listed
    have own := reads.nodup_memberNames distinct member
    exact ⟨Graph.nodup_methodNames_final raw lineages _ own.of_append_left,
      Graph.nodup_propertyNames_final raw lineages _ own.of_append_right⟩
  constructor
  · exact functions.sublist (List.filter_sublist.map _)
  · exact classes.sublist (List.filter_sublist.map _)
  · intro self listed
    exact (members self (List.mem_filter.mp listed).1).1.sublist (List.filter_sublist.map _)
  · intro self listed
    exact (members self (List.mem_filter.mp listed).1).2.sublist (List.filter_sublist.map _)

/-- A run leaves the graph that was built and finalized. -/
theorem graph_of_compile (success : (({} : Pipeline Id).compile manifest outputName : Outcome) = (.ok (), state))
    (built : Graph.ofManifest manifest = .ok (raw, repeats))
    (finalized : raw.finalize manifest.settings.inheritMembers = (final, .ok found)) : state.graph = some final := by
  obtain ⟨_, _, _, _, _, completes⟩ := completes_of_compile success
  cases completes.built.symm.trans built
  cases completes.finalized.symm.trans finalized
  exact completes.graph

/-- The implementation of a run that succeeds defines every item once. Two items get the same symbol exactly if they
clash. -/
theorem compile_defines_items
    (success : (({} : Pipeline Id).compile manifest outputName : Outcome) = (.ok (), state)) :
    ∃ final artifacts, state.graph = some final ∧ state.artifacts = some artifacts ∧
      DefinesItems ⟨final, Options.ofSettings (outputName.getD manifest.module.name) manifest.settings⟩
        artifacts.implementation := by
  obtain ⟨raw, final, repeats, found, artifacts, completes⟩ := completes_of_compile success
  have distinct := distinct_of_compile success
  obtain ⟨reads, rawDistinct, _⟩ := Graph.reads_of_ofManifest completes.built
  have sourced := (Graph.sourced_of_reads reads).of_finalize rawDistinct completes.finalized
  have coded : Coded final := by
    obtain ⟨lineages, _, rfl, _⟩ := Graph.finalWith_of_finalize rawDistinct completes.finalized
    exact Graph.coded_finalWith sourced
  exact ⟨final, artifacts, completes.graph, completes.artifacts,
    definesItems_of_render coded (completes.apart distinct) completes.rendered⟩

end Apart

/-- Two classes, one of them named for the other and for the beginning of a method. -/
def gearsText : String :=
  "[module]
name = \"parts\"
[[classes]]
name = \"Gear\"
doc = \"_CPP_: int teeth;\"
[[classes.methods]]
name = \"box_open\"
params = 1
doc = \"_CPP_: return NULL;\"
[[classes]]
name = \"Gear_box\"
doc = \"_CPP_: int size;\"
[[classes.methods]]
name = \"open\"
params = 1
doc = \"_CPP_: return NULL;\""

def gears : Manifest where
  module := { name := "parts" }
  classes := [
    { name := "Gear", doc := "_CPP_: int teeth;",
      methods := [{ name := "box_open", doc := "_CPP_: return NULL;", arity := { params := 1 } }] },
    { name := "Gear_box", doc := "_CPP_: int size;",
      methods := [{ name := "open", doc := "_CPP_: return NULL;", arity := { params := 1 } }] }]

/-- The text is accepted. Its characters are taken from the literal as a whole, which is faster than decoding them. -/
theorem parse_gears : Manifest.parse "parts.toml" gearsText = .ok gears := by
  have characters : gearsText.toList = _ := (String.toList_ofList : (String.ofList _).toList = _)
  have read : (Toml.read? gearsText).bind Manifest.Decode.manifest = some gears := by
    rw [Toml.read?, characters]
    decide +kernel
  rw [Manifest.parse, read]
  decide +kernel

/-- The run succeeds, and it defines both methods. -/
theorem compile_gears : ∃ state final, (({} : Pipeline Id).compile gears none : Outcome) = (.ok (), state) ∧
    state.graph = some final ∧
    .member .method "Gear" "box_open" ∈ items ⟨final, Options.ofSettings "parts" gears.settings⟩ ∧
    .member .method "Gear_box" "open" ∈ items ⟨final, Options.ofSettings "parts" gears.settings⟩ := by
  have evaluated : (Graph.ofManifest gears >>= fun built => (built.1.finalize true).2 >>= fun _ =>
      interfaceSteps ⟨(built.1.finalize true).1, Options.ofSettings "parts" gears.settings⟩ >>= fun _ =>
      implementationSteps ⟨(built.1.finalize true).1, Options.ofSettings "parts" gears.settings⟩ >>= fun _ =>
      let listed := items ⟨(built.1.finalize true).1, Options.ofSettings "parts" gears.settings⟩
      (.ok (decide (.member .method "Gear" "box_open" ∈ listed ∧ .member .method "Gear_box" "open" ∈ listed)) :
        Except Fault Bool)) = .ok true := by decide +kernel
  obtain ⟨⟨raw, repeats⟩, built, evaluated⟩ := bind_eq_ok.mp evaluated
  obtain ⟨found, finalized, evaluated⟩ := bind_eq_ok.mp evaluated
  obtain ⟨interface, first, evaluated⟩ := bind_eq_ok.mp evaluated
  obtain ⟨implementation, second, evaluated⟩ := bind_eq_ok.mp evaluated
  have both := of_decide_eq_true (Except.ok.inj evaluated)
  have done : raw.finalize true = ((raw.finalize true).1, .ok found) := Prod.ext rfl finalized
  have distinct : gears.Distinct := ⟨by decide, by decide, by decide⟩
  have unnamed : (none : Option String).getD gears.module.name = "parts" := rfl
  obtain ⟨artifacts, rendered⟩ := exists_render_of_steps first second
  obtain ⟨state, success, _⟩ := compile_of_rendered distinct built done (unnamed ▸ rendered)
  exact ⟨state, _, success, graph_of_compile success built done, both⟩

/-- The two methods are defined under one symbol. -/
theorem gears_clash : Manifest.parse "parts.toml" gearsText = .ok gears ∧
    ∃ state final, (({} : Pipeline Id).compile gears none : Outcome) = (.ok (), state) ∧ state.graph = some final ∧
      ∃ item ∈ items ⟨final, Options.ofSettings "parts" gears.settings⟩,
      ∃ other ∈ items ⟨final, Options.ofSettings "parts" gears.settings⟩, item ≠ other ∧
        item.name ⟨final, Options.ofSettings "parts" gears.settings⟩ =
          other.name ⟨final, Options.ofSettings "parts" gears.settings⟩ := by
  obtain ⟨state, final, success, graph, first, second⟩ := compile_gears
  refine ⟨parse_gears, state, final, success, graph, _, first, _, second, by decide, ?_⟩
  exact (Clash.members (by decide) (by decide)).symbol_eq

theorem items_of_gears : ∃ state final artifacts,
    (({} : Pipeline Id).compile gears none : Outcome) = (.ok (), state) ∧ state.graph = some final ∧
    state.artifacts = some artifacts ∧
    DefinesItems ⟨final, Options.ofSettings "parts" gears.settings⟩ artifacts.implementation := by
  obtain ⟨state, _, success, _⟩ := compile_gears
  obtain ⟨final, artifacts, graph, made, defines⟩ := compile_defines_items success
  exact ⟨state, final, artifacts, success, graph, made, defines⟩

end DocWeave
