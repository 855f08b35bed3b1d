import DocWeave.Pipeline
import DocWeave.Proofs.Outcome

/-!
# The phases of a run

Without plugins a run performs its four phases one after the other, up to the first that fails.
-/

namespace DocWeave

namespace Compilation

/-- Perform a phase on the state that the phases before it left, unless they failed. -/
def Outcome.andThen (outcome : Outcome) (phase : Compilation → Outcome) : Outcome :=
  match outcome with
  | (.ok (), state) => phase state
  | failed => failed

/-- The state before a run whose files are named `outputName`, or after the module. -/
def start (manifest : Manifest) (outputName : Option String) : Compilation :=
  { ofManifest manifest with outputName := outputName.getD manifest.module.name }

end Compilation

open Compilation

theorem bind_eq_andThen (first next : Action Id) (state : Compilation) :
    ((first >>= fun _ => next) state : Outcome) = Outcome.andThen (first state) next := by
  change (match (first state : Outcome) with
    | (outcome, left) => ExceptT.bindCont (fun _ => next) outcome left) = _
  rcases (first state : Outcome) with ⟨_ | ⟨⟩, left⟩ <;> rfl

theorem run_eq (state : Compilation) :
    (({} : Pipeline Id).run state : Outcome) =
      Outcome.andThen (Compilation.validate Lint.all state) fun checked =>
      Outcome.andThen (parse checked) fun parsed =>
      Outcome.andThen (Compilation.finalize parsed) render := by
  have phases : (({} : Pipeline Id).run : Action Id) =
      (Phase.perform (Compilation.validate Lint.all) >>= fun _ => Phase.perform parse >>= fun _ =>
        Phase.perform Compilation.finalize >>= fun _ => Phase.perform render) := by
    simp [Pipeline.run, Pipeline.phases, Phase.all, Phase.runWith, Phase.validate, Phase.parse, Phase.finalize,
      Phase.render]
  rw [phases, bind_eq_andThen]
  congr 1
  funext checked
  rw [bind_eq_andThen]
  congr 1
  funext parsed
  rw [bind_eq_andThen]
  rfl

theorem andThen_eq_ok {outcome : Outcome} {phase : Compilation → Outcome} {left : Compilation} :
    outcome.andThen phase = (.ok (), left) ↔ ∃ state, outcome = (.ok (), state) ∧ phase state = (.ok (), left) := by
  rcases outcome with ⟨_ | ⟨⟩, state⟩ <;> simp [Outcome.andThen]

theorem andThen_eq_error {outcome : Outcome} {phase : Compilation → Outcome} {fault : Fault}
    {left : Compilation} : outcome.andThen phase = (.error fault, left) ↔
      outcome = (.error fault, left) ∨ ∃ state, outcome = (.ok (), state) ∧ phase state = (.error fault, left) := by
  rcases outcome with ⟨_ | ⟨⟩, state⟩ <;> simp [Outcome.andThen]

/-! ### How a run ends -/

/-- The findings of all lints. -/
def Lint.findings (manifest : Manifest) : List Diagnostic :=
  Lint.all.flatMap (·.check manifest)

/-- A run succeeds with the graph `raw` that was built and with what became of it. -/
structure Completes (manifest : Manifest) (outputName : Option String) (raw final : Graph)
    (repeats found : List Diagnostic) (artifacts : Render.Artifacts) (state : Compilation) : Prop where
  built : Graph.ofManifest manifest = .ok (raw, repeats)
  finalized : raw.finalize manifest.settings.inheritMembers = (final, .ok found)
  rendered : final.render (Render.Options.ofSettings (outputName.getD manifest.module.name) manifest.settings)
    = .ok artifacts
  graph : state.graph = some final
  artifacts : state.artifacts = some artifacts
  diagnostics : state.diagnostics = Lint.findings manifest ++ repeats ++ found

theorem finalized_of_finalize {graph final : Graph} {inheriting : Bool} {found : List Diagnostic}
    (success : graph.finalize inheriting = (final, .ok found)) : final.finalized = true := by
  unfold Graph.finalize at success
  dsimp only at success
  split at success <;> cases success
  rfl

variable {manifest : Manifest} {outputName : Option String} {state checked parsed left : Compilation}
  {fault : Fault}

theorem validate_eq_ok (success : Compilation.validate Lint.all (start manifest outputName) = (.ok (), checked)) :
    checked = (start manifest outputName).report (Lint.findings manifest) := by
  unfold Compilation.validate at success
  dsimp only at success
  split at success <;> cases success
  rfl

theorem validate_eq_error
    (failure : Compilation.validate Lint.all (start manifest outputName) = (.error fault, left)) :
    ∃ errors, fault = .invalid errors := by
  unfold Compilation.validate at failure
  dsimp only at failure
  split at failure <;> cases failure
  exact ⟨_, rfl⟩

theorem parse_eq_ok (success : parse checked = (.ok (), parsed)) :
    ∃ graph found, Graph.ofManifest checked.manifest = .ok (graph, found) ∧
      parsed = { checked.report found with graph := some graph } := by
  unfold parse at success
  split at success <;> cases success
  rename_i graph found built
  exact ⟨graph, found, built, rfl⟩

theorem parse_eq_error (failure : parse checked = (.error fault, left)) :
    Graph.ofManifest checked.manifest = .error fault := by
  unfold parse at failure
  split at failure <;> cases failure
  assumption

theorem finalize_eq_ok {graph : Graph} (given : parsed.graph = some graph)
    (success : Compilation.finalize parsed = (.ok (), left)) :
    ∃ final found, graph.finalize parsed.manifest.settings.inheritMembers = (final, .ok found) ∧
      left = { parsed.report found with graph := some final } := by
  unfold Compilation.finalize requireGraph at success
  rw [given] at success
  dsimp only at success
  split at success <;> cases success
  rename_i final found done
  exact ⟨final, found, done, rfl⟩

theorem finalize_eq_error {graph : Graph} (given : parsed.graph = some graph)
    (failure : Compilation.finalize parsed = (.error fault, left)) :
    (graph.finalize parsed.manifest.settings.inheritMembers).2 = .error fault := by
  unfold Compilation.finalize requireGraph at failure
  rw [given] at failure
  dsimp only at failure
  split at failure <;> cases failure
  rename_i broken
  rw [broken]

theorem rendered_eq {graph : Graph} (given : state.graph = some graph) (ready : graph.finalized = true) :
    state.rendered = graph.render (Render.Options.ofSettings state.outputName state.manifest.settings) := by
  unfold rendered requireGraph
  rw [given]
  simp [bind, Except.bind, ready]

theorem completes_of_compile
    (success : (({} : Pipeline Id).compile manifest outputName : Outcome) = (.ok (), state)) :
    ∃ raw final repeats found artifacts,
      Completes manifest outputName raw final repeats found artifacts state := by
  change (({} : Pipeline Id).run (start manifest outputName) : Outcome) = _ at success
  rw [run_eq] at success
  obtain ⟨checked, validateEnds, success⟩ := andThen_eq_ok.mp success
  obtain ⟨parsed, parseEnds, success⟩ := andThen_eq_ok.mp success
  obtain ⟨finished, finalizeEnds, success⟩ := andThen_eq_ok.mp success
  obtain rfl := validate_eq_ok validateEnds
  obtain ⟨raw, repeats, built, rfl⟩ := parse_eq_ok parseEnds
  obtain ⟨final, found, finalized, rfl⟩ := finalize_eq_ok rfl finalizeEnds
  unfold render at success
  rw [rendered_eq rfl (finalized_of_finalize finalized)] at success
  split at success
  · rename_i artifacts rendered
    cases success
    exact ⟨raw, final, repeats, found, artifacts, built, finalized, rendered, rfl, rfl, rfl⟩
  · cases success

/-- A run fails in one of its phases. -/
theorem compile_eq_error
    (failure : (({} : Pipeline Id).compile manifest outputName : Outcome) = (.error fault, state)) :
    (∃ errors, fault = .invalid errors) ∨ Graph.ofManifest manifest = .error fault ∨
    ∃ raw repeats, Graph.ofManifest manifest = .ok (raw, repeats) ∧
      ((raw.finalize manifest.settings.inheritMembers).2 = .error fault ∨
      ∃ final found, raw.finalize manifest.settings.inheritMembers = (final, .ok found) ∧
        final.render (Render.Options.ofSettings (outputName.getD manifest.module.name) manifest.settings)
          = .error fault) := by
  change (({} : Pipeline Id).run (start manifest outputName) : Outcome) = _ at failure
  rw [run_eq] at failure
  rcases andThen_eq_error.mp failure with failed | ⟨checked, validateEnds, failure⟩
  · exact .inl (validate_eq_error failed)
  obtain rfl := validate_eq_ok validateEnds
  rcases andThen_eq_error.mp failure with failed | ⟨parsed, parseEnds, failure⟩
  · exact .inr (.inl (parse_eq_error failed))
  obtain ⟨raw, repeats, built, rfl⟩ := parse_eq_ok parseEnds
  refine .inr (.inr ⟨raw, repeats, built, ?_⟩)
  rcases andThen_eq_error.mp failure with failed | ⟨finished, finalizeEnds, failure⟩
  · exact .inl (finalize_eq_error rfl failed)
  obtain ⟨final, found, finalized, rfl⟩ := finalize_eq_ok rfl finalizeEnds
  refine .inr ⟨final, found, finalized, ?_⟩
  unfold render at failure
  rw [rendered_eq rfl (finalized_of_finalize finalized)] at failure
  split at failure <;> cases failure
  assumption

end DocWeave
