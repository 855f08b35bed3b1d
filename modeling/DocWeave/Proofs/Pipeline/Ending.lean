import DocWeave.Proofs.Pipeline.Faults
import DocWeave.Proofs.Pipeline.Fragments
import DocWeave.Proofs.Pipeline.Lints
import DocWeave.Report.Check

/-!
# How a run ends

A run on a manifest that is accepted succeeds, or it fails over something that the manifest says. No phase misses
what an earlier one should have left, no name is refused that the lints let pass, and the builders leave every level
that they enter.
-/

namespace DocWeave

open Code Compilation Lint Render Tag Text

/-- The fault is about what a manifest says: its names, a marker, a tag or a reference. -/
def Fault.ConcernsManifest : Fault → Prop
  | .invalid _ | .unsupportedKey .. | .unknownTag .. | .unresolved .. => True
  | .duplicate .. | .phaseOrder .. | .unbalancedIndent | .unwritable _ => False

theorem clean_iff {diagnostics : List Diagnostic} :
    Clean diagnostics ↔ diagnostics.filter (·.severity = .error) = [] := by
  simp [Clean]

variable {manifest : Manifest} {outputName : Option String} {state checked : Compilation} {fault : Fault}

theorem validate_of_clean (clean : Clean (Lint.findings manifest)) :
    Compilation.validate Lint.all (start manifest outputName) =
      (.ok (), (start manifest outputName).report (Lint.findings manifest)) := by
  have clean : ((start manifest outputName).report (Lint.findings manifest)).ofSeverity .error = [] :=
    clean_iff.mp clean
  exact if_pos (congrArg List.isEmpty clean)

theorem clean_of_validate (success : Compilation.validate Lint.all (start manifest outputName) = (.ok (), checked)) :
    Clean (Lint.findings manifest) := by
  unfold Compilation.validate at success
  dsimp only at success
  split at success
  · rename_i clean
    exact clean_iff.mpr (List.isEmpty_iff.mp clean)
  · cases success

/-- The phases behind the lints are only run if these find no error. -/
theorem distinct_of_compile (ends : (({} : Pipeline Id).compile manifest outputName : Outcome) = (.ok (), state)) :
    manifest.Distinct := by
  change (({} : Pipeline Id).run (start manifest outputName) : Outcome) = _ at ends
  rw [run_eq] at ends
  obtain ⟨checked, validateEnds, _⟩ := andThen_eq_ok.mp ends
  exact clean_findings_iff.mp (clean_of_validate validateEnds)

/-- A run without errors among the names is the three phases behind the lints. -/
theorem compile_of_distinct (distinct : manifest.Distinct) :
    (({} : Pipeline Id).compile manifest outputName : Outcome) =
      Outcome.andThen (parse ((start manifest outputName).report (Lint.findings manifest))) fun parsed =>
      Outcome.andThen (Compilation.finalize parsed) render := by
  change (({} : Pipeline Id).run (start manifest outputName) : Outcome) = _
  rw [run_eq, validate_of_clean (clean_findings_iff.mpr distinct)]
  rfl

theorem compile_of_not_distinct (outputName : Option String) (repeated : ¬ manifest.Distinct) :
    ∃ errors, (({} : Pipeline Id).compile manifest outputName : Outcome).1 = .error (.invalid errors) := by
  change ∃ errors, (({} : Pipeline Id).run (start manifest outputName) : Outcome).1 = _
  rw [run_eq]
  rcases outcome : Compilation.validate Lint.all (start manifest outputName) with ⟨_ | ⟨⟩, checked⟩
  · obtain ⟨errors, rfl⟩ := validate_eq_error outcome
    exact ⟨errors, rfl⟩
  · exact absurd (clean_findings_iff.mp (clean_of_validate outcome)) repeated

section Step

variable {raw final : Graph} {repeats found : List Diagnostic} {artifacts : Artifacts}

theorem parse_of_built (built : Graph.ofManifest checked.manifest = .ok (raw, repeats)) :
    parse checked = (.ok (), { checked.report repeats with graph := some raw }) := by
  rw [parse, built]

theorem finalize_of_finalized (given : state.graph = some raw)
    (finalized : raw.finalize state.manifest.settings.inheritMembers = (final, .ok found)) :
    Compilation.finalize state = (.ok (), { state.report found with graph := some final }) := by
  rw [Compilation.finalize, requireGraph, given]
  dsimp only
  rw [finalized]

theorem render_of_rendered (given : state.graph = some final) (ready : final.finalized = true)
    (rendered : final.render (Options.ofSettings state.outputName state.manifest.settings) = .ok artifacts) :
    render state = (.ok (), { state with artifacts := some artifacts }) := by
  rw [render, rendered_eq given ready, rendered]

/-- A graph that is built, finalized and rendered makes a run succeed. -/
theorem compile_of_rendered (distinct : manifest.Distinct) (built : Graph.ofManifest manifest = .ok (raw, repeats))
    (finalized : raw.finalize manifest.settings.inheritMembers = (final, .ok found))
    (rendered : final.render (Options.ofSettings (outputName.getD manifest.module.name) manifest.settings)
      = .ok artifacts) :
    ∃ state, (({} : Pipeline Id).compile manifest outputName : Outcome) = (.ok (), state) ∧
      state.artifacts = some artifacts := by
  rw [compile_of_distinct distinct]
  exact ⟨_, andThen_eq_ok.mpr ⟨_, parse_of_built built, andThen_eq_ok.mpr ⟨_, finalize_of_finalized rfl finalized,
    render_of_rendered rfl (finalized_of_finalize finalized) rendered⟩⟩, rfl⟩

end Step

/-! ### Runs that fail -/

theorem concernsManifest_of_expand {scope : Scope} {site : Site} {body : String}
    (failure : scope.expand site body = .error fault) : fault.ConcernsManifest := by
  unfold Scope.expand at failure
  split at failure
  · cases failure
    trivial
  · obtain ⟨name, inner, span, _, causes⟩ := exists_tag_of_expandTokens (map_eq_error.mp failure)
    cases causes <;> trivial

/-- The lints refuse every name that the graph would refuse, so no name is taken when records are read. -/
theorem concernsManifest_of_compile {fileName text : String} (accepted : Manifest.parse fileName text = .ok manifest)
    (failure : (({} : Pipeline Id).compile manifest outputName : Outcome) = (.error fault, state)) :
    fault.ConcernsManifest := by
  by_cases distinct : manifest.Distinct
  · rcases compile_eq_error failure with ⟨errors, rfl⟩ | unbuilt | ⟨raw, repeats, built, failed⟩
    · trivial
    · rcases Graph.ofManifest_fails unbuilt with ⟨text, _, failed⟩ | ⟨_, again⟩
      · obtain ⟨_, _, _, rfl, _⟩ := Documentation.selects_of_parse_error (Manifest.isWord_of_parse accepted) failed
        trivial
      · exact absurd ⟨distinct.functions, distinct.classes⟩ again
    · rcases failed with failed | ⟨final, found, _, failed⟩
      · have ending := Graph.finalize_finalized (Graph.reads_of_ofManifest built).2.1
          manifest.settings.inheritMembers
        rw [failed] at ending
        generalize (raw.finalize manifest.settings.inheritMembers).1 = left at ending
        cases ending <;> trivial
      · obtain ⟨_, _, _, unexpanded⟩ := render_eq_error failed
        exact concernsManifest_of_expand unexpanded
  · obtain ⟨errors, refused⟩ := compile_of_not_distinct outputName distinct
    rw [failure] at refused
    cases refused
    trivial

/-! ### Runs that succeed -/

/-- The steps are performed without a fault, add this text, and leave every level that they enter. -/
def Builds (options : Options) (steps : List Step) (text : String) : Prop :=
  ∃ builder, Step.runAll steps { indent := { width := options.indentWidth }, tabWidth := options.tabWidth } =
    (builder, none) ∧ builder.indent.depth = 0 ∧ builder.text = text

theorem builds_page {options : Options} {steps : List Step} (regular : Step.AllRegular steps) :
    Builds options steps (page options steps) := by
  refine ⟨_, Step.runAll_eq_append regular _, rfl, ?_⟩
  simp [page, Builder.append]

/-- A run succeeds with a finalized graph and its texts, and without errors. -/
structure Finishes (manifest : Manifest) (name : String) (final : Graph) (artifacts : Artifacts)
    (state : Compilation) : Prop where
  graph : state.graph = some final
  finalized : final.finalized = true
  rendered : state.artifacts = some artifacts
  named : artifacts.name = name
  clean : state.ofSeverity .error = []
  /-- The report on a run that is only a check is made, and valid. -/
  valid : ∀ path, ∃ report, Report.Check.ofCompilation path state = .ok report ∧ report.isValid = true
  /-- No ancestor is missing where the graph is looked up. -/
  ancestors : ∀ self ∈ final.classes, ∀ name ∈ self.lineage, (final.class? name).isSome = true
  interface : ∃ steps, interfaceSteps ⟨final, Options.ofSettings name manifest.settings⟩ = .ok steps ∧
    Builds (Options.ofSettings name manifest.settings) steps artifacts.interface
  implementation : ∃ steps, implementationSteps ⟨final, Options.ofSettings name manifest.settings⟩ = .ok steps ∧
    Builds (Options.ofSettings name manifest.settings) steps artifacts.implementation

theorem ancestor_known {graph : Graph} (distinct : graph.Distinct) {inheriting : Bool} {final : Graph}
    {found : List Diagnostic} (success : graph.finalize inheriting = (final, .ok found)) {self : Entity.Class}
    (member : self ∈ final.classes) {name : String} (above : name ∈ self.lineage) :
    (final.class? name).isSome = true := by
  have ending := Graph.finalize_finalized distinct inheriting
  rw [success] at ending
  cases ending with
  | @done lineages complete acyclic known =>
    have names := Graph.map_finalWith_classes (·.name) graph (by simp) inheriting lineages
    have path := ((Graph.storedLineage_finalWith distinct inheriting known member).mem_iff name).mp above
    have own : self.name ∈ graph.classes.map (·.name) := by
      have listed : self.name ∈ (graph.finalWith inheriting lineages).classes.map (·.name) :=
        List.mem_map_of_mem member
      rwa [names] at listed
    rw [Graph.base_finalWith] at path
    have listed : name ∈ (graph.finalWith inheriting lineages).classes.map (·.name) := by
      rw [names]
      exact Graph.above_known complete own path
    rw [Option.isSome_iff_ne_none]
    exact fun missing => Graph.class?_eq_none.mp missing listed

theorem finishes_of_compile (success : (({} : Pipeline Id).compile manifest outputName : Outcome) = (.ok (), state)) :
    ∃ final artifacts, Finishes manifest (outputName.getD manifest.module.name) final artifacts state := by
  obtain ⟨raw, final, repeats, found, artifacts, completes⟩ := completes_of_compile success
  obtain ⟨interface, implementation, nested, interfaceMade, implementationMade, inner, same, rfl⟩ :=
    render_eq_ok completes.rendered
  have clean : Clean state.diagnostics := by
    obtain ⟨_, _, _, rfl⟩ := Graph.finalWith_of_finalize completes.distinct completes.finalized
    rw [completes.diagnostics, clean_append, clean_append]
    exact ⟨⟨clean_findings_iff.mpr (distinct_of_compile success), Graph.clean_of_ofManifest completes.built⟩,
      Graph.clean_findings final⟩
  have errorless : state.ofSeverity .error = [] := clean_iff.mp clean
  refine ⟨final, _, completes.graph, finalized_of_finalize completes.finalized, completes.artifacts, rfl, errorless,
    ?_, ?_, ⟨interface, interfaceMade, builds_page (regular_interfaceSteps interfaceMade)⟩,
    ⟨implementation, implementationMade, ?_⟩⟩
  · intro path
    refine ⟨_, bind_eq_ok.mpr ⟨final, ?_, rfl⟩, ?_⟩
    · rw [requireGraph, completes.graph]
    · simp [Report.Check.isValid, errorless]
  · intro self member name above
    exact ancestor_known completes.distinct completes.finalized member above
  · rw [Builds, same]
    exact builds_page inner.regular

/-- A run on an accepted manifest fails over what the manifest says, or succeeds with everything that it should leave.
In every documentation text the markers are found one after the other. -/
theorem compile_ends_well {fileName text : String} (accepted : Manifest.parse fileName text = .ok manifest)
    (outputName : Option String) :
    (∀ documented ∈ (Graph.reader manifest).documented manifest,
      Marker.Reads manifest.settings.marker.toList 0 documented.2.toList
        (Marker.all manifest.settings.marker documented.2.toList)) ∧
    ((∃ fault state, (({} : Pipeline Id).compile manifest outputName : Outcome) = (.error fault, state) ∧
      fault.ConcernsManifest) ∨
    ∃ state final artifacts, (({} : Pipeline Id).compile manifest outputName : Outcome) = (.ok (), state) ∧
      Finishes manifest (outputName.getD manifest.module.name) final artifacts state) := by
  constructor
  · intro documented _
    exact Documentation.reads_all (Manifest.isWord_of_parse accepted) documented.2.toList
  · rcases ends : (({} : Pipeline Id).compile manifest outputName : Outcome) with ⟨fault | ⟨⟩, state⟩
    · exact .inl ⟨fault, state, rfl, concernsManifest_of_compile accepted ends⟩
    · obtain ⟨final, artifacts, finishes⟩ := finishes_of_compile ends
      exact .inr ⟨state, final, artifacts, rfl, finishes⟩

/-- A class with a field. -/
def formsText : String :=
  "[module]\nname = \"forms\"\n[[classes]]\nname = \"Form\"\ndoc = \"_CPP_: int size;\""

def forms : Manifest where
  module := { name := "forms" }
  classes := [{ name := "Form", doc := "_CPP_: int size;" }]

theorem ending_of_forms :
    Manifest.parse "forms.toml" formsText = .ok forms ∧
    ∃ state final artifacts, (({} : Pipeline Id).compile forms (some "plane") : Outcome) = (.ok (), state) ∧
      Finishes forms "plane" final artifacts state := by
  have accepted : Manifest.parse "forms.toml" formsText = .ok forms := by decide +kernel
  have success : (({} : Pipeline Id).compile forms (some "plane")).1 = .ok () := by decide +kernel
  refine ⟨accepted, ?_⟩
  rcases (compile_ends_well accepted (some "plane")).2 with ⟨fault, state, failure, _⟩ | finishes
  · rw [failure] at success
    cases success
  · exact finishes

end DocWeave
