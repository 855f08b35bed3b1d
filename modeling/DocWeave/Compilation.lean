import DocWeave.Entity.Finalize
import DocWeave.Lint
import DocWeave.Render.Module

/-!
The state of a run from a manifest to the generated texts, and the four phases that change it.

A phase that fails leaves a state too: the findings so far, and the graph as far as it was resolved.
-/

namespace DocWeave

open Render

structure Compilation where
  manifest : Manifest
  /-- The base name of the generated files. -/
  outputName : String
  graph : Option Graph := none
  artifacts : Option Artifacts := none
  diagnostics : List Diagnostic := []

namespace Compilation

/-- The state before a run. The files are named after the module. -/
def ofManifest (manifest : Manifest) : Compilation where
  manifest := manifest
  outputName := manifest.module.name

def report (self : Compilation) (found : List Diagnostic) : Compilation :=
  { self with diagnostics := self.diagnostics ++ found }

def ofSeverity (self : Compilation) (severity : Severity) : List Diagnostic :=
  self.diagnostics.filter (·.severity = severity)

/-- The graph, for a phase that needs one. -/
def requireGraph (self : Compilation) (phase : String) : Except Fault Graph :=
  match self.graph with
  | some graph => .ok graph
  | none => .error (.phaseOrder phase "parse")

def requireArtifacts (self : Compilation) : Except Fault Artifacts :=
  match self.artifacts with
  | some artifacts => .ok artifacts
  | none => .error (.phaseOrder "artifacts" "render")

/-- Take the artifacts out of the state. -/
def takeArtifacts (self : Compilation) : Except Fault (Artifacts × Compilation) :=
  self.requireArtifacts.map fun artifacts => (artifacts, { self with artifacts := none })

/-- How a phase ended, and the state that it left. -/
abbrev Outcome := Except Fault Unit × Compilation

/-- Run lints. Any error stops the run, also one that was found earlier. -/
def validate (lints : List Lint) (self : Compilation) : Outcome :=
  let checked := self.report (lints.flatMap (·.check self.manifest))
  let errors := checked.ofSeverity .error
  if errors.isEmpty then (.ok (), checked) else (.error (.invalid errors), checked)

def parse (self : Compilation) : Outcome :=
  match Graph.ofManifest self.manifest with
  | .ok (graph, found) => (.ok (), { self.report found with graph := some graph })
  | .error fault => (.error fault, self)

def finalize (self : Compilation) : Outcome :=
  match self.requireGraph "finalize" with
  | .error fault => (.error fault, self)
  | .ok graph =>
    match graph.finalize self.manifest.settings.inheritMembers with
    | (final, .ok found) => (.ok (), { self.report found with graph := some final })
    | (left, .error fault) => (.error fault, { self with graph := some left })

/-- The texts of the graph, which must be finalized. -/
def rendered (self : Compilation) : Except Fault Artifacts := do
  let graph ← self.requireGraph "render"
  if graph.finalized then
    graph.render (Options.ofSettings self.outputName self.manifest.settings)
  else
    throw (.phaseOrder "render" "finalize")

def render (self : Compilation) : Outcome :=
  match self.rendered with
  | .ok artifacts => (.ok (), { self with artifacts := some artifacts })
  | .error fault => (.error fault, self)

end Compilation

end DocWeave
