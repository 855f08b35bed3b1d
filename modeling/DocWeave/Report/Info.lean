import DocWeave.Pipeline
import DocWeave.Report.Item
import DocWeave.Text.Span

/-!
The report on what a manifest exports.
-/

namespace DocWeave.Report

/-- An entity in the report. -/
structure EntityLine where
  name : String
  kind : String
  /-- The keys of its fragments. -/
  keys : String
  included : Bool
  /-- The levels of indentation. Members stand below their class. -/
  depth : Nat := 0
  deriving DecidableEq, Repr

/-- A name and what it stands for. -/
abbrev Explained := String × String

structure Info where
  module : String
  description : String
  /-- The path of the manifest. -/
  path : String
  marker : String
  stem : String
  functions : List EntityLine
  classes : List EntityLine
  phases : List Explained
  lints : List Explained
  deriving DecidableEq, Repr

/-- A text with spaces behind it up to a width. -/
def padded (width : Nat) (s : String) : String :=
  s ++ String.ofList (List.replicate (width - s.length) ' ')

namespace EntityLine

def ofEntity (depth : Nat) (entity : Entity) : EntityLine where
  name := entity.qualifiedName
  kind := entity.kind.label
  keys := ", ".intercalate (entity.fragments.map (·.key.label))
  included := entity.included
  depth := depth

def display (line : EntityLine) : String :=
  let indent := String.join (List.replicate line.depth "  ")
  let status := if line.included then "+ " else "- "
  let keys := if line.keys = "" then "" else " [" ++ line.keys ++ "]"
  "  " ++ indent ++ status ++ line.name ++ " (" ++ line.kind ++ ")" ++ keys

end EntityLine

namespace Info

/-- The line of a class and those of its members. -/
def classLines (self : Entity.Class) : List EntityLine :=
  match Graph.withMembers self with
  | [] => []
  | entity :: members => .ofEntity 0 entity :: members.map (.ofEntity 1)

/-- The graph of a manifest, finalized. -/
def finalGraph (manifest : Manifest) : Except Fault Graph := do
  let (graph, _) ← Graph.ofManifest manifest
  let (final, outcome) := graph.finalize manifest.settings.inheritMembers
  outcome.map fun _ => final

/-- The report on a manifest. What is not exported is in it too. -/
def ofManifest (path : String) (manifest : Manifest) : Except Fault Info := do
  let graph ← finalGraph manifest
  let phases : List (Phase Id) := Phase.all
  return { module := manifest.module.name, description := graph.module.description, path,
           marker := manifest.settings.marker, stem := manifest.settings.stem,
           functions := graph.functions.map fun self => .ofEntity 0 (.function self),
           classes := graph.classes.flatMap classLines,
           phases := phases.map fun phase => (phase.name, phase.description),
           lints := Lint.all.map fun lint => (lint.name, lint.description) }

/-- A title with a rule as long as the bytes of the title. -/
def titled (title : String) : List Item :=
  let rule := String.ofList (List.replicate (Text.byteLength title.toList) '─')
  [.block ("  " ++ title), .block ("  " ++ rule)]

/-- The entities of a kind, if there are any. -/
def listed (title : String) (lines : List EntityLine) : List Item :=
  if lines.isEmpty then []
  else titled title ++ lines.map (fun line => .block line.display) ++ [.blank]

def phaseItem (number : Nat) (phase : Explained) : Item :=
  .block ("  " ++ toString number ++ ". " ++ padded 10 phase.1 ++ " " ++ phase.2)

def lintItem (lint : Explained) : Item :=
  .block ("  " ++ padded 18 lint.1 ++ " " ++ lint.2)

def items (report : Info) : List Item :=
  [.blank] ++ titled report.module
    ++ (if report.description = "" then [] else [.block ("  " ++ report.description)])
    ++ [.blank, .block ("  Config      " ++ report.path), .block ("  Marker      " ++ report.marker),
      .block ("  Prefix      " ++ report.stem), .blank]
    ++ listed "Functions" report.functions ++ listed "Classes" report.classes
    ++ titled "Pipeline" ++ report.phases.mapIdx (fun index phase => phaseItem (index + 1) phase)
    ++ [.blank] ++ titled "Lints" ++ report.lints.map lintItem

end Info

end DocWeave.Report
