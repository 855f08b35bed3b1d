import DocWeave.Compilation
import DocWeave.Files.Access
import DocWeave.Report.Item

/-!
The report on generated files.
-/

namespace DocWeave.Report

/-- What became of the generated texts. -/
inductive Generation where
  /-- They are shown under the names of their files. -/
  | preview (files : List (String × String))
  /-- They are in files. Snapshots are in a directory, if they were asked for. -/
  | written (files : List (String × Files.Update)) (snapshots : Option String)
  deriving DecidableEq, Repr

structure Bake where
  module : String
  warnings : List String
  classes : List String
  functions : List String
  generation : Generation
  deriving DecidableEq, Repr

namespace Bake

def ofCompilation (state : Compilation) (generation : Generation) : Bake where
  module := state.manifest.module.name
  warnings := (state.ofSeverity .warning).map Diagnostic.display
  classes := (state.graph.elim [] Graph.includedClasses).map (·.name)
  functions := (state.graph.elim [] Graph.includedFunctions).map (·.name)
  generation := generation

/-- A number with a noun in the right form. -/
def counted (n : Nat) (noun ending : String) : String :=
  toString n ++ " " ++ noun ++ (if n = 1 then "" else ending)

def fileItem : String × Files.Update → Item
  | (path, .written) => .addition path
  | (path, .unchanged) => .bullet (path ++ " (unchanged)")

def items (report : Bake) : List Item :=
  match report.generation with
  | .preview files =>
    (files.flatMap fun (name, content) => [.divider name, .block content])
      ++ [.divider "Summary", .block (toString files.length ++ " files would be generated")]
  | .written files snapshots =>
    (snapshots.elim [] fun directory => [.entry "Pipeline snapshots written to" directory, .blank])
      ++ report.warnings.map .warning
      ++ [.block (report.module ++ ": " ++ counted report.classes.length "class" "es" ++ ", "
          ++ counted report.functions.length "function" "s"), .blank, .heading "Generated"]
      ++ files.map fileItem

end Bake

end DocWeave.Report
