import DocWeave.Compilation
import DocWeave.Report.Item

/-!
The report on a manifest that is only checked.
-/

namespace DocWeave.Report

structure Check where
  /-- The path of the manifest. -/
  path : String
  errors : List String
  warnings : List String
  infos : List String
  /-- The number of exported classes. -/
  classes : Nat := 0
  /-- The number of exported functions. -/
  functions : Nat := 0
  deriving DecidableEq, Repr

namespace Check

/-- A finding with the place of its entity on a line of its own. -/
def finding (graph : Graph) (diagnostic : Diagnostic) : String :=
  match diagnostic.location with
  | none => diagnostic.message
  | some name =>
    let place := match graph.entity? name with
      | some entity => entity.position.display ++ " (" ++ name ++ ")"
      | none => name
    diagnostic.message ++ "\n  --> " ++ place

/-- The report on a run, which must have a graph. -/
def ofCompilation (path : String) (state : Compilation) : Except Fault Check := do
  let graph ← state.requireGraph "check"
  let findings (severity : Severity) := (state.ofSeverity severity).map (finding graph)
  return { path, errors := findings .error, warnings := findings .warning, infos := findings .info,
           classes := graph.includedClasses.length, functions := graph.includedFunctions.length }

/-- A manifest is valid if there are no errors. -/
def isValid (report : Check) : Bool :=
  report.errors.isEmpty

def items (report : Check) : List Item :=
  let separated := !report.warnings.isEmpty || !report.errors.isEmpty
  report.errors.map (fun message => .warning ("error: " ++ message))
    ++ report.warnings.map (fun message => .warning ("warning: " ++ message))
    ++ report.infos.map (fun message => .block ("info: " ++ message))
    ++ (if separated then [.blank] else [])
    ++ (if report.isValid then
        [.block ("✓ " ++ report.path ++ " is valid"),
          .block ("  exports " ++ toString report.classes ++ " class(es) and "
            ++ toString report.functions ++ " function(s)")]
      else [])

end Check

end DocWeave.Report
