/-!
Findings that do not stop a run.
-/

namespace DocWeave

inductive Severity where
  | error
  | warning
  | info
  deriving DecidableEq, Repr

def Severity.label : Severity → String
  | .error => "error"
  | .warning => "warning"
  | .info => "info"

/-- A finding of a phase, about an entity where there is one. -/
structure Diagnostic where
  severity : Severity
  phase : String
  message : String
  location : Option String := none
  deriving DecidableEq, Repr

/-- The finding in one line. -/
def Diagnostic.display (diagnostic : Diagnostic) : String :=
  let located := match diagnostic.location with
    | some location => " (at " ++ location ++ ")"
    | none => ""
  diagnostic.severity.label ++ ": " ++ diagnostic.message ++ located

end DocWeave
