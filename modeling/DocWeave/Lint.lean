import DocWeave.Entity.OfManifest

/-!
Checks of a manifest that run before its documentation is taken apart.

A lint only finds; whether a finding stops the run is decided by its severity.
-/

namespace DocWeave

/-- A check of the records of a manifest. -/
structure Lint where
  name : String
  description : String
  check : Manifest → List Diagnostic

namespace Lint

/-- The phase to which the findings of a lint belong. -/
def phase : String := "validate"

/-- An entry of a list that is in it before. Places count from one. -/
structure Repeat where
  name : String
  place : Nat
  first : Nat
  deriving DecidableEq, Repr

/-- The entries of a list that are in it before, each with its first place. -/
def repeats (names : List String) : List Repeat :=
  names.zipIdx.filterMap fun (name, index) =>
    let first := names.idxOf name
    if first < index then some ⟨name, index + 1, first + 1⟩ else none

/-- Report the names that a list repeats. -/
def reportRepeats (kind : String) (qualify : String → String) (names : List String) : List Diagnostic :=
  (repeats names).map fun found =>
    { severity := .error, phase, location := some (qualify found.name),
      message := "duplicate " ++ kind ++ " '" ++ qualify found.name ++ "' (record " ++ toString found.place
        ++ " repeats record " ++ toString found.first ++ ")" }

/-- Report the members of a class that have the same name. Methods and properties share their names. -/
def reportMembers (record : Manifest.ClassRecord) : List Diagnostic :=
  reportRepeats "member" (Entity.Reader.memberName record.name)
    (record.methods.map (·.name) ++ record.properties.map (·.name))

/-- Names must be unique. -/
def duplicateEntity : Lint where
  name := "duplicate-entity"
  description := "Detect duplicate function, class and member names"
  check manifest :=
    reportRepeats "function" id (manifest.functions.map (·.name))
      ++ reportRepeats "class" id (manifest.classes.map (·.name))
      ++ manifest.classes.flatMap reportMembers

/-- Report a fragment that holds no code. -/
def reportEmpty (subject : Documentation.Subject) (fragment : Fragment) : Diagnostic where
  severity := .warning
  phase := phase
  message := subject.kind.label ++ " '" ++ subject.name ++ "' has an empty " ++ fragment.key.label
    ++ " fragment"
  location := some subject.name

/-- The fragments of a documentation text that hold no code. A text with a fault has none. -/
def emptyFragments (reader : Entity.Reader) (subject : Documentation.Subject) (doc : String) :
    List Fragment :=
  match Documentation.parse reader.marker subject doc with
  | .ok documentation => documentation.fragments.filter (·.isEmpty)
  | .error _ => []

/-- A fragment should hold code. -/
def emptyFragment : Lint where
  name := "empty-fragment"
  description := "Warn about fragment markers with an empty body"
  check manifest :=
    let reader := Graph.reader manifest
    (reader.documented manifest).flatMap fun (subject, doc) =>
      (emptyFragments reader subject doc).map (reportEmpty subject)

/-- Every lint, in the order in which they run. -/
def all : List Lint :=
  [duplicateEntity, emptyFragment]

end Lint

end DocWeave
