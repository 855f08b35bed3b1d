import DocWeave.Command.Arguments
import DocWeave.Files.Path
import DocWeave.Manifest.Check
import DocWeave.Report.Bake
import DocWeave.Report.Check
import DocWeave.Report.Info
import DocWeave.Snapshot.Json

/-!
Running a command.

What a command says is a report; it is told only when the command has done its work. Files are reached
through the operations of a host, so a command can run on a file tree in memory too.
-/

namespace DocWeave.Command

open DocWeave.Files DocWeave.Report

inductive Problem where
  | unreadable (path : String)
  | invalid (refusal : Manifest.Refusal)
  | stopped (fault : Fault)
  deriving DecidableEq, Repr

namespace Problem

def message : Problem → String
  | .unreadable path => "failed to read '" ++ path ++ "'"
  | .invalid refusal => refusal.message
  | .stopped fault => fault.message

def help? : Problem → Option String
  | .unreadable _ => none
  | .invalid refusal => refusal.help?
  | .stopped fault => fault.help?

end Problem

/-- What a command uses outside of itself. -/
structure Host (m : Type → Type) where
  files : Files m
  /-- Tell what is being done. -/
  log : String → m Unit

/-- The report of a command, and whether it found everything in order. -/
structure Ending where
  items : List Item
  success : Bool := true

variable {m : Type → Type} [Monad m]

/-- Read a manifest from a file. -/
def openManifest (host : Host m) (path : String) : ExceptT Problem m Manifest := do
  match ← host.files.read path with
  | none => throw (.unreadable path)
  | some text =>
    match Manifest.parse path text with
    | .ok manifest => return manifest
    | .error refusal => throw (.invalid refusal)

/-- Tell about each phase before it runs. -/
def logging (host : Host m) : Plugin m where
  before phase := do host.log ("running phase " ++ phase)
  after _ := pure ()

/-- Write a snapshot into a directory after each phase. -/
def snapshotFiles (host : Host m) (directory : String) : Plugin m :=
  Snapshot.plugin fun snapshot => do
    let path := Path.join directory (snapshot.phase ++ ".json")
    if ← host.files.write path snapshot.toText then
      return
    else
      throw (.unwritable path)

def compile (host : Host m) (plugins : List (Plugin m)) (manifest : Manifest)
    (outputName : Option String) : ExceptT Problem m Compilation := do
  let pipeline : Pipeline m := { plugins := logging host :: plugins }
  match ← pipeline.compile manifest outputName with
  | (.ok _, state) => return state
  | (.error fault, _) => throw (.stopped fault)

/-- Write files into a directory unless they have their text already. -/
def updateFiles (host : Host m) (directory : String) :
    List (String × String) → ExceptT Problem m (List (String × Update))
  | [] => return []
  | (name, content) :: rest => do
    let path := Path.join directory name
    match ← host.files.update path content with
    | some update => return (path, update) :: (← updateFiles host directory rest)
    | none => throw (.stopped (.unwritable path))

/-- The directory of snapshots below the directory of the generated files. -/
def snapshotDirectory (directory : String) : String :=
  Path.join directory ".quill/debug"

/-- Generate the files of a manifest. -/
def bake (host : Host m) (options : BakeOptions) : ExceptT Problem m Ending := do
  let manifest ← openManifest host options.path
  let directory := options.output.getD (Path.directory options.path)
  let snapshots := if options.visualize then some (snapshotDirectory directory) else none
  let state ← compile host (snapshots.map (snapshotFiles host)).toList manifest options.name
  match state.requireArtifacts with
  | .error fault => throw (.stopped fault)
  | .ok artifacts =>
    let generation ←
      if options.dryRun then pure (Generation.preview artifacts.files)
      else pure (Generation.written (← updateFiles host directory artifacts.files) snapshots)
    return { items := (Bake.ofCompilation state generation).items }

def check (host : Host m) (path : String) : ExceptT Problem m Ending := do
  let state ← compile host [] (← openManifest host path) none
  match Check.ofCompilation path state with
  | .ok report => return { items := report.items, success := report.isValid }
  | .error fault => throw (.stopped fault)

/-- Tell what a manifest exports. -/
def info (host : Host m) (path : String) : ExceptT Problem m Ending := do
  let manifest ← openManifest host path
  let shown := (← host.files.absolute path).getD path
  match Info.ofManifest shown manifest with
  | .ok report => return { items := report.items }
  | .error fault => throw (.stopped fault)

def run (host : Host m) : Task → ExceptT Problem m Ending
  | .bake options => bake host options
  | .check path => check host path
  | .info path => info host path

/-- What the process leaves. -/
structure Exit where
  code : Nat
  output : String := ""
  errors : String := ""
  deriving DecidableEq, Repr

def versionText : String := "quill 0.1.0\n"

def helpText : String :=
  "Usage: quill [-v] <COMMAND>

Commands:
  bake [MANIFEST] [-n NAME] [-o DIRECTORY] [--dry-run] [--visualize]
  check [MANIFEST]
  info [MANIFEST]
"

def Problem.text (problem : Problem) : String :=
  "Error: " ++ problem.message ++ "\n" ++ problem.help?.elim "" fun help => "  help: " ++ help ++ "\n"

def Stop.exit : Stop → Exit
  | .version => { code := 0, output := versionText }
  | .help => { code := 0, output := helpText }
  | .misuse message => { code := 2, errors := "error: " ++ message ++ "\n\n" ++ helpText }

/-- Run the command line. -/
def main (host : (verbose : Bool) → Host m) (given : List String) : m Exit := do
  match Invocation.ofArguments given with
  | .error stop => return stop.exit
  | .ok invocation =>
    match ← (run (host invocation.verbose) invocation.task).run with
    | .error problem => return { code := 1, errors := problem.text }
    | .ok ending =>
      return { code := if ending.success then 0 else 1, output := outputText ending.items,
               errors := errorText ending.items }

end DocWeave.Command
