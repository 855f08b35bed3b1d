/-!
The arguments of the command line.

Switches stand in front of the name of a command or behind it, each at most once. A switch with a value has
it in the same argument or in the next one. Behind `--` every argument is a path. The arguments are taken in
one after the other, and the first one that is out of place or asks for help decides.
-/

namespace DocWeave.Command

inductive Key where
  | verbose
  | version
  | help
  | name
  | output
  | dryRun
  | visualize
  deriving DecidableEq, Repr

structure Switch where
  key : Key
  long : String
  short : Option Char := none
  takesValue : Bool := false
  deriving DecidableEq, Repr

/-- The switches that every command has. -/
def sharedSwitches : List Switch :=
  [⟨.verbose, "verbose", some 'v', false⟩, ⟨.help, "help", some 'h', false⟩]

def leadingSwitches : List Switch :=
  ⟨.version, "version", some 'V', false⟩ :: sharedSwitches

def bakeSwitches : List Switch :=
  [⟨.name, "name", some 'n', true⟩, ⟨.output, "output", some 'o', true⟩,
    ⟨.dryRun, "dry-run", none, false⟩, ⟨.visualize, "visualize", none, false⟩] ++ sharedSwitches

inductive Stop where
  | version
  | help
  /-- The arguments are not understood. -/
  | misuse (message : String)
  deriving DecidableEq, Repr

/-- The arguments of a command, taken apart. -/
structure Arguments where
  /-- The switches with their values. The value of a switch without one is empty. -/
  given : List (Key × String) := []
  /-- The path of the manifest. -/
  path : Option String := none
  deriving DecidableEq, Repr

/-- A path must not be empty. -/
def pathOf (given : String) : Except Stop String :=
  if given = "" then .error (.misuse "a path is empty") else .ok given

namespace Arguments

def has (arguments : Arguments) (key : Key) : Bool :=
  (arguments.given.lookup key).isSome

def value? (arguments : Arguments) (key : Key) : Option String :=
  arguments.given.lookup key

/-- Take a switch in. -/
def give (arguments : Arguments) (key : Key) (value : String) : Except Stop Arguments :=
  match key with
  | .version => .error .version
  | .help => .error .help
  | _ =>
    if arguments.has key then .error (.misuse "a switch is given twice")
    else do
      let value ← if key = .output then pathOf value else .ok value
      return { arguments with given := arguments.given ++ [(key, value)] }

/-- Take the path of the manifest in. -/
def givePath (arguments : Arguments) (path : String) : Except Stop Arguments :=
  if arguments.path.isSome then .error (.misuse "more than one manifest is given")
  else (pathOf path).map fun path => { arguments with path := some path }

/-- Take short switches in one argument in. A switch that still lacks its value is returned. -/
def giveShort (switches : List Switch) (arguments : Arguments) :
    List Char → Except Stop (Arguments × Option Key)
  | [] => .ok (arguments, none)
  | c :: cs =>
    match switches.find? (·.short = some c) with
    | none => .error (.misuse ("unexpected switch '-" ++ c.toString ++ "'"))
    | some switch =>
      match switch.takesValue, cs with
      | false, cs => do giveShort switches (← arguments.give switch.key "") cs
      | true, [] => .ok (arguments, some switch.key)
      | true, '=' :: value => (arguments.give switch.key (String.ofList value)).map (·, none)
      | true, value => (arguments.give switch.key (String.ofList value)).map (·, none)

/-- Take a long switch in. A switch that still lacks its value is returned. -/
def giveLong (switches : List Switch) (arguments : Arguments) (cs : List Char) :
    Except Stop (Arguments × Option Key) :=
  let word := String.ofList (cs.takeWhile (· ≠ '='))
  match switches.find? (·.long = word) with
  | none => .error (.misuse ("unexpected switch '--" ++ word ++ "'"))
  | some switch =>
    match switch.takesValue, cs.dropWhile (· ≠ '=') with
    | false, [] => (arguments.give switch.key "").map (·, none)
    | false, _ => .error (.misuse ("'--" ++ word ++ "' takes no value"))
    | true, [] => .ok (arguments, some switch.key)
    | true, _ :: value => (arguments.give switch.key (String.ofList value)).map (·, none)

/-- Whether an argument is a switch. A single hyphen is none. -/
def isSwitch (argument : String) : Bool :=
  argument.startsWith "-" && argument ≠ "-"

/-- Take arguments apart. A switch that `waiting` names takes the next argument as its value. -/
def scan (switches : List Switch) : (waiting : Option Key) → Arguments → List String →
    Except Stop Arguments
  | none, arguments, [] => .ok arguments
  | some _, _, [] => .error (.misuse "a value is missing")
  | some key, arguments, argument :: rest =>
    if isSwitch argument then .error (.misuse "a value is missing")
    else do scan switches none (← arguments.give key argument) rest
  | none, arguments, argument :: rest =>
    match argument.toList with
    | ['-', '-'] => rest.foldlM givePath arguments
    | '-' :: '-' :: cs => do
      let (next, waiting) ← arguments.giveLong switches cs
      scan switches waiting next rest
    | ['-'] => do scan switches none (← arguments.givePath argument) rest
    | '-' :: cs => do
      let (next, waiting) ← arguments.giveShort switches cs
      scan switches waiting next rest
    | _ => do scan switches none (← arguments.givePath argument) rest

end Arguments

/-- The choices of the command that generates files. -/
structure BakeOptions where
  /-- The path of the manifest. -/
  path : String
  /-- The base name of the files. -/
  name : Option String := none
  /-- The directory of the files. -/
  output : Option String := none
  /-- Show the files and write none. -/
  dryRun : Bool := false
  /-- Write a snapshot after each phase. -/
  visualize : Bool := false
  deriving DecidableEq, Repr

inductive Task where
  | bake (options : BakeOptions)
  | check (path : String)
  | info (path : String)
  deriving DecidableEq, Repr

structure Invocation where
  task : Task
  /-- Tell about the phases. -/
  verbose : Bool
  deriving DecidableEq, Repr

/-- The path of a manifest if none is given. -/
def defaultPath : String := "quill.toml"

def manifestPath (arguments : Arguments) : String :=
  arguments.path.getD defaultPath

def bakeOptions (arguments : Arguments) : BakeOptions :=
  { path := manifestPath arguments, name := arguments.value? .name, output := arguments.value? .output,
    dryRun := arguments.has .dryRun, visualize := arguments.has .visualize }

/-- The names of the commands. -/
def commandNames : List String :=
  ["bake", "check", "info", "help"]

/-- What the command for help ends with. It takes the name of one command at most, and no switches. -/
def helpOn : List String → Stop
  | [] => .help
  | [command] =>
    if commandNames.contains command then .help else .misuse ("unknown command '" ++ command ++ "'")
  | _ => .misuse "help is for one command"

/-- The task of a command, and whether it is to be told about. -/
def taskOf (command : String) (given : List String) : Except Stop (Task × Bool) := do
  match command with
  | "bake" =>
    let arguments ← Arguments.scan bakeSwitches none {} given
    return (.bake (bakeOptions arguments), arguments.has .verbose)
  | "check" =>
    let arguments ← Arguments.scan sharedSwitches none {} given
    return (.check (manifestPath arguments), arguments.has .verbose)
  | "info" =>
    let arguments ← Arguments.scan sharedSwitches none {} given
    return (.info (manifestPath arguments), arguments.has .verbose)
  | "help" => throw (helpOn given)
  | other => throw (.misuse ("unknown command '" ++ other ++ "'"))

/-- What the arguments of the command line ask for. -/
def Invocation.ofArguments (given : List String) : Except Stop Invocation := do
  let isLeading (argument : String) := Arguments.isSwitch argument && argument ≠ "--"
  let leading ← Arguments.scan leadingSwitches none {} (given.takeWhile isLeading)
  match given.dropWhile isLeading with
  | [] => throw (.misuse "a command is missing")
  | command :: rest =>
    let (task, verbose) ← taskOf command rest
    return { task, verbose := verbose || leading.has .verbose }

end DocWeave.Command
