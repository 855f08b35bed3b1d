import DocWeave.Command.Run

/-!
The program: a command that runs on the files of the system.
-/

namespace DocWeave

/-- The directory above a file, made if it is not there. -/
def makeAbove (path : String) : IO Unit := do
  let directory := Files.Path.directory path
  unless directory.isEmpty do IO.FS.createDirAll directory

/-- The files of the system. -/
def systemFiles : Files IO where
  read path := try return some (← IO.FS.readFile path) catch _ => return none
  write path text :=
    try
      makeAbove path
      IO.FS.writeFile path text
      return true
    catch _ => return false
  absolute path := try return some (← IO.FS.realPath path).toString catch _ => return none

def systemHost (verbose : Bool) : Command.Host IO where
  files := systemFiles
  log message := if verbose then IO.eprintln message else pure ()

end DocWeave

def main (arguments : List String) : IO UInt32 := do
  let exit ← DocWeave.Command.main DocWeave.systemHost arguments
  (← IO.getStdout).putStr exit.output
  (← IO.getStderr).putStr exit.errors
  return exit.code.toUInt32
