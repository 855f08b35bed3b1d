import DocWeave.Files.Access
import DocWeave.Files.Path

/-!
A file tree in memory.

Places are lists of names, from the root of the tree down. The root is a directory, and nothing lies above it.
Names and paths have a greatest length, and longer ones lead nowhere.
-/

namespace DocWeave.Files

abbrev Place := List String

inductive Node where
  | directory
  | file (text : String)
  deriving DecidableEq, Repr

structure Tree where
  entries : List (Place × Node) := []
  deriving DecidableEq, Repr

namespace Tree

def node? (tree : Tree) (place : Place) : Option Node :=
  if place.isEmpty then some .directory else tree.entries.lookup place

def isDirectory (tree : Tree) (place : Place) : Bool :=
  tree.node? place = some .directory

def put (tree : Tree) (place : Place) (node : Node) : Tree :=
  ⟨(place, node) :: tree.entries.filter (·.1 ≠ place)⟩

/-- The greatest length of a name, in bytes. -/
def nameLimit : Nat := 255

/-- The greatest length of a path, in bytes. -/
def pathLimit : Nat := 4095

/-- The parts of a path inside the tree. -/
def parts? (path : String) : Option (List String) :=
  if path.startsWith "/" || pathLimit < path.utf8ByteSize then none else some (path.splitOn "/")

/-- Where a part of a path leads from a place. -/
def move? (place : Place) (part : String) : Option Place :=
  if part = "" || part = "." then some place
  else if part = ".." then (if place.isEmpty then none else some place.dropLast)
  else if nameLimit < part.utf8ByteSize then none
  else some (place ++ [part])

/-- Where the parts of a path lead. Whatever a part is looked up in must be a directory. -/
def follow? (tree : Tree) (place : Place) (parts : List String) : Option Place :=
  parts.foldlM (fun place part => if tree.isDirectory place then move? place part else none) place

/-- Follow the parts of a path and make the directories that are not there. Those stay even if a later part leads
nowhere. -/
def makeDirectories (tree : Tree) (place : Place) : List String → Tree × Option Place
  | [] => (tree, some place)
  | part :: rest =>
    match move? place part with
    | none => (tree, none)
    | some next =>
      match tree.node? next with
      | some .directory => makeDirectories tree next rest
      | some (.file _) => (tree, none)
      | none => makeDirectories (tree.put next .directory) next rest

/-- The place of a path, if something is there. -/
def find? (tree : Tree) (path : String) : Option (Place × Node) := do
  let place ← tree.follow? [] (← parts? path)
  return (place, ← tree.node? place)

def read? (tree : Tree) (path : String) : Option String :=
  match tree.find? path with
  | some (_, .file text) => some text
  | _ => none

/-- The place of a file below a directory that is there. -/
def filePlace? (tree : Tree) (above : Place) (path : String) : Option Place := do
  let place ← move? above (← (← parts? path).getLast?)
  if tree.isDirectory place then none else some place

/-- Write a file, after making the directories above it. The answer tells whether that was possible. -/
def write (tree : Tree) (path text : String) : Tree × Bool :=
  match parts? (Path.directory path) with
  | none => (tree, false)
  | some parts =>
    let (made, above) := tree.makeDirectories [] parts
    match above.bind (made.filePlace? · path) with
    | some place => (made.put place (.file text), true)
    | none => (made, false)

/-- The paths of all files, sorted. -/
def paths (tree : Tree) : List String :=
  let files := tree.entries.filter (·.2 ≠ .directory)
  (files.map fun entry => "/".intercalate entry.1).mergeSort (fun a b => decide (a ≤ b))

/-- Access to the tree. Absolute paths begin with the name of its root. -/
def access (root : String) : Files (StateM Tree) where
  read path := return (← get).read? path
  write path text := modifyGet fun tree => (tree.write path text).swap
  absolute path := return ((← get).find? path).map fun found => "/".intercalate (root :: found.1)

end Tree

end DocWeave.Files
