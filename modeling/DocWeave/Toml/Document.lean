import DocWeave.Toml.Value

/-!
Building the tables of a document.

A table that a header names is open to keys of its own. A table that only stands on the way to a header, or on
the way to a dotted key, can be extended, but not in the same manner: a header may still name the first, and
more dotted keys may go into the second. Finished values cannot be extended.
-/

namespace DocWeave.Toml

inductive Origin where
  | header
  /-- On the way to a header. -/
  | implied
  /-- On the way to a dotted key. -/
  | dotted
  deriving DecidableEq, Repr

inductive Node where
  | value (v : Value)
  | table (origin : Origin) (entries : List (String × Node))
  /-- An array of tables. The last one is open. -/
  | tables (done : List (List (String × Node))) (last : List (String × Node))

namespace Node

abbrev Entries := List (String × Node)

/-- Replace the entry of a key that is there. -/
def put (entries : Entries) (key : String) (node : Node) : Entries :=
  entries.map fun entry => if entry.1 = key then (key, node) else entry

/-- Go along a path of headers and change the entries at its end. New tables on the way are implied. -/
def alter (change : Entries → Option Entries) : List String → Entries → Option Entries
  | [], entries => change entries
  | key :: path, entries =>
    match entries.lookup key with
    | none => (alter change path []).map fun inner => entries ++ [(key, .table .implied inner)]
    | some (.table origin inner) =>
      (alter change path inner).map fun inner => put entries key (.table origin inner)
    | some (.tables done last) =>
      (alter change path last).map fun last => put entries key (.tables done last)
    | some (.value _) => none

/-- Open a table that a header names. -/
def openTable (key : String) (entries : Entries) : Option Entries :=
  match entries.lookup key with
  | none => some (entries ++ [(key, .table .header [])])
  | some (.table .implied inner) => some (put entries key (.table .header inner))
  | some _ => none

/-- Open another table of an array that a header names. -/
def openElement (key : String) (entries : Entries) : Option Entries :=
  match entries.lookup key with
  | none => some (entries ++ [(key, .tables [] [])])
  | some (.tables done last) => some (put entries key (.tables (done ++ [last]) []))
  | some _ => none

def setNew (key : String) (v : Value) (entries : Entries) : Option Entries :=
  match entries.lookup key with
  | none => some (entries ++ [(key, .value v)])
  | some _ => none

/-- Set a dotted key. The table that gets the value must itself come from dotted keys. -/
def setDotted (key : String) (v : Value) : List String → Entries → Option Entries
  | [], entries => setNew key v entries
  | step :: path, entries =>
    match entries.lookup step with
    | none => (setDotted key v path []).map fun inner => entries ++ [(step, .table .dotted inner)]
    | some (.table .dotted inner) =>
      (setDotted key v path inner).map fun inner => put entries step (.table .dotted inner)
    | some (.table .implied inner) =>
      if path.isEmpty then none
      else (setDotted key v path inner).map fun inner => put entries step (.table .implied inner)
    | some (.tables done last) =>
      if path.isEmpty then none
      else (setDotted key v path last).map fun last => put entries step (.tables done last)
    | some _ => none

mutual

def toValue : Node → Value
  | .value v => v
  | .table _ entries => .table (toEntries entries)
  | .tables done last => .array (toTables done ++ [.table (toEntries last)])

def toEntries : List (String × Node) → List (String × Value)
  | [] => []
  | (key, node) :: rest => (key, toValue node) :: toEntries rest

def toTables : List (List (String × Node)) → List Value
  | [] => []
  | entries :: rest => .table (toEntries entries) :: toTables rest

end

end Node

end DocWeave.Toml
