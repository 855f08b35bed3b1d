import DocWeave.Text.Block

/-!
JSON texts with two columns for each level.

Lists and records that hold nothing are written in one line, all others with a line for each entry. Text is
written as it is, but for quotes, backslashes and control characters.
-/

namespace DocWeave.Json

open DocWeave.Text

inductive Value where
  | null
  | bool (b : Bool)
  | number (n : Nat)
  | text (s : String)
  | list (items : List Value)
  /-- Entries in the order in which they are written. -/
  | record (entries : List (String × Value))

/-- The two hexadecimal digits of a control character. -/
def controlDigits (c : Char) : List Char :=
  [Nat.digitChar (c.toNat / 16), Nat.digitChar (c.toNat % 16)]

def escape (c : Char) : List Char :=
  match c with
  | '"' => ['\\', '"']
  | '\\' => ['\\', '\\']
  | '\x08' => ['\\', 'b']
  | '\x0c' => ['\\', 'f']
  | '\n' => ['\\', 'n']
  | '\r' => ['\\', 'r']
  | '\t' => ['\\', 't']
  | c => if c.toNat < 0x20 then '\\' :: 'u' :: '0' :: '0' :: controlDigits c else [c]

def quoted (s : String) : String :=
  "\"" ++ String.ofList (s.toList.flatMap escape) ++ "\""

def levelWidth : Nat := 2

/-- The written form of what stands between two brackets, at a level of depth. -/
def enclosed (opening closing : String) (depth : Nat) (entries : List String) : String :=
  let lead (level : Nat) := "\n" ++ String.ofList (spaces (levelWidth * level))
  if entries.isEmpty then opening ++ closing
  else
    opening ++ ",".intercalate (entries.map (lead (depth + 1) ++ ·)) ++ lead depth ++ closing

namespace Value

mutual

/-- The written form of a value at a level of depth. -/
def write (depth : Nat) : Value → String
  | .null => "null"
  | .bool b => if b then "true" else "false"
  | .number n => toString n
  | .text s => quoted s
  | .list items => enclosed "[" "]" depth (writeItems (depth + 1) items)
  | .record entries => enclosed "\x7b" "\x7d" depth (writeEntries (depth + 1) entries)

def writeItems (depth : Nat) : List Value → List String
  | [] => []
  | item :: rest => write depth item :: writeItems depth rest

def writeEntries (depth : Nat) : List (String × Value) → List String
  | [] => []
  | (key, value) :: rest => (quoted key ++ ": " ++ write depth value) :: writeEntries depth rest

end

/-- A text, or null without one. -/
def ofText? (s : Option String) : Value :=
  s.elim .null .text

/-- A number, or null without one. -/
def ofNat? (n : Option Nat) : Value :=
  n.elim .null .number

end Value

end DocWeave.Json
