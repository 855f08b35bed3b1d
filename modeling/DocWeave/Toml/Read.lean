import DocWeave.Toml.Document
import DocWeave.Toml.Quoted

/-!
Reading a document.

The readers take a text and return what they read with the rest, or nothing if the text is not well formed.
-/

namespace DocWeave.Toml

open Quoted

/-- Characters of a key without quotes. -/
def isKeyChar (c : Char) : Bool :=
  c.isAlphanum || c = '_' || c = '-'

def skipSpaces (cs : List Char) : List Char :=
  cs.dropWhile isSpace

def skipComment? : List Char → Option (List Char)
  | '#' :: cs => some (cs.dropWhile fun c => !isControl c)
  | cs => some cs

/-- Skip the rest of a line that holds nothing more than a comment. -/
def endLine? (cs : List Char) : Option (List Char) :=
  match skipComment? (skipSpaces cs) with
  | some [] => some []
  | some ('\n' :: rest) => some rest
  | some ('\r' :: '\n' :: rest) => some rest
  | _ => none

/-- Skip white space, line ends and comments. `comment` tells whether a comment has begun. -/
def skipLines? (comment : Bool) : List Char → Option (List Char)
  | [] => some []
  | '\n' :: cs => skipLines? false cs
  | '\r' :: '\n' :: cs => skipLines? false cs
  | c :: cs =>
    if comment then if isControl c then none else skipLines? true cs
    else if isSpace c then skipLines? false cs
    else if c = '#' then skipLines? true cs
    else some (c :: cs)

/-- Skip what is blank between the parts of a document. -/
def skipBlank? (cs : List Char) : Option (List Char) :=
  skipLines? false cs

def keyPart? (cs : List Char) : Option (String × List Char) :=
  let bare := cs.takeWhile isKeyChar
  if bare.isEmpty then line? cs else some (String.ofList bare, cs.dropWhile isKeyChar)

/-- The number of parts that a key may have. -/
def keyLimit : Nat := 80

/-- Read a key of at most `limit` parts that are joined by dots. -/
def keyParts? : (limit : Nat) → List Char → Option (List String × List Char)
  | 0, _ => none
  | limit + 1, cs => do
    let (part, rest) ← keyPart? (skipSpaces cs)
    match skipSpaces rest with
    | '.' :: rest =>
      let (parts, rest) ← keyParts? limit rest
      return (part :: parts, rest)
    | rest => return ([part], rest)

def key? (cs : List Char) : Option (List String × List Char) :=
  keyParts? keyLimit cs

def equals? : List Char → Option (List Char)
  | '=' :: rest => some rest
  | _ => none

def setKey? (parts : List String) (v : Value) (entries : Node.Entries) : Option Node.Entries :=
  match parts.getLast? with
  | some key => Node.setDotted key v parts.dropLast entries
  | none => none

/-- The number of arrays and inline tables that may stand inside each other. -/
def depthLimit : Nat := 80

mutual

/-- Read a value. `depth` more brackets may be opened. -/
def value? : (fuel depth : Nat) → List Char → Option (Value × List Char)
  | 0, _, _ => none
  | fuel + 1, depth, cs =>
    match cs, depth with
    | '[' :: _, 0 => none
    | '\x7b' :: _, 0 => none
    | '[' :: rest, depth + 1 => do
      let (items, rest) ← items? fuel depth rest
      return (.array items, rest)
    | '\x7b' :: rest, depth + 1 => do
      let (entries, rest) ← pairs? fuel depth [] rest
      return (.table (Node.toEntries entries), rest)
    | cs, _ =>
      match cs.head? with
      | some '"' => (string? cs).map fun (s, rest) => (.string s, rest)
      | some '\'' => (string? cs).map fun (s, rest) => (.string s, rest)
      | _ =>
        let (text, rest) := Scalar.span cs
        (Scalar.value? text).map (·, rest)

/-- Read the items of an array up to its closing bracket. -/
def items? : (fuel depth : Nat) → List Char → Option (List Value × List Char)
  | 0, _, _ => none
  | fuel + 1, depth, cs => do
    match ← skipBlank? cs with
    | ']' :: rest => return ([], rest)
    | start =>
      let (first, rest) ← value? fuel depth start
      match ← skipBlank? rest with
      | ',' :: rest =>
        let (others, rest) ← items? fuel depth rest
        return (first :: others, rest)
      | ']' :: rest => return ([first], rest)
      | _ => none

/-- Read the entries of an inline table up to its closing brace. A key, its sign and its value may be on lines of their
own. -/
def pairs? : (fuel depth : Nat) → Node.Entries → List Char → Option (Node.Entries × List Char)
  | 0, _, _, _ => none
  | fuel + 1, depth, entries, cs => do
    match ← skipBlank? cs with
    | '\x7d' :: rest => return (entries, rest)
    | start =>
      let (parts, rest) ← key? start
      let rest ← equals? (← skipBlank? rest)
      let (v, rest) ← value? fuel depth (← skipBlank? rest)
      let entries ← setKey? parts v entries
      match ← skipBlank? rest with
      | ',' :: rest => pairs? fuel depth entries rest
      | '\x7d' :: rest => return (entries, rest)
      | _ => none

end

def topValue? (cs : List Char) : Option (Value × List Char) :=
  value? (2 * cs.length + 2) depthLimit cs

/-- A document under construction: its entries and the table that is open. -/
structure Draft where
  entries : Node.Entries := []
  current : List String := []

/-- Open what a header names. -/
def Draft.open? (draft : Draft) (element : Bool) (parts : List String) : Option Draft := do
  let key ← parts.getLast?
  let change := if element then Node.openElement key else Node.openTable key
  return ⟨← Node.alter change parts.dropLast draft.entries, parts⟩

def Draft.set? (draft : Draft) (parts : List String) (v : Value) : Option Draft := do
  return { draft with entries := ← Node.alter (setKey? parts v) draft.current draft.entries }

/-- Read a line that is not empty. -/
def line? (draft : Draft) : List Char → Option (Draft × List Char)
  | '[' :: '[' :: cs => do
    let (parts, rest) ← key? cs
    match rest with
    | ']' :: ']' :: rest => return (← draft.open? true parts, ← endLine? rest)
    | _ => none
  | '[' :: cs => do
    let (parts, rest) ← key? cs
    match rest with
    | ']' :: rest => return (← draft.open? false parts, ← endLine? rest)
    | _ => none
  | cs => do
    let (parts, rest) ← key? cs
    let (v, rest) ← topValue? (skipSpaces (← equals? rest))
    return (← draft.set? parts v, ← endLine? rest)

def lines? : (fuel : Nat) → Draft → List Char → Option Draft
  | 0, _, _ => none
  | fuel + 1, draft, cs => do
    match ← skipBlank? cs with
    | [] => return draft
    | start =>
      let (draft, rest) ← line? draft start
      lines? fuel draft rest

/-- Read a document. A byte order mark may stand in front of it. -/
def read? (text : String) : Option Value :=
  let cs := text.toList
  let cs := if cs.head? = some '\uFEFF' then cs.drop 1 else cs
  (lines? (cs.length + 1) {} cs).map fun draft => .table (Node.toEntries draft.entries)

end DocWeave.Toml
