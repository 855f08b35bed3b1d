import DocWeave.Text.Block
import DocWeave.Text.Word

/-!
Templates with named fields.

A field is written `%(key)s`, and `%%(` stands for a literal `%(`. A value of several lines is moved to
the column at which its field stands, and its first line goes in place. Values are never read again.
-/

namespace DocWeave

open DocWeave.Text

namespace Template

/-- One piece of a template. -/
inductive Piece where
  /-- A character that stands for itself. -/
  | char (c : Char)
  /-- `%%(` -/
  | escape
  /-- `%(key)s` -/
  | field (key : List Char)
  deriving DecidableEq, Repr

/-- How a piece is written. -/
def Piece.written : Piece → List Char
  | .char c => [c]
  | .escape => ['%', '%', '(']
  | .field key => '%' :: '(' :: key ++ [')', 's']

/-- The key of a field whose written form begins with `%(` before `cs`, and what follows the field. -/
def fieldKey? (cs : List Char) : Option (List Char × List Char) :=
  match cs.takeWhile isWordChar, cs.dropWhile isWordChar with
  | c :: key, ')' :: 's' :: rest => some (c :: key, rest)
  | _, _ => none

theorem fieldKey?_eq {cs key rest : List Char} (found : fieldKey? cs = some (key, rest)) :
    cs = key ++ ')' :: 's' :: rest := by
  have whole := List.takeWhile_append_dropWhile (p := isWordChar) (l := cs)
  unfold fieldKey? at found
  split at found
  · rename_i word tail
    cases found
    rw [← whole, word, tail]
  · cases found

theorem length_of_fieldKey? {cs key rest : List Char} (found : fieldKey? cs = some (key, rest)) :
    rest.length < cs.length := by
  rw [fieldKey?_eq found]
  simp only [List.length_append, List.length_cons]
  omega

/-- Split a template into its pieces, from left to right. -/
def pieces : List Char → List Piece
  | [] => []
  | '%' :: '%' :: '(' :: cs => .escape :: pieces cs
  | '%' :: '(' :: cs =>
    match _found : fieldKey? cs with
    | some (key, rest) => .field key :: pieces rest
    | none => .char '%' :: pieces ('(' :: cs)
  | c :: cs => .char c :: pieces cs
  termination_by cs => cs.length
  decreasing_by
    all_goals try simp only [List.length_cons]
    all_goals try have := length_of_fieldKey? _found
    all_goals omega

/-- The column reached by writing a text from a column: the number of characters since the last line end. -/
def advance (column : Nat) (cs : List Char) : Nat :=
  cs.foldl (fun column c => if c = '\n' then 0 else column + 1) column

/-- The text that a value puts at a column. -/
def place (tabWidth column : Nat) (value : List Char) : List Char :=
  if value.contains '\n' then
    match lines (reindent tabWidth column value) with
    | [] => []
    | first :: rest => joinLines (stripColumns column first :: rest)
  else
    trim value

/-- Values by key. The first entry of a key counts. -/
abbrev Values := List (String × String)

/-- The value of a key. -/
def Values.find? (values : Values) (key : List Char) : Option (List Char) :=
  (values.lookup (String.ofList key)).map String.toList

/-- The text of a piece that is written from a column. A field without a value stays as it is. -/
def Piece.fill (tabWidth : Nat) (values : Values) (column : Nat) : Piece → List Char
  | .char c => [c]
  | .escape => ['%', '(']
  | .field key =>
    match values.find? key with
    | some value => place tabWidth column value
    | none => Piece.written (.field key)

/-- The text of pieces that are written from a column. -/
def fillFrom (tabWidth : Nat) (values : Values) (column : Nat) : List Piece → List Char
  | [] => []
  | piece :: rest =>
    let text := piece.fill tabWidth values column
    text ++ fillFrom tabWidth values (advance column text) rest

/-- Fill the fields of a template. -/
def fill (tabWidth : Nat) (values : Values) (template : List Char) : List Char :=
  fillFrom tabWidth values 0 (pieces template)

end Template

end DocWeave
