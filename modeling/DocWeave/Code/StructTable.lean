/-!
Initializers of C structs whose fields are known, one aligned line per field.
-/

namespace DocWeave.Code

structure Field where
  name : String
  type : String
  deriving DecidableEq, Repr

/-- The types of integers among the fields of a struct. -/
def integerTypes : List String :=
  ["Py_ssize_t", "unsigned long", "unsigned int", "int", "long"]

/-- The value of a field that is not set. -/
def Field.zero (field : Field) : String :=
  if integerTypes.contains field.type then "0" else "NULL"

structure StructTable where
  type : String
  name : String
  fields : List Field
  /-- The storage class in front of the type. -/
  storage : Option String := some "static"
  /-- A line in front of the fields. -/
  head : Option String := none
  /-- Assignments to fields, the latest first. -/
  assigned : List (String × String) := []

namespace StructTable

/-- Give a field a value. A later value replaces an earlier one. -/
def set (table : StructTable) (field value : String) : StructTable :=
  { table with assigned := (field, value) :: table.assigned }

/-- Give several fields their values, in order. -/
def setAll (table : StructTable) (values : List (String × String)) : StructTable :=
  values.foldl (fun table entry => table.set entry.1 entry.2) table

/-- The value of a field: the last one it was given, or else its zero. -/
def value (table : StructTable) (field : Field) : String :=
  (table.assigned.lookup field.name).getD field.zero

/-- Fill a text up with spaces to a number of characters. -/
def pad (width : Nat) (s : String) : String :=
  s.pushn ' ' (width - s.length)

/-- The characters that a name with its comment marks takes at most. -/
def nameWidth (table : StructTable) : Nat :=
  (table.fields.map (·.name.utf8ByteSize)).max?.getD 0 + 6

/-- The characters that a type with its parentheses takes at most. -/
def typeWidth (table : StructTable) : Nat :=
  (table.fields.map (·.type.utf8ByteSize)).max?.getD 0 + 2

def fieldLine (table : StructTable) (field : Field) : String :=
  let name := pad table.nameWidth ("/* " ++ field.name ++ " */")
  let type := pad table.typeWidth ("(" ++ field.type ++ ")")
  "    " ++ name ++ " " ++ type ++ " (" ++ table.value field ++ ")"

/-- Put a comma after every line but the last. -/
def withCommas : List String → List String
  | [] => []
  | [line] => [line]
  | line :: rest => (line ++ ",") :: withCommas rest

def lines (table : StructTable) : List String :=
  let opening := match table.storage with
    | some storage => storage ++ " " ++ table.type ++ " " ++ table.name ++ " ="
    | none => table.type ++ " " ++ table.name ++ " ="
  let head := table.head.toList.map ("    " ++ ·)
  [opening, "\x7b"] ++ head ++ withCommas (table.fields.map table.fieldLine)
    ++ ["\x7d; /* " ++ table.name ++ " */"]

def render (table : StructTable) : String :=
  "\n".intercalate table.lines

end StructTable

end DocWeave.Code
