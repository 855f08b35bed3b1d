import DocWeave.Extension.Symbols

/-!
The tags that a fragment may use, and what they stand for.
-/

namespace DocWeave.Tag

open DocWeave.Extension

/-- The known tags. -/
inductive Kind where
  | name
  | struct
  | typeStruct
  | new
  | copy
  | isInstance
  | cast
  deriving DecidableEq, Repr

namespace Kind

def all : List Kind :=
  [.name, .struct, .typeStruct, .new, .copy, .isInstance, .cast]

def word : Kind → String
  | .name => "NAME"
  | .struct => "STRUCT"
  | .typeStruct => "TYPE_STRUCT"
  | .new => "NEW"
  | .copy => "COPY"
  | .isInstance => "IS_INSTANCE"
  | .cast => "CAST"

/-- The tag as it is written. -/
def label (kind : Kind) : String :=
  "$" ++ kind.word

/-- The tag of a word, in either case. -/
def ofWord? (word : String) : Option Kind :=
  all.find? (·.word = word.map Char.toUpper)

/-- Whether the first argument is an object. -/
def takesObject : Kind → Bool
  | .copy | .isInstance | .cast => true
  | _ => false

/-- The least number of arguments. -/
def least (kind : Kind) : Nat :=
  if kind.takesObject then 1 else 0

/-- The greatest number of arguments: a class may follow the others. -/
def most (kind : Kind) : Nat :=
  kind.least + 1

/-- The text that the tag stands for, given the names of its class and its object. -/
def expansion (kind : Kind) (symbols : ClassSymbols) (object : String) : String :=
  match kind with
  | .name => symbols.name
  | .struct => symbols.instanceStruct
  | .typeStruct => symbols.typeStruct
  | .new => symbols.newExpr
  | .copy => symbols.copyExpr object
  | .isInstance => symbols.isInstanceExpr object
  | .cast => symbols.castExpr object

end Kind

end DocWeave.Tag
