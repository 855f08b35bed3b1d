import DocWeave.Text.Span

/-!
Finding the entry of a name in the text of a manifest.

A name is written as `name = "..."`, with either quote and with or without the spaces. A search context moves
past the entry of each record that it enters, so that a member is found behind the entry of its class.
-/

namespace DocWeave.Manifest

open DocWeave.Text

/-- The ways to write the beginning of an entry, with the quote that ends it. -/
def entryForms : List (List Char × Char) :=
  [("name = \"".toList, '"'), ("name = '".toList, '\''), ("name=\"".toList, '"'),
    ("name='".toList, '\'')]

/-- The number of bytes in front of the name, if a text begins with an entry of the name. -/
def entryAt? (name : List Char) (cs : List Char) : Option Nat :=
  (entryForms.find? fun form => (form.1 ++ name ++ [form.2]).isPrefixOf cs).map fun form =>
    byteLength form.1

/-- The place of a name in its first entry, where the text begins at byte `start`. -/
def findPlace? (name : List Char) : (start : Nat) → List Char → Option Span
  | _, [] => none
  | start, c :: cs =>
    match entryAt? name (c :: cs) with
    | some skip => some ⟨start + skip, start + skip + byteLength name⟩
    | none => findPlace? name (start + c.utf8Size) cs

/-- A place in the records of a manifest. -/
structure Context where
  /-- The text of the manifest. -/
  text : String
  /-- The name under which the text is shown. -/
  fileName : String
  /-- The names of the records on the way. -/
  path : List String := []
  /-- The byte position at which searches start. -/
  start : Nat := 0
  deriving DecidableEq, Repr

namespace Context

/-- The place of a name in its first entry from here on. There is none if the search starts inside a character. -/
def find? (context : Context) (name : String) : Option Span :=
  (fromByte? context.start context.text.toList).bind fun rest => findPlace? name.toList context.start rest

/-- Enter the record of a name. -/
def enter (context : Context) (name : String) : Context :=
  { context with path := context.path ++ [name],
                 start := ((context.find? name).map Span.stop).getD context.start }

def pathText (context : Context) : String :=
  ".".intercalate context.path

/-- What a kind of record is called here. -/
def describe (context : Context) (kind : String) : String :=
  if context.path.isEmpty then kind else kind ++ " in '" ++ context.pathText ++ "'"

end Context

end DocWeave.Manifest
