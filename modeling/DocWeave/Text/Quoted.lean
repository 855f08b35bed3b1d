/-!
The inside of a C string literal.

`quote` spells a text in the literal and leaves out carriage returns.
-/

namespace DocWeave.Text

/-- The spelling of one character. -/
def quoteChar (c : Char) : List Char :=
  if c = '\\' then ['\\', '\\']
  else if c = '"' then ['\\', '"']
  else if c = '\n' then ['\\', 'n']
  else if c = '\r' then []
  else if c = '\t' then ['\\', 't']
  else [c]

/-- Spell a text inside a string literal. -/
def quote (cs : List Char) : List Char :=
  cs.flatMap quoteChar

end DocWeave.Text
