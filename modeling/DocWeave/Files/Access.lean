/-!
Access to files.
-/

namespace DocWeave

/-- The operations on files that a command needs. -/
structure Files (m : Type → Type) where
  /-- The text of a file, if it can be read. -/
  read : String → m (Option String)
  /-- Write a file and make the directories above it. The answer tells whether that was possible. -/
  write : String → String → m Bool
  /-- The absolute path of a file that exists. -/
  absolute : String → m (Option String)

namespace Files

inductive Update where
  | written
  | unchanged
  deriving DecidableEq, Repr

/-- Write a file unless it has the text already. There is no answer if it cannot be written. -/
def update {m : Type → Type} [Monad m] (files : Files m) (path text : String) : m (Option Update) := do
  if (← files.read path) = some text then
    return some .unchanged
  else
    return if ← files.write path text then some .written else none

end Files

end DocWeave
