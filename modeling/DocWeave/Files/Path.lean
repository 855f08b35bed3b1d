/-!
Paths with `/` between their parts.
-/

namespace DocWeave.Files.Path

/-- Leave out separators and parts that stay in place at the end, but for a leading part. -/
def trimmedReverse : List Char → List Char
  | ['/'] => ['/']
  | '/' :: rest => trimmedReverse rest
  | '.' :: '/' :: rest => if rest.isEmpty then ['/'] else trimmedReverse ('/' :: rest)
  | cs => cs

/-- The directory part of a path. It is empty if the path is only a name. -/
def directory (path : String) : String :=
  String.ofList (trimmedReverse (path.toList.reverse.dropWhile (· ≠ '/'))).reverse

/-- A path inside a directory. A path that begins with `/` stands for itself. -/
def join (directory path : String) : String :=
  if path.startsWith "/" || directory = "" then path
  else if directory.endsWith "/" then directory ++ path
  else directory ++ "/" ++ path

end DocWeave.Files.Path
