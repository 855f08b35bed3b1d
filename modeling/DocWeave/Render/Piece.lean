import DocWeave.Code.Builder
import DocWeave.Code.StructTable
import DocWeave.Entity.Graph
import DocWeave.Extension.Layout
import DocWeave.Extension.Symbols
import DocWeave.Tag.Expansion
import DocWeave.Template
import DocWeave.Text.Quoted

/-!
Pieces of a generated module that classes and the module itself share.
-/

namespace DocWeave.Render

open DocWeave.Code DocWeave.Entity DocWeave.Extension DocWeave.Tag DocWeave.Text

/-- The choices of one rendering. -/
structure Options where
  /-- The base name of the files. -/
  name : String
  stem : String
  indentWidth : Nat
  tabWidth : Nat
  /-- The header that the interface includes. -/
  header : String
  deriving DecidableEq, Repr

/-- A graph that is rendered. -/
structure Context where
  graph : Graph
  options : Options

def Context.symbols (context : Context) : Symbols :=
  ⟨context.options.stem⟩

/-- The classes that tags can refer to. -/
def Context.scope (context : Context) : Scope :=
  ⟨context.symbols, context.graph.exports⟩

/-- Fill a template. -/
def Context.fill (context : Context) (template : String) (values : Template.Values) : String :=
  onString (Template.fill context.options.tabWidth values) template

/-- Replace the tags of a fragment and cut its blank edges. -/
def Context.expand (context : Context) (site : Site) (fragment : Fragment) : Except Fault String :=
  (context.scope.expand site fragment.body).map (onString trimBlankEdges)

def positionLine (position : Position) : Step :=
  .line ("/* " ++ position.display ++ " */")

/-- A description with the indentation of its later lines removed. -/
def cleanDescription (cs : List Char) : List Char :=
  match cs.dropWhile (· ≠ '\n') with
  | [] => trim cs
  | _ :: rest =>
    trim (cs.takeWhile (· ≠ '\n')) ++ '\n' :: trimEnd (reindent defaultTabWidth 0 rest)

/-- A constant that holds a description. -/
def docLine (symbol description : String) : List Step :=
  if description = "" then []
  else
    let spelled := onString (fun cs => quote (cleanDescription cs)) description
    [.line ("static const char " ++ symbol ++ "[] = \"" ++ spelled ++ "\";")]

/-- The constant of a description, or `NULL` without one. -/
def docReference (symbol description : String) : String :=
  if description = "" then "NULL" else symbol

/-- An array of C with a row for each entry, closed by a row of its own. -/
def arrayTable (type symbol : String) (rows : List String) (last : String) : List Step :=
  [.line ("static " ++ type ++ " " ++ symbol ++ "[] ="), .line "\x7b",
    .indented ((rows ++ [last]).map Step.line), .line ("\x7d; /* " ++ symbol ++ " */"), .blank]

/-- A row of a method table. -/
def methodRow (name symbol : String) (convention : Convention) (description : String) : String :=
  "\x7b \"" ++ name ++ "\", reinterpret_cast<PyCFunction>(" ++ symbol ++ "), " ++ convention.flags ++ ", "
    ++ docReference (Symbols.docOf symbol) description ++ " \x7d,"

/-- A table of methods or functions. -/
def methodTable (symbol : String) (rows : List String) : List Step :=
  arrayTable "PyMethodDef" symbol rows "\x7b NULL, NULL, 0, NULL \x7d"

/-- A definition whose body is a fragment. -/
def definition (context : Context) (head : String) (site : Site) (fragment : Fragment) :
    Except Fault (List Step) := do
  let body ← context.expand site fragment
  return [.block head "\x7d" [.text body]]

/-- The place of the fragment of a function or a method. -/
def functionSite (function : Entity.Function) (fragment : Fragment) : Site where
  origin := ⟨function.qualifiedName, fragment.key, function.position, function.doc⟩
  offset := fragment.offset
  defaultClass := function.owner

/-- A function or a method, if it has code. -/
def functionBody (context : Context) (head : String) (function : Entity.Function) :
    Except Fault (List Step) :=
  match function.body? with
  | some fragment => definition context head (functionSite function fragment) fragment
  | none => .ok []

end DocWeave.Render
