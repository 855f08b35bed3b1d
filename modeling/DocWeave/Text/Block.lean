import DocWeave.Text.Blank

/-!
Blocks of lines: reindenting them and cutting their blank edges.

Fragments arrive with the indentation that they had in their documentation. `reindent` moves a block
to a column so that output does not depend on it.
-/

namespace DocWeave.Text

/-- The tab width where none is configured. -/
def defaultTabWidth : Nat := 4

/-- The lines of a text, without their line ends. There is always at least one. -/
def lines (cs : List Char) : List (List Char) :=
  cs.splitOn '\n'

/-- Put lines together with a line end between any two. -/
def joinLines (ls : List (List Char)) : List Char :=
  ['\n'].intercalate ls

/-- `n` spaces. -/
def spaces (n : Nat) : List Char :=
  List.replicate n ' '

/-- The number of leading spaces. -/
def indentation (line : List Char) : Nat :=
  (line.takeWhile (· = ' ')).length

/-- Advance every tab to the next multiple of `width`, where the line begins at `column`. -/
def expandTabsFrom (width : Nat) : Nat → List Char → List Char
  | _, [] => []
  | column, c :: cs =>
    if c = '\t' then
      let pad := width - column % width
      spaces pad ++ expandTabsFrom width (column + pad) cs
    else
      c :: expandTabsFrom width (column + 1) cs

/-- Advance every tab of a line to the next tab stop. A width of 0 acts as 1. -/
def expandTabs (tabWidth : Nat) (line : List Char) : List Char :=
  expandTabsFrom (max tabWidth 1) 0 line

/-- The smallest indentation of the lines that are not blank. -/
def commonIndentation (ls : List (List Char)) : Nat :=
  (((ls.filter (!isBlank ·)).map indentation).min?).getD 0

/-- Replace the first `common` characters of a line by `columns` spaces. A blank line becomes empty. -/
def shiftLine (common columns : Nat) (line : List Char) : List Char :=
  if isBlank line then [] else spaces columns ++ trimEnd (line.drop common)

/-- Keep one line of every run of empty lines. -/
def collapseEmpty : List (List Char) → List (List Char)
  | [] :: [] :: ls => collapseEmpty ([] :: ls)
  | l :: ls => l :: collapseEmpty ls
  | [] => []

/-- Move a block to a column.

Tabs are expanded, the smallest indentation of all lines that are not blank becomes `columns` spaces,
trailing white space goes, and a run of blank lines becomes one empty line. -/
def reindent (tabWidth columns : Nat) (cs : List Char) : List Char :=
  let expanded := (lines cs).map (expandTabs tabWidth)
  joinLines (collapseEmpty (expanded.map (shiftLine (commonIndentation expanded) columns)))

/-- Remove up to `columns` leading spaces. -/
def stripColumns (columns : Nat) (line : List Char) : List Char :=
  line.drop (min (indentation line) columns)

/-- Leave out the blank lines at the front. The first line that stays keeps its indentation. -/
def dropBlankLines (cs : List Char) : List Char :=
  joinLines ((lines cs).dropWhile isBlank)

/-- Cut blank lines at the front and white space at the end. -/
def trimBlankEdges (cs : List Char) : List Char :=
  trimEnd (dropBlankLines cs)

end DocWeave.Text
