import DocWeave.Proofs.Template.Reading
import DocWeave.Proofs.Text.Tidy

/-!
# Values in their columns

A value of several lines is moved to the column that the output has reached. Behind spaces only, its lines are those
of the moved value, whatever has been put before.
-/

namespace DocWeave.Template

open DocWeave.Text

variable (tabWidth : Nat)

/-- Spaces in the output make up for those that the first line of a value loses. -/
theorem lines_append_place {out value : List Char} {front : List (List Char)} (several : '\n' ∈ value)
    (behind : lines out = front ++ [spaces (column out)])
    (opens : ∀ first ∈ (lines value).head?, isBlank first = false) :
    lines (out ++ place tabWidth (column out) value) = front ++ lines (reindent tabWidth (column out) value) := by
  cases split : lines value with
  | nil => exact absurd split (List.splitOn_ne_nil '\n' value)
  | cons first more =>
    obtain ⟨line, rest, own, filled⟩ := exists_block_eq_cons tabWidth split (opens first (by simp [split]))
    have moved : lines (reindent tabWidth (column out) value) =
        (spaces (column out) ++ line) :: rest.map (indentLine (column out)) := by
      rw [lines_reindent, own, List.map_cons, indentLine_of_ne filled]
    have placed := lines_place tabWidth several (column out)
    rw [moved, List.modifyHead_cons, stripColumns_spaces_append] at placed
    rw [lines_append_lines behind placed, moved]

/-- The lines of a value are those of the moved value, but for the spaces in front of the first one. If the output
has these spaces already, then the value is moved as a whole. -/
theorem fill_keeps_columns {values : Values} {template key value : List Char} {before after : List Piece}
    (reads : Reads template (before ++ .field key :: after)) (given : values.find? key = some value)
    (several : '\n' ∈ value) :
    ∃ out inserted rest, fill tabWidth values template = out ++ inserted ++ rest ∧ Fills tabWidth values before out ∧
      lines inserted = (lines (reindent tabWidth (column out) value)).modifyHead (stripColumns (column out)) ∧
      ∀ front, lines out = front ++ [spaces (column out)] → (∀ first ∈ (lines value).head?, isBlank first = false) →
        lines (out ++ inserted) = front ++ lines (reindent tabWidth (column out) value) := by
  have fills : Fills tabWidth values before (fillFrom tabWidth values 0 before) := Fills.none.append before
  have whole : fill tabWidth values template = fillFrom tabWidth values 0 (before ++ .field key :: after) := by
    rw [fill, reads_iff.mp reads]
  rw [fillFrom_append, fillFrom, advance_zero, Piece.fill, given, ← List.append_assoc] at whole
  exact ⟨_, _, _, whole, fills, lines_place tabWidth several _, fun front => lines_append_place tabWidth several⟩

/-- A template with a field behind spaces, and behind a value of two lines. -/
def loop : List Char := "%(head)s\n  %(body)s;".toList

def loopValues : Values := [("head", "a:\n  b"), ("body", "for:\n    c\n  d")]

def loopHead : List Piece := [.field "head".toList, .char '\n', .char ' ', .char ' ']

theorem columns_of_loop :
    Reads loop (loopHead ++ .field "body".toList :: [.char ';']) ∧
    loopValues.find? "body".toList = some "for:\n    c\n  d".toList ∧ '\n' ∈ "for:\n    c\n  d".toList ∧
    ∃ out inserted rest, fill 4 loopValues loop = out ++ inserted ++ rest ∧ Fills 4 loopValues loopHead out ∧
      lines inserted =
        (lines (reindent 4 (column out) "for:\n    c\n  d".toList)).modifyHead (stripColumns (column out)) ∧
      ∀ front, lines out = front ++ [spaces (column out)] →
        (∀ first ∈ (lines "for:\n    c\n  d".toList).head?, isBlank first = false) →
        lines (out ++ inserted) = front ++ lines (reindent 4 (column out) "for:\n    c\n  d".toList) := by
  have reads : Reads loop (loopHead ++ .field "body".toList :: [.char ';']) := reads_iff.mpr (by decide +kernel)
  have given : loopValues.find? "body".toList = some "for:\n    c\n  d".toList := by decide +kernel
  have several : '\n' ∈ "for:\n    c\n  d".toList := by decide
  exact ⟨reads, given, several, fill_keeps_columns 4 reads given several⟩

example : fill 4 loopValues loop = "a:\n  b\n  for:\n      c\n    d;".toList := by
  decide +kernel

end DocWeave.Template
