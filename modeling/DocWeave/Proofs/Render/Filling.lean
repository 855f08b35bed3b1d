import DocWeave.Proofs.Template
import DocWeave.Proofs.Text.Reindent

/-!
# Templates line by line

A template is filled line by line. A block whose field stands behind spaces only comes out behind these spaces.
-/

namespace DocWeave.Template

open DocWeave.Text

variable (tabWidth : Nat) (values : Values)

theorem trim_of_framed {line : List Char} (framed : Framed [line]) : trim line = line := by
  obtain ⟨n, c, rest, more, same, prints⟩ := framed.opens
  obtain ⟨other, member, _, flush⟩ := framed.flush
  obtain rfl := List.mem_singleton.mp member
  obtain ⟨rfl, -⟩ := List.cons.inj same
  obtain rfl : n = 0 := by
    rw [indentation_spaces_append] at flush
    omega
  have trimmed := framed.trimmed _ List.mem_cons_self
  rw [trim, trimStart, spaces, List.replicate_zero, List.nil_append, List.dropWhile_cons_of_neg (by simp [prints])]
  exact trimmed

/-- Framed lines are placed behind the column in which they begin. -/
theorem spaces_append_place {ls : List (List Char)} (framed : Framed ls) (column : Nat) :
    spaces column ++ place tabWidth column (joinLines ls) = joinLines (ls.map (indentLine column)) := by
  have first := framed.head_ne_nil
  have own := framed.block_joinLines tabWidth
  rcases ls with _ | ⟨line, rest⟩
  · exact absurd rfl framed.ne_nil
  have lead := indentLine_of_ne (first line rfl) column
  by_cases single : rest = []
  · subst single
    have still : '\n' ∉ line := framed.whole line List.mem_cons_self
    rw [joinLines_singleton, place, if_neg (by simpa using still), trim_of_framed framed, List.map_singleton,
      joinLines_singleton, lead]
  · have several : (joinLines (line :: rest)).contains '\n' = true := by simp [joinLines_cons line single]
    have moved : lines (joinLines ((line :: rest).map (indentLine column))) =
        (spaces column ++ line) :: rest.map (indentLine column) := by
      rw [framed.tidy.lines_indented, List.map_cons, lead]
    have others : rest.map (indentLine column) ≠ [] := by simpa using single
    rw [place, if_pos several, reindent_eq, own, moved]
    dsimp only
    rw [stripColumns_spaces_append, List.map_cons, lead, joinLines_cons _ others, joinLines_cons _ others,
      List.append_assoc]

/-! ### Lines of a template -/

/-- The column starts again at the end of a line. -/
theorem fillFrom_intercalate (ls : List (List Piece)) :
    fillFrom tabWidth values 0 ([.char '\n'].intercalate ls) = joinLines (ls.map (fillFrom tabWidth values 0)) := by
  induction ls with
  | nil => rfl
  | cons line rest ih =>
    by_cases last : rest = []
    · simp [last]
    · have others : rest.map (fillFrom tabWidth values 0) ≠ [] := by simpa using last
      rw [List.intercalate_cons_of_ne_nil last, List.map_cons, joinLines_cons _ others, List.append_assoc,
        fillFrom_append, List.singleton_append, fillFrom, ← ih]
      rfl

/-- Only the values of fields that occur count. -/
theorem fillFrom_congr {other : Values} {pieces : List Piece}
    (same : ∀ key, .field key ∈ pieces → values.find? key = other.find? key) (column : Nat) :
    fillFrom tabWidth values column pieces = fillFrom tabWidth other column pieces := by
  induction pieces generalizing column with
  | nil => rfl
  | cons piece rest ih =>
    have own : piece.fill tabWidth values column = piece.fill tabWidth other column := by
      cases piece with
      | char c => rfl
      | escape => rfl
      | field key => simp only [Piece.fill, same key List.mem_cons_self]
    rw [fillFrom, fillFrom, own, ih fun key member => same key (List.mem_cons_of_mem _ member)]

theorem fillFrom_chars (column : Nat) (cs : List Char) (rest : List Piece) :
    fillFrom tabWidth values column (cs.map .char ++ rest) =
      cs ++ fillFrom tabWidth values (advance column cs) rest := by
  induction cs generalizing column with
  | nil => rfl
  | cons c cs ih =>
    rw [List.map_cons, List.cons_append, fillFrom, ih]
    rfl

/-! ### Rows of segments -/

theorem fillFrom_text (s : String) :
    fillFrom tabWidth values 0 ([Segment.text s].flatMap Segment.pieces) = s.toList := by
  have filled := fillFrom_chars tabWidth values 0 s.toList []
  rw [fillFrom, List.append_nil, List.append_nil] at filled
  rw [List.flatMap_singleton]
  exact filled

theorem advance_spaces (column n : Nat) : advance column (spaces n) = column + n := by
  induction n generalizing column with
  | zero => rfl
  | succ n ih =>
    have next : advance column (spaces (n + 1)) = advance (column + 1) (spaces n) := rfl
    rw [next, ih]
    omega

/-- A field behind spaces is filled from their column. -/
theorem fillFrom_field {s : String} {n : Nat} (margin : s.toList = spaces n) {key value : String}
    (given : values.lookup key = some value) :
    fillFrom tabWidth values 0 ([Segment.text s, .field key].flatMap Segment.pieces) =
      spaces n ++ place tabWidth n value.toList := by
  have column : advance 0 (spaces n) = n := (advance_spaces 0 n).trans (Nat.zero_add n)
  have found : values.find? key.toList = some value.toList := by
    rw [Values.find?, String.ofList_toList, given]
    rfl
  rw [List.flatMap_cons, List.flatMap_singleton, Segment.pieces, fillFrom_chars, margin, column]
  simp only [Segment.pieces, fillFrom, Piece.fill, found, List.append_nil]

/-- A template of its own stands for some of the segments of another one. -/
theorem fill_eq_fillFrom {template : String} {segments : List Segment} {other : Values}
    (spelled : template = String.ofList (segments.flatMap Segment.written))
    (plain : ∀ segment ∈ segments, segment.Plain)
    (same : ∀ key, .field key ∈ segments → values.lookup key = other.lookup key) :
    fill tabWidth other template.toList = fillFrom tabWidth values 0 (segments.flatMap Segment.pieces) := by
  rw [fill, pieces_segments spelled plain]
  refine (fillFrom_congr tabWidth values ?_ 0).symm
  intro key member
  obtain ⟨segment, listed, inside⟩ := List.mem_flatMap.mp member
  cases segment with
  | text s =>
    obtain ⟨c, _, same⟩ := List.mem_map.mp inside
    cases same
  | field name =>
    obtain rfl : key = name.toList := by simpa [Segment.pieces] using inside
    rw [Values.find?, Values.find?, String.ofList_toList, same name listed]

end DocWeave.Template
