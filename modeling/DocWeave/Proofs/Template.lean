import DocWeave.Proofs.Text.Gist
import DocWeave.Proofs.Text.Words
import DocWeave.Template

/-!
# Filled templates

A filled template has the characters of its pieces and of the values, up to white space. A value whose field
stands alone in its line keeps its lines.
-/

namespace DocWeave.Template

open DocWeave.Text

variable (tabWidth : Nat) (values : Values)

theorem words_stripColumns (columns : Nat) (line : List Char) : words (stripColumns columns line) = words line :=
  words_drop (Nat.min_le_left _ _)

/-- A value of several lines is moved to the column, and its first line goes in place. -/
theorem lines_place {value : List Char} (several : '\n' ∈ value) (column : Nat) :
    lines (place tabWidth column value) =
      (lines (reindent tabWidth column value)).modifyHead (stripColumns column) := by
  have whole : ∀ line ∈ lines (reindent tabWidth column value), '\n' ∉ line := fun _ => not_mem_of_mem_lines
  rw [place, if_pos (by simpa using several)]
  cases split : lines (reindent tabWidth column value) with
  | nil => exact absurd split (List.splitOn_ne_nil '\n' _)
  | cons first rest =>
    obtain ⟨own, others⟩ := List.forall_mem_cons.mp (split ▸ whole)
    have inside : '\n' ∉ stripColumns column first := fun member => own (List.mem_of_mem_drop member)
    exact lines_joinLines (List.forall_mem_cons.mpr ⟨inside, others⟩) (List.cons_ne_nil _ _)

/-- Placing a value keeps its gist. -/
theorem gist_place (column : Nat) (value : List Char) : gist (place tabWidth column value) = gist value := by
  by_cases several : '\n' ∈ value
  · rw [gist, lines_place tabWidth several, ← gist_reindent tabWidth column value, gist]
    cases lines (reindent tabWidth column value) with
    | nil => rfl
    | cons first rest => simp only [List.modifyHead_cons, wordLines, List.map_cons, words_stripColumns]
  · rw [place, if_neg (by simpa using several), gist_trim]

/-! ### Segments -/

/-- A stretch of a template: text that stands for itself, or a field. -/
inductive Segment where
  | text (s : String)
  | field (key : String)
  deriving DecidableEq

def Segment.written : Segment → List Char
  | .text s => s.toList
  | .field key => Piece.written (.field key.toList)

def Segment.pieces : Segment → List Piece
  | .text s => s.toList.map .char
  | .field key => [.field key.toList]

/-- The text begins no field, and the key of a field is a word. -/
def Segment.Plain : Segment → Prop
  | .text s => '%' ∉ s.toList
  | .field key => key.toList ≠ [] ∧ key.toList.all isWordChar = true

instance (segment : Segment) : Decidable segment.Plain :=
  match segment with
  | .text s => inferInstanceAs (Decidable ('%' ∉ s.toList))
  | .field key => inferInstanceAs (Decidable (key.toList ≠ [] ∧ key.toList.all isWordChar = true))

theorem pieces_text {cs : List Char} (plain : '%' ∉ cs) (rest : List Char) :
    pieces (cs ++ rest) = cs.map .char ++ pieces rest := by
  induction cs with
  | nil => rfl
  | cons c cs ih =>
    obtain ⟨different, others⟩ := not_or.mp (mt List.mem_cons.mpr plain)
    rw [List.cons_append, pieces.eq_4, ih others]
    · rfl
    · intro _ same _
      exact different same.symm
    · intro _ same _
      exact different same.symm

theorem fieldKey?_of_word {key : List Char} (filled : key ≠ []) (word : key.all isWordChar = true)
    (rest : List Char) : fieldKey? (key ++ ')' :: 's' :: rest) = some (key, rest) := by
  unfold fieldKey?
  rw [takeWhile_word word (by decide), dropWhile_word word (by decide)]
  cases key with
  | nil => exact absurd rfl filled
  | cons c key => rfl

theorem pieces_field {key : List Char} (filled : key ≠ []) (word : key.all isWordChar = true) (rest : List Char) :
    pieces (Piece.written (.field key) ++ rest) = .field key :: pieces rest := by
  have found := fieldKey?_of_word filled word rest
  have spelled : Piece.written (.field key) ++ rest = '%' :: '(' :: (key ++ ')' :: 's' :: rest) := by
    simp [Piece.written]
  rw [spelled, pieces.eq_3]
  split
  · rename_i other tail known
    rw [found] at known
    cases known
    rfl
  · rename_i missing
    rw [found] at missing
    cases missing

/-- A template that is written in plain segments has the pieces of the segments. -/
theorem pieces_segments {template : String} {segments : List Segment}
    (spelled : template = String.ofList (segments.flatMap Segment.written))
    (plain : ∀ segment ∈ segments, segment.Plain) :
    pieces template.toList = segments.flatMap Segment.pieces := by
  rw [spelled, String.toList_ofList]
  clear spelled
  induction segments with
  | nil => exact pieces.eq_1
  | cons segment rest ih =>
    obtain ⟨own, others⟩ := List.forall_mem_cons.mp plain
    rw [List.flatMap_cons, List.flatMap_cons, ← ih others]
    cases segment with
    | text s => exact pieces_text own _
    | field key => exact pieces_field own.1 own.2 _

/-! ### Characters -/

/-- The characters that a piece prints. -/
def Piece.ink (values : Values) : Piece → List Char
  | .field key => Text.ink ((values.find? key).getD (Piece.written (.field key)))
  | .escape => ['%', '(']
  | .char c => Text.ink [c]

theorem ink_piece_fill (column : Nat) (piece : Piece) :
    ink (piece.fill tabWidth values column) = piece.ink values := by
  cases piece with
  | char c => rfl
  | escape => rfl
  | field key =>
    simp only [Piece.fill, Piece.ink]
    cases values.find? key with
    | none => rfl
    | some value => exact ink_eq_of_gist_eq (gist_place tabWidth column value)

theorem ink_fillFrom (column : Nat) (pieces : List Piece) :
    ink (fillFrom tabWidth values column pieces) = pieces.flatMap (·.ink values) := by
  induction pieces generalizing column with
  | nil => rfl
  | cons piece rest ih => rw [fillFrom, ink_append, ink_piece_fill, ih, List.flatMap_cons]

theorem ink_fill (template : List Char) :
    ink (fill tabWidth values template) = (pieces template).flatMap (·.ink values) :=
  ink_fillFrom tabWidth values 0 (pieces template)

/-- What is printed for a segment. A field without a value stays as it is. -/
def Segment.value (values : Values) : Segment → String
  | .text s => s
  | .field key => (values.lookup key).getD (String.ofList (Piece.written (.field key.toList)))

theorem ink_segment (segment : Segment) :
    segment.pieces.flatMap (·.ink values) = ink (segment.value values).toList := by
  cases segment with
  | text s =>
    rw [Segment.pieces, Segment.value, List.flatMap_map]
    induction s.toList with
    | nil => rfl
    | cons c rest ih => rw [List.flatMap_cons, ih, Piece.ink, ← ink_append, List.singleton_append]
  | field key =>
    rw [Segment.pieces, Segment.value, List.flatMap_singleton, Piece.ink, Values.find?, String.ofList_toList]
    cases values.lookup key with
    | none => simp
    | some value => rfl

theorem ink_fill_eq {template : List Char} {segments : List Segment}
    (same : pieces template = segments.flatMap Segment.pieces) :
    ink (fill tabWidth values template) = segments.flatMap fun segment => ink (segment.value values).toList := by
  rw [ink_fill, same]
  simp only [List.flatMap_assoc, ink_segment]

theorem ink_infix_fill {template : List Char} {segments inside : List Segment}
    (same : pieces template = segments.flatMap Segment.pieces) (consecutive : inside <:+: segments) :
    (inside.flatMap fun segment => ink (segment.value values).toList) <:+: ink (fill tabWidth values template) := by
  obtain ⟨before, after, rfl⟩ := consecutive
  rw [ink_fill_eq tabWidth values same, List.flatMap_append, List.flatMap_append]
  exact List.infix_append ..

/-! ### Lines -/

theorem fillFrom_append (column : Nat) (before after : List Piece) :
    fillFrom tabWidth values column (before ++ after) =
      fillFrom tabWidth values column before ++
        fillFrom tabWidth values (advance column (fillFrom tabWidth values column before)) after := by
  induction before generalizing column with
  | nil => rfl
  | cons piece rest ih =>
    rw [List.cons_append, fillFrom, fillFrom, ih, List.append_assoc]
    congr 2
    simp only [advance, List.foldl_append]

theorem fillFrom_spaces (column n : Nat) (rest : List Piece) :
    ∃ behind, fillFrom tabWidth values column (List.replicate n (.char ' ') ++ rest) =
      spaces n ++ fillFrom tabWidth values behind rest := by
  induction n generalizing column with
  | zero => exact ⟨column, rfl⟩
  | succ n ih =>
    obtain ⟨behind, further⟩ := ih (advance column [' '])
    refine ⟨behind, ?_⟩
    rw [List.replicate_succ, List.cons_append, fillFrom, Piece.fill, further]
    rfl

/-- The field stands alone in a line of the template. -/
def StandsAlone (key : List Char) (template : List Char) : Prop :=
  ∃ n, .char '\n' :: List.replicate n (.char ' ') ++ [.field key, .char '\n'] <:+: pieces template

/-- A field stands alone if its segment does. -/
theorem standsAlone_of_segments {template : List Char} {segments : List Segment} {key : String} (n : Nat)
    (same : pieces template = segments.flatMap Segment.pieces)
    (alone : [.text (String.ofList ('\n' :: spaces n)), .field key, .text "\n"] <:+: segments) :
    StandsAlone key.toList template := by
  obtain ⟨before, after, rfl⟩ := alone
  refine ⟨n, before.flatMap Segment.pieces, after.flatMap Segment.pieces, ?_⟩
  rw [same]
  simp [Segment.pieces, spaces]

theorem gist_fill_of_standsAlone {key template value : List Char} (alone : StandsAlone key template)
    (given : values.find? key = some value) : gist value <:+: gist (fill tabWidth values template) := by
  obtain ⟨n, before, after, split⟩ := alone
  rw [fill, ← split, List.append_assoc, fillFrom_append, List.append_assoc, List.cons_append, fillFrom]
  generalize fillFrom tabWidth values 0 before = front
  obtain ⟨behind, text⟩ := fillFrom_spaces tabWidth values
    (advance (advance 0 front) (Piece.fill tabWidth values (advance 0 front) (.char '\n'))) n
    ([.field key, .char '\n'] ++ after)
  rw [text, List.cons_append, List.singleton_append, fillFrom, fillFrom]
  simp only [Piece.fill, given, List.singleton_append]
  rw [gist_append_newline, ← List.append_assoc, gist_append_newline, gist_blank_append (isBlank_spaces n),
    gist_place, ← List.append_assoc]
  exact List.infix_append ..

end DocWeave.Template
