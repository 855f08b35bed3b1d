import DocWeave.Proofs.Text.Reindent
import DocWeave.Proofs.Text.Shape

/-!
# Cutting the edges of a text

Blank lines go at the front, white space goes at the end, and what stands between them stays. Moving a text adds no
line that prints and takes none, so a text may be cut before it is moved or afterwards.
-/

namespace DocWeave.Text

/-! ### The first line and the last line that print -/

theorem isBlank_of_mem_lines {cs line : List Char} (blank : isBlank cs = true) (member : line ∈ lines cs) :
    isBlank line = true := by
  rw [← joinLines_lines cs, isBlank_joinLines] at blank
  exact List.all_eq_true.mp blank line member

/-- A text that is not blank begins with blank lines and one that prints. -/
theorem exists_first_line {cs : List Char} (prints : isBlank cs = false) :
    ∃ before first more, lines cs = before ++ first :: more ∧ (∀ line ∈ before, isBlank line = true) ∧
      isBlank first = false := by
  cases rest : (lines cs).dropWhile isBlank with
  | nil =>
    have blanks := List.all_eq_true.mpr (List.dropWhile_eq_nil_iff.mp rest)
    rw [← isBlank_joinLines, joinLines_lines, prints] at blanks
    cases blanks
  | cons first more =>
    refine ⟨(lines cs).takeWhile isBlank, first, more, ?_, List.all_eq_true.mp List.all_takeWhile, ?_⟩
    · rw [← rest, List.takeWhile_append_dropWhile]
    · have stops := List.head?_dropWhile_not isBlank (lines cs)
      rw [rest] at stops
      simpa using stops

/-- The last line that prints, and the white space that the trimmed text leaves out behind it. -/
theorem exists_last_line_of_some {cs : List Char} (inked : isBlank cs = false) :
    ∃ before last tail more, lines (trimEnd cs) = before ++ [last] ∧ lines cs = before ++ (last ++ tail) :: more ∧
      isBlank last = false ∧ isBlank tail = true ∧ ∀ line ∈ more, isBlank line = true := by
  obtain ⟨front, c, ends, prints⟩ := exists_trimEnd_eq_concat inked
  obtain ⟨back, split, blank⟩ := exists_eq_trimEnd_append cs
  obtain ⟨before, last, kept⟩ := exists_lines_concat (ne_newline_of_prints prints) front
  rw [← ends] at kept
  cases behind : lines back with
  | nil => exact absurd behind (List.splitOn_ne_nil '\n' back)
  | cons tail more =>
    have whole := lines_append_lines kept behind
    rw [← split] at whole
    have each := fun line (member : line ∈ tail :: more) => isBlank_of_mem_lines blank (behind ▸ member)
    obtain ⟨own, others⟩ := List.forall_mem_cons.mp each
    exact ⟨before, last ++ [c], tail, more, kept, whole, isBlank_of_prints prints last [], own, others⟩

section First

variable {cs first : List Char} {before more : List (List Char)}

theorem dropBlankLines_eq (split : lines cs = before ++ first :: more) (blank : ∀ line ∈ before, isBlank line = true)
    (prints : isBlank first = false) : dropBlankLines cs = joinLines (first :: more) := by
  rw [dropBlankLines, split, List.dropWhile_append_of_pos blank, List.dropWhile_cons_of_neg (by simp [prints])]

theorem lines_dropBlankLines (split : lines cs = before ++ first :: more)
    (blank : ∀ line ∈ before, isBlank line = true) (prints : isBlank first = false) :
    lines (dropBlankLines cs) = first :: more := by
  rw [dropBlankLines_eq split blank prints]
  refine lines_joinLines (fun line member => ?_) (List.cons_ne_nil _ _)
  have listed : line ∈ lines cs := split ▸ List.mem_append_right before member
  exact not_mem_of_mem_lines listed

/-- A text whose first line prints has no blank lines at its front. -/
theorem dropBlankLines_of_some (split : lines cs = first :: more) (prints : isBlank first = false) :
    dropBlankLines cs = cs := by
  rw [dropBlankLines_eq split (List.forall_mem_nil _) prints, ← split, joinLines_lines]

end First

theorem isBlank_dropBlankLines (cs : List Char) : isBlank (dropBlankLines cs) = isBlank cs := by
  obtain ⟨front, split, blank⟩ := exists_eq_append_dropBlankLines cs
  conv => rhs; rw [split, isBlank_append, blank, Bool.true_and]

theorem isBlank_trimBlankEdges (cs : List Char) : isBlank (trimBlankEdges cs) = isBlank cs := by
  rw [trimBlankEdges, isBlank_trimEnd, isBlank_dropBlankLines]

theorem trimBlankEdges_of_blank {cs : List Char} (blank : isBlank cs = true) : trimBlankEdges cs = [] :=
  trimEnd_of_blank ((isBlank_dropBlankLines cs).trans blank)

/-! ### Moved blank lines -/

theorem commonIndentation_congr {ls others : List (List Char)}
    (same : (printing ls).map indentation = (printing others).map indentation) :
    commonIndentation ls = commonIndentation others := by
  rw [commonIndentation, ← printing, same, printing, commonIndentation]

@[simp]
theorem printing_nil : printing [] = [] := rfl

theorem printing_of_blank {ls : List (List Char)} (blank : ∀ line ∈ ls, isBlank line = true) : printing ls = [] := by
  rw [printing, List.filter_eq_nil_iff]
  intro line member
  simp [blank line member]

theorem printing_append (ls others : List (List Char)) : printing (ls ++ others) = printing ls ++ printing others :=
  List.filter_append ..

theorem printing_cons_of_some {line : List Char} (prints : isBlank line = false) (ls : List (List Char)) :
    printing (line :: ls) = line :: printing ls :=
  List.filter_cons_of_pos (by simp [prints])

theorem isBlank_of_mem_map_expandTabs (tabWidth : Nat) {ls : List (List Char)}
    (blank : ∀ line ∈ ls, isBlank line = true) : ∀ line ∈ ls.map (expandTabs tabWidth), isBlank line = true := by
  intro line member
  obtain ⟨source, listed, rfl⟩ := List.mem_map.mp member
  exact (isBlank_expandTabs tabWidth source).trans (blank source listed)

/-- Blank lines become empty ones. -/
theorem eq_nil_of_mem_collapseEmpty {common columns : Nat} {ls : List (List Char)}
    (blank : ∀ line ∈ ls, isBlank line = true) :
    ∀ line ∈ collapseEmpty (ls.map (shiftLine common columns)), line = [] := by
  intro line member
  obtain ⟨source, listed, rfl⟩ := List.mem_map.mp (mem_of_mem_collapseEmpty member)
  exact shiftLine_of_blank (blank source listed)

/-! ### Lines with white space behind them -/

section Tail

variable {line tail : List Char}

theorem trimEnd_append_of_blank (blank : isBlank tail = true) (line : List Char) :
    trimEnd (line ++ tail) = trimEnd line := by
  rw [trimEnd, List.reverse_append, List.dropWhile_append_of_pos, ← trimEnd]
  exact fun c member => List.all_eq_true.mp blank c (List.mem_reverse.mp member)

theorem isBlank_append_of_some (prints : isBlank line = false) (tail : List Char) : isBlank (line ++ tail) = false := by
  rw [isBlank_append, prints, Bool.false_and]

theorem indentation_append_of_blank (prints : isBlank line = false) (blank : isBlank tail = true) :
    indentation (line ++ tail) = indentation line := by
  rw [← indentation_trimEnd (isBlank_append_of_some prints tail), trimEnd_append_of_blank blank,
    indentation_trimEnd prints]

/-- White space behind the last line that prints is no part of the indentation. -/
theorem commonIndentation_append_of_blank {others : List (List Char)} (prints : isBlank line = false)
    (blank : isBlank tail = true) (blanks : ∀ other ∈ others, isBlank other = true) (ls : List (List Char)) :
    commonIndentation (ls ++ (line ++ tail) :: others) = commonIndentation (ls ++ [line]) := by
  apply commonIndentation_congr
  rw [printing_append, printing_append, printing_cons_of_some (isBlank_append_of_some prints tail),
    printing_cons_of_some prints, printing_of_blank blanks, printing_nil, List.map_append, List.map_append,
    List.map_singleton, List.map_singleton, indentation_append_of_blank prints blank]

theorem exists_expandTabs_append (blank : isBlank tail = true) (tabWidth : Nat) (line : List Char) :
    ∃ behind, expandTabs tabWidth (line ++ tail) = expandTabs tabWidth line ++ behind ∧ isBlank behind = true := by
  obtain ⟨column, split⟩ := expandTabsFrom_append (max tabWidth 1) 0 line tail
  exact ⟨_, split, (isBlank_expandTabsFrom _ column tail).trans blank⟩

theorem shiftLine_append_of_blank {common columns : Nat} (prints : isBlank line = false) (blank : isBlank tail = true)
    (inside : common ≤ indentation line) : shiftLine common columns (line ++ tail) = shiftLine common columns line := by
  have within : common ≤ line.length := inside.trans (List.takeWhile_sublist _).length_le
  rw [shiftLine, if_neg (by simp [isBlank_append_of_some prints]), shiftLine, if_neg (by simp [prints]),
    List.drop_append_of_le_length within, trimEnd_append_of_blank blank]

end Tail

/-! ### Moved texts -/

section Move

variable (tabWidth columns : Nat) {cs : List Char}

/-- Blank lines at the front of a text are empty lines at the front of its block. -/
theorem exists_block_eq_append (inked : isBlank cs = false) :
    ∃ empty, block tabWidth cs = empty ++ block tabWidth (dropBlankLines cs) ∧ ∀ line ∈ empty, line = [] := by
  obtain ⟨before, first, more, split, blank, prints⟩ := exists_first_line inked
  have kept := lines_dropBlankLines split blank prints
  have blanks := isBlank_of_mem_map_expandTabs tabWidth blank
  have same : commonIndentation ((lines cs).map (expandTabs tabWidth)) =
      commonIndentation ((first :: more).map (expandTabs tabWidth)) := by
    rw [split, List.map_append]
    apply commonIndentation_congr
    rw [printing_append, printing_of_blank blanks, List.nil_append]
  have shows : isBlank (expandTabs tabWidth first) = false := (isBlank_expandTabs tabWidth first).trans prints
  have inside : commonIndentation ((first :: more).map (expandTabs tabWidth)) ≤
      indentation (expandTabs tabWidth first) := commonIndentation_le (by simp) shows
  rw [block, block, same, kept, split]
  generalize commonIndentation _ = common at inside
  have shown := shiftLine_ne_nil shows inside
  simp only [List.map_append, List.map_cons]
  rw [collapseEmpty_append_cons shown, collapseEmpty_cons fun _ _ => .inl shown]
  exact ⟨_, rfl, eq_nil_of_mem_collapseEmpty blanks⟩

/-- White space at the end of a text is empty lines at the end of its block. -/
theorem exists_block_eq_trimEnd_append (inked : isBlank cs = false) :
    ∃ empty, block tabWidth cs = block tabWidth (trimEnd cs) ++ empty ∧ ∀ line ∈ empty, line = [] := by
  obtain ⟨before, last, tail, more, kept, split, prints, blank, others⟩ := exists_last_line_of_some inked
  obtain ⟨behind, expanded, blanks⟩ := exists_expandTabs_append blank tabWidth last
  have shows : isBlank (expandTabs tabWidth last) = false := (isBlank_expandTabs tabWidth last).trans prints
  have each := isBlank_of_mem_map_expandTabs tabWidth others
  have same : commonIndentation ((lines cs).map (expandTabs tabWidth)) =
      commonIndentation ((before ++ [last]).map (expandTabs tabWidth)) := by
    rw [split, List.map_append, List.map_append, List.map_cons, List.map_singleton, expanded]
    exact commonIndentation_append_of_blank shows blanks each _
  have inside : commonIndentation ((before ++ [last]).map (expandTabs tabWidth)) ≤
      indentation (expandTabs tabWidth last) := commonIndentation_le (by simp) shows
  rw [block, block, same, kept, split]
  generalize commonIndentation _ = common at inside
  have shown := shiftLine_ne_nil shows inside
  simp only [List.map_append, List.map_cons, List.map_nil]
  rw [expanded, shiftLine_append_of_blank shows blanks inside, collapseEmpty_append_cons shown,
    collapseEmpty_append_cons shown]
  refine ⟨collapseEmpty ((more.map (expandTabs tabWidth)).map (shiftLine common 0)), ?_,
    eq_nil_of_mem_collapseEmpty each⟩
  rw [List.append_assoc]
  rfl

theorem isBlank_iff_ink : isBlank cs = true ↔ ink cs = [] := by
  simp [isBlank, ink]

theorem isBlank_reindent (cs : List Char) : isBlank (reindent tabWidth columns cs) = isBlank cs := by
  rw [Bool.eq_iff_iff, isBlank_iff_ink, isBlank_iff_ink, ink_eq_of_gist_eq (gist_reindent tabWidth columns cs)]

theorem map_indentLine_of_empty {ls : List (List Char)} (empty : ∀ line ∈ ls, line = []) :
    ∀ line ∈ ls.map (indentLine columns), isBlank line = true := by
  intro line member
  obtain ⟨source, listed, rfl⟩ := List.mem_map.mp member
  rw [empty source listed]
  rfl

theorem dropBlankLines_reindent (inked : isBlank cs = false) :
    dropBlankLines (reindent tabWidth columns cs) = reindent tabWidth columns (dropBlankLines cs) := by
  obtain ⟨empty, split, blank⟩ := exists_block_eq_append tabWidth inked
  obtain ⟨before, first, more, own, blanks, prints⟩ := exists_first_line inked
  obtain ⟨line, rest, opens, shown⟩ :=
    exists_block_eq_cons tabWidth (lines_dropBlankLines own blanks prints) prints
  have whole : lines (reindent tabWidth columns cs) =
      empty.map (indentLine columns) ++ indentLine columns line :: rest.map (indentLine columns) := by
    rw [lines_reindent, split, opens, List.map_append, List.map_cons]
  have shows : isBlank (indentLine columns line) = false := by
    rw [isBlank_indentLine]
    by_contra hidden
    exact shown ((tidy_block tabWidth _).eq_nil_of_blank (opens ▸ List.mem_cons_self) (by simpa using hidden))
  rw [dropBlankLines_eq whole (map_indentLine_of_empty columns blank) shows, reindent_eq, opens, List.map_cons]

theorem exists_joinLines_append {ls others : List (List Char)} (filled : ls ≠ [])
    (blank : ∀ line ∈ others, isBlank line = true) :
    ∃ tail, joinLines (ls ++ others) = joinLines ls ++ tail ∧ isBlank tail = true := by
  by_cases empty : others = []
  · exact ⟨[], by simp [empty], rfl⟩
  · refine ⟨_, joinLines_append filled empty, ?_⟩
    rw [isBlank, List.all_cons, isBlankChar_newline, Bool.true_and, ← isBlank, isBlank_joinLines]
    exact List.all_eq_true.mpr blank

/-- A text that ends with a character that prints does so wherever it is moved. -/
theorem trimEnd_reindent_of_ends (ends : ∃ front c, cs = front ++ [c] ∧ isBlankChar c = false) :
    trimEnd (reindent tabWidth columns cs) = reindent tabWidth columns cs := by
  obtain ⟨others, last, split⟩ := (List.eq_nil_or_concat' _).resolve_left (block_ne_nil tabWidth cs)
  have whole : lines (reindent tabWidth columns cs) =
      others.map (indentLine columns) ++ [indentLine columns last] := by
    rw [lines_reindent, split, List.map_append, List.map_singleton]
  have filled : indentLine columns last ≠ [] := by
    rw [ne_eq, indentLine_eq_nil]
    exact block_ends tabWidth ends last (by rw [split, List.getLast?_concat]; rfl)
  obtain ⟨front, c, shown⟩ := (List.eq_nil_or_concat' _).resolve_left filled
  have listed : indentLine columns last ∈ lines (reindent tabWidth columns cs) := by simp [whole]
  have prints : isBlankChar c = false := isBlankChar_getLast?_reindent tabWidth columns cs listed c (by simp [shown])
  obtain ⟨front, text⟩ := exists_joinLines_concat (others.map (indentLine columns)) front c
  rw [← joinLines_lines (reindent tabWidth columns cs), whole, shown, text, trimEnd_concat prints]

theorem trimEnd_reindent (prints : isBlank cs = false) :
    trimEnd (reindent tabWidth columns cs) = reindent tabWidth columns (trimEnd cs) := by
  obtain ⟨empty, split, blank⟩ := exists_block_eq_trimEnd_append tabWidth prints
  have kept : (block tabWidth (trimEnd cs)).map (indentLine columns) ≠ [] := by
    simpa using block_ne_nil tabWidth (trimEnd cs)
  obtain ⟨tail, text, blanks⟩ := exists_joinLines_append kept (map_indentLine_of_empty columns blank)
  rw [reindent_eq, split, List.map_append, text, trimEnd_append_of_blank blanks, ← reindent_eq,
    trimEnd_reindent_of_ends tabWidth columns (exists_trimEnd_eq_concat prints)]

theorem trimBlankEdges_reindent (cs : List Char) :
    trimBlankEdges (reindent tabWidth columns cs) = reindent tabWidth columns (trimBlankEdges cs) := by
  cases blank : isBlank cs with
  | true =>
    rw [trimBlankEdges_of_blank ((isBlank_reindent tabWidth columns cs).trans blank), trimBlankEdges_of_blank blank]
    rfl
  | false =>
    rw [trimBlankEdges, dropBlankLines_reindent tabWidth columns blank,
      trimEnd_reindent tabWidth columns ((isBlank_dropBlankLines cs).trans blank), trimBlankEdges]

end Move

/-! ### What is cut -/

/-- The first part of a text is whole lines: it ends behind a line end, or one of the parts is empty. -/
def EndsLine (front rest : List Char) : Prop :=
  front = [] ∨ rest = [] ∨ ∃ lead, front = lead ++ ['\n']

/-- `kept` is the text `cs` without its blank edges. -/
structure Cut (cs kept : List Char) : Prop where
  slice : ∃ front back, cs = front ++ kept ++ back ∧ isBlank front = true ∧ isBlank back = true ∧
    EndsLine front (kept ++ back)
  nil_iff : kept = [] ↔ isBlank cs = true
  /-- The first line that is kept begins a line of the text, so it has the same indentation. -/
  opens : kept ≠ [] → ∃ first ∈ (lines kept).head?, isBlank first = false ∧ ∃ line ∈ lines cs, first <+: line
  ends : ∀ last ∈ kept.getLast?, isBlankChar last = false

section Cut

variable {cs : List Char}

theorem exists_dropBlankLines_slice (cs : List Char) :
    ∃ front, cs = front ++ dropBlankLines cs ∧ isBlank front = true ∧ EndsLine front (dropBlankLines cs) := by
  cases whole : isBlank cs with
  | true =>
    have nothing : dropBlankLines cs = [] := by
      rw [dropBlankLines, List.dropWhile_eq_nil_iff.mpr fun _ => isBlank_of_mem_lines whole, joinLines_nil]
    exact ⟨cs, by rw [nothing, List.append_nil], whole, .inr (.inl nothing)⟩
  | false =>
    obtain ⟨before, first, more, split, blank, prints⟩ := exists_first_line whole
    rw [dropBlankLines_eq split blank prints, ← joinLines_lines cs, split]
    by_cases empty : before = []
    · exact ⟨[], by simp [empty], rfl, .inl rfl⟩
    · refine ⟨joinLines before ++ ['\n'], ?_, ?_, .inr (.inr ⟨_, rfl⟩)⟩
      · rw [joinLines_append empty (List.cons_ne_nil _ _), List.append_assoc, List.singleton_append]
      · rw [isBlank_append, isBlank_joinLines, List.all_eq_true.mpr blank]
        rfl

/-- The lines that are kept are lines of the text, but for the white space behind the last one. -/
theorem exists_lines_trimBlankEdges (inked : isBlank cs = false) :
    ∃ first rest line, lines (trimBlankEdges cs) = first :: rest ∧ isBlank first = false ∧ line ∈ lines cs ∧
      first <+: line := by
  obtain ⟨before, line, more, split, blank, prints⟩ := exists_first_line inked
  have opened := lines_dropBlankLines split blank prints
  obtain ⟨front, last, tail, behind, kept, whole, shows, _, _⟩ :=
    exists_last_line_of_some ((isBlank_dropBlankLines cs).trans inked)
  have member : line ∈ lines cs := by simp [split]
  rw [opened] at whole
  rw [trimBlankEdges, kept]
  cases front with
  | nil =>
    obtain ⟨rfl, _⟩ := List.cons.inj whole
    exact ⟨last, [], _, rfl, shows, member, List.prefix_append last tail⟩
  | cons first rest =>
    obtain ⟨rfl, _⟩ := List.cons.inj whole
    exact ⟨line, rest ++ [last], line, rfl, prints, member, List.prefix_rfl⟩

theorem cut_trimBlankEdges (cs : List Char) : Cut cs (trimBlankEdges cs) where
  slice := by
    obtain ⟨front, split, frontBlank, whole⟩ := exists_dropBlankLines_slice cs
    obtain ⟨back, ends, backBlank⟩ := exists_eq_trimEnd_append (dropBlankLines cs)
    refine ⟨front, back, ?_, frontBlank, backBlank, ?_⟩
    · rw [trimBlankEdges, List.append_assoc, ← ends, ← split]
    · rwa [trimBlankEdges, ← ends]
  nil_iff := by
    constructor
    · intro empty
      rw [← isBlank_trimBlankEdges, empty]
      rfl
    · exact trimBlankEdges_of_blank
  opens filled := by
    have shows : isBlank cs = false := by
      by_contra blank
      exact filled (trimBlankEdges_of_blank (by simpa using blank))
    obtain ⟨first, rest, line, split, prints, member, within⟩ := exists_lines_trimBlankEdges shows
    exact ⟨first, by rw [split]; rfl, prints, line, member, within⟩
  ends := isBlankChar_getLast? (trimEnd_trimEnd _)

theorem trimBlankEdges_trimBlankEdges (cs : List Char) : trimBlankEdges (trimBlankEdges cs) = trimBlankEdges cs := by
  cases blank : isBlank cs with
  | true =>
    rw [trimBlankEdges_of_blank blank]
    rfl
  | false =>
    obtain ⟨first, rest, _, split, prints, _, _⟩ := exists_lines_trimBlankEdges blank
    conv => lhs; rw [trimBlankEdges, dropBlankLines_of_some split prints]
    exact trimEnd_trimEnd _

end Cut

/-- Cutting the edges of a text takes blank lines and white space and nothing else. It takes nothing the second time,
and a text may be cut before it is moved or afterwards. -/
theorem trimBlankEdges_cuts (cs : List Char) :
    Cut cs (trimBlankEdges cs) ∧ trimBlankEdges (trimBlankEdges cs) = trimBlankEdges cs ∧
      ∀ tabWidth columns,
        trimBlankEdges (reindent tabWidth columns cs) = reindent tabWidth columns (trimBlankEdges cs) :=
  ⟨cut_trimBlankEdges cs, trimBlankEdges_trimBlankEdges cs, fun tabWidth columns =>
    trimBlankEdges_reindent tabWidth columns cs⟩

example : trimBlankEdges " \n\t\n  x \n\n y\t\n ".toList = "  x \n\n y".toList := by
  decide +kernel

end DocWeave.Text
