import DocWeave.Proofs.Text.Columns
import Mathlib.Data.List.Chain

/-!
# Moving blocks of lines

Moving a text first brings its lines into the shape that they have at column 0, and then puts spaces in front of those
that are not empty. Lines that have this shape already only get the spaces, so a text that is moved twice comes out
where the second move puts it.
-/

namespace DocWeave.Text

/-! ### Runs of empty lines -/

/-- One of the lines is not empty. -/
def Apart (line next : List Char) : Prop :=
  line ≠ [] ∨ next ≠ []

theorem apart_of_head {line : List Char} {ls : List (List Char)}
    (other : ∀ rest, line = [] → ls = [] :: rest → False) : ∀ next ∈ ls.head?, Apart line next := by
  intro next first
  cases ls with
  | nil => simp at first
  | cons head rest =>
    obtain rfl : head = next := by simpa using first
    by_contra both
    obtain ⟨lineEmpty, nextEmpty⟩ := not_or.mp both
    exact other rest (not_not.mp lineEmpty) (by rw [not_not.mp nextEmpty])

theorem collapseEmpty_cons {line : List Char} {ls : List (List Char)} (apart : ∀ next ∈ ls.head?, Apart line next) :
    collapseEmpty (line :: ls) = line :: collapseEmpty ls := by
  rw [collapseEmpty]
  rintro rest rfl rfl
  exact (apart [] (by simp)).elim (fun other => other rfl) fun other => other rfl

theorem collapseEmpty_map {f : List Char → List Char} (empty : ∀ line, f line = [] ↔ line = [])
    (ls : List (List Char)) : collapseEmpty (ls.map f) = (collapseEmpty ls).map f := by
  induction ls using collapseEmpty.induct with
  | case1 ls ih =>
    have nothing : f [] = [] := (empty []).mpr rfl
    rw [collapseEmpty, ← ih, List.map_cons, List.map_cons, nothing, collapseEmpty]
  | case2 line ls other ih =>
    rw [collapseEmpty, List.map_cons, List.map_cons, ← ih]
    · apply collapseEmpty_cons
      rintro next first
      rw [List.head?_map] at first
      obtain ⟨head, listed, rfl⟩ := Option.map_eq_some_iff.mp first
      exact (apart_of_head other head listed).imp (mt (empty line).mp) (mt (empty head).mp)
    · exact other
  | case3 => rfl

theorem head?_collapseEmpty (ls : List (List Char)) : (collapseEmpty ls).head? = ls.head? := by
  induction ls using collapseEmpty.induct with
  | case1 ls ih => rw [collapseEmpty, ih]; rfl
  | case2 line ls other ih => rw [collapseEmpty]; exacts [rfl, other]
  | case3 => rfl

theorem getLast?_collapseEmpty (ls : List (List Char)) : (collapseEmpty ls).getLast? = ls.getLast? := by
  induction ls using collapseEmpty.induct with
  | case1 ls ih => rw [collapseEmpty, ih]; rfl
  | case2 line ls other ih =>
    rw [collapseEmpty, List.getLast?_cons, List.getLast?_cons, ih]
    exact other
  | case3 => rfl

/-- Lines go together without change if the first ones do not end, or the others do not begin, with an empty line. -/
theorem collapseEmpty_append {before after : List (List Char)}
    (apart : ∀ line ∈ before.getLast?, ∀ next ∈ after.head?, Apart line next) :
    collapseEmpty (before ++ after) = collapseEmpty before ++ collapseEmpty after := by
  induction before using collapseEmpty.induct with
  | case1 ls ih =>
    rw [List.cons_append, List.cons_append, collapseEmpty, collapseEmpty, ← List.cons_append]
    exact ih apart
  | case2 line ls other ih =>
    rw [List.cons_append, collapseEmpty_cons, collapseEmpty]
    · cases ls with
      | nil => rfl
      | cons head rest => rw [ih (by simpa using apart), List.cons_append]
    · exact other
    · cases ls with
      | nil => exact apart line rfl
      | cons head rest =>
        have further := apart_of_head other
        exact further
  | case3 => rfl

/-- A line that is not empty keeps the runs before it and behind it apart. -/
theorem collapseEmpty_append_cons {line : List Char} (filled : line ≠ []) (before after : List (List Char)) :
    collapseEmpty (before ++ line :: after) = collapseEmpty before ++ line :: collapseEmpty after := by
  rw [collapseEmpty_append, collapseEmpty_cons fun _ _ => .inl filled]
  intro last _ next first
  obtain rfl : line = next := by simpa using first
  exact .inr filled

theorem isChain_collapseEmpty (ls : List (List Char)) : (collapseEmpty ls).IsChain Apart := by
  induction ls using collapseEmpty.induct with
  | case1 ls ih => rwa [collapseEmpty]
  | case2 line ls other ih =>
    rw [collapseEmpty]
    · refine List.isChain_cons.mpr ⟨?_, ih⟩
      rw [head?_collapseEmpty]
      exact apart_of_head other
    · exact other
  | case3 => exact .nil

theorem collapseEmpty_of_isChain {ls : List (List Char)} (apart : ls.IsChain Apart) : collapseEmpty ls = ls := by
  induction ls with
  | nil => rfl
  | cons line ls ih =>
    obtain ⟨first, others⟩ := List.isChain_cons.mp apart
    rw [collapseEmpty_cons first, ih others]

theorem mem_collapseEmpty {ls : List (List Char)} {line : List Char} (filled : line ≠ []) (member : line ∈ ls) :
    line ∈ collapseEmpty ls := by
  induction ls using collapseEmpty.induct with
  | case1 ls ih =>
    rw [collapseEmpty]
    exact ih ((List.mem_cons.mp member).resolve_left filled)
  | case2 head ls other ih =>
    rw [collapseEmpty]
    · exact List.mem_cons.mpr ((List.mem_cons.mp member).imp_right ih)
    · exact other
  | case3 => cases member

/-! ### The common indentation -/

/-- A line has the common indentation. -/
theorem exists_indentation_eq {ls : List (List Char)} (inked : ∃ line ∈ ls, isBlank line = false) :
    ∃ line ∈ ls, isBlank line = false ∧ indentation line = commonIndentation ls := by
  obtain ⟨line, member, prints⟩ := inked
  have listed : indentation line ∈ (ls.filter (!isBlank ·)).map indentation :=
    List.mem_map_of_mem (List.mem_filter.mpr ⟨member, by simp [prints]⟩)
  cases least : ((ls.filter (!isBlank ·)).map indentation).min? with
  | none => simp [List.min?_eq_none_iff.mp least] at listed
  | some common =>
    obtain ⟨lowest, among, rfl⟩ := List.mem_map.mp (List.min?_eq_some_iff.mp least).1
    obtain ⟨known, inked⟩ := List.mem_filter.mp among
    exact ⟨lowest, known, by simpa using inked, by rw [commonIndentation, least]; rfl⟩

theorem commonIndentation_eq {ls : List (List Char)} {n : Nat}
    (attained : ∃ line ∈ ls, isBlank line = false ∧ indentation line = n)
    (least : ∀ line ∈ ls, isBlank line = false → n ≤ indentation line) : commonIndentation ls = n := by
  obtain ⟨line, member, prints, rfl⟩ := attained
  obtain ⟨lowest, among, inked, same⟩ := exists_indentation_eq ⟨line, member, prints⟩
  exact Nat.le_antisymm (commonIndentation_le member prints) (same ▸ least lowest among inked)

theorem indentation_drop (line : List Char) : indentation (line.drop (indentation line)) = 0 := by
  have whole := indentation_spaces_append (indentation line) (line.drop (indentation line))
  rw [← eq_spaces_append (Nat.le_refl _)] at whole
  omega

/-! ### Lines with spaces in front -/

theorem isBlankChar_getLast? {line : List Char} (trimmed : trimEnd line = line) :
    ∀ last ∈ line.getLast?, isBlankChar last = false := by
  intro last ends
  cases blank : isBlank line with
  | true =>
    rw [← trimmed, trimEnd_of_blank blank] at ends
    cases ends
  | false =>
    obtain ⟨front, c, split, prints⟩ := exists_trimEnd_eq_concat blank
    rw [← trimmed, split, List.getLast?_concat] at ends
    exact Option.some.inj ends ▸ prints

theorem ne_nil_of_some {line : List Char} (prints : isBlank line = false) : line ≠ [] := by
  rintro rfl
  cases prints

theorem isBlank_indentLine (columns : Nat) (line : List Char) : isBlank (indentLine columns line) = isBlank line := by
  by_cases empty : line = []
  · rw [empty]
    rfl
  · rw [indentLine_of_ne empty, isBlank_append, isBlank_spaces, Bool.true_and]

theorem indentation_indentLine {line : List Char} (filled : line ≠ []) (columns : Nat) :
    indentation (indentLine columns line) = columns + indentation line := by
  rw [indentLine_of_ne filled, indentation_spaces_append]

theorem trimEnd_indentLine {line : List Char} (trimmed : trimEnd line = line) (columns : Nat) :
    trimEnd (indentLine columns line) = indentLine columns line := by
  cases blank : isBlank line with
  | true =>
    rw [← trimmed, trimEnd_of_blank blank]
    rfl
  | false => rw [indentLine_of_ne (ne_nil_of_some blank), trimEnd_append blank, trimmed]

theorem tab_not_mem_indentLine {line : List Char} (tabless : '\t' ∉ line) (columns : Nat) :
    '\t' ∉ indentLine columns line := by
  unfold indentLine
  split
  · exact List.not_mem_nil
  · simp [spaces, tabless]

/-! ### Lines that are shifted -/

theorem isBlank_trimEnd (line : List Char) : isBlank (trimEnd line) = isBlank line := by
  obtain ⟨tail, split, blank⟩ := exists_eq_trimEnd_append line
  conv => rhs; rw [split, isBlank_append, blank, Bool.and_true]

section Shift

variable {common columns : Nat} {line : List Char}

theorem shiftLine_of_blank (blank : isBlank line = true) : shiftLine common columns line = [] :=
  if_pos blank

/-- A shifted line has its text behind the spaces that it keeps. -/
theorem shiftLine_of_some (prints : isBlank line = false) (inside : common ≤ indentation line) :
    shiftLine common columns line =
      spaces (columns + (indentation line - common)) ++ trimEnd (line.drop (indentation line)) := by
  have rest : isBlank (line.drop (indentation line)) = false := (isBlank_drop (Nat.le_refl _)).trans prints
  have split : line.drop common = spaces (indentation line - common) ++ line.drop (indentation line) := by
    conv => lhs; rw [eq_spaces_append (Nat.le_refl (indentation line))]
    rw [List.drop_append_of_le_length (by simpa [spaces] using inside), spaces, List.drop_replicate, spaces]
  rw [shiftLine, if_neg (by simp [prints]), split, trimEnd_append rest, ← List.append_assoc, spaces, spaces,
    List.replicate_append_replicate, spaces]

theorem indentation_shiftLine (prints : isBlank line = false) (inside : common ≤ indentation line) :
    indentation (shiftLine common columns line) = columns + (indentation line - common) := by
  have rest : isBlank (line.drop (indentation line)) = false := (isBlank_drop (Nat.le_refl _)).trans prints
  rw [shiftLine_of_some prints inside, indentation_spaces_append, indentation_trimEnd rest, indentation_drop,
    Nat.add_zero]

theorem isBlank_shiftLine (inside : isBlank line = false → common ≤ indentation line) :
    isBlank (shiftLine common columns line) = isBlank line := by
  cases blank : isBlank line with
  | true => rw [shiftLine_of_blank blank]; rfl
  | false =>
    rw [shiftLine_of_some blank (inside blank), isBlank_append, isBlank_spaces, Bool.true_and, isBlank_trimEnd,
      isBlank_drop (Nat.le_refl _), blank]

end Shift

/-! ### Blocks -/

/-- The lines of a text as they stand at column 0. -/
def block (tabWidth : Nat) (cs : List Char) : List (List Char) :=
  let expanded := (lines cs).map (expandTabs tabWidth)
  collapseEmpty (expanded.map (shiftLine (commonIndentation expanded) 0))

theorem shiftLine_zero_of_some {common : Nat} {line : List Char} (prints : isBlank line = false) :
    shiftLine common 0 line = trimEnd (line.drop common) := by
  rw [shiftLine, if_neg (by simp [prints])]
  rfl

theorem shiftLine_eq_nil {common : Nat} {line : List Char} (inside : isBlank line = false → common ≤ indentation line) :
    shiftLine common 0 line = [] ↔ isBlank line = true := by
  cases blank : isBlank line with
  | true => simp [shiftLine, blank]
  | false =>
    have prints : isBlank (line.drop common) = false := (isBlank_drop (inside blank)).trans blank
    obtain ⟨front, c, ends, _⟩ := exists_trimEnd_eq_concat prints
    rw [shiftLine_zero_of_some blank, ends]
    simp

theorem shiftLine_ne_nil {common : Nat} {line : List Char} (prints : isBlank line = false)
    (inside : common ≤ indentation line) : shiftLine common 0 line ≠ [] := by
  rw [ne_eq, shiftLine_eq_nil fun _ => inside, prints]
  exact Bool.false_ne_true

theorem shiftLine_eq {common columns : Nat} {line : List Char}
    (inside : isBlank line = false → common ≤ indentation line) :
    shiftLine common columns line = indentLine columns (shiftLine common 0 line) := by
  cases blank : isBlank line with
  | true => simp [shiftLine, blank]
  | false =>
    rw [indentLine_of_ne (by simp [shiftLine_eq_nil inside, blank]), shiftLine_zero_of_some blank, shiftLine,
      if_neg (by simp [blank])]

/-- Moving a text puts spaces in front of its block. -/
theorem reindent_eq (tabWidth columns : Nat) (cs : List Char) :
    reindent tabWidth columns cs = joinLines ((block tabWidth cs).map (indentLine columns)) := by
  unfold reindent block
  dsimp only
  generalize (lines cs).map (expandTabs tabWidth) = expanded
  rw [← collapseEmpty_map (fun line => indentLine_eq_nil), List.map_map]
  congr 2
  apply List.map_congr_left
  intro line member
  exact shiftLine_eq (commonIndentation_le member)

theorem reindent_zero (tabWidth : Nat) (cs : List Char) : reindent tabWidth 0 cs = joinLines (block tabWidth cs) := by
  simp [reindent_eq]

section Block

variable (tabWidth : Nat) {cs : List Char}

theorem newline_not_mem_block {line : List Char} (member : line ∈ block tabWidth cs) : '\n' ∉ line := by
  obtain ⟨shifted, listed, rfl⟩ := List.mem_map.mp (mem_of_mem_collapseEmpty member)
  obtain ⟨source, known, rfl⟩ := List.mem_map.mp listed
  exact newline_not_mem_shiftLine (newline_not_mem_expandTabsFrom (not_mem_of_mem_lines known))

theorem tab_not_mem_block {line : List Char} (member : line ∈ block tabWidth cs) : '\t' ∉ line := by
  obtain ⟨shifted, listed, rfl⟩ := List.mem_map.mp (mem_of_mem_collapseEmpty member)
  obtain ⟨source, known, rfl⟩ := List.mem_map.mp listed
  intro tab
  unfold shiftLine at tab
  split at tab
  · cases tab
  · rcases List.mem_append.mp tab with lead | inside
    · simp [spaces] at lead
    · exact tab_not_mem_expandTabs tabWidth source (List.mem_of_mem_drop (mem_of_mem_trimEnd inside))

theorem trimEnd_of_mem_block {line : List Char} (member : line ∈ block tabWidth cs) : trimEnd line = line := by
  obtain ⟨shifted, _, rfl⟩ := List.mem_map.mp (mem_of_mem_collapseEmpty member)
  cases blank : isBlank shifted with
  | true => rw [shiftLine, if_pos blank]; rfl
  | false => rw [shiftLine_zero_of_some blank, trimEnd_trimEnd]

/-- The line with the smallest indentation has none in the block. -/
theorem exists_flush_of_mem {expanded : List (List Char)} (inked : ∃ line ∈ expanded, isBlank line = false) :
    ∃ line ∈ collapseEmpty (expanded.map (shiftLine (commonIndentation expanded) 0)),
      isBlank line = false ∧ indentation line = 0 := by
  obtain ⟨lowest, member, prints, same⟩ := exists_indentation_eq inked
  have inside : commonIndentation expanded ≤ indentation lowest := same.ge
  have shown : isBlank (shiftLine (commonIndentation expanded) 0 lowest) = false :=
    (isBlank_shiftLine fun _ => inside).trans prints
  refine ⟨_, mem_collapseEmpty (ne_nil_of_some shown) (List.mem_map_of_mem member), shown, ?_⟩
  rw [indentation_shiftLine prints inside]
  omega

theorem exists_flush_block (inked : isBlank cs = false) :
    ∃ line ∈ block tabWidth cs, isBlank line = false ∧ indentation line = 0 := by
  rw [← joinLines_lines cs, isBlank_joinLines, List.all_eq_false] at inked
  obtain ⟨source, known, prints⟩ := inked
  have expanded : isBlank (expandTabs tabWidth source) = false :=
    (isBlank_expandTabs tabWidth source).trans (by simpa using prints)
  exact exists_flush_of_mem ⟨_, List.mem_map_of_mem known, expanded⟩

end Block

/-! ### Tidy lines -/

/-- The lines of a moved text as they stand at column 0. -/
structure Tidy (ls : List (List Char)) : Prop where
  ne_nil : ls ≠ []
  whole : ∀ line ∈ ls, '\n' ∉ line
  tabless : ∀ line ∈ ls, '\t' ∉ line
  trimmed : ∀ line ∈ ls, trimEnd line = line
  apart : ls.IsChain Apart
  flush : (∃ line ∈ ls, isBlank line = false) → ∃ line ∈ ls, isBlank line = false ∧ indentation line = 0

theorem block_ne_nil (tabWidth : Nat) (cs : List Char) : block tabWidth cs ≠ [] := by
  have filled : lines cs ≠ [] := List.splitOn_ne_nil '\n' cs
  rw [ne_eq, ← List.head?_eq_none_iff, block, head?_collapseEmpty]
  simpa using filled

theorem exists_block_eq_cons (tabWidth : Nat) {cs first : List Char} {more : List (List Char)}
    (split : lines cs = first :: more) (prints : isBlank first = false) :
    ∃ line rest, block tabWidth cs = line :: rest ∧ line ≠ [] := by
  have expanded : isBlank (expandTabs tabWidth first) = false := (isBlank_expandTabs tabWidth first).trans prints
  rw [block, split, List.map_cons, List.map_cons]
  generalize shown : shiftLine _ 0 (expandTabs tabWidth first) = line
  have kept : line ≠ [] := shown ▸ shiftLine_ne_nil expanded (commonIndentation_le List.mem_cons_self expanded)
  exact ⟨line, _, collapseEmpty_cons fun _ _ => .inl kept, kept⟩

theorem tidy_block (tabWidth : Nat) (cs : List Char) : Tidy (block tabWidth cs) where
  ne_nil := block_ne_nil tabWidth cs
  whole _ := newline_not_mem_block tabWidth
  tabless _ := tab_not_mem_block tabWidth
  trimmed _ := trimEnd_of_mem_block tabWidth
  apart := isChain_collapseEmpty _
  flush := by
    rintro ⟨line, member, prints⟩
    obtain ⟨source, listed, rfl⟩ := List.mem_map.mp (mem_of_mem_collapseEmpty member)
    rw [isBlank_shiftLine (commonIndentation_le listed)] at prints
    exact exists_flush_of_mem ⟨source, listed, prints⟩

namespace Tidy

variable {ls : List (List Char)} {line : List Char}

theorem eq_nil_of_blank (tidy : Tidy ls) (member : line ∈ ls) (blank : isBlank line = true) : line = [] := by
  rw [← tidy.trimmed line member, trimEnd_of_blank blank]

theorem lines_indented (tidy : Tidy ls) (columns : Nat) :
    lines (joinLines (ls.map (indentLine columns))) = ls.map (indentLine columns) := by
  refine lines_joinLines ?_ (by simpa using tidy.ne_nil)
  intro shifted member
  obtain ⟨line, listed, rfl⟩ := List.mem_map.mp member
  exact newline_not_mem_indentLine (tidy.whole line listed) columns

theorem commonIndentation_indented (tidy : Tidy ls) (columns : Nat) (inked : ∃ line ∈ ls, isBlank line = false) :
    commonIndentation (ls.map (indentLine columns)) = columns := by
  apply commonIndentation_eq
  · obtain ⟨line, member, prints, zero⟩ := tidy.flush inked
    refine ⟨_, List.mem_map_of_mem member, (isBlank_indentLine columns line).trans prints, ?_⟩
    rw [indentation_indentLine (ne_nil_of_some prints), zero, Nat.add_zero]
  · intro shifted member prints
    obtain ⟨line, _, rfl⟩ := List.mem_map.mp member
    rw [isBlank_indentLine] at prints
    rw [indentation_indentLine (ne_nil_of_some prints)]
    exact Nat.le_add_right _ _

/-- Tidy lines come back, wherever they have been moved. -/
theorem block_indented (tidy : Tidy ls) (tabWidth columns : Nat) :
    block tabWidth (joinLines (ls.map (indentLine columns))) = ls := by
  have expanded : (ls.map (indentLine columns)).map (expandTabs tabWidth) = ls.map (indentLine columns) := by
    rw [List.map_map]
    apply List.map_congr_left
    intro line member
    exact expandTabs_of_not_mem (tab_not_mem_indentLine (tidy.tabless line member) columns) tabWidth
  have shifted : (ls.map (indentLine columns)).map
      (shiftLine (commonIndentation (ls.map (indentLine columns))) 0) = ls.map id := by
    rw [List.map_map]
    apply List.map_congr_left
    intro line member
    rw [Function.comp_apply]
    cases blank : isBlank line with
    | true => rw [tidy.eq_nil_of_blank member blank]; rfl
    | false =>
      rw [tidy.commonIndentation_indented columns ⟨line, member, blank⟩,
        shiftLine_zero_of_some ((isBlank_indentLine columns line).trans blank), indentLine_of_ne (ne_nil_of_some blank),
        List.drop_left' (by simp [spaces]), tidy.trimmed line member, id]
  rw [block, tidy.lines_indented]
  simp only [expanded, shifted, List.map_id]
  exact collapseEmpty_of_isChain tidy.apart

end Tidy

theorem lines_reindent (tabWidth columns : Nat) (cs : List Char) :
    lines (reindent tabWidth columns cs) = (block tabWidth cs).map (indentLine columns) := by
  rw [reindent_eq, (tidy_block tabWidth cs).lines_indented]

/-- A text that is moved twice comes out where the second move puts it. -/
theorem reindent_reindent (tabWidth other columns further : Nat) (cs : List Char) :
    reindent other further (reindent tabWidth columns cs) = reindent tabWidth further cs := by
  rw [reindent_eq tabWidth columns, reindent_eq other, (tidy_block tabWidth cs).block_indented, ← reindent_eq]

end DocWeave.Text
