import DocWeave.Proofs.Text.Tidy

/-!
# Blocks of code

A block of code stays as it is, wherever it is moved and whatever stands next to it. A text becomes such a block once
its blank edges are cut, if its first line that prints begins with spaces and tabs.
-/

namespace DocWeave.Text

/-! ### Framed lines -/

/-- A block of code as it stands at column 0: no tabs, no white space at the end of a line and no run of empty lines,
and neither the first line nor the last one is empty. -/
structure Framed (ls : List (List Char)) : Prop where
  whole : ∀ line ∈ ls, '\n' ∉ line
  tabless : ∀ line ∈ ls, '\t' ∉ line
  trimmed : ∀ line ∈ ls, trimEnd line = line
  apart : ls.IsChain Apart
  flush : ∃ line ∈ ls, isBlank line = false ∧ indentation line = 0
  opens : ∃ n c rest more, ls = (spaces n ++ c :: rest) :: more ∧ isBlankChar c = false
  ends : ∀ last ∈ ls.getLast?, last ≠ []

namespace Framed

variable {ls others : List (List Char)}

theorem ne_nil (framed : Framed ls) : ls ≠ [] := by
  obtain ⟨n, c, rest, more, rfl, _⟩ := framed.opens
  exact List.cons_ne_nil _ _

theorem head_ne_nil (framed : Framed ls) : ∀ first ∈ ls.head?, first ≠ [] := by
  obtain ⟨n, c, rest, more, rfl, _⟩ := framed.opens
  intro first listed
  obtain rfl : spaces n ++ c :: rest = first := by simpa using listed
  simp

theorem tidy (framed : Framed ls) : Tidy ls where
  ne_nil := framed.ne_nil
  whole := framed.whole
  tabless := framed.tabless
  trimmed := framed.trimmed
  apart := framed.apart
  flush _ := framed.flush

theorem append (framed : Framed ls) (further : Framed others) : Framed (ls ++ others) where
  whole := List.forall_mem_append.mpr ⟨framed.whole, further.whole⟩
  tabless := List.forall_mem_append.mpr ⟨framed.tabless, further.tabless⟩
  trimmed := List.forall_mem_append.mpr ⟨framed.trimmed, further.trimmed⟩
  apart := List.isChain_append.mpr ⟨framed.apart, further.apart, fun last listed _ _ => .inl (framed.ends last listed)⟩
  flush := by
    obtain ⟨line, member, flush⟩ := framed.flush
    exact ⟨line, List.mem_append_left _ member, flush⟩
  opens := by
    obtain ⟨n, c, rest, more, rfl, prints⟩ := framed.opens
    exact ⟨n, c, rest, more ++ others, rfl, prints⟩
  ends := by
    rw [List.getLast?_append_of_ne_nil _ further.ne_nil]
    exact further.ends

theorem flatten {blocks : List (List (List Char))} (filled : blocks ≠ []) (each : ∀ ls ∈ blocks, Framed ls) :
    Framed blocks.flatten := by
  induction blocks with
  | nil => exact absurd rfl filled
  | cons first rest ih =>
    obtain ⟨own, others⟩ := List.forall_mem_cons.mp each
    by_cases empty : rest = []
    · simpa [empty] using own
    · exact own.append (ih empty others)

/-- Joining the texts of blocks joins the blocks. -/
theorem joinLines_map_joinLines {blocks : List (List (List Char))} (each : ∀ ls ∈ blocks, Framed ls) :
    joinLines (blocks.map joinLines) = joinLines blocks.flatten := by
  induction blocks with
  | nil => rfl
  | cons first rest ih =>
    obtain ⟨own, others⟩ := List.forall_mem_cons.mp each
    by_cases empty : rest = []
    · simp [empty]
    · rw [List.map_cons, joinLines_cons _ (by simpa using empty), ih others, List.flatten_cons,
        joinLines_append own.ne_nil (flatten empty others).ne_nil]

theorem joinLines_ne_nil (framed : Framed ls) : joinLines ls ≠ [] := by
  intro empty
  have own := lines_joinLines framed.whole framed.ne_nil
  rw [empty, lines_nil] at own
  exact framed.head_ne_nil [] (by rw [← own]; rfl) rfl

/-- Framed lines are their own block. -/
theorem block_joinLines (framed : Framed ls) (tabWidth : Nat) : block tabWidth (joinLines ls) = ls := by
  have own := framed.tidy.block_indented tabWidth 0
  rwa [indentLine_zero, List.map_id] at own

end Framed

section Block

variable (tabWidth : Nat) {cs : List Char}

theorem ne_newline_of_prints {c : Char} (prints : isBlankChar c = false) : c ≠ '\n' := by
  rintro rfl
  rw [isBlankChar_newline] at prints
  cases prints

theorem block_ends (ends : ∃ front c, cs = front ++ [c] ∧ isBlankChar c = false) :
    ∀ last ∈ (block tabWidth cs).getLast?, last ≠ [] := by
  obtain ⟨front, c, rfl, prints⟩ := ends
  obtain ⟨before, last, split⟩ := exists_lines_concat (ne_newline_of_prints prints) front
  unfold block
  dsimp only
  rw [getLast?_collapseEmpty, split, List.map_append, List.map_append, List.map_singleton, List.map_singleton,
    List.getLast?_concat]
  intro shown same
  have inked : isBlank (expandTabs tabWidth (last ++ [c])) = false :=
    (isBlank_expandTabs tabWidth _).trans (isBlank_of_prints prints last [])
  rw [← Option.mem_some_iff.mp same]
  exact shiftLine_ne_nil inked (commonIndentation_le (by simp) inked)

/-- Spaces and tabs. -/
def IsMargin (cs : List Char) : Prop :=
  ∀ c ∈ cs, c = ' ' ∨ c = '\t'

instance (cs : List Char) : Decidable (IsMargin cs) :=
  List.decidableBAll (fun c => c = ' ' ∨ c = '\t') cs

theorem exists_spaces_of_margin {margin : List Char} (plain : IsMargin margin) (width column : Nat) :
    ∃ n, expandTabsFrom width column margin = spaces n := by
  induction margin generalizing column with
  | nil => exact ⟨0, rfl⟩
  | cons c rest ih =>
    obtain ⟨own, others⟩ := List.forall_mem_cons.mp plain
    unfold expandTabsFrom
    split
    · dsimp only
      obtain ⟨n, further⟩ := ih others (column + (width - column % width))
      exact ⟨width - column % width + n, by rw [further, spaces, spaces, List.replicate_append_replicate, spaces]⟩
    · rename_i notTab
      obtain ⟨n, further⟩ := ih others (column + 1)
      exact ⟨n + 1, by rw [further, own.resolve_right notTab]; rfl⟩

theorem exists_line_of_margin {margin : List Char} {c : Char} (plain : IsMargin margin) (prints : isBlankChar c = false)
    (rest : List Char) : ∃ line more, lines (margin ++ c :: rest) = (margin ++ c :: line) :: more := by
  have whole : '\n' ∉ margin ++ [c] := by
    rw [List.mem_append, not_or]
    exact ⟨fun inside => by simpa using plain _ inside, by simpa using Ne.symm (ne_newline_of_prints prints)⟩
  obtain ⟨line, more, split⟩ := exists_lines_append whole rest
  exact ⟨line, more, by simpa using split⟩

/-- A margin in front of the first line becomes spaces. -/
theorem exists_lines_of_margin {margin : List Char} {c : Char} (plain : IsMargin margin)
    (prints : isBlankChar c = false) (rest : List Char) :
    ∃ n others more, (lines (margin ++ c :: rest)).map (expandTabs tabWidth) = (spaces n ++ c :: others) :: more := by
  have notTab : c ≠ '\t' := by
    rintro rfl
    exact absurd prints (by decide)
  obtain ⟨line, more, split⟩ := exists_line_of_margin plain prints rest
  obtain ⟨n, lead⟩ := exists_spaces_of_margin plain (max tabWidth 1) 0
  obtain ⟨behind, first⟩ := expandTabsFrom_append (max tabWidth 1) 0 margin (c :: line)
  refine ⟨n, expandTabsFrom (max tabWidth 1) (behind + 1) line, more.map (expandTabs tabWidth), ?_⟩
  rw [split, List.map_cons, expandTabs, first, lead, expandTabsFrom_cons notTab]

theorem block_opens {margin : List Char} {c : Char} (plain : IsMargin margin) (prints : isBlankChar c = false)
    (rest : List Char) :
    ∃ n others more, block tabWidth (margin ++ c :: rest) = (spaces n ++ c :: others) :: more := by
  obtain ⟨n, others, more, split⟩ := exists_lines_of_margin tabWidth plain prints rest
  have notSpace : c ≠ ' ' := by
    rintro rfl
    exact absurd prints (by decide)
  have inked := isBlank_of_prints prints (spaces n) others
  unfold block
  dsimp only
  rw [split]
  have first : spaces n ++ c :: others ∈ (spaces n ++ c :: others) :: more := List.mem_cons_self
  have inside := commonIndentation_le first inked
  generalize commonIndentation ((spaces n ++ c :: others) :: more) = common at inside
  rw [indentation_spaces_append, indentation, List.takeWhile_cons_of_neg (by simpa using notSpace),
    List.length_nil] at inside
  have shifted : shiftLine common 0 (spaces n ++ c :: others) = spaces (n - common) ++ c :: trimEnd others := by
    rw [shiftLine_zero_of_some inked, List.drop_append_of_le_length (by simpa [spaces] using inside), spaces,
      List.drop_replicate, trimEnd_append_cons prints, spaces]
  exact ⟨n - common, trimEnd others, collapseEmpty (more.map (shiftLine common 0)), by
    rw [List.map_cons, shifted, collapseEmpty_cons fun _ _ => .inl (by simp)]⟩

theorem framed_block {margin rest : List Char} {c : Char} (plain : IsMargin margin) (prints : isBlankChar c = false)
    (ends : ∃ front last, margin ++ c :: rest = front ++ [last] ∧ isBlankChar last = false) :
    Framed (block tabWidth (margin ++ c :: rest)) where
  whole _ := newline_not_mem_block tabWidth
  tabless _ := tab_not_mem_block tabWidth
  trimmed _ := trimEnd_of_mem_block tabWidth
  apart := isChain_collapseEmpty _
  flush := exists_flush_block tabWidth (isBlank_of_prints prints margin rest)
  opens := by
    obtain ⟨n, others, more, split⟩ := block_opens tabWidth plain prints rest
    exact ⟨n, c, others, more, split, prints⟩
  ends := block_ends tabWidth ends

end Block

/-! ### Texts that begin with a margin -/

/-- The first line that prints begins with spaces and tabs. -/
def Margined (cs : List Char) : Prop :=
  ∃ front margin c rest, cs = front ++ margin ++ c :: rest ∧ isBlank front = true ∧
    (front = [] ∨ ∃ before, front = before ++ ['\n']) ∧ IsMargin margin ∧ isBlankChar c = false

theorem margined_of_lines {cs : List Char} (inked : isBlank cs = false)
    (plain : ∀ line ∈ lines cs, isBlank line = false → IsMargin (line.takeWhile isBlankChar)) : Margined cs := by
  obtain ⟨lead, c, rest, rfl, blank, prints⟩ := exists_prints inked
  obtain ⟨margin, whole, ended⟩ := exists_last_line lead
  have still : '\n' ∉ margin ++ [c] := by simp [whole, Ne.symm (ne_newline_of_prints prints)]
  obtain ⟨line, more, split⟩ := exists_lines_append still rest
  rw [List.append_assoc, List.singleton_append, List.append_assoc, List.singleton_append] at split
  have first : margin ++ c :: line ∈ lines (margin ++ c :: rest) := split ▸ List.mem_cons_self
  have own : isBlank margin = true → margin ++ c :: line ∈ lines (lead ++ c :: rest) → IsMargin margin := by
    intro marginBlank member
    have taken := plain _ member (isBlank_of_prints prints margin line)
    rwa [List.takeWhile_append_of_pos (List.all_eq_true.mp marginBlank),
      List.takeWhile_cons_of_neg (by simp [prints]), List.append_nil] at taken
  rcases ended with rfl | ⟨before, rfl⟩
  · exact ⟨[], lead, c, rest, rfl, rfl, .inl rfl, own blank first, prints⟩
  · have parts : isBlank (before ++ ['\n']) = true ∧ isBlank margin = true := by
      rw [← Bool.and_eq_true_iff, ← isBlank_append]
      simpa using blank
    refine ⟨before ++ ['\n'], margin, c, rest, by simp, parts.1, .inr ⟨before, rfl⟩, own parts.2 ?_, prints⟩
    rw [List.append_assoc, List.cons_append, lines_append]
    exact List.mem_append_right _ first

theorem dropBlankLines_of_margin {margin rest : List Char} {c : Char} (plain : IsMargin margin)
    (prints : isBlankChar c = false) : dropBlankLines (margin ++ c :: rest) = margin ++ c :: rest := by
  obtain ⟨line, more, split⟩ := exists_line_of_margin plain prints rest
  have inked := isBlank_of_prints prints margin line
  rw [dropBlankLines, split, List.dropWhile_cons_of_neg (by simp [inked]), ← split, joinLines_lines]

theorem dropBlankLines_blank_append {before : List Char} (blank : isBlank before = true) (cs : List Char) :
    dropBlankLines (before ++ '\n' :: cs) = dropBlankLines cs := by
  have blanks : ∀ line ∈ lines before, isBlank line = true := by
    rw [← List.all_eq_true, ← isBlank_joinLines, joinLines_lines]
    exact blank
  rw [dropBlankLines, lines_append, List.dropWhile_append, List.dropWhile_eq_nil_iff.mpr blanks]
  rfl

/-- Without its blank edges, such a text is a block. -/
theorem framed_of_margined {cs : List Char} (margined : Margined cs) (tabWidth : Nat) :
    Framed (block tabWidth (trimBlankEdges cs)) := by
  obtain ⟨front, margin, c, rest, rfl, blank, opens, plain, prints⟩ := margined
  have kept : dropBlankLines (front ++ margin ++ c :: rest) = margin ++ c :: rest := by
    rcases opens with rfl | ⟨before, rfl⟩
    · exact dropBlankLines_of_margin plain prints
    · rw [isBlank_append, Bool.and_eq_true_iff] at blank
      rw [List.append_assoc, List.append_assoc, List.singleton_append, dropBlankLines_blank_append blank.1,
        dropBlankLines_of_margin plain prints]
  have ends := exists_trimEnd_eq_concat (isBlank_of_prints prints margin rest)
  rw [trimEnd_append_cons prints] at ends
  rw [trimBlankEdges, kept, trimEnd_append_cons prints]
  exact framed_block tabWidth plain prints ends

/-! ### Lines that keep their indentation -/

/-- A line moved to a column with its own indentation. -/
def settle (tabWidth columns : Nat) (line : List Char) : List Char :=
  shiftLine 0 columns (expandTabs tabWidth line)

/-- If a line has no indentation, then all lines keep theirs. -/
theorem reindent_of_flush {cs line : List Char} {tabWidth : Nat} (member : line ∈ lines cs)
    (prints : isBlank line = false) (flush : indentation (expandTabs tabWidth line) = 0) (columns : Nat) :
    reindent tabWidth columns cs = joinLines (collapseEmpty ((lines cs).map (settle tabWidth columns))) := by
  have zero : commonIndentation ((lines cs).map (expandTabs tabWidth)) = 0 :=
    commonIndentation_eq ⟨_, List.mem_map_of_mem member, (isBlank_expandTabs tabWidth line).trans prints, flush⟩
      fun _ _ _ => Nat.zero_le _
  unfold reindent
  dsimp only
  rw [zero, List.map_map]
  rfl

theorem settle_ne_nil {line : List Char} (prints : isBlank line = false) (tabWidth columns : Nat) :
    settle tabWidth columns line ≠ [] := by
  rw [settle, shiftLine_eq fun _ => Nat.zero_le _, ne_eq, indentLine_eq_nil]
  exact shiftLine_ne_nil ((isBlank_expandTabs tabWidth line).trans prints) (Nat.zero_le _)

theorem settle_of_blank {line : List Char} (blank : isBlank line = true) (tabWidth columns : Nat) :
    settle tabWidth columns line = [] :=
  if_pos ((isBlank_expandTabs tabWidth line).trans blank)

theorem settle_indentLine {line : List Char} (tabless : '\t' ∉ line) (trimmed : trimEnd line = line)
    (tabWidth columns own : Nat) :
    settle tabWidth columns (indentLine own line) = indentLine (columns + own) line := by
  rw [settle, expandTabs_of_not_mem (tab_not_mem_indentLine tabless own)]
  by_cases empty : line = []
  · rw [empty]
    rfl
  · have prints : isBlank line = false := by
      by_contra blank
      rw [← trimmed, trimEnd_of_blank (by simpa using blank)] at empty
      exact empty rfl
    have lead : isBlank (indentLine own line) = false := (isBlank_indentLine own line).trans prints
    rw [shiftLine_eq (fun _ => Nat.zero_le _), shiftLine_zero_of_some lead, List.drop_zero,
      trimEnd_indentLine trimmed, indentLine_indentLine]

/-- Framed lines stay as they are, wherever they are moved. -/
theorem Framed.map_settle {ls : List (List Char)} (framed : Framed ls) (tabWidth columns own : Nat) :
    (ls.map (indentLine own)).map (settle tabWidth columns) = ls.map (indentLine (columns + own)) := by
  rw [List.map_map]
  exact List.map_congr_left fun line member =>
    settle_indentLine (framed.tabless line member) (framed.trimmed line member) tabWidth columns own

theorem Framed.collapseEmpty_indented {ls : List (List Char)} (framed : Framed ls) (columns : Nat) :
    collapseEmpty (ls.map (indentLine columns)) = ls.map (indentLine columns) := by
  rw [collapseEmpty_map fun line => indentLine_eq_nil, collapseEmpty_of_isChain framed.apart]

end DocWeave.Text
