import DocWeave.Proofs.Text.Gist
import Mathlib.Data.List.Induction
import Mathlib.Data.List.TakeWhile

/-!
# Lines and their columns

Where the first line and the last line of a text are found, how far a line is indented, and what becomes of its tabs.
-/

namespace DocWeave.Text

/-! ### White space at the edges -/

/-- A text that is not blank, split at the first character that prints. -/
theorem exists_prints {cs : List Char} (inked : isBlank cs = false) :
    ∃ front c rest, cs = front ++ c :: rest ∧ isBlank front = true ∧ isBlankChar c = false := by
  induction cs with
  | nil => cases inked
  | cons c cs ih =>
    cases prints : isBlankChar c with
    | false => exact ⟨[], c, cs, rfl, rfl, prints⟩
    | true =>
      obtain ⟨front, d, rest, rfl, blank, further⟩ := ih (by simpa [isBlank, prints] using inked)
      exact ⟨c :: front, d, rest, rfl, by simpa [isBlank, prints] using blank, further⟩

theorem isBlank_of_prints {c : Char} (prints : isBlankChar c = false) (front rest : List Char) :
    isBlank (front ++ c :: rest) = false := by
  simp [isBlank, prints]

theorem trimEnd_of_blank {cs : List Char} (blank : isBlank cs = true) : trimEnd cs = [] := by
  rw [trimEnd, List.reverse_eq_nil_iff, List.dropWhile_eq_nil_iff]
  intro c member
  exact List.all_eq_true.mp blank c (List.mem_reverse.mp member)

/-- A trim at the end stops at a character that prints. -/
theorem trimEnd_append_cons {c : Char} (prints : isBlankChar c = false) (front rest : List Char) :
    trimEnd (front ++ c :: rest) = front ++ c :: trimEnd rest := by
  have split : (front ++ c :: rest).reverse = rest.reverse ++ c :: front.reverse := by simp
  rw [trimEnd, split, List.dropWhile_append, trimEnd]
  split
  · rename_i blank
    rw [List.dropWhile_cons_of_neg (by simp [prints]), List.isEmpty_iff.mp blank]
    simp
  · simp

theorem trimEnd_concat {c : Char} (prints : isBlankChar c = false) (front : List Char) :
    trimEnd (front ++ [c]) = front ++ [c] :=
  trimEnd_append_cons prints front []

theorem trimEnd_append {cs : List Char} (inked : isBlank cs = false) (front : List Char) :
    trimEnd (front ++ cs) = front ++ trimEnd cs := by
  obtain ⟨before, c, rest, rfl, _, prints⟩ := exists_prints inked
  rw [← List.append_assoc, trimEnd_append_cons prints, trimEnd_append_cons prints, List.append_assoc]

theorem exists_trimEnd_eq_concat {cs : List Char} (inked : isBlank cs = false) :
    ∃ front c, trimEnd cs = front ++ [c] ∧ isBlankChar c = false := by
  induction cs using List.reverseRecOn with
  | nil => cases inked
  | append_singleton front c ih =>
    cases prints : isBlankChar c with
    | false => exact ⟨front, c, trimEnd_concat prints front, prints⟩
    | true =>
      have shorter : trimEnd (front ++ [c]) = trimEnd front := by simp [trimEnd, prints]
      rw [shorter]
      exact ih (by simpa [isBlank, prints] using inked)

theorem trimEnd_trimEnd (cs : List Char) : trimEnd (trimEnd cs) = trimEnd cs := by
  cases blank : isBlank cs with
  | true => rw [trimEnd_of_blank blank, trimEnd_of_blank (by rfl)]
  | false =>
    obtain ⟨front, c, ends, prints⟩ := exists_trimEnd_eq_concat blank
    rw [ends, trimEnd_concat prints]

/-! ### Lines -/

theorem isBlank_joinLines (ls : List (List Char)) : isBlank (joinLines ls) = ls.all isBlank := by
  induction ls with
  | nil => rfl
  | cons line rest ih =>
    by_cases empty : rest = []
    · simp [empty]
    · rw [joinLines_cons line empty, List.all_cons, ← ih, isBlank_append]
      rfl

theorem mem_joinLines {c : Char} {line : List Char} {ls : List (List Char)} (member : line ∈ ls) (inside : c ∈ line) :
    c ∈ joinLines ls := by
  induction ls with
  | nil => cases member
  | cons first rest ih =>
    by_cases empty : rest = []
    · subst empty
      rwa [joinLines_singleton, ← List.mem_singleton.mp member]
    · rw [joinLines_cons first empty]
      rcases List.mem_cons.mp member with rfl | later
      · exact List.mem_append_left _ inside
      · exact List.mem_append_right _ (List.mem_cons_of_mem _ (ih later))

theorem exists_mem_of_mem_joinLines {c : Char} {ls : List (List Char)} (other : c ≠ '\n') (member : c ∈ joinLines ls) :
    ∃ line ∈ ls, c ∈ line := by
  induction ls with
  | nil => cases member
  | cons first rest ih =>
    by_cases empty : rest = []
    · rw [empty, joinLines_singleton] at member
      exact ⟨first, List.mem_cons_self, member⟩
    · rw [joinLines_cons first empty] at member
      rcases List.mem_append.mp member with own | later
      · exact ⟨first, List.mem_cons_self, own⟩
      · obtain ⟨line, listed, inside⟩ := ih ((List.mem_cons.mp later).resolve_left other)
        exact ⟨line, List.mem_cons_of_mem _ listed, inside⟩

theorem joinLines_append {ls others : List (List Char)} (first : ls ≠ []) (second : others ≠ []) :
    joinLines (ls ++ others) = joinLines ls ++ '\n' :: joinLines others := by
  induction ls with
  | nil => exact absurd rfl first
  | cons line rest ih =>
    by_cases empty : rest = []
    · rw [empty, List.singleton_append, joinLines_cons line second, joinLines_singleton]
    · rw [List.cons_append, joinLines_cons line (by simp [empty]), joinLines_cons line empty, ih empty,
        List.append_assoc, List.cons_append]

/-- The last line of a text goes on with the first line of what is put behind it. -/
theorem joinLines_concat_append (front : List (List Char)) (last first : List Char) (more : List (List Char)) :
    joinLines (front ++ [last]) ++ joinLines (first :: more) = joinLines (front ++ (last ++ first) :: more) := by
  induction front with
  | nil =>
    by_cases empty : more = []
    · simp [empty]
    · rw [List.nil_append, List.nil_append, joinLines_singleton, joinLines_cons _ empty, joinLines_cons _ empty,
        List.append_assoc]
  | cons line front ih =>
    rw [List.cons_append, List.cons_append, joinLines_cons line (by simp), joinLines_cons line (by simp), ← ih,
      List.append_assoc, List.cons_append]

theorem lines_append_lines {cs ds : List Char} {front more : List (List Char)} {last first : List Char}
    (before : lines cs = front ++ [last]) (behind : lines ds = first :: more) :
    lines (cs ++ ds) = front ++ (last ++ first) :: more := by
  have own : ∀ line ∈ front ++ [last], '\n' ∉ line := fun line member => not_mem_of_mem_lines (before ▸ member)
  have others : ∀ line ∈ first :: more, '\n' ∉ line := fun line member => not_mem_of_mem_lines (behind ▸ member)
  rw [← joinLines_lines cs, ← joinLines_lines ds, before, behind, joinLines_concat_append]
  refine lines_joinLines ?_ (by simp)
  intro line member
  rcases List.mem_append.mp member with early | late
  · exact own line (List.mem_append_left _ early)
  · rcases List.mem_cons.mp late with rfl | later
    · simp [own last (by simp), others first List.mem_cons_self]
    · exact others line (List.mem_cons_of_mem _ later)

theorem exists_joinLines_concat (ls : List (List Char)) (line : List Char) (c : Char) :
    ∃ front, joinLines (ls ++ [line ++ [c]]) = front ++ [c] := by
  by_cases empty : ls = []
  · exact ⟨line, by rw [empty, List.nil_append, joinLines_singleton]⟩
  · exact ⟨joinLines ls ++ '\n' :: line, by simp [joinLines_append empty]⟩

theorem lines_joinTexts {texts : List (List Char)} (filled : texts ≠ []) :
    lines (joinLines texts) = texts.flatMap lines := by
  induction texts with
  | nil => exact absurd rfl filled
  | cons text rest ih =>
    by_cases empty : rest = []
    · simp [empty]
    · rw [joinLines_cons text empty, lines_append, ih empty, List.flatMap_cons]

theorem exists_lines_append {front : List Char} (whole : '\n' ∉ front) (rest : List Char) :
    ∃ line more, lines (front ++ rest) = (front ++ line) :: more := by
  have split := joinLines_lines rest
  have inside : ∀ line ∈ lines rest, '\n' ∉ line := fun _ => not_mem_of_mem_lines
  generalize lines rest = ls at split inside
  cases ls with
  | nil =>
    rw [← split, joinLines_nil, List.append_nil, lines_of_not_mem whole]
    exact ⟨[], [], by rw [List.append_nil]⟩
  | cons line others =>
    have still : '\n' ∉ front ++ line := by simp [whole, inside line List.mem_cons_self]
    by_cases empty : others = []
    · rw [← split, empty, joinLines_singleton, lines_of_not_mem still]
      exact ⟨line, [], rfl⟩
    · rw [← split, joinLines_cons line empty, ← List.append_assoc, lines_append, lines_of_not_mem still]
      exact ⟨line, _, rfl⟩

theorem exists_lines_concat {c : Char} (other : c ≠ '\n') (front : List Char) :
    ∃ before last, lines (front ++ [c]) = before ++ [last ++ [c]] := by
  obtain ⟨last, whole, rfl | ⟨before, rfl⟩⟩ := exists_last_line front
  · exact ⟨[], front, lines_of_not_mem (by simp [whole, Ne.symm other])⟩
  · have still : '\n' ∉ last ++ [c] := by simp [whole, Ne.symm other]
    refine ⟨lines before, last, ?_⟩
    rw [List.append_assoc, List.cons_append, lines_append, lines_of_not_mem still]

/-! ### Indentation -/

/-- A line with more spaces in front. An empty line stays empty. -/
def indentLine (columns : Nat) (line : List Char) : List Char :=
  if line = [] then [] else spaces columns ++ line

@[simp]
theorem indentLine_nil (columns : Nat) : indentLine columns [] = [] := rfl

@[simp]
theorem indentLine_zero : indentLine 0 = id := by
  funext line
  unfold indentLine
  split <;> simp_all [spaces]

theorem indentLine_of_ne {line : List Char} (filled : line ≠ []) (columns : Nat) :
    indentLine columns line = spaces columns ++ line :=
  if_neg filled

theorem indentLine_eq_nil {columns : Nat} {line : List Char} : indentLine columns line = [] ↔ line = [] := by
  unfold indentLine
  split <;> simp_all

theorem indentLine_indentLine (more columns : Nat) (line : List Char) :
    indentLine more (indentLine columns line) = indentLine (more + columns) line := by
  by_cases empty : line = []
  · rw [empty]
    rfl
  · rw [indentLine_of_ne empty, indentLine_of_ne empty, indentLine_of_ne (by simp [empty]), ← List.append_assoc,
      spaces, spaces, List.replicate_append_replicate, spaces]

theorem newline_not_mem_indentLine {line : List Char} (whole : '\n' ∉ line) (columns : Nat) :
    '\n' ∉ indentLine columns line := by
  unfold indentLine
  split
  · exact List.not_mem_nil
  · simp [newline_not_mem_spaces, whole]

theorem eq_spaces_append {n : Nat} {line : List Char} (inside : n ≤ indentation line) :
    line = spaces n ++ line.drop n := by
  have lead : line.take n = spaces n := by
    have whole : line.take n = (line.takeWhile (· = ' ')).take n := by
      conv => lhs; rw [← List.takeWhile_append_dropWhile (p := (· = ' ')) (l := line)]
      exact List.take_append_of_le_length inside
    rw [whole, spaces, List.eq_replicate_iff]
    refine ⟨List.length_take_of_le inside, fun c member => ?_⟩
    simpa using List.all_eq_true.mp List.all_takeWhile c (List.mem_of_mem_take member)
  rw [← lead, List.take_append_drop]

theorem indentation_spaces_append (n : Nat) (line : List Char) :
    indentation (spaces n ++ line) = n + indentation line := by
  induction n with
  | zero => simp [spaces]
  | succ n ih =>
    rw [spaces, List.replicate_succ, List.cons_append, indentation, List.takeWhile_cons_of_pos (by simp),
      List.length_cons, ← indentation, ← spaces, ih]
    omega

theorem stripColumns_spaces_append (columns : Nat) (line : List Char) :
    stripColumns columns (spaces columns ++ line) = line := by
  rw [stripColumns, indentation_spaces_append, Nat.min_eq_right (Nat.le_add_right _ _)]
  exact List.drop_left' (by simp [spaces])

theorem isBlank_drop {n : Nat} {line : List Char} (inside : n ≤ indentation line) :
    isBlank (line.drop n) = isBlank line := by
  conv => rhs; rw [eq_spaces_append inside]
  rw [isBlank_append, isBlank_spaces, Bool.true_and]

/-- What stands behind a character that prints does not count. -/
theorem indentation_trimEnd {line : List Char} (inked : isBlank line = false) :
    indentation (trimEnd line) = indentation line := by
  obtain ⟨front, c, rest, rfl, _, prints⟩ := exists_prints inked
  have other : ¬ (c = ' ') := by
    rintro rfl
    rw [isBlankChar_space] at prints
    cases prints
  rw [trimEnd_append_cons prints, indentation, indentation, List.takeWhile_append, List.takeWhile_append,
    List.takeWhile_cons_of_neg (by simpa using other), List.takeWhile_cons_of_neg (by simpa using other)]

/-! ### Tabs -/

theorem expandTabsFrom_append (width column : Nat) (front back : List Char) :
    ∃ behind, expandTabsFrom width column (front ++ back) =
      expandTabsFrom width column front ++ expandTabsFrom width behind back := by
  induction front generalizing column with
  | nil => exact ⟨column, rfl⟩
  | cons c front ih =>
    simp only [List.cons_append, expandTabsFrom]
    split
    · obtain ⟨behind, rest⟩ := ih (column + (width - column % width))
      exact ⟨behind, by rw [rest, List.append_assoc]⟩
    · obtain ⟨behind, rest⟩ := ih (column + 1)
      exact ⟨behind, by rw [rest, List.cons_append]⟩

theorem expandTabsFrom_cons {c : Char} (other : c ≠ '\t') (width column : Nat) (rest : List Char) :
    expandTabsFrom width column (c :: rest) = c :: expandTabsFrom width (column + 1) rest :=
  if_neg other

theorem expandTabs_of_not_mem {line : List Char} (tabless : '\t' ∉ line) (tabWidth : Nat) :
    expandTabs tabWidth line = line := by
  rw [expandTabs]
  generalize 0 = column
  induction line generalizing column with
  | nil => rfl
  | cons c rest ih =>
    obtain ⟨other, further⟩ := not_or.mp (mt List.mem_cons.mpr tabless)
    rw [expandTabsFrom_cons (Ne.symm other), ih further]

theorem tab_not_mem_expandTabs (tabWidth : Nat) (line : List Char) : '\t' ∉ expandTabs tabWidth line := by
  rw [expandTabs]
  generalize 0 = column
  induction line generalizing column with
  | nil => exact List.not_mem_nil
  | cons c rest ih =>
    unfold expandTabsFrom
    split
    · simp [spaces, ih]
    · rename_i other
      rw [List.mem_cons, not_or]
      exact ⟨Ne.symm other, ih _⟩

theorem isBlank_expandTabsFrom (width column : Nat) (line : List Char) :
    isBlank (expandTabsFrom width column line) = isBlank line := by
  induction line generalizing column with
  | nil => rfl
  | cons c rest ih =>
    unfold expandTabsFrom
    split
    · rename_i tab
      rw [isBlank_append, isBlank_spaces, Bool.true_and, ih, tab]
      rfl
    · exact congrArg (isBlankChar c && ·) (ih _)

theorem isBlank_expandTabs (tabWidth : Nat) (line : List Char) : isBlank (expandTabs tabWidth line) = isBlank line :=
  isBlank_expandTabsFrom (max tabWidth 1) 0 line

end DocWeave.Text
