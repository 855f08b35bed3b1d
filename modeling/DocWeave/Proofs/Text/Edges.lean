import DocWeave.Text.Block

/-!
# Lines and blank edges

A text is its lines put together again. Trimming takes a text apart without changing what stays, and takes
nothing but white space.
-/

namespace DocWeave.Text

theorem isBlank_append {cs ds : List Char} : isBlank (cs ++ ds) = (isBlank cs && isBlank ds) := by
  simp [isBlank]

theorem isBlankChar_newline : isBlankChar '\n' = true := by decide

theorem isBlankChar_space : isBlankChar ' ' = true := by decide

/-! ### Lines -/

@[simp]
theorem joinLines_nil : joinLines [] = [] := rfl

@[simp]
theorem joinLines_singleton (line : List Char) : joinLines [line] = line := by
  simp [joinLines]

theorem joinLines_cons (line : List Char) {ls : List (List Char)} (more : ls ≠ []) :
    joinLines (line :: ls) = line ++ '\n' :: joinLines ls := by
  rw [joinLines, List.intercalate_cons_of_ne_nil more]
  simp [joinLines]

theorem joinLines_lines (cs : List Char) : joinLines (lines cs) = cs :=
  List.intercalate_splitOn '\n'

theorem lines_joinLines {ls : List (List Char)} (whole : ∀ line ∈ ls, '\n' ∉ line) (filled : ls ≠ []) :
    lines (joinLines ls) = ls :=
  List.splitOn_intercalate '\n' whole filled

@[simp]
theorem lines_nil : lines [] = [[]] := rfl

theorem lines_append (before after : List Char) :
    lines (before ++ '\n' :: after) = lines before ++ lines after :=
  List.splitOn_append_cons_self before after

theorem lines_of_not_mem {line : List Char} (whole : '\n' ∉ line) : lines line = [line] :=
  List.splitOn_eq_singleton whole

theorem not_mem_of_mem_lines {cs line : List Char} (member : line ∈ lines cs) : '\n' ∉ line := by
  induction cs generalizing line with
  | nil =>
    rw [lines_nil, List.mem_singleton] at member
    simp [member]
  | cons c cs ih =>
    rw [lines, List.splitOn_cons_eq_if_modifyHead] at member
    split at member
    · rcases List.mem_cons.mp member with rfl | later
      · simp
      · exact ih later
    · rename_i other
      cases split : cs.splitOn '\n' with
      | nil => exact absurd split (List.splitOn_ne_nil '\n' cs)
      | cons first rest =>
        rw [split, List.modifyHead_cons] at member
        rcases List.mem_cons.mp member with rfl | later
        · have inside : '\n' ∉ first := ih (by simp [lines, split])
          have unequal : '\n' ≠ c := by
            rintro rfl
            exact other (by simp)
          simp [inside, unequal]
        · exact ih (by simp [lines, split, later])

/-! ### Trimming -/

/-- What a trim at the end takes is blank. -/
theorem exists_eq_trimEnd_append (cs : List Char) :
    ∃ tail, cs = trimEnd cs ++ tail ∧ isBlank tail = true := by
  refine ⟨(cs.reverse.takeWhile isBlankChar).reverse, ?_, ?_⟩
  · rw [trimEnd, ← List.reverse_append, List.takeWhile_append_dropWhile, List.reverse_reverse]
  · rw [isBlank, List.all_reverse]
    exact List.all_takeWhile

theorem exists_eq_append_trimStart (cs : List Char) :
    ∃ front, cs = front ++ trimStart cs ∧ isBlank front = true :=
  ⟨cs.takeWhile isBlankChar, List.takeWhile_append_dropWhile.symm, List.all_takeWhile⟩

theorem exists_joinLines_eq_append (ls : List (List Char)) :
    ∃ front, joinLines ls = front ++ joinLines (ls.dropWhile isBlank) ∧ isBlank front = true := by
  induction ls with
  | nil => exact ⟨[], by simp, rfl⟩
  | cons line rest ih =>
    by_cases blank : isBlank line = true
    · rw [List.dropWhile_cons_of_pos blank]
      by_cases more : rest = []
      · exact ⟨line, by simp [more], blank⟩
      · obtain ⟨front, split, frontBlank⟩ := ih
        refine ⟨line ++ '\n' :: front, ?_, ?_⟩
        · rw [joinLines_cons _ more, split]
          simp
        · rw [isBlank_append, blank]
          simpa [isBlank, isBlankChar_newline] using frontBlank
    · exact ⟨[], by simp [blank], rfl⟩

theorem exists_eq_append_dropBlankLines (cs : List Char) :
    ∃ front, cs = front ++ dropBlankLines cs ∧ isBlank front = true := by
  have split := exists_joinLines_eq_append (lines cs)
  rwa [joinLines_lines] at split

end DocWeave.Text
