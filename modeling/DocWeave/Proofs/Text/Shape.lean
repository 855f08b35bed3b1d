import DocWeave.Proofs.Text.Tidy
import Mathlib.Order.Bounds.Defs

/-!
# The shape of a moved block

A moved text shows the lines of the text that are not blank, one for one. Their tabs have become spaces, they end
with a character that prints, and all of them have moved by the same number of spaces, so that the smallest
indentation is the column to which the text has been moved. Where blank lines have been, there is one empty line.
-/

namespace DocWeave.Text

/-! ### Tab stops -/

/-- Behind a column, the line is shown with every tab as spaces up to the next multiple of the width. -/
inductive Expands (width : Nat) : (column : Nat) → (line shown : List Char) → Prop
  | done {column} : Expands width column [] []
  | char {column c line shown} (other : c ≠ '\t') (further : Expands width (column + 1) line shown) :
      Expands width column (c :: line) (c :: shown)
  | tab {column stop line shown} (next : IsLeast {n | column < n ∧ width ∣ n} stop)
      (further : Expands width stop line shown) :
      Expands width column ('\t' :: line) (spaces (stop - column) ++ shown)

theorem isLeast_stop {width : Nat} (wide : 0 < width) (column : Nat) :
    IsLeast {n | column < n ∧ width ∣ n} (column + (width - column % width)) := by
  have inside : column % width < width := Nat.mod_lt _ wide
  have stop : column + (width - column % width) = width * (column / width + 1) := by
    have whole := Nat.div_add_mod column width
    rw [Nat.mul_succ]
    omega
  refine ⟨⟨by omega, stop ▸ Nat.dvd_mul_right _ _⟩, ?_⟩
  rintro _ ⟨behind, times, rfl⟩
  rw [stop]
  exact Nat.mul_le_mul_left _ (Nat.div_lt_of_lt_mul behind)

theorem expands_expandTabsFrom {width : Nat} (wide : 0 < width) (column : Nat) (line : List Char) :
    Expands width column line (expandTabsFrom width column line) := by
  induction line generalizing column with
  | nil => exact .done
  | cons c line ih =>
    unfold expandTabsFrom
    split
    · rename_i tab
      have stop := isLeast_stop wide column
      have step := Expands.tab stop (ih _)
      rw [Nat.add_sub_cancel_left] at step
      exact tab ▸ step
    · rename_i other
      exact .char other (ih _)

theorem expands_expandTabs (tabWidth : Nat) (line : List Char) :
    Expands (max tabWidth 1) 0 line (expandTabs tabWidth line) :=
  expands_expandTabsFrom (by omega) 0 line

/-! ### Lines that print -/

/-- The lines that are not blank. -/
def printing (ls : List (List Char)) : List (List Char) :=
  ls.filter (!isBlank ·)

theorem mem_printing {ls : List (List Char)} {line : List Char} :
    line ∈ printing ls ↔ line ∈ ls ∧ isBlank line = false := by
  simp [printing]

theorem printing_map {f : List Char → List Char} {ls : List (List Char)}
    (same : ∀ line ∈ ls, isBlank (f line) = isBlank line) : printing (ls.map f) = (printing ls).map f := by
  rw [printing, List.filter_map, printing]
  congr 1
  apply List.filter_congr
  intro line member
  rw [Function.comp_apply, same line member]

theorem printing_collapseEmpty (ls : List (List Char)) : printing (collapseEmpty ls) = printing ls := by
  induction ls using collapseEmpty.induct with
  | case1 ls ih =>
    rw [collapseEmpty, ih]
    rfl
  | case2 line ls other ih =>
    rw [collapseEmpty]
    · rw [printing, List.filter_cons, printing, List.filter_cons, ← printing, ih, printing]
    · exact other
  | case3 => rfl

/-- Between the line that prints in place `k` and the next one that prints stand the lines of the gap. -/
def Between (ls : List (List Char)) (k : Nat) (gap : List (List Char)) : Prop :=
  ∃ before line next after, ls = before ++ line :: (gap ++ next :: after) ∧ (printing before).length = k ∧
    isBlank line = false ∧ isBlank next = false ∧ ∀ other ∈ gap, isBlank other = true

theorem Between.map {f : List Char → List Char} {ls gap : List (List Char)} {k : Nat}
    (same : ∀ line ∈ ls, isBlank (f line) = isBlank line) (between : Between ls k gap) :
    Between (ls.map f) k (gap.map f) := by
  obtain ⟨before, line, next, after, rfl, place, first, second, blank⟩ := between
  refine ⟨before.map f, f line, f next, after.map f, by simp, ?_, ?_, ?_, ?_⟩
  · rw [printing_map fun line member => same line (List.mem_append_left _ member), List.length_map, place]
  · rw [same line (by simp), first]
  · rw [same next (by simp), second]
  · rintro _ member
    obtain ⟨other, listed, rfl⟩ := List.mem_map.mp member
    rw [same other (by simp [listed]), blank other listed]

theorem Between.collapse {ls gap : List (List Char)} {k : Nat} (between : Between ls k gap) :
    Between (collapseEmpty ls) k (collapseEmpty gap) := by
  obtain ⟨before, line, next, after, rfl, place, first, second, blank⟩ := between
  refine ⟨collapseEmpty before, line, next, collapseEmpty after, ?_, ?_, first, second,
    fun other member => blank other (mem_of_mem_collapseEmpty member)⟩
  · rw [collapseEmpty_append_cons (ne_nil_of_some first), collapseEmpty_append_cons (ne_nil_of_some second)]
  · rw [printing_collapseEmpty, place]

theorem collapseEmpty_of_empty {gap : List (List Char)} (empty : ∀ line ∈ gap, line = []) :
    collapseEmpty gap = if gap = [] then [] else [[]] := by
  induction gap using collapseEmpty.induct with
  | case1 ls ih =>
    rw [collapseEmpty, ih fun line member => empty line (List.mem_cons_of_mem _ member), if_neg (by simp),
      if_neg (by simp)]
  | case2 line ls other ih =>
    obtain ⟨first, others⟩ := List.forall_mem_cons.mp empty
    obtain rfl : ls = [] := by
      cases ls with
      | nil => rfl
      | cons next rest => exact absurd (others next List.mem_cons_self ▸ rfl) (other rest first)
    rw [first]
    rfl
  | case3 => rfl

/-! ### Moved texts -/

/-- The source is shown with its tabs as spaces, without the white space at its end, and with `columns` leading spaces
in the place of the first `common` ones. -/
def Shifted (tabWidth common columns : Nat) (source shown : List Char) : Prop :=
  ∃ expanded body tail, Expands (max tabWidth 1) 0 source expanded ∧
    expanded = spaces (indentation expanded) ++ body ++ tail ∧ isBlank tail = true ∧
    shown = spaces (indentation shown) ++ body ∧ indentation shown + common = indentation expanded + columns

/-- What the text `cs` looks like if it is moved to a column. -/
structure Shape (tabWidth columns : Nat) (cs moved : List Char) : Prop where
  tabless : '\t' ∉ moved
  trimmed : ∀ line ∈ lines moved, ∀ last ∈ line.getLast?, isBlankChar last = false
  apart : (lines moved).IsChain Apart
  /-- All lines that print are there, and all of them lose the same number of spaces. -/
  printed : ∃ common, List.Forall₂ (Shifted tabWidth common columns) (printing (lines cs)) (printing (lines moved))
  least : printing (lines cs) ≠ [] → IsLeast {n | ∃ line ∈ printing (lines moved), indentation line = n} columns
  between : ∀ k gap, Between (lines cs) k gap → Between (lines moved) k (if gap = [] then [] else [[]])

theorem shifted_shiftLine {tabWidth common columns : Nat} {line : List Char} (inked : isBlank line = false)
    (inside : common ≤ indentation (expandTabs tabWidth line)) :
    Shifted tabWidth common columns line (shiftLine common columns (expandTabs tabWidth line)) := by
  have prints : isBlank (expandTabs tabWidth line) = false := (isBlank_expandTabs tabWidth line).trans inked
  have expands := expands_expandTabs tabWidth line
  generalize expandTabs tabWidth line = expanded at inside prints expands
  obtain ⟨tail, split, blank⟩ := exists_eq_trimEnd_append (expanded.drop (indentation expanded))
  refine ⟨expanded, trimEnd (expanded.drop (indentation expanded)), tail, expands, ?_, blank, ?_, ?_⟩
  · rw [List.append_assoc, ← split]
    exact eq_spaces_append (Nat.le_refl _)
  · rw [indentation_shiftLine prints inside]
    exact shiftLine_of_some prints inside
  · rw [indentation_shiftLine prints inside]
    omega

section Reindent

variable (tabWidth columns : Nat) (cs : List Char)

/-- The indentation that all lines of a text have once its tabs are expanded. -/
def margin (tabWidth : Nat) (cs : List Char) : Nat :=
  commonIndentation ((lines cs).map (expandTabs tabWidth))

theorem margin_le {line : List Char} (member : line ∈ printing (lines cs)) :
    margin tabWidth cs ≤ indentation (expandTabs tabWidth line) := by
  obtain ⟨listed, prints⟩ := mem_printing.mp member
  exact commonIndentation_le (List.mem_map_of_mem listed) ((isBlank_expandTabs tabWidth line).trans prints)

theorem exists_indentation_eq_margin (filled : printing (lines cs) ≠ []) :
    ∃ line ∈ printing (lines cs), indentation (expandTabs tabWidth line) = margin tabWidth cs := by
  obtain ⟨line, member⟩ := List.exists_mem_of_ne_nil _ filled
  obtain ⟨listed, prints⟩ := mem_printing.mp member
  obtain ⟨_, among, shows, same⟩ := exists_indentation_eq
    ⟨_, List.mem_map_of_mem listed, (isBlank_expandTabs tabWidth line).trans prints⟩
  obtain ⟨lowest, known, rfl⟩ := List.mem_map.mp among
  exact ⟨lowest, mem_printing.mpr ⟨known, (isBlank_expandTabs tabWidth lowest).symm.trans shows⟩, same⟩

theorem printing_reindent :
    printing (lines (reindent tabWidth columns cs)) =
      (printing (lines cs)).map fun line => shiftLine (margin tabWidth cs) columns (expandTabs tabWidth line) := by
  have expanded := printing_map fun line (_ : line ∈ lines cs) => isBlank_expandTabs tabWidth line
  have shifted := printing_map (f := shiftLine (margin tabWidth cs) 0)
    fun line (member : line ∈ (lines cs).map (expandTabs tabWidth)) => isBlank_shiftLine (commonIndentation_le member)
  rw [lines_reindent, printing_map fun line _ => isBlank_indentLine columns line, block, printing_collapseEmpty,
    ← margin, shifted, expanded, List.map_map, List.map_map]
  apply List.map_congr_left
  intro line member
  exact (shiftLine_eq fun _ => margin_le tabWidth cs member).symm

theorem forall₂_shifted_reindent :
    List.Forall₂ (Shifted tabWidth (margin tabWidth cs) columns) (printing (lines cs))
      (printing (lines (reindent tabWidth columns cs))) := by
  rw [printing_reindent, List.forall₂_map_right_iff, List.forall₂_same]
  intro line member
  exact shifted_shiftLine (mem_printing.mp member).2 (margin_le tabWidth cs member)

theorem isLeast_indentation_reindent (filled : printing (lines cs) ≠ []) :
    IsLeast {n | ∃ line ∈ printing (lines (reindent tabWidth columns cs)), indentation line = n} columns := by
  have shown : ∀ line ∈ printing (lines cs),
      indentation (shiftLine (margin tabWidth cs) columns (expandTabs tabWidth line)) =
        columns + (indentation (expandTabs tabWidth line) - margin tabWidth cs) := fun line member =>
    indentation_shiftLine ((isBlank_expandTabs tabWidth line).trans (mem_printing.mp member).2)
      (margin_le tabWidth cs member)
  rw [printing_reindent]
  constructor
  · obtain ⟨lowest, member, same⟩ := exists_indentation_eq_margin tabWidth cs filled
    refine ⟨_, List.mem_map_of_mem member, ?_⟩
    rw [shown lowest member, same, Nat.sub_self, Nat.add_zero]
  · rintro _ ⟨_, among, rfl⟩
    obtain ⟨line, member, rfl⟩ := List.mem_map.mp among
    rw [shown line member]
    exact Nat.le_add_right _ _

theorem between_reindent {k : Nat} {gap : List (List Char)} (between : Between (lines cs) k gap) :
    Between (lines (reindent tabWidth columns cs)) k (if gap = [] then [] else [[]]) := by
  have blank : ∀ line ∈ gap, isBlank line = true := by
    obtain ⟨_, _, _, _, _, _, _, _, blank⟩ := between
    exact blank
  -- No step of the move changes which lines are blank, so the gap goes along with the text.
  have expanded := between.map fun line _ => isBlank_expandTabs tabWidth line
  have shifted := expanded.map (f := shiftLine (margin tabWidth cs) 0)
    fun line member => isBlank_shiftLine (commonIndentation_le member)
  have moved := shifted.collapse.map fun line _ => isBlank_indentLine columns line
  have empty : ∀ line ∈ (gap.map (expandTabs tabWidth)).map (shiftLine (margin tabWidth cs) 0), line = [] := by
    intro line member
    obtain ⟨expanded, listed, rfl⟩ := List.mem_map.mp member
    obtain ⟨source, known, rfl⟩ := List.mem_map.mp listed
    exact shiftLine_of_blank ((isBlank_expandTabs tabWidth source).trans (blank source known))
  have kept : (if (gap.map (expandTabs tabWidth)).map (shiftLine (margin tabWidth cs) 0) = [] then [] else [[]]).map
      (indentLine columns) = if gap = [] then [] else [[]] := by
    by_cases adjacent : gap = [] <;> simp [adjacent]
  rwa [collapseEmpty_of_empty empty, kept, margin, ← block, ← lines_reindent] at moved

theorem isBlankChar_getLast?_reindent {line : List Char} (member : line ∈ lines (reindent tabWidth columns cs)) :
    ∀ last ∈ line.getLast?, isBlankChar last = false := by
  rw [lines_reindent] at member
  obtain ⟨own, listed, rfl⟩ := List.mem_map.mp member
  exact isBlankChar_getLast? (trimEnd_indentLine (trimEnd_of_mem_block tabWidth listed) columns)

theorem isChain_reindent : (lines (reindent tabWidth columns cs)).IsChain Apart := by
  rw [lines_reindent, List.isChain_map]
  apply (isChain_collapseEmpty _).imp
  intro line next apart
  exact apart.imp (mt indentLine_eq_nil.mp) (mt indentLine_eq_nil.mp)

theorem tab_not_mem_reindent : '\t' ∉ reindent tabWidth columns cs := by
  rw [reindent_eq]
  intro tab
  obtain ⟨_, member, inside⟩ := exists_mem_of_mem_joinLines (by decide) tab
  obtain ⟨line, listed, rfl⟩ := List.mem_map.mp member
  exact tab_not_mem_indentLine (tab_not_mem_block tabWidth listed) columns inside

/-- A text keeps its lines when it is moved, but for the spaces around them and the runs of blank lines. -/
theorem reindent_keeps_shape : Shape tabWidth columns cs (reindent tabWidth columns cs) where
  tabless := tab_not_mem_reindent tabWidth columns cs
  trimmed _ := isBlankChar_getLast?_reindent tabWidth columns cs
  apart := isChain_reindent tabWidth columns cs
  printed := ⟨margin tabWidth cs, forall₂_shifted_reindent tabWidth columns cs⟩
  least := isLeast_indentation_reindent tabWidth columns cs
  between _ _ := between_reindent tabWidth columns cs

end Reindent

example : reindent 4 2 "\tx\n\n \n  y\tz".toList = "    x\n\n  y z".toList := by
  decide +kernel

end DocWeave.Text
