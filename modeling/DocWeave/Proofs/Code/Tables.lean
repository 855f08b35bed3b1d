import DocWeave.Proofs.Code.Gist
import DocWeave.Proofs.Code.Initializer
import DocWeave.Proofs.Text.Trim

/-!
# The text of tables

Lines at levels are known to the last space. The rows of a struct stand in columns, so its text is told up to white
space: a row for each field, in the order of the layout.
-/

namespace DocWeave.Code

open DocWeave.Text

/-! ### Lines at levels -/

/-- The text of lines, each at its level of indentation. -/
def sheet (width : Nat) (ls : List (Nat × String)) : List Char :=
  ls.flatMap fun entry => List.replicate (entry.1 * width) ' ' ++ entry.2.toList ++ ['\n']

theorem sheet_append (width : Nat) (ls others : List (Nat × String)) :
    sheet width (ls ++ others) = sheet width ls ++ sheet width others :=
  List.flatMap_append

theorem toList_lineText (indent : Indent) {s : String} (filled : s ≠ "") :
    (Builder.lineText indent s).toList = sheet indent.width [(indent.depth, s)] := by
  rw [Builder.lineText, if_neg filled]
  simp [sheet, Indent.lead, Indent.columns, spaces]

section

variable (tabWidth : Nat) (indent : Indent) (steps : List Step)

theorem toList_outputAll_line {s : String} (filled : s ≠ "") :
    (Step.outputAll tabWidth indent (.line s :: steps)).toList =
      sheet indent.width [(indent.depth, s)] ++ (Step.outputAll tabWidth indent steps).toList := by
  rw [Step.outputAll, String.toList_append, Step.output, toList_lineText indent filled]

theorem toList_outputAll_blank :
    (Step.outputAll tabWidth indent (.blank :: steps)).toList =
      sheet indent.width [(0, "")] ++ (Step.outputAll tabWidth indent steps).toList := by
  rw [Step.outputAll, String.toList_append, Step.output]
  simp [sheet]

theorem toList_outputAll_indented (body : List Step) :
    (Step.outputAll tabWidth indent (.indented body :: steps)).toList =
      (Step.outputAll tabWidth indent.enter body).toList ++ (Step.outputAll tabWidth indent steps).toList := by
  rw [Step.outputAll, String.toList_append, Step.output]

theorem toList_outputAll_lines {ls : List String} (filled : ∀ s ∈ ls, s ≠ "") :
    (Step.outputAll tabWidth indent (ls.map .line)).toList = sheet indent.width (ls.map (indent.depth, ·)) := by
  induction ls with
  | nil => rfl
  | cons s rest ih =>
    obtain ⟨first, others⟩ := List.forall_mem_cons.mp filled
    rw [List.map_cons, toList_outputAll_line tabWidth indent _ first, ih others, ← sheet_append]
    rfl

end

/-! ### Separators -/

theorem ink_separated (separator : String) (texts : List String) :
    ink (separator.intercalate texts).toList =
      (ink separator.toList).intercalate (texts.map fun text => ink text.toList) := by
  rw [String.toList_intercalate]
  induction texts with
  | nil => rfl
  | cons text rest ih =>
    cases rest with
    | nil => simp
    | cons next others =>
      simp only [List.map_cons, List.intercalate_cons_cons, ink_append] at ih ⊢
      rw [ih]

theorem ink_intercalate (texts : List String) :
    ink ("\n".intercalate texts).toList = texts.flatMap fun text => ink text.toList := by
  have joined : ("\n".intercalate texts).toList = joinLines (texts.map String.toList) := by
    rw [String.toList_intercalate]
    rfl
  rw [joined, ink_joinLines, List.flatMap_map]

/-! ### Initialized structs -/

namespace StructTable

/-- The row of a field with its value. -/
def rowText (row : Field × String) : String :=
  "/* " ++ row.1.name ++ " */ (" ++ row.1.type ++ ") (" ++ row.2 ++ ")"

/-- The text of a struct: what is initialized, a head, and the rows with commas between them. -/
def structText (opening symbol head : String) (rows : List (Field × String)) : String :=
  opening ++ " " ++ symbol ++ " = \x7b " ++ head ++ " " ++ ", ".intercalate (rows.map rowText) ++ " \x7d; /* " ++ symbol
    ++ " */"

theorem ink_gap (n : Nat) : ink (gap n).toList = [] := by
  rw [gap, String.toList_ofList]
  exact isBlank_iff_ink.mp (isBlank_spaces n)

theorem ink_fieldLine (table : StructTable) (field : Field) :
    ink (table.fieldLine field).toList = ink (rowText (field, table.value field)).toList := by
  have cast : ink " */ (".toList = ink " */".toList ++ (ink " ".toList ++ ink "(".toList) := by decide
  have value : ink ") (".toList = ink ")".toList ++ ink " (".toList := by decide
  have lead : ink "    ".toList = [] := by decide
  rw [fieldLine, pad_eq, pad_eq, rowText]
  simp only [String.toList_append, ink_append, ink_gap, lead, cast, value, List.nil_append, List.append_assoc]

theorem ink_withCommas (texts : List String) :
    (withCommas texts).flatMap (fun text => ink text.toList) = ink (", ".intercalate texts).toList := by
  have comma : ink ",".toList = ink ", ".toList := by decide
  fun_induction withCommas texts with
  | case1 => rfl
  | case2 line => simp
  | case3 line rest more ih =>
    obtain ⟨next, others, rfl⟩ := List.exists_cons_of_ne_nil more
    rw [List.flatMap_cons, ih, String.intercalate_cons_cons]
    simp only [String.toList_append, ink_append, comma]

theorem ink_render (table : StructTable) : ink table.render.toList =
    ink (structText (table.storage.elim "" (· ++ " ") ++ table.type) table.name (table.head.getD "")
      table.rows).toList := by
  have lead : ink "    ".toList = [] := by decide
  have space : ink " ".toList = [] := by decide
  have opened : ink " = \x7b ".toList = ink " =".toList ++ ink "\x7b".toList := by decide
  have closed : ink " \x7d; /* ".toList = ink "\x7d; /* ".toList := by decide
  have head : (table.head.toList.map ("    " ++ ·)).flatMap (fun line => ink line.toList) =
      ink (table.head.getD "").toList := by
    cases table.head with
    | none => rfl
    | some line => simp only [Option.toList_some, List.map_cons, List.map_nil, List.flatMap_cons, List.flatMap_nil,
        List.append_nil, String.toList_append, ink_append, lead, List.nil_append, Option.getD_some]
  have rows : ink (", ".intercalate (table.fields.map table.fieldLine)).toList =
      ink (", ".intercalate (table.rows.map rowText)).toList := by
    rw [ink_separated, ink_separated, StructTable.rows]
    simp only [List.map_map, Function.comp_def, ink_fieldLine]
  rw [render, ink_intercalate, lines_eq, structText, heading, closing]
  simp only [List.flatMap_append, List.flatMap_cons, List.flatMap_nil, List.append_nil, head, ink_withCommas, rows,
    String.toList_append, ink_append, space, opened, closed, List.append_assoc, List.nil_append]

end StructTable

end DocWeave.Code
