import DocWeave.Proofs.Code.Output
import DocWeave.Proofs.Text.Literal
import DocWeave.Render.Piece

/-!
# Constants of descriptions

A description is written as one line that declares a constant. Whatever the description says, its literal ends where
the line says, and reading the literal gives the cleaned description.
-/

namespace DocWeave.Render

open DocWeave.Code DocWeave.Text

/-- The line of a constant whose value is spelled out. -/
def declaration (symbol spelled : String) : String :=
  "static const char " ++ symbol ++ "[] = \"" ++ spelled ++ "\";"

variable (symbol : String) (builder : Builder)

theorem declaration_ne_empty (spelled : String) : declaration symbol spelled ≠ "" :=
  append_ne_empty (by decide)

theorem newline_not_mem_declaration {spelled : String} (name : '\n' ∉ symbol.toList) (whole : '\n' ∉ spelled.toList) :
    '\n' ∉ (builder.indent.lead ++ declaration symbol spelled).toList := by
  unfold declaration
  simp [Indent.lead, spaces, name, whole]

theorem docLine_of_some {description : String} (filled : description ≠ "") :
    docLine symbol description =
      [.line (declaration symbol (String.ofList (quote (cleanDescription description.toList))))] :=
  if_neg filled

theorem run_docLine_of_empty : Step.runAll (docLine symbol "") builder = (builder, none) := by
  have nothing : docLine symbol "" = [] := if_pos rfl
  rw [nothing, Step.runAll]

theorem run_docLine {description : String} (filled : description ≠ "") :
    Step.runAll (docLine symbol description) builder =
      (builder.append (builder.indent.lead ++
        declaration symbol (String.ofList (quote (cleanDescription description.toList))) ++ "\n"), none) := by
  rw [docLine_of_some symbol filled, Step.runAll_eq_append (by simp), Step.outputAll, Step.outputAll, Step.output,
    Builder.lineText, if_neg (declaration_ne_empty symbol _), String.append_empty]

/-- The constant of a description adds nothing to the text if there is no description, and else a line with a closed
literal, at any depth. The literal holds the cleaned description without carriage returns, and what it holds depends on
nothing but its spelling. -/
theorem docLine_quotes (description : String) :
    (description = "" → Step.runAll (docLine symbol description) builder = (builder, none)) ∧
    (description ≠ "" → ∃ spelled,
      Step.runAll (docLine symbol description) builder =
        (builder.append (builder.indent.lead ++ declaration symbol spelled ++ "\n"), none) ∧
      ('\n' ∉ symbol.toList → '\n' ∉ (builder.indent.lead ++ declaration symbol spelled).toList) ∧
      Quoted spelled.toList (withoutReturns (cleanDescription description.toList))) ∧
    (∀ cs, Quoted (quote cs) (withoutReturns cs)) ∧
    (∀ cs ds, '\r' ∉ cs → '\r' ∉ ds → quote cs = quote ds → cs = ds) ∧
    ∀ cs ds, quote (cs ++ ds) = quote cs ++ quote ds := by
  refine ⟨?_, fun described => ⟨_, run_docLine symbol builder described, ?_⟩, quoted_quote, ?_, quote_append⟩
  · rintro rfl
    exact run_docLine_of_empty symbol builder
  · have quoted := quoted_quote (cleanDescription description.toList)
    rw [String.toList_ofList]
    refine ⟨fun name => newline_not_mem_declaration symbol builder name ?_, quoted⟩
    rw [String.toList_ofList]
    exact quoted.newline
  · exact fun cs ds first second => (quote_inj first second).mp

example : quote "a\r\n\\\"".toList = "a\\n\\\\\\\"".toList := by
  decide

end DocWeave.Render
