import DocWeave.Code.Builder

/-!
# What steps add to a text

A step that leaves the depth as it found it only adds text. What it adds depends on the depth and on the tab
width, not on the text before it.
-/

namespace DocWeave.Code

open DocWeave.Text

/-- A line that ends in a fixed text is not empty. -/
theorem append_ne_empty {s t : String} (filled : t ≠ "") : s ++ t ≠ "" := by
  intro empty
  exact filled (String.append_eq_empty_iff.mp empty).2

namespace Builder

theorem line_eq (builder : Builder) (s : String) :
    builder.line s = builder.append (lineText builder.indent s) := rfl

theorem addText_eq (builder : Builder) (s : String) :
    builder.addText s = builder.append (blockText builder.indent builder.tabWidth s) := rfl

@[simp]
theorem append_indent (builder : Builder) (s : String) : (builder.append s).indent = builder.indent := rfl

@[simp]
theorem append_tabWidth (builder : Builder) (s : String) : (builder.append s).tabWidth = builder.tabWidth := rfl

@[simp]
theorem append_append (builder : Builder) (s t : String) :
    (builder.append s).append t = builder.append (s ++ t) := by
  simp [append, String.append_assoc]

@[simp]
theorem append_empty (builder : Builder) : builder.append "" = builder := by
  simp [append]

theorem leave_enter (builder : Builder) (s : String) :
    (builder.enter.append s).leave = (builder.append s, none) := by
  simp [leave, Indent.leave, enter, Indent.enter, append]

end Builder

open Builder

mutual

/-- The step leaves the depth as it is and ends its last line. -/
def Step.Regular : Step → Prop
  | .line _ | .blank | .text _ => True
  | .raw _ | .enter | .leave => False
  | .block _ _ body => Step.AllRegular body
  | .indented body => Step.AllRegular body

def Step.AllRegular : List Step → Prop
  | [] => True
  | step :: rest => step.Regular ∧ Step.AllRegular rest

end

mutual

/-- What a regular step adds. -/
def Step.output (tabWidth : Nat) (indent : Indent) : Step → String
  | .line s => lineText indent s
  | .blank => "\n"
  | .text s => blockText indent tabWidth s
  | .raw _ | .enter | .leave => ""
  | .block head close body =>
    lineText indent head ++ lineText indent "\x7b" ++ Step.outputAll tabWidth indent.enter body
      ++ lineText indent close
  | .indented body => Step.outputAll tabWidth indent.enter body

def Step.outputAll (tabWidth : Nat) (indent : Indent) : List Step → String
  | [] => ""
  | step :: rest => step.output tabWidth indent ++ Step.outputAll tabWidth indent rest

end

namespace Step

theorem allRegular_iff {steps : List Step} : AllRegular steps ↔ ∀ step ∈ steps, step.Regular := by
  induction steps with
  | nil => simp [AllRegular]
  | cons step rest ih => simp [AllRegular, ih]

@[simp]
theorem allRegular_nil : AllRegular [] := trivial

@[simp]
theorem allRegular_cons {step : Step} {rest : List Step} :
    AllRegular (step :: rest) ↔ step.Regular ∧ AllRegular rest := Iff.rfl

@[simp]
theorem allRegular_append {steps others : List Step} :
    AllRegular (steps ++ others) ↔ AllRegular steps ∧ AllRegular others := by
  simp only [allRegular_iff, List.forall_mem_append]

@[simp]
theorem regular_line (s : String) : (Step.line s).Regular := trivial

@[simp]
theorem regular_blank : Step.blank.Regular := trivial

@[simp]
theorem regular_text (s : String) : (Step.text s).Regular := trivial

@[simp]
theorem regular_block {head close : String} {body : List Step} :
    (Step.block head close body).Regular ↔ AllRegular body := Iff.rfl

@[simp]
theorem regular_indented {body : List Step} : (Step.indented body).Regular ↔ AllRegular body := Iff.rfl

theorem outputAll_append (tabWidth : Nat) (indent : Indent) (steps others : List Step) :
    outputAll tabWidth indent (steps ++ others) =
      outputAll tabWidth indent steps ++ outputAll tabWidth indent others := by
  induction steps with
  | nil => simp [outputAll]
  | cons step rest ih => simp [outputAll, ih, String.append_assoc]

mutual

/-- A regular step adds its output and cannot fail. -/
theorem run_eq_append {step : Step} (regular : step.Regular) (builder : Builder) :
    step.run builder = (builder.append (step.output builder.tabWidth builder.indent), none) := by
  cases step with
  | line s => rw [run, line_eq, output]
  | blank => rfl
  | text s => rw [run, addText_eq, output]
  | raw s => cases regular
  | enter => cases regular
  | leave => cases regular
  | block head close body =>
    rw [run, runAll_eq_append (regular_block.mp regular)]
    dsimp only
    rw [leave_enter]
    simp only [line_eq, output, append_append, append_indent]
    rfl
  | indented body =>
    rw [run, runAll_eq_append (regular_indented.mp regular)]
    dsimp only
    rw [leave_enter, output]
    rfl

theorem runAll_eq_append {steps : List Step} (regular : AllRegular steps) (builder : Builder) :
    runAll steps builder = (builder.append (outputAll builder.tabWidth builder.indent steps), none) := by
  cases steps with
  | nil => simp [runAll, outputAll]
  | cons step rest =>
    obtain ⟨first, others⟩ := allRegular_cons.mp regular
    rw [runAll, run_eq_append first]
    dsimp only
    rw [runAll_eq_append others, append_append, outputAll, append_indent, append_tabWidth]

end

theorem runAll_append (steps others : List Step) (builder : Builder) :
    runAll (steps ++ others) builder = match runAll steps builder with
      | (added, none) => runAll others added
      | failed => failed := by
  induction steps generalizing builder with
  | nil => rfl
  | cons step rest ih =>
    rw [List.cons_append, runAll, runAll]
    rcases step.run builder with ⟨added, _ | fault⟩
    · exact ih added
    · rfl

/-- Regular steps between `enter` and `leave` do what they do as one step that is indented. -/
theorem runAll_enter_leave {steps : List Step} (regular : AllRegular steps) (builder : Builder) :
    runAll (.enter :: (steps ++ [.leave])) builder = runAll [.indented steps] builder := by
  have inner := runAll_eq_append regular builder.enter
  have left := leave_enter builder (outputAll builder.enter.tabWidth builder.enter.indent steps)
  simp only [runAll, run, runAll_append, inner, left]

end Step

end DocWeave.Code
