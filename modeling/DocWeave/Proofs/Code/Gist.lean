import DocWeave.Proofs.Code.Output
import DocWeave.Proofs.Text.Gist

/-!
# What steps add, up to white space

A step ends its last line. So the lines that steps add come one after the other, and a text that one of them
holds is found in consecutive lines of what they add.
-/

namespace DocWeave.Code

open DocWeave.Text Builder

/-- The text is empty or ends with a line end. -/
def Ended (cs : List Char) : Prop :=
  cs = [] ∨ ∃ front, cs = front ++ ['\n']

theorem gist_append_of_ended {cs : List Char} (ended : Ended cs) (ds : List Char) :
    gist (cs ++ ds) = gist cs ++ gist ds := by
  rcases ended with rfl | ⟨front, rfl⟩
  · rfl
  · rw [List.append_assoc, List.singleton_append, gist_append_newline, gist_append_newline, gist_nil,
      List.append_nil]

theorem Ended.append {cs ds : List Char} (first : Ended cs) (second : Ended ds) : Ended (cs ++ ds) := by
  rcases second with rfl | ⟨front, rfl⟩
  · rwa [List.append_nil]
  · exact .inr ⟨cs ++ front, by rw [List.append_assoc]⟩

/-! ### Lines and texts -/

theorem ended_lineText (indent : Indent) (s : String) : Ended (lineText indent s).toList := by
  unfold lineText
  split
  · exact .inr ⟨[], rfl⟩
  · exact .inr ⟨(indent.lead ++ s).toList, by simp⟩

theorem gist_lineText (indent : Indent) (s : String) : gist (lineText indent s).toList = gist s.toList := by
  unfold lineText
  split
  · rename_i empty
    rw [empty]
    rfl
  · have lead : indent.lead.toList = spaces indent.columns := by simp [Indent.lead]
    rw [String.toList_append, String.toList_append, lead, List.append_assoc,
      gist_blank_append (isBlank_spaces _)]
    exact gist_append_char isBlankChar_newline _

theorem ended_blockText (indent : Indent) (tabWidth : Nat) (s : String) :
    Ended (blockText indent tabWidth s).toList := by
  unfold blockText
  split
  · exact .inl rfl
  · exact .inr ⟨trimLineEnds (reindent tabWidth indent.columns s.toList), by simp⟩

theorem gist_trimLineEnds (cs : List Char) : gist (trimLineEnds cs) = gist cs := by
  have split : cs = trimLineEnds cs ++ (cs.reverse.takeWhile (· = '\n')).reverse := by
    rw [trimLineEnds, ← List.reverse_append, List.takeWhile_append_dropWhile, List.reverse_reverse]
  have blank : isBlank (cs.reverse.takeWhile (· = '\n')).reverse = true := by
    rw [isBlank, List.all_reverse, List.all_eq_true]
    intro c member
    have newline : c = '\n' := by simpa using List.all_eq_true.mp List.all_takeWhile c member
    rw [newline]
    exact isBlankChar_newline
  have whole := gist_append_of_blank blank (trimLineEnds cs)
  rwa [← split, eq_comm] at whole

theorem gist_blockText (indent : Indent) (tabWidth : Nat) (s : String) :
    gist (blockText indent tabWidth s).toList = gist s.toList := by
  unfold blockText
  split
  · rename_i blank
    rw [gist_of_blank blank]
    rfl
  · rw [String.toList_append, String.toList_ofList]
    exact (gist_append_char isBlankChar_newline _).trans
      ((gist_trimLineEnds _).trans (gist_reindent tabWidth indent.columns s.toList))

namespace Step

mutual

/-- The gist of what a step adds. It does not depend on the depth. -/
def gist : Step → List (List (List Char))
  | .line s => Text.gist s.toList
  | .text s => Text.gist s.toList
  | .blank | .raw _ | .enter | .leave => []
  | .block head close body =>
    Text.gist head.toList ++ Text.gist "\x7b".toList ++ gistAll body ++ Text.gist close.toList
  | .indented body => gistAll body

def gistAll : List Step → List (List (List Char))
  | [] => []
  | step :: rest => step.gist ++ gistAll rest

end

mutual

theorem ended_output (tabWidth : Nat) (indent : Indent) (step : Step) :
    Ended (step.output tabWidth indent).toList := by
  cases step with
  | line s => exact ended_lineText indent s
  | blank => exact .inr ⟨[], by simp [output]⟩
  | text s => exact ended_blockText indent tabWidth s
  | raw s => exact .inl rfl
  | enter => exact .inl rfl
  | leave => exact .inl rfl
  | block head close body =>
    rw [output]
    simp only [String.toList_append]
    exact (((ended_lineText indent head).append (ended_lineText indent "\x7b")).append
      (ended_outputAll tabWidth indent.enter body)).append (ended_lineText indent close)
  | indented body => exact ended_outputAll tabWidth indent.enter body

theorem ended_outputAll (tabWidth : Nat) (indent : Indent) (steps : List Step) :
    Ended (outputAll tabWidth indent steps).toList := by
  cases steps with
  | nil => exact .inl rfl
  | cons step rest =>
    rw [outputAll, String.toList_append]
    exact (ended_output tabWidth indent step).append (ended_outputAll tabWidth indent rest)

end

mutual

theorem gist_output (tabWidth : Nat) (indent : Indent) (step : Step) :
    Text.gist (step.output tabWidth indent).toList = step.gist := by
  cases step with
  | line s => exact gist_lineText indent s
  | blank =>
    rw [output]
    rfl
  | text s => exact gist_blockText indent tabWidth s
  | raw s => rfl
  | enter => rfl
  | leave => rfl
  | block head close body =>
    have opened := (ended_lineText indent head).append (ended_lineText indent "\x7b")
    rw [output, String.toList_append, String.toList_append, String.toList_append,
      gist_append_of_ended (opened.append (ended_outputAll tabWidth indent.enter body)),
      gist_append_of_ended opened, gist_append_of_ended (ended_lineText indent head), gist_lineText,
      gist_lineText, gist_lineText, gist_outputAll tabWidth indent.enter body, gist]
  | indented body => exact gist_outputAll tabWidth indent.enter body

theorem gist_outputAll (tabWidth : Nat) (indent : Indent) (steps : List Step) :
    Text.gist (outputAll tabWidth indent steps).toList = gistAll steps := by
  cases steps with
  | nil => rfl
  | cons step rest =>
    rw [outputAll, String.toList_append, gist_append_of_ended (ended_output tabWidth indent step),
      gist_output tabWidth indent step, gist_outputAll tabWidth indent rest, gistAll]

end

/-! ### Texts that steps hold -/

/-- One of the steps, or a step inside one of them, adds the text. -/
inductive Adds : List Step → String → Prop
  | text {steps s} (member : .text s ∈ steps) : Adds steps s
  | block {steps head close body s} (member : .block head close body ∈ steps) (inner : Adds body s) :
      Adds steps s
  | indented {steps body s} (member : .indented body ∈ steps) (inner : Adds body s) : Adds steps s

theorem Adds.mono {steps more : List Step} {s : String} (adds : Adds steps s) (sub : steps ⊆ more) :
    Adds more s := by
  cases adds with
  | text member => exact .text (sub member)
  | block member inner => exact .block (sub member) inner
  | indented member inner => exact .indented (sub member) inner

theorem gist_infix_of_mem {steps : List Step} {step : Step} (member : step ∈ steps) :
    step.gist <:+: gistAll steps := by
  induction steps with
  | nil => cases member
  | cons first rest ih =>
    rw [gistAll]
    rcases List.mem_cons.mp member with rfl | later
    · exact (List.prefix_append _ _).isInfix
    · exact (ih later).trans (List.suffix_append _ _).isInfix

theorem Adds.gist_infix {steps : List Step} {s : String} (adds : Adds steps s) :
    Text.gist s.toList <:+: gistAll steps := by
  induction adds with
  | text member => exact gist_infix_of_mem member
  | block member _ ih =>
    refine ih.trans (List.IsInfix.trans ?_ (gist_infix_of_mem member))
    exact List.infix_append ..
  | indented member _ ih => exact ih.trans (gist_infix_of_mem member)

/-- What regular steps add holds the text in consecutive lines, up to white space. -/
theorem Adds.emits {steps : List Step} {s : String} (adds : Adds steps s) (tabWidth : Nat) (indent : Indent) :
    Emits (outputAll tabWidth indent steps).toList s.toList := by
  rw [emits_iff, gist_outputAll]
  exact adds.gist_infix

end Step

end DocWeave.Code
