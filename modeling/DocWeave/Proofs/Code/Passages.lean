import DocWeave.Proofs.Code.Gist

/-!
# Passages of whole lines

What a step adds stands between line ends, so the lines that it adds are found again among the lines of the whole text.
-/

namespace DocWeave.Code

open DocWeave.Text Builder

theorem mem_of_mem_trimLineEnds {c : Char} {cs : List Char} (member : c ∈ trimLineEnds cs) : c ∈ cs :=
  List.mem_reverse.mp ((List.dropWhile_sublist _).subset (List.mem_reverse.mp member))

theorem trimLineEnds_concat {c : Char} (other : c ≠ '\n') (front : List Char) :
    trimLineEnds (front ++ [c]) = front ++ [c] := by
  simp [trimLineEnds, other]

/-- The part stands in the text, behind whole lines. -/
def Passage (part whole : List Char) : Prop :=
  ∃ before after, whole = before ++ part ++ after ∧ Ended before

theorem Passage.trans {part middle whole : List Char} (inner : Passage part middle) (outer : Passage middle whole) :
    Passage part whole := by
  obtain ⟨before, after, rfl, ended⟩ := inner
  obtain ⟨front, behind, rfl, frontEnded⟩ := outer
  exact ⟨front ++ before, after ++ behind, by simp, frontEnded.append ended⟩

theorem Passage.lines_infix {ls : List (List Char)} {whole : List Char}
    (passage : Passage (joinLines ls ++ ['\n']) whole) (each : ∀ line ∈ ls, '\n' ∉ line) (filled : ls ≠ []) :
    ls <:+: lines whole := by
  obtain ⟨before, after, rfl, ended⟩ := passage
  have own : lines (joinLines ls ++ '\n' :: after) = ls ++ lines after := by
    rw [lines_append, lines_joinLines each filled]
  rw [List.append_assoc, List.append_assoc, List.singleton_append]
  rcases ended with rfl | ⟨front, rfl⟩
  · rw [List.nil_append, own]
    exact (List.prefix_append ..).isInfix
  · rw [List.append_assoc, List.singleton_append, lines_append, own, ← List.append_assoc]
    exact List.infix_append ..

namespace Step

/-- Steps that follow each other among other steps add a passage. -/
theorem passage_of_infix (tabWidth : Nat) (indent : Indent) {part steps : List Step} (inside : part <:+: steps) :
    Passage (outputAll tabWidth indent part).toList (outputAll tabWidth indent steps).toList := by
  obtain ⟨before, after, rfl⟩ := inside
  refine ⟨(outputAll tabWidth indent before).toList, (outputAll tabWidth indent after).toList, ?_,
    ended_outputAll tabWidth indent before⟩
  rw [outputAll_append, outputAll_append, String.toList_append, String.toList_append]

end Step

end DocWeave.Code
