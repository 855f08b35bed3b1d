import DocWeave.Proofs.Code.Passages
import DocWeave.Proofs.Text.Tidy

/-!
# Steps at another depth

Steps that succeed on a fresh builder succeed at any depth. There they add the same text, with the columns of that
depth in front of every line that is not empty. A guard must keep its own level: on a fresh builder there is none
below it, and leaving one that is not there is passed over when the guard ends.
-/

namespace DocWeave.Code

open DocWeave.Text Builder

/-! ### Texts with spaces in front -/

/-- The text with more spaces in front of every line. An empty line stays empty. -/
def indentLines (columns : Nat) (cs : List Char) : List Char :=
  joinLines ((lines cs).map (indentLine columns))

@[simp]
theorem indentLines_nil (columns : Nat) : indentLines columns [] = [] := by
  simp [indentLines]

theorem indentLines_joinLines {ls : List (List Char)} (whole : ∀ line ∈ ls, '\n' ∉ line) (filled : ls ≠ [])
    (columns : Nat) : indentLines columns (joinLines ls) = joinLines (ls.map (indentLine columns)) := by
  rw [indentLines, lines_joinLines whole filled]

/-- Behind a line end the rest has its spaces in front as if it stood alone. -/
theorem indentLines_append_newline (columns : Nat) (front rest : List Char) :
    indentLines columns (front ++ '\n' :: rest) = indentLines columns front ++ '\n' :: indentLines columns rest := by
  have first : (lines front).map (indentLine columns) ≠ [] := by simp [lines]
  have second : (lines rest).map (indentLine columns) ≠ [] := by simp [lines]
  rw [indentLines, lines_append, List.map_append, joinLines_append first second]
  rfl

theorem Ended.indentLines_append {cs : List Char} (ended : Ended cs) (columns : Nat) (ds : List Char) :
    indentLines columns (cs ++ ds) = indentLines columns cs ++ indentLines columns ds := by
  rcases ended with rfl | ⟨front, rfl⟩
  · simp
  · rw [List.append_assoc, List.singleton_append, indentLines_append_newline, indentLines_append_newline,
      indentLines_nil, List.append_assoc, List.singleton_append]

theorem indentLines_line {line : List Char} (whole : '\n' ∉ line) (columns : Nat) :
    indentLines columns (line ++ ['\n']) = indentLine columns line ++ ['\n'] := by
  rw [indentLines_append_newline, indentLines_nil, indentLines, lines_of_not_mem whole]
  simp

theorem trimLineEnds_append_newline (front : List Char) : trimLineEnds (front ++ ['\n']) = trimLineEnds front := by
  simp [trimLineEnds]

theorem trimLineEnds_indentLines (columns : Nat) (cs : List Char) :
    trimLineEnds (indentLines columns cs) = indentLines columns (trimLineEnds cs) := by
  -- From the end: a line end is cut from both texts, and any other character is the last of both.
  induction cs using List.reverseRecOn with
  | nil => simp [trimLineEnds]
  | append_singleton front c ih =>
    by_cases newline : c = '\n'
    · rw [newline, indentLines_append_newline, indentLines_nil, trimLineEnds_append_newline,
        trimLineEnds_append_newline, ih]
    · obtain ⟨before, last, split⟩ := exists_lines_concat newline front
      have filled : last ++ [c] ≠ [] := by simp
      obtain ⟨start, ends⟩ := exists_joinLines_concat (before.map (indentLine columns)) (spaces columns ++ last) c
      have moved : indentLines columns (front ++ [c]) = start ++ [c] := by
        rw [indentLines, split, List.map_append, List.map_singleton, indentLine_of_ne filled, ← List.append_assoc,
          ends]
      rw [trimLineEnds_concat newline, moved, trimLineEnds_concat newline]

/-- A block at a column farther to the right is the block with spaces in front. -/
theorem reindent_add (tabWidth more columns : Nat) (cs : List Char) :
    reindent tabWidth (more + columns) cs = indentLines more (reindent tabWidth columns cs) := by
  have whole : ∀ line ∈ (block tabWidth cs).map (indentLine columns), '\n' ∉ line := by
    rintro _ member
    obtain ⟨line, inside, rfl⟩ := List.mem_map.mp member
    exact newline_not_mem_indentLine (newline_not_mem_block _ inside) columns
  have filled : (block tabWidth cs).map (indentLine columns) ≠ [] := by simp [block_ne_nil]
  rw [reindent_eq, reindent_eq, indentLines_joinLines whole filled, List.map_map]
  congr 2
  funext line
  exact (indentLine_indentLine more columns line).symm

/-! ### Builders that are nested deeper -/

/-- The indentation inside further levels. -/
def Indent.inside (indent : Indent) (depth : Nat) : Indent :=
  { indent with depth := depth + indent.depth }

namespace Builder

/-- The builder as it is inside further levels and behind another text. -/
def nest (depth : Nat) (before : String) (builder : Builder) : Builder where
  indent := builder.indent.inside depth
  tabWidth := builder.tabWidth
  text := before ++ onString (indentLines (depth * builder.indent.width)) builder.text

variable (depth : Nat) (before : String)

theorem columns_inside (indent : Indent) :
    (indent.inside depth).columns = depth * indent.width + indent.columns :=
  Nat.add_mul ..

theorem lineText_inside (indent : Indent) {s : String} (whole : '\n' ∉ s.toList) :
    (lineText (indent.inside depth) s).toList = indentLines (depth * indent.width) (lineText indent s).toList := by
  by_cases empty : s = ""
  · rw [lineText, lineText, if_pos empty, if_pos empty]
    exact (indentLines_line List.not_mem_nil _).symm
  · have shown (indent : Indent) : (lineText indent s).toList = spaces indent.columns ++ s.toList ++ ['\n'] := by
      simp [lineText, empty, Indent.lead]
    have line : '\n' ∉ spaces indent.columns ++ s.toList := by simp [newline_not_mem_spaces, whole]
    have filled : spaces indent.columns ++ s.toList ≠ [] := by simp [empty]
    rw [shown, shown, indentLines_line line, indentLine_of_ne filled, columns_inside, spaces, spaces,
      ← List.replicate_append_replicate, List.append_assoc (List.replicate _ _)]
    rfl

theorem blockText_inside (indent : Indent) (tabWidth : Nat) (s : String) :
    (blockText (indent.inside depth) tabWidth s).toList =
      indentLines (depth * indent.width) (blockText indent tabWidth s).toList := by
  cases blank : isBlank s.toList with
  | true => simp [blockText, blank]
  | false =>
    have shown (indent : Indent) : (blockText indent tabWidth s).toList =
        trimLineEnds (reindent tabWidth indent.columns s.toList) ++ ['\n'] := by
      simp [blockText, blank]
    rw [shown, shown, columns_inside, reindent_add, trimLineEnds_indentLines, indentLines_append_newline,
      indentLines_nil]

/-- Adding to a builder whose last line is ended. -/
theorem append_nest {builder : Builder} (ended : Ended builder.text.toList) {s deeper : String}
    (moved : deeper.toList = indentLines (depth * builder.indent.width) s.toList) :
    (builder.nest depth before).append deeper = (builder.append s).nest depth before := by
  have text : onString (indentLines (depth * builder.indent.width)) (builder.text ++ s) =
      onString (indentLines (depth * builder.indent.width)) builder.text ++ deeper := by
    apply String.toList_injective
    rw [toList_onString, String.toList_append, String.toList_append, toList_onString, ended.indentLines_append, moved]
  simp [nest, append, text, String.append_assoc]

theorem line_nest {builder : Builder} (ended : Ended builder.text.toList) {s : String} (whole : '\n' ∉ s.toList) :
    (builder.nest depth before).line s = (builder.line s).nest depth before := by
  rw [line_eq, line_eq]
  exact append_nest depth before ended (lineText_inside depth builder.indent whole)

theorem addText_nest {builder : Builder} (ended : Ended builder.text.toList) (s : String) :
    (builder.nest depth before).addText s = (builder.addText s).nest depth before := by
  rw [addText_eq, addText_eq]
  exact append_nest depth before ended (blockText_inside depth builder.indent builder.tabWidth s)

theorem enter_nest (builder : Builder) : (builder.nest depth before).enter = builder.enter.nest depth before := rfl

theorem leave_eq_none {builder left : Builder} :
    builder.leave = (left, none) ↔
      ∃ level, builder.indent.depth = level + 1 ∧ left = { builder with indent := ⟨level, builder.indent.width⟩ } := by
  unfold leave Indent.leave
  cases level : builder.indent.depth with
  | zero => simp
  | succ level => simp [eq_comm (a := left)]

theorem leave_nest {builder left : Builder} (success : builder.leave = (left, none)) :
    (builder.nest depth before).leave = (left.nest depth before, none) := by
  obtain ⟨level, own, rfl⟩ := leave_eq_none.mp success
  refine leave_eq_none.mpr ⟨depth + level, ?_, rfl⟩
  rw [nest, Indent.inside, own, Nat.add_assoc]

theorem ended_append {builder : Builder} (ended : Ended builder.text.toList) {s : String} (own : Ended s.toList) :
    Ended (builder.append s).text.toList := by
  rw [append, String.toList_append]
  exact ended.append own

theorem ended_line {builder : Builder} (ended : Ended builder.text.toList) (s : String) :
    Ended (builder.line s).text.toList := by
  rw [line_eq]
  exact ended_append ended (ended_lineText _ s)

/-- An empty builder of the same widths. -/
def fresh (builder : Builder) : Builder where
  indent := { width := builder.indent.width }
  tabWidth := builder.tabWidth

/-- The builders indent by the same width, and expand tabs by the same width. -/
def SameWidths (builder after : Builder) : Prop :=
  after.indent.width = builder.indent.width ∧ after.tabWidth = builder.tabWidth

theorem SameWidths.trans {first second third : Builder} (left : SameWidths first second)
    (right : SameWidths second third) : SameWidths first third :=
  ⟨right.1.trans left.1, right.2.trans left.2⟩

theorem widths_line (builder : Builder) (s : String) : SameWidths builder (builder.line s) := by
  rw [line_eq]
  exact ⟨rfl, rfl⟩

theorem widths_leave (builder : Builder) : SameWidths builder builder.leave.1 := by
  unfold leave Indent.leave
  split
  · rename_i indent left
    split at left
    · cases left
    · cases left
      exact ⟨rfl, rfl⟩
  · exact ⟨rfl, rfl⟩

end Builder

/-! ### Levels -/

/-- One level less, if there is one. -/
def lower? : Nat → Option Nat
  | 0 => none
  | level + 1 => some level

theorem lower?_eq_some {level next : Nat} : lower? level = some next ↔ level = next + 1 := by
  cases level <;> simp [lower?, eq_comm]

mutual

/-- The level behind a step, where the level in front of it is given. There is none if the step goes below level 0, or a
guard in it below its own level. -/
def Step.level? : Step → Nat → Option Nat
  | .line _, level => some level
  | .blank, level => some level
  | .raw _, level => some level
  | .text _, level => some level
  | .enter, level => some (level + 1)
  | .leave, level => lower? level
  | .block _ _ body, level => (Step.levels? body (level + 1)).bind lower?
  | .indented body, level => (Step.levels? body 0).map (level + ·)

def Step.levels? : List Step → Nat → Option Nat
  | [], level => some level
  | step :: rest, level => (step.level? level).bind (Step.levels? rest)

end

mutual

/-- The step adds whole lines only, and inside no guard the level of this guard is left. -/
def Step.Movable : Step → Prop
  | .line s => '\n' ∉ s.toList
  | .blank | .text _ | .enter | .leave => True
  | .raw _ => False
  | .block head close body => '\n' ∉ head.toList ∧ '\n' ∉ close.toList ∧ Step.AllMovable body
  | .indented body => (Step.levels? body 0).isSome = true ∧ Step.AllMovable body

def Step.AllMovable : List Step → Prop
  | [] => True
  | step :: rest => step.Movable ∧ Step.AllMovable rest

end

namespace Step

/-! ### Steps that succeed -/

theorem run_block_eq_none {head close : String} {body : List Step} {builder after : Builder} :
    (Step.block head close body).run builder = (after, none) ↔
      ∃ inner left, runAll body ((builder.line head).line "\x7b").enter = (inner, none) ∧
        inner.leave = (left, none) ∧ left.line close = after := by
  rw [run]
  constructor
  · intro success
    split at success
    · cases success
    · rename_i inner ran
      split at success
      · cases success
      · rename_i left closed
        cases success
        exact ⟨inner, left, ran, closed, rfl⟩
  · rintro ⟨inner, left, ran, closed, rfl⟩
    rw [ran]
    dsimp only
    rw [closed]

theorem run_indented_eq_none {body : List Step} {builder after : Builder} :
    (Step.indented body).run builder = (after, none) ↔
      ∃ inner, runAll body builder.enter = (inner, none) ∧ inner.leave.1 = after := by
  rw [run]
  constructor
  · intro success
    obtain ⟨left, stopped⟩ := Prod.mk.inj success
    exact ⟨_, Prod.ext rfl stopped, left⟩
  · rintro ⟨inner, ran, rfl⟩
    rw [ran]

theorem runAll_cons_eq_none {step : Step} {rest : List Step} {builder after : Builder} :
    runAll (step :: rest) builder = (after, none) ↔
      ∃ added, step.run builder = (added, none) ∧ runAll rest added = (after, none) := by
  rw [runAll]
  constructor
  · intro success
    split at success
    · rename_i added ran
      exact ⟨added, ran, success⟩
    · rename_i failed
      exact absurd success (failed after)
  · rintro ⟨added, ran, others⟩
    rw [ran]
    exact others

mutual

/-- Steps that stay above a level succeed, however deep this level is. -/
theorem run_level {step : Step} {level next : Nat} (known : step.level? level = some next) {outer : Nat}
    {builder : Builder} (depth : builder.indent.depth = outer + level) :
    ∃ after, step.run builder = (after, none) ∧ after.indent.depth = outer + next := by
  cases step with
  | line s =>
    cases known
    exact ⟨_, rfl, by rw [line_eq, append_indent, depth]⟩
  | blank =>
    cases known
    exact ⟨_, rfl, depth⟩
  | raw s =>
    cases known
    exact ⟨_, rfl, depth⟩
  | text s =>
    cases known
    exact ⟨_, rfl, by rw [addText_eq, append_indent, depth]⟩
  | enter =>
    cases known
    exact ⟨_, rfl, congrArg (· + 1) depth⟩
  | leave =>
    rw [lower?_eq_some.mp known] at depth
    exact ⟨_, leave_eq_none.mpr ⟨outer + next, depth, rfl⟩, rfl⟩
  | block head close body =>
    obtain ⟨inside, found, above⟩ := Option.bind_eq_some_iff.mp known
    have deeper : ((builder.line head).line "\x7b").enter.indent.depth = outer + (level + 1) := by
      rw [line_eq, line_eq]
      exact congrArg (· + 1) depth
    obtain ⟨inner, success, behind⟩ := runAll_level found deeper
    rw [lower?_eq_some.mp above] at behind
    have left := leave_eq_none.mpr ⟨outer + next, behind, rfl⟩
    exact ⟨_, run_block_eq_none.mpr ⟨inner, _, success, left, rfl⟩, by rw [line_eq, append_indent]⟩
  | indented body =>
    obtain ⟨inside, found, rfl⟩ := Option.map_eq_some_iff.mp known
    have deeper : builder.enter.indent.depth = outer + level + 1 + 0 := congrArg (· + 1) depth
    obtain ⟨inner, success, behind⟩ := runAll_level found deeper
    have left := leave_eq_none.mpr ⟨outer + (level + inside), behind.trans (by omega), rfl⟩
    exact ⟨_, run_indented_eq_none.mpr ⟨inner, success, congrArg Prod.fst left⟩, rfl⟩

theorem runAll_level {steps : List Step} {level next : Nat} (known : levels? steps level = some next) {outer : Nat}
    {builder : Builder} (depth : builder.indent.depth = outer + level) :
    ∃ after, runAll steps builder = (after, none) ∧ after.indent.depth = outer + next := by
  cases steps with
  | nil =>
    cases known
    exact ⟨builder, rfl, depth⟩
  | cons step rest =>
    obtain ⟨between, found, further⟩ := Option.bind_eq_some_iff.mp known
    obtain ⟨added, success, behind⟩ := run_level found depth
    obtain ⟨after, others, last⟩ := runAll_level further behind
    exact ⟨after, runAll_cons_eq_none.mpr ⟨added, success, others⟩, last⟩

end

/-- Behind the steps of a guard that keep its level, this level can be left. -/
theorem leave_of_guard {body : List Step} (kept : (levels? body 0).isSome = true) {builder inner : Builder}
    (success : runAll body builder.enter = (inner, none)) : ∃ left, inner.leave = (left, none) := by
  obtain ⟨level, found⟩ := Option.isSome_iff_exists.mp kept
  have own : builder.enter.indent.depth = builder.indent.depth + 1 + 0 := rfl
  obtain ⟨same, again, depth⟩ := runAll_level found own
  cases again.symm.trans success
  exact ⟨_, leave_eq_none.mpr ⟨builder.indent.depth + level, depth.trans (by omega), rfl⟩⟩

section Nest

variable (depth : Nat) (before : String)

mutual

/-- A step does on a nested builder what it does on the builder. The induction carries along that the last line is
ended: otherwise what a step adds would go on in a line that has its spaces already. -/
theorem run_nest {step : Step} (movable : step.Movable) {builder after : Builder} (ended : Ended builder.text.toList)
    (success : step.run builder = (after, none)) :
    step.run (builder.nest depth before) = (after.nest depth before, none) ∧ Ended after.text.toList := by
  cases step with
  | line s =>
    cases success
    exact ⟨congrArg (·, none) (line_nest depth before ended movable), ended_line ended s⟩
  | blank =>
    cases success
    have newline : "\n".toList = indentLines (depth * builder.indent.width) "\n".toList :=
      (indentLines_line List.not_mem_nil _).symm
    exact ⟨congrArg (·, none) (append_nest depth before ended newline), ended_append ended (.inr ⟨[], rfl⟩)⟩
  | raw s => cases movable
  | text s =>
    cases success
    rw [run, addText_nest depth before ended, addText_eq]
    exact ⟨rfl, ended_append ended (ended_blockText _ _ s)⟩
  | enter =>
    cases success
    exact ⟨rfl, ended⟩
  | leave =>
    have left : builder.leave = (after, none) := success
    obtain ⟨level, _, rfl⟩ := leave_eq_none.mp left
    exact ⟨leave_nest depth before left, ended⟩
  | block head close body =>
    obtain ⟨headLine, closeLine, inside⟩ := movable
    have brace : '\n' ∉ "\x7b".toList := by decide
    have opened : Ended ((builder.line head).line "\x7b").enter.text.toList := ended_line (ended_line ended head) _
    obtain ⟨inner, left, ran, closed, rfl⟩ := run_block_eq_none.mp success
    obtain ⟨nested, filled⟩ := runAll_nest inside opened ran
    have still : Ended left.text.toList := by
      obtain ⟨level, _, rfl⟩ := leave_eq_none.mp closed
      exact filled
    refine ⟨run_block_eq_none.mpr ⟨_, _, ?_, leave_nest depth before closed, ?_⟩, ended_line still close⟩
    · rw [line_nest depth before ended headLine, line_nest depth before (ended_line ended head) brace, enter_nest]
      exact nested
    · exact line_nest depth before still closeLine
  | indented body =>
    obtain ⟨kept, inside⟩ := movable
    obtain ⟨inner, ran, rfl⟩ := run_indented_eq_none.mp success
    have opened : Ended builder.enter.text.toList := ended
    obtain ⟨nested, filled⟩ := runAll_nest inside opened ran
    -- The guard ends with its own level on both builders: one that is missing on the fresh one is there when nested.
    obtain ⟨left, closed⟩ := leave_of_guard kept ran
    rw [closed]
    refine ⟨run_indented_eq_none.mpr ⟨_, nested, congrArg Prod.fst (leave_nest depth before closed)⟩, ?_⟩
    obtain ⟨level, _, rfl⟩ := leave_eq_none.mp closed
    exact filled

theorem runAll_nest {steps : List Step} (movable : AllMovable steps) {builder after : Builder}
    (ended : Ended builder.text.toList) (success : runAll steps builder = (after, none)) :
    runAll steps (builder.nest depth before) = (after.nest depth before, none) ∧ Ended after.text.toList := by
  cases steps with
  | nil =>
    cases success
    exact ⟨rfl, ended⟩
  | cons step rest =>
    obtain ⟨first, others⟩ := movable
    obtain ⟨added, ran, further⟩ := runAll_cons_eq_none.mp success
    obtain ⟨nested, filled⟩ := run_nest first ended ran
    obtain ⟨nestedRest, last⟩ := runAll_nest others filled further
    exact ⟨runAll_cons_eq_none.mpr ⟨_, nested, nestedRest⟩, last⟩

end

end Nest

mutual

theorem widths_run {step : Step} {builder after : Builder} (success : step.run builder = (after, none)) :
    SameWidths builder after := by
  cases step with
  | line s =>
    cases success
    exact widths_line builder s
  | blank =>
    cases success
    exact ⟨rfl, rfl⟩
  | raw s =>
    cases success
    exact ⟨rfl, rfl⟩
  | text s =>
    cases success
    rw [addText_eq]
    exact ⟨rfl, rfl⟩
  | enter =>
    cases success
    exact ⟨rfl, rfl⟩
  | leave =>
    have behind := widths_leave builder
    rwa [show builder.leave = (after, none) from success] at behind
  | block head close body =>
    obtain ⟨inner, left, ran, closed, rfl⟩ := run_block_eq_none.mp success
    have opened : SameWidths builder ((builder.line head).line "\x7b").enter :=
      (widths_line builder head).trans (widths_line _ "\x7b")
    have filled := opened.trans (widths_runAll ran)
    have behind := widths_leave inner
    rw [closed] at behind
    exact (filled.trans behind).trans (widths_line left close)
  | indented body =>
    obtain ⟨inner, ran, rfl⟩ := run_indented_eq_none.mp success
    exact (widths_runAll ran).trans (widths_leave inner)

theorem widths_runAll {steps : List Step} {builder after : Builder} (success : runAll steps builder = (after, none)) :
    SameWidths builder after := by
  cases steps with
  | nil =>
    cases success
    exact ⟨rfl, rfl⟩
  | cons step rest =>
    obtain ⟨added, ran, further⟩ := runAll_cons_eq_none.mp success
    exact (widths_run ran).trans (widths_runAll further)

end

/-- Steps that succeed on a fresh builder succeed at any depth. They change the depth by as much, and add the text of
the fresh run with the columns of the depth in front of its lines. -/
theorem runAll_deeper {steps : List Step} (movable : AllMovable steps) (deep : Builder) {after : Builder}
    (success : runAll steps deep.fresh = (after, none)) :
    runAll steps deep =
      ({ deep with
          indent := { deep.indent with depth := deep.indent.depth + after.indent.depth }
          text := deep.text ++ onString (indentLines deep.indent.columns) after.text }, none) := by
  obtain ⟨width, tabWidth⟩ := widths_runAll success
  have start : deep = deep.fresh.nest deep.indent.depth deep.text := by
    simp [nest, fresh, Indent.inside, onString]
  obtain ⟨nested, _⟩ := runAll_nest deep.indent.depth deep.text movable (.inl rfl) success
  rw [← start] at nested
  rw [nested, nest, Indent.inside, width, tabWidth]
  rfl

/-- A block with a guard, a text of two lines and a level that stays open. -/
def lamp : List Step :=
  [.block "void light(void)" "\x7d" [.indented [.text "  on();\n\tglow();\n\n"], .blank], .enter, .line "/* dark */"]

/-- A builder that indents by two columns. -/
def narrow (depth : Nat) (text : String) : Builder where
  indent := { depth, width := 2 }
  text

theorem runAll_lamp_deeper :
    AllMovable lamp ∧
    runAll lamp (narrow 0 "") =
      (narrow 1 "void light(void)\n\x7b\n    on();\n      glow();\n\n\x7d\n  /* dark */\n", none) ∧
    runAll lamp (narrow 1 "x;\n") =
      (narrow 2 "x;\n  void light(void)\n  \x7b\n      on();\n        glow();\n\n  \x7d\n    /* dark */\n", none) := by
  have movable : AllMovable lamp := by simp [lamp, AllMovable, Movable, levels?, level?]
  have fresh : runAll lamp (narrow 0 "") =
      (narrow 1 "void light(void)\n\x7b\n    on();\n      glow();\n\n\x7d\n  /* dark */\n", none) := by
    decide +kernel
  refine ⟨movable, fresh, ?_⟩
  rw [runAll_deeper movable (narrow 1 "x;\n") fresh]
  decide +kernel

end Step

end DocWeave.Code
