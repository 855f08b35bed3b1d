import DocWeave.Fault
import DocWeave.Text.Block

/-!
Building code line by line.

A builder holds the text so far and the depth of indentation. Steps say what to add; a block or an indented
part holds steps of its own. Only a step that leaves a level where none is open can fail.
-/

namespace DocWeave.Code

open DocWeave.Text

structure Indent where
  depth : Nat := 0
  width : Nat := 4
  deriving DecidableEq, Repr

namespace Indent

def columns (indent : Indent) : Nat :=
  indent.depth * indent.width

def lead (indent : Indent) : String :=
  String.ofList (spaces indent.columns)

def enter (indent : Indent) : Indent :=
  { indent with depth := indent.depth + 1 }

/-- Leave a level. There must be one. -/
def leave (indent : Indent) : Except Fault Indent :=
  if indent.depth = 0 then .error .unbalancedIndent
  else .ok { indent with depth := indent.depth - 1 }

end Indent

structure Builder where
  indent : Indent := {}
  tabWidth : Nat := defaultTabWidth
  text : String := ""
  deriving DecidableEq, Repr

inductive Step where
  /-- A line at the depth of the builder. An empty line is not indented. -/
  | line (s : String)
  | blank
  /-- Text as it is. -/
  | raw (s : String)
  /-- A text moved to the depth of the builder. Blank text adds nothing. -/
  | text (s : String)
  | enter
  | leave
  /-- A head, an opening brace, steps one level deeper, and a closing line. -/
  | block (head close : String) (body : List Step)
  /-- Steps one level deeper. The level is left after a failure too. -/
  | indented (body : List Step)

namespace Builder

def append (builder : Builder) (s : String) : Builder :=
  { builder with text := builder.text ++ s }

/-- A line at a depth. An empty line is not indented. -/
def lineText (indent : Indent) (s : String) : String :=
  if s = "" then "\n" else indent.lead ++ s ++ "\n"

def line (builder : Builder) (s : String) : Builder :=
  builder.append (lineText builder.indent s)

def trimLineEnds (cs : List Char) : List Char :=
  (cs.reverse.dropWhile (· = '\n')).reverse

/-- A text at a depth, without the empty lines at its end. Of a blank text nothing is left. -/
def blockText (indent : Indent) (tabWidth : Nat) (s : String) : String :=
  if isBlank s.toList then ""
  else String.ofList (trimLineEnds (reindent tabWidth indent.columns s.toList)) ++ "\n"

/-- Add a text at the depth of the builder. -/
def addText (builder : Builder) (s : String) : Builder :=
  builder.append (blockText builder.indent builder.tabWidth s)

def enter (builder : Builder) : Builder :=
  { builder with indent := builder.indent.enter }

/-- A builder after some steps, and the fault that stopped them. -/
abbrev Outcome := Builder × Option Fault

def leave (builder : Builder) : Outcome :=
  match builder.indent.leave with
  | .ok indent => ({ builder with indent }, none)
  | .error fault => (builder, some fault)

end Builder

open Builder

mutual

def Step.run : Step → Builder → Outcome
  | .line s, builder => (builder.line s, none)
  | .blank, builder => (builder.append "\n", none)
  | .raw s, builder => (builder.append s, none)
  | .text s, builder => (builder.addText s, none)
  | .enter, builder => (builder.enter, none)
  | .leave, builder => builder.leave
  | .block head close body, builder =>
    match Step.runAll body ((builder.line head).line "\x7b").enter with
    | (inner, some fault) => (inner, some fault)
    | (inner, none) =>
      match inner.leave with
      | (left, some fault) => (left, some fault)
      | (left, none) => (left.line close, none)
  | .indented body, builder =>
    let (inner, fault) := Step.runAll body builder.enter
    (inner.leave.1, fault)

/-- Add steps up to the first that fails. -/
def Step.runAll : List Step → Builder → Outcome
  | [], builder => (builder, none)
  | step :: rest, builder =>
    match Step.run step builder with
    | (added, none) => Step.runAll rest added
    | failed => failed

end

/-- Add every step, also after a failure. -/
def Step.runEach (steps : List Step) (builder : Builder) : Builder :=
  steps.foldl (fun builder step => (step.run builder).1) builder

structure Step.Trace where
  step : Step
  outcome : Outcome

mutual

/-- What a step and the steps inside it left, in the order in which they end. -/
def Step.trace : Step → Builder → List Step.Trace
  | .block head close body, builder =>
    Step.traceAll body ((builder.line head).line "\x7b").enter
      ++ [⟨.block head close body, Step.run (.block head close body) builder⟩]
  | .indented body, builder =>
    Step.traceAll body builder.enter ++ [⟨.indented body, Step.run (.indented body) builder⟩]
  | step, builder => [⟨step, Step.run step builder⟩]

/-- What steps left, up to the first that fails. -/
def Step.traceAll : List Step → Builder → List Step.Trace
  | [], _ => []
  | step :: rest, builder =>
    Step.trace step builder ++
      match Step.run step builder with
      | (added, none) => Step.traceAll rest added
      | _ => []

end

/-- What steps left, also after a failure. -/
def Step.traceEach : List Step → Builder → List Step.Trace
  | [], _ => []
  | step :: rest, builder => Step.trace step builder ++ Step.traceEach rest (Step.run step builder).1

end DocWeave.Code
