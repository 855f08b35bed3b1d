import DocWeave.Proofs.Code.Passages
import DocWeave.Proofs.Render.Emission
import DocWeave.Proofs.Render.Filling

/-!
# The struct of a class

The rows of the struct template are filled one by one. The opening brace has no indentation, so the struct is moved as
it stands, and blocks of code in its fields come out as if they had been moved once.
-/

namespace DocWeave.Render

open Code Text

variable {context : Context} {self : Entity.Class}

/-! ### The lines of a struct -/

/-- Lines at a column, or one empty line if there are none. -/
def codeLines (column : Nat) (ls : List (List Char)) : List (List Char) :=
  if ls = [] then [[]] else ls.map (indentLine column)

/-- The lines of a text that keeps its own columns, as far in as a struct is. -/
def moved (context : Context) (cs : List Char) : List (List Char) :=
  (lines cs).map (settle context.options.tabWidth context.options.indentWidth)

/-- The names that a struct shows. -/
def structNames (symbols : Extension.ClassSymbols) : Template.Values :=
  [("struct", symbols.instanceStruct), ("on_new", symbols.onNew), ("on_free", symbols.onFree),
    ("on_copy", symbols.onCopy)]

/-- The text of a head in a struct. -/
def headRow (context : Context) (self : Entity.Class) (head : String) : List Char :=
  (context.fill head (structNames (classSymbols context self))).toList

/-- The lines of a head in a struct. -/
def headLines (context : Context) (self : Entity.Class) (head : String) : List (List Char) :=
  collapseEmpty (moved context (headRow context self head))

/-- The empty line behind the fields. It is left out behind another one. -/
def gap (code : List (List Char)) : List (List Char) :=
  if code = [[]] then [] else [[]]

/-- The lines of a function in a struct. -/
def hookLines (context : Context) (self : Entity.Class) (head : String) (code : List (List Char)) :
    List (List Char) :=
  let columns := context.options.indentWidth + 4
  headLines context self head ++ indentLine columns ['{'] :: code ++ [indentLine columns ['}']]

/-- The lines of the struct of a class, given those of the code for each key. -/
def structLines (context : Context) (self : Entity.Class) (code : FragmentKey → List (List Char)) :
    List (List Char) :=
  let columns := context.options.indentWidth
  headLines context self "struct %(struct)s"
    ++ [indentLine columns ['{'], indentLine (columns + 4) "PyObject_HEAD".toList]
    ++ code .default ++ gap (code .default)
    ++ hookLines context self "    void %(on_new)s()" (code .new) ++ [[]]
    ++ hookLines context self "    void %(on_free)s()" (code .free) ++ [[]]
    ++ hookLines context self "    void %(on_copy)s(%(struct)s* copy)" (code .copy)
    ++ [indentLine columns ['}', ';']]

/-- The column of the code of a key, from where the struct begins. -/
def codeOffset : FragmentKey → Nat
  | .default => 4
  | _ => 8

/-- Blocks of code at the columns of their fields. -/
def structCode (context : Context) (ls : FragmentKey → List (List Char)) (key : FragmentKey) : List (List Char) :=
  codeLines (context.options.indentWidth + codeOffset key) (ls key)

/-- The struct template, line by line. -/
def structSegmentLines : List (List Template.Segment) :=
  [[.text "struct ", .field "struct"], [.text "\x7b"], [.text "    PyObject_HEAD"], [.text "    ", .field "fields"], [],
    [.text "    void ", .field "on_new", .text "()"], [.text "    \x7b"], [.text "        ", .field "new"],
    [.text "    \x7d"], [],
    [.text "    void ", .field "on_free", .text "()"], [.text "    \x7b"], [.text "        ", .field "free"],
    [.text "    \x7d"], [],
    [.text "    void ", .field "on_copy", .text "(", .field "struct", .text "* copy)"], [.text "    \x7b"],
    [.text "        ", .field "copy"], [.text "    \x7d"], [.text "\x7d;"]]

theorem pieces_structTemplate_lines :
    Template.pieces structTemplate.toList =
      [.char '\n'].intercalate (structSegmentLines.map (·.flatMap Template.Segment.pieces)) :=
  pieces_structTemplate.trans (by decide +kernel)

section Rows

variable (context) (self) (code : FragmentKey → String)

/-- The text of a field behind spaces. -/
def fieldRow (n : Nat) (value : String) : List Char :=
  spaces n ++ Template.place context.options.tabWidth n value.toList

def hookRows (head : String) (key : FragmentKey) : List (List Char) :=
  [headRow context self head, indentLine 4 ['{'], fieldRow context 8 (code key), indentLine 4 ['}']]

def openingRows : List (List Char) :=
  [headRow context self "struct %(struct)s", ['{'], indentLine 4 "PyObject_HEAD".toList,
    fieldRow context 4 (code .default)]

/-- The texts that stand for the lines of the struct template. -/
def structRows : List (List Char) :=
  openingRows context self code
    ++ [] :: hookRows context self code "    void %(on_new)s()" .new
    ++ [] :: hookRows context self code "    void %(on_free)s()" .free
    ++ [] :: hookRows context self code "    void %(on_copy)s(%(struct)s* copy)" .copy
    ++ [['}', ';']]

theorem structRows_congr {code other : FragmentKey → String}
    (same : ∀ key ∈ EntityKind.class.keys, code key = other key) :
    structRows context self code = structRows context self other := by
  simp only [structRows, openingRows, hookRows, same .default (by decide), same .new (by decide),
    same .free (by decide), same .copy (by decide)]

theorem fillFrom_head (head : String) (segments : List Template.Segment)
    (spelled : head = String.ofList (segments.flatMap Template.Segment.written))
    (plain : ∀ segment ∈ segments, segment.Plain)
    (same : ∀ key, .field key ∈ segments → (structValues (classSymbols context self) code).lookup key =
      (structNames (classSymbols context self)).lookup key) :
    Template.fillFrom context.options.tabWidth (structValues (classSymbols context self) code) 0
      (segments.flatMap Template.Segment.pieces) = headRow context self head := by
  rw [headRow, Context.fill, toList_onString, Template.fill_eq_fillFrom _ _ spelled plain same]

theorem fillFrom_codeField (s : String) (n : Nat) (name : String) (key : FragmentKey) (margin : s.toList = spaces n)
    (given : (structValues (classSymbols context self) code).lookup name = some (code key)) :
    Template.fillFrom context.options.tabWidth (structValues (classSymbols context self) code) 0
      ([.text s, .field name].flatMap Template.Segment.pieces) = fieldRow context n (code key) :=
  Template.fillFrom_field _ _ margin given

theorem fill_structTemplate :
    Template.fill context.options.tabWidth (structValues (classSymbols context self) code) structTemplate.toList =
      joinLines (structRows context self code) := by
  have struct := fillFrom_head context self code "struct %(struct)s" [.text "struct ", .field "struct"]
    (by rfl) (by decide +kernel) (by simp; rfl)
  have onNew := fillFrom_head context self code "    void %(on_new)s()" [.text "    void ", .field "on_new", .text "()"]
    (by rfl) (by decide +kernel) (by simp; rfl)
  have onFree := fillFrom_head context self code "    void %(on_free)s()"
    [.text "    void ", .field "on_free", .text "()"] (by rfl) (by decide +kernel) (by simp; rfl)
  have onCopy := fillFrom_head context self code "    void %(on_copy)s(%(struct)s* copy)"
    [.text "    void ", .field "on_copy", .text "(", .field "struct", .text "* copy)"] (by rfl) (by decide +kernel)
    (by simp; exact ⟨rfl, rfl⟩)
  have fields := fillFrom_codeField context self code "    " 4 "fields" .default (by rfl) rfl
  have new := fillFrom_codeField context self code "        " 8 "new" .new (by rfl) rfl
  have free := fillFrom_codeField context self code "        " 8 "free" .free (by rfl) rfl
  have copy := fillFrom_codeField context self code "        " 8 "copy" .copy (by rfl) rfl
  rw [Template.fill, pieces_structTemplate_lines, Template.fillFrom_intercalate, List.map_map]
  refine congrArg joinLines ?_
  simp only [structSegmentLines, List.map_cons, List.map_nil, Function.comp_apply, struct, onNew, onFree, onCopy,
    fields, new, free, copy, Template.fillFrom_text]
  rfl

theorem exists_headRow (head s : String) (more : List Template.Segment)
    (spelled : head = String.ofList ((.text s :: more).flatMap Template.Segment.written))
    (plain : ∀ segment ∈ .text s :: more, segment.Plain) : ∃ tail, headRow context self head = s.toList ++ tail := by
  rw [headRow, Context.fill, toList_onString, Template.fill, Template.pieces_segments spelled plain, List.flatMap_cons,
    Template.Segment.pieces, Template.fillFrom_chars]
  exact ⟨_, rfl⟩

end Rows

/-! ### Moving the rows -/

theorem moved_indentLine (context : Context) (n : Nat) (line : List Char) (whole : '\n' ∉ line)
    (tabless : '\t' ∉ line) (trimmed : trimEnd line = line) :
    moved context (indentLine n line) = [indentLine (context.options.indentWidth + n) line] := by
  rw [moved, lines_of_not_mem (newline_not_mem_indentLine whole n), List.map_singleton,
    settle_indentLine tabless trimmed]

theorem moved_nil : moved context [] = [[]] := rfl

theorem exists_moved_cons {front rest : List Char} {c : Char} (whole : '\n' ∉ front) (prints : isBlankChar c = false) :
    ∃ first more, moved context (front ++ c :: rest) = first :: more ∧ first ≠ [] := by
  have still : '\n' ∉ front ++ [c] := by simp [whole, Ne.symm (ne_newline_of_prints prints)]
  obtain ⟨line, more, split⟩ := exists_lines_append still rest
  rw [List.append_assoc, List.append_assoc, List.singleton_append, List.singleton_append] at split
  exact ⟨_, _, by rw [moved, split, List.map_cons], settle_ne_nil (isBlank_of_prints prints front line) _ _⟩

theorem moved_fieldRow (context : Context) {ls : List (List Char)} {value : String} (frame : ls = [] ∨ Framed ls)
    (joined : value.toList = joinLines ls) (n : Nat) :
    moved context (fieldRow context n value) = codeLines (context.options.indentWidth + n) ls := by
  rcases frame with rfl | framed
  · have empty : fieldRow context n value = spaces n := by
      rw [fieldRow, joined]
      exact List.append_nil _
    rw [empty, moved, lines_of_not_mem (newline_not_mem_spaces n), List.map_singleton,
      settle_of_blank (isBlank_spaces n)]
    rfl
  · rw [fieldRow, joined, Template.spaces_append_place _ framed, moved, framed.tidy.lines_indented, framed.map_settle,
      codeLines, if_neg framed.ne_nil]

theorem collapseEmpty_codeLines {ls : List (List Char)} (frame : ls = [] ∨ Framed ls) (column : Nat) :
    collapseEmpty (codeLines column ls) = codeLines column ls := by
  rcases frame with rfl | framed
  · rfl
  · rw [codeLines, if_neg framed.ne_nil, framed.collapseEmpty_indented]

/-- An empty line behind code. Where there is no code, one empty line stands for both. -/
theorem collapseEmpty_codeLines_append {ls : List (List Char)} (frame : ls = [] ∨ Framed ls) (column : Nat)
    {rest further : List (List Char)} (next : collapseEmpty ([] :: rest) = [] :: further) :
    collapseEmpty (codeLines column ls ++ [] :: rest) =
      codeLines column ls ++ gap (codeLines column ls) ++ further := by
  rcases frame with rfl | framed
  · exact next
  · have coded : codeLines column ls = ls.map (indentLine column) := if_neg framed.ne_nil
    have several : codeLines column ls ≠ [[]] := by
      rw [coded]
      intro same
      obtain ⟨line, rfl, empty⟩ := List.map_eq_singleton_iff.mp same
      exact framed.head_ne_nil line rfl (indentLine_eq_nil.mp empty)
    rw [gap, if_neg several, collapseEmpty_append, next, coded, framed.collapseEmpty_indented, List.append_assoc,
      List.singleton_append]
    rintro last listed _ _
    rw [coded, List.getLast?_map] at listed
    obtain ⟨line, ends, rfl⟩ := Option.map_eq_some_iff.mp listed
    exact .inl (mt indentLine_eq_nil.mp (framed.ends line ends))

/-- The rows of a function come out as its lines. -/
theorem collapseEmpty_hookRows (context : Context) (self : Entity.Class) (code : FragmentKey → String)
    {key : FragmentKey} {ls : List (List Char)} (frame : ls = [] ∨ Framed ls)
    (joined : (code key).toList = joinLines ls) {head : String}
    (opens : ∃ first more, moved context (headRow context self head) = first :: more ∧ first ≠ [])
    (rest : List (List Char)) :
    collapseEmpty (([] :: hookRows context self code head key).flatMap (moved context) ++ rest) =
      [] :: hookLines context self head (codeLines (context.options.indentWidth + 8) ls) ++ collapseEmpty rest := by
  have opening : moved context (indentLine 4 ['{']) = [indentLine (context.options.indentWidth + 4) ['{']] :=
    moved_indentLine context 4 _ (by decide) (by decide) (by decide)
  have closing : moved context (indentLine 4 ['}']) = [indentLine (context.options.indentWidth + 4) ['}']] :=
    moved_indentLine context 4 _ (by decide) (by decide) (by decide)
  have behind : ∀ c, indentLine (context.options.indentWidth + 4) [c] ≠ [] := by simp [indentLine]
  simp only [hookRows, List.flatMap_cons, List.flatMap_nil, moved_nil, opening, closing,
    moved_fieldRow context frame joined, List.append_assoc, List.cons_append, List.nil_append]
  rw [collapseEmpty_cons, collapseEmpty_append_cons (behind _), collapseEmpty_append_cons (behind _),
    collapseEmpty_codeLines frame, hookLines, headLines]
  · simp
  · obtain ⟨first, more, split, filled⟩ := opens
    intro next listed
    rw [split, List.cons_append, List.head?_cons, Option.mem_some_iff] at listed
    exact .inr (listed ▸ filled)

theorem exists_moved_hook (context : Context) (self : Entity.Class) (head : String) (more : List Template.Segment)
    (spelled : head = String.ofList ((.text "    void " :: more).flatMap Template.Segment.written))
    (plain : ∀ segment ∈ .text "    void " :: more, segment.Plain) :
    ∃ first others, moved context (headRow context self head) = first :: others ∧ first ≠ [] := by
  obtain ⟨tail, split⟩ := exists_headRow context self head "    void " more spelled plain
  rw [split]
  exact exists_moved_cons (newline_not_mem_spaces 4) (by decide)

theorem moved_openingRows (context : Context) (self : Entity.Class) {code : FragmentKey → String}
    {ls : List (List Char)} (frame : ls = [] ∨ Framed ls) (joined : (code .default).toList = joinLines ls) :
    (openingRows context self code).flatMap (moved context) =
      moved context (headRow context self "struct %(struct)s") ++ indentLine context.options.indentWidth ['{'] ::
        indentLine (context.options.indentWidth + 4) "PyObject_HEAD".toList ::
          codeLines (context.options.indentWidth + 4) ls := by
  have brace : moved context ['{'] = [indentLine context.options.indentWidth ['{']] :=
    moved_indentLine context 0 ['{'] (by decide) (by decide) (by decide)
  have object : moved context (indentLine 4 "PyObject_HEAD".toList) =
      [indentLine (context.options.indentWidth + 4) "PyObject_HEAD".toList] :=
    moved_indentLine context 4 _ (by decide) (by decide) (by decide)
  simp only [openingRows, List.flatMap_cons, List.flatMap_nil, brace, object, moved_fieldRow context frame joined,
    List.append_nil, List.singleton_append]

/-! ### The text of a struct -/

theorem brace_mem_structRows (context : Context) (self : Entity.Class) (code : FragmentKey → String) :
    ['{'] ∈ structRows context self code := by
  simp [structRows, openingRows]

theorem structRows_ne_nil (context : Context) (self : Entity.Class) (code : FragmentKey → String) :
    structRows context self code ≠ [] :=
  List.ne_nil_of_mem (brace_mem_structRows context self code)

/-- The opening brace has no indentation, so every line of the struct keeps its own. -/
theorem reindent_structRows (context : Context) (self : Entity.Class) (code : FragmentKey → String) :
    reindent context.options.tabWidth context.options.indentWidth (joinLines (structRows context self code)) =
      joinLines (collapseEmpty ((structRows context self code).flatMap (moved context))) := by
  have split := lines_joinTexts (structRows_ne_nil context self code)
  have brace : ['{'] ∈ lines (joinLines (structRows context self code)) := by
    rw [split]
    exact List.mem_flatMap_of_mem (brace_mem_structRows context self code) (by decide)
  have flush : indentation (expandTabs context.options.tabWidth ['{']) = 0 := by
    rw [expandTabs_of_not_mem (by decide)]
    rfl
  rw [reindent_of_flush brace (by decide) flush, split, List.map_flatMap]
  rfl

theorem exists_structLines_concat (context : Context) (self : Entity.Class) (code : FragmentKey → List (List Char)) :
    ∃ ls line, structLines context self code = ls ++ [line ++ [';']] :=
  ⟨_, spaces context.options.indentWidth ++ ['}'], by
    rw [structLines, indentLine_of_ne (List.cons_ne_nil _ _), List.append_assoc (spaces _)]
    rfl⟩

/-- What steps add in the indented part of the implementation. -/
def indentedText (context : Context) (steps : List Step) : String :=
  Step.outputAll context.options.tabWidth (Indent.enter { width := context.options.indentWidth }) steps

/-- The steps of a struct: where the class is, the filled template, and an empty line. -/
abbrev structSteps (context : Context) (self : Entity.Class) (code : FragmentKey → String) : List Step :=
  [positionLine self.position, .text (context.fill structTemplate (structValues (classSymbols context self) code)),
    .blank]

/-- The steps of a struct add the rows of the template. -/
theorem indentedText_structRows (context : Context) (self : Entity.Class) (code : FragmentKey → String) :
    (indentedText context (structSteps context self code)).toList =
      (indentedText context [positionLine self.position]).toList
        ++ Builder.trimLineEnds (joinLines (collapseEmpty ((structRows context self code).flatMap (moved context))))
        ++ ['\n', '\n'] := by
  have column : Indent.columns (Indent.enter { width := context.options.indentWidth }) =
      context.options.indentWidth := Nat.one_mul _
  have text : (context.fill structTemplate (structValues (classSymbols context self) code)).toList =
      joinLines (structRows context self code) := by
    rw [Context.fill, toList_onString, fill_structTemplate]
  have prints : isBlank (joinLines (structRows context self code)) = false := by
    rw [isBlank_joinLines, List.all_eq_false]
    exact ⟨_, brace_mem_structRows context self code, by decide⟩
  simp [indentedText, Step.outputAll, Step.output, Builder.blockText, text, prints, column, reindent_structRows]

/-! ### The code of a struct -/

section Code

variable (context) (self) {code : FragmentKey → String} {ls : FragmentKey → List (List Char)}
  (frame : ∀ key ∈ EntityKind.class.keys, ls key = [] ∨ Framed (ls key))
  (joined : ∀ key ∈ EntityKind.class.keys, (code key).toList = joinLines (ls key))

include frame joined

/-- The rows of the template come out as the lines of the struct. -/
theorem collapseEmpty_structRows :
    collapseEmpty ((structRows context self code).flatMap (moved context)) =
      structLines context self (structCode context ls) := by
  have new := collapseEmpty_hookRows context self code (frame .new (by decide)) (joined .new (by decide))
    (exists_moved_hook context self "    void %(on_new)s()" [.field "on_new", .text "()"] (by rfl) (by decide +kernel))
  have free := collapseEmpty_hookRows context self code (frame .free (by decide)) (joined .free (by decide))
    (exists_moved_hook context self "    void %(on_free)s()" [.field "on_free", .text "()"] (by rfl)
      (by decide +kernel))
  have copy := collapseEmpty_hookRows context self code (frame .copy (by decide)) (joined .copy (by decide))
    (exists_moved_hook context self "    void %(on_copy)s(%(struct)s* copy)"
      [.field "on_copy", .text "(", .field "struct", .text "* copy)"] (by rfl) (by decide +kernel))
  have fields : ∀ rest, collapseEmpty (codeLines (context.options.indentWidth + 4) (ls .default)
        ++ (([] :: hookRows context self code "    void %(on_new)s()" .new).flatMap (moved context) ++ rest)) = _ :=
    fun rest => collapseEmpty_codeLines_append (frame .default (by decide)) _ (new rest)
  have opening := moved_openingRows context self (frame .default (by decide)) (joined .default (by decide))
  have closing : [['}', ';']].flatMap (moved context) = [indentLine context.options.indentWidth ['}', ';']] :=
    (List.flatMap_singleton _ _).trans (moved_indentLine context 0 ['}', ';'] (by decide) (by decide) (by decide))
  have brace : indentLine context.options.indentWidth ['{'] ≠ [] := mt indentLine_eq_nil.mp (by decide)
  have object : indentLine (context.options.indentWidth + 4) "PyObject_HEAD".toList ≠ [] :=
    mt indentLine_eq_nil.mp (by decide)
  rw [structRows, List.flatMap_append, List.flatMap_append, List.flatMap_append, List.flatMap_append, opening, closing]
  simp only [List.append_assoc, List.cons_append]
  -- What follows is split at the lines that are not empty, and each field is a case of its own.
  rw [collapseEmpty_append_cons brace, collapseEmpty_cons fun _ _ => .inl object, fields, free, copy]
  simp [structLines, headLines, collapseEmpty, structCode, codeOffset]

theorem newline_not_mem_structLines {line : List Char}
    (member : line ∈ structLines context self (structCode context ls)) : '\n' ∉ line := by
  rw [← collapseEmpty_structRows context self frame joined] at member
  obtain ⟨row, _, listed⟩ := List.mem_flatMap.mp (mem_of_mem_collapseEmpty member)
  obtain ⟨source, known, rfl⟩ := List.mem_map.mp listed
  exact newline_not_mem_shiftLine (newline_not_mem_expandTabsFrom (not_mem_of_mem_lines known))

/-- The steps of a struct add its lines. -/
theorem indentedText_structSteps :
    (indentedText context (structSteps context self code)).toList =
      (indentedText context [positionLine self.position]).toList
        ++ joinLines (structLines context self (structCode context ls)) ++ ['\n', '\n'] := by
  obtain ⟨before, last, ends⟩ := exists_structLines_concat context self (structCode context ls)
  obtain ⟨front, whole⟩ := exists_joinLines_concat before last ';'
  rw [indentedText_structRows, collapseEmpty_structRows context self frame joined, ends, whole,
    trimLineEnds_concat (by decide)]

theorem structLines_infix {whole : List Char}
    (passage : Passage (indentedText context (structSteps context self code)).toList whole) :
    structLines context self (structCode context ls) <:+: lines whole := by
  obtain ⟨before, last, ends⟩ := exists_structLines_concat context self (structCode context ls)
  rw [indentedText_structSteps context self frame joined] at passage
  have inner : Passage (joinLines (structLines context self (structCode context ls)) ++ ['\n']) _ :=
    ⟨(indentedText context [positionLine self.position]).toList, ['\n'], rfl, Step.ended_outputAll ..⟩
  refine Passage.lines_infix (inner.trans ?_) (fun _ => newline_not_mem_structLines context self frame joined) ?_
  · simpa using passage
  · simp [ends]

end Code

/-- The struct of a class is one of the indented parts of the implementation. -/
theorem passage_of_structDefinition {steps : List Step} (nested : Nested context steps)
    (included : self ∈ context.graph.includedClasses) :
    ∃ own, structDefinition context self = .ok own ∧
      Passage (indentedText context own).toList (page context.options steps).toList := by
  obtain ⟨preamble, structs, functions, bodies, _, structsMade, _, _, whole⟩ := nested
  obtain ⟨parts, related, rfl⟩ := concat_eq_ok structsMade
  obtain ⟨own, listed, made⟩ := exists_of_forall₂_left related included
  refine ⟨own, made, ?_⟩
  have inside : own <:+: body context parts.flatten functions bodies := by
    refine (List.infix_of_mem_flatten listed).trans ?_
    rw [body, List.append_assoc _ functions, List.append_assoc, List.append_assoc, List.append_assoc]
    exact List.infix_append' _ _ _
  have member : .indented (body context parts.flatten functions bodies) ∈ steps := by simp [whole, around]
  obtain ⟨before, after, split⟩ := List.append_of_mem member
  have indented : [.indented (body context parts.flatten functions bodies)] <:+: steps :=
    ⟨before, after, by simp [split]⟩
  have outer := Step.passage_of_infix context.options.tabWidth { width := context.options.indentWidth } indented
  rw [Step.outputAll, Step.output, Step.outputAll, String.append_empty] at outer
  exact (Step.passage_of_infix _ _ inside).trans outer

end DocWeave.Render
