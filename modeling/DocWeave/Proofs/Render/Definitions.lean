import DocWeave.Proofs.Code.Tables
import DocWeave.Proofs.Render.Listing
import DocWeave.Proofs.Template

/-!
# What the parts of an implementation define

A part with code defines a function, a part with a description defines a constant, and every table is defined by a
part of its own. A part that has nothing to define holds no such definition.
-/

namespace DocWeave.Render

open Code Extension Step Tag Template Text

/-- A text holds another, up to white space. -/
def Prints (text s : String) : Prop :=
  ink s.toList <:+: ink text.toList

/-- Something that code defines: a function by its head, and other things by their symbols. -/
inductive Definition where
  | function (head : String)
  | constant (symbol : String)
  | array (type symbol : String)
  | struct (type symbol : String)

/-- Steps hold the definition. A function is a block, is written line by line, or is a part of a text. -/
inductive Definition.StandsIn : Definition → List Step → Prop
  | block {head close body steps} (member : .block head close body ∈ steps) : StandsIn (.function head) steps
  | lines {head steps} (inside : [.line head, .line "\x7b"] <:+: steps) : StandsIn (.function head) steps
  | text {head text steps} (member : .text text ∈ steps) (inside : Prints text (head ++ "\x7b")) :
      StandsIn (.function head) steps
  | constant {symbol spelled steps}
      (member : .line ("static const char " ++ symbol ++ "[] = \"" ++ spelled ++ "\";") ∈ steps) :
      StandsIn (.constant symbol) steps
  | array {type symbol steps} (member : .line ("static " ++ type ++ " " ++ symbol ++ "[] =") ∈ steps) :
      StandsIn (.array type symbol) steps
  | struct {table : StructTable} {steps} (member : .text table.render ∈ steps) :
      StandsIn (.struct table.type table.name) steps

open Definition

variable {context : Context} {steps more : List Step}

theorem Definition.StandsIn.append_left {definition : Definition} (stands : definition.StandsIn steps) :
    definition.StandsIn (steps ++ more) := by
  cases stands with
  | block member => exact .block (List.mem_append_left _ member)
  | lines inside => exact .lines (inside.trans (List.prefix_append _ _).isInfix)
  | text member inside => exact .text (List.mem_append_left _ member) inside
  | constant member => exact .constant (List.mem_append_left _ member)
  | array member => exact .array (List.mem_append_left _ member)
  | struct member => exact .struct (List.mem_append_left _ member)

theorem not_standsIn_nil (definition : Definition) : ¬ definition.StandsIn [] := by
  intro stands
  cases stands with
  | lines inside => simp at inside
  | block member => cases member
  | text member _ => cases member
  | constant member => cases member
  | array member => cases member
  | struct member => cases member

/-! ### Definitions in a text -/

/-- The text that a definition begins with. -/
def Definition.opening : Definition → String
  | function head => head ++ "\x7b"
  | constant symbol => "static const char " ++ symbol ++ "[] ="
  | array type symbol => "static " ++ type ++ " " ++ symbol ++ "[] ="
  | struct type symbol => type ++ " " ++ symbol ++ " =\x7b"

theorem Prints.mono {text whole s : String} (inside : text.toList <:+: whole.toList) (prints : Prints text s) :
    Prints whole s :=
  prints.trans (inside.filter _)

theorem prints_of_ink_eq {text s : String} (same : ink text.toList = ink s.toList) : Prints text s :=
  ⟨[], [], by simp [same]⟩

theorem prints_of_eq {text s : String} (before after : List Char)
    (whole : ink text.toList = before ++ (ink s.toList ++ after)) : Prints text s := by
  rw [Prints, whole]
  exact List.infix_append' before _ after

theorem output_infix_of_mem (tabWidth : Nat) (indent : Indent) {step : Step} (member : step ∈ steps) :
    (step.output tabWidth indent).toList <:+: (outputAll tabWidth indent steps).toList := by
  obtain ⟨before, after, rfl⟩ := List.append_of_mem member
  refine ⟨(outputAll tabWidth indent before).toList, (outputAll tabWidth indent after).toList, ?_⟩
  simp [outputAll_append, outputAll]

theorem ink_lineText (indent : Indent) (s : String) : ink (Builder.lineText indent s).toList = ink s.toList :=
  ink_eq_of_gist_eq (gist_lineText indent s)

theorem prints_line (tabWidth : Nat) (indent : Indent) {s : String} (member : .line s ∈ steps) :
    Prints (outputAll tabWidth indent steps) s := by
  apply Prints.mono (output_infix_of_mem tabWidth indent member)
  exact prints_of_ink_eq (ink_lineText indent s)

theorem prints_text (tabWidth : Nat) (indent : Indent) {s : String} (member : .text s ∈ steps) :
    Prints (outputAll tabWidth indent steps) s := by
  apply Prints.mono (output_infix_of_mem tabWidth indent member)
  exact prints_of_ink_eq (ink_eq_of_gist_eq (gist_blockText indent tabWidth s))

/-- A struct is rendered with its type and its name first, behind a storage class at most. -/
theorem prints_render (table : StructTable) : Prints table.render (table.type ++ " " ++ table.name ++ " =\x7b") := by
  obtain ⟨front, rest, lines⟩ : ∃ front rest,
      table.lines = (front ++ (table.type ++ " " ++ table.name ++ " =")) :: "\x7b" :: rest := by
    unfold StructTable.lines
    cases table.storage with
    | none => exact ⟨"", _, by rw [String.empty_append]; rfl⟩
    | some storage => exact ⟨storage ++ " ", _, by simp only [String.append_assoc]; rfl⟩
  have opened : ink " =\x7b".toList = ink " =".toList ++ ink "\x7b".toList := by decide
  apply prints_of_eq (ink front.toList) (rest.flatMap fun line => ink line.toList)
  rw [StructTable.render, ink_intercalate, lines]
  simp only [String.toList_append, ink_append, opened, List.flatMap_cons, List.append_assoc]

/-- What steps define, their text prints. -/
theorem Definition.StandsIn.prints {definition : Definition} (stands : definition.StandsIn steps) (tabWidth : Nat)
    (indent : Indent) : Prints (outputAll tabWidth indent steps) definition.opening := by
  cases stands with
  | @block head close body _ member =>
    apply Prints.mono (output_infix_of_mem tabWidth indent member)
    change Prints _ (head ++ "\x7b")
    apply prints_of_eq [] (ink (outputAll tabWidth indent.enter body).toList ++ ink close.toList)
    simp only [output, String.toList_append, ink_append, ink_lineText, List.nil_append, List.append_assoc]
  | @lines head _ inside =>
    obtain ⟨before, after, rfl⟩ := inside
    change Prints _ (head ++ "\x7b")
    apply prints_of_eq (ink (outputAll tabWidth indent before).toList) (ink (outputAll tabWidth indent after).toList)
    simp only [outputAll_append, outputAll, output, String.append_empty, String.toList_append, ink_append,
      ink_lineText, List.append_assoc]
  | text member inside => exact List.IsInfix.trans inside (prints_text tabWidth indent member)
  | @constant symbol spelled _ member =>
    have value : ink "[] = \"".toList = ink "[] =".toList ++ ink "\"".toList := by decide
    refine List.IsInfix.trans ?_ (prints_line tabWidth indent member)
    change Prints _ ("static const char " ++ symbol ++ "[] =")
    apply prints_of_eq [] (ink "\"".toList ++ (ink spelled.toList ++ ink "\";".toList))
    simp only [String.toList_append, ink_append, value, List.nil_append, List.append_assoc]
  | array member => exact prints_line tabWidth indent member
  | struct member => exact (prints_render _).trans (prints_text tabWidth indent member)

/-! ### Definitions by symbol -/

/-- The definition gives the symbol its meaning. In the head of a function it stands between a type and parameters. -/
inductive Definition.Names : Definition → String → Prop
  | head {type symbol parameters : String} (blank : type.toList.getLast? = some ' ')
      (call : parameters.toList.head? = some '(') : Names (.function (type ++ symbol ++ parameters)) symbol
  | record {symbol} : Names (.function ("struct " ++ symbol)) symbol
  | constant {symbol} : Names (.constant symbol) symbol
  | array {type symbol} : Names (.array type symbol) symbol
  | struct {type symbol} : Names (.struct type symbol) symbol

theorem names_head {head symbol type : String} (rest : String) (blank : type.toList.getLast? = some ' ')
    (whole : head = type ++ symbol ++ "(" ++ rest) : (function head).Names symbol := by
  have call : type ++ symbol ++ "(" ++ rest = type ++ symbol ++ ("(" ++ rest) := String.append_assoc
  rw [whole, call]
  exact .head blank (by simp)

theorem names_convention (convention : Convention) (symbol object : String) :
    (function (convention.signature symbol object)).Names symbol := by
  have blank : "PyObject* ".toList.getLast? = some ' ' := by decide
  apply names_head (object ++ " self, " ++ convention.parameters ++ ")") blank
  change "PyObject* " ++ symbol ++ "(" ++ object ++ " self, " ++ convention.parameters ++ ")" = _
  simp only [String.append_assoc]

theorem names_functionType (type : FunctionType) (symbol object : String) :
    (function (type.signature symbol object)).Names symbol := by
  have blank : (type.returns ++ " ").toList.getLast? = some ' ' := by simp
  apply names_head (", ".intercalate (type.parameters.zipIdx.map fun entry =>
    FunctionType.parameter object entry.2 entry.1) ++ ")") blank
  simp only [FunctionType.signature, String.append_assoc]

theorem names_dispatch (dispatch : Dispatch) (symbol object : String) :
    (function (dispatch.signature symbol object)).Names symbol := by
  have blank : "PyObject* ".toList.getLast? = some ' ' := by decide
  unfold Dispatch.signature
  split
  · exact names_convention _ _ _
  · split
    · exact names_functionType _ _ _
    · apply names_head (object ++ " self)") blank
      simp only [String.append_assoc]
  · apply names_head (object ++ " self, PyObject* arg1, int arg2)") blank
    simp only [String.append_assoc]

theorem names_getter (symbols : ClassSymbols) (property : Entity.Property) :
    (function (getterHead symbols property)).Names (symbols.getter property.name) := by
  have blank : "PyObject* ".toList.getLast? = some ' ' := by decide
  apply names_head (receiver symbols ++ " self, void*)") blank
  simp only [getterHead, String.append_assoc]

theorem names_setter (symbols : ClassSymbols) (property : Entity.Property) :
    (function (setterHead symbols property)).Names (symbols.setter property.name) := by
  have blank : "int ".toList.getLast? = some ' ' := by decide
  apply names_head (receiver symbols ++ " self, PyObject* arg1, void*)") blank
  simp only [setterHead, String.append_assoc]

theorem names_compare (symbols : ClassSymbols) : (function (compareHead symbols)).Names symbols.compareFunction := by
  have blank : "PyObject* ".toList.getLast? = some ' ' := by decide
  apply names_head (receiver symbols ++ " self, PyObject* arg1, int arg2)") blank
  simp only [compareHead, String.append_assoc]

theorem names_dealloc (symbols : ClassSymbols) : (function (deallocHead symbols)).Names symbols.deallocFunction := by
  have blank : "void ".toList.getLast? = some ' ' := by decide
  apply names_head (receiver symbols ++ " self)") blank
  simp only [deallocHead, String.append_assoc]

theorem names_new (symbols : ClassSymbols) : (function (newHead symbols)).Names symbols.newFunction :=
  .head (by decide) (by decide)

theorem names_register (symbols : ClassSymbols) : (function (registerHead symbols)).Names symbols.registerFunction :=
  .head (by decide) (by decide)

theorem names_create (context : Context) :
    (function (createHead context)).Names (context.symbols.createModule context.graph.module.name) :=
  .head (by decide) (by decide)

/-! ### Documented code -/

/-- Steps that only define functions. -/
def OnlyBlocks (code : List Step) : Prop :=
  ∀ step ∈ code, ∃ head close body, step = .block head close body

section Documented

variable {position : Position} {symbol description : String} {code : List Step}

theorem constant_standsIn_docLine {symbol description : String} (described : description ≠ "") :
    (constant symbol).StandsIn (docLine symbol description) := by
  rw [docLine, if_neg described]
  exact .constant List.mem_cons_self

theorem constant_standsIn_docLine_iff : (constant symbol).StandsIn (docLine symbol description) ↔ description ≠ "" := by
  refine ⟨?_, constant_standsIn_docLine⟩
  rintro stands rfl
  exact not_standsIn_nil _ stands

theorem eq_of_mem_docLine {step : Step} (member : step ∈ docLine symbol description) :
    description ≠ "" ∧ ∃ spelled, step = .line ("static const char " ++ symbol ++ "[] = \"" ++ spelled ++ "\";") := by
  unfold docLine at member
  split at member
  · cases member
  · rename_i described
    exact ⟨described, _, List.mem_singleton.mp member⟩

/-- Documented code has a line with the place, and another one only with a description. -/
theorem line_of_mem_documented (blocks : OnlyBlocks code) {s : String}
    (member : .line s ∈ documented position symbol description code) :
    s.toList.head? = some '/' ∨ description ≠ "" ∧ s.toList.head? = some 's' := by
  have parts : .line s = positionLine position ∨ .line s ∈ docLine symbol description ∨ .line s ∈ code := by
    simpa [documented] using member
  rcases parts with place | doc | inside
  · cases place
    exact .inl (by simp)
  · obtain ⟨described, spelled, same⟩ := eq_of_mem_docLine doc
    cases same
    exact .inr ⟨described, by simp⟩
  · obtain ⟨_, _, _, other⟩ := blocks _ inside
    cases other

theorem text_not_mem_documented (blocks : OnlyBlocks code) (s : String) :
    .text s ∉ documented position symbol description code := by
  intro member
  have parts : .text s = positionLine position ∨ .text s ∈ docLine symbol description ∨ .text s ∈ code := by
    simpa [documented] using member
  rcases parts with place | doc | inside
  · cases place
  · obtain ⟨_, _, other⟩ := eq_of_mem_docLine doc
    cases other
  · obtain ⟨_, _, _, other⟩ := blocks _ inside
    cases other

theorem block_mem_documented {head close : String} {body : List Step} :
    .block head close body ∈ documented position symbol description code ↔ .block head close body ∈ code := by
  have doc : .block head close body ∉ docLine symbol description := by
    intro member
    obtain ⟨_, _, other⟩ := eq_of_mem_docLine member
    cases other
  simp [documented, positionLine, doc]

theorem constant_standsIn_documented (blocks : OnlyBlocks code) :
    (constant symbol).StandsIn (documented position symbol description code) ↔ description ≠ "" := by
  refine ⟨?_, ?_⟩
  · intro stands
    cases stands with
    | constant member =>
      rcases line_of_mem_documented blocks member with place | ⟨described, _⟩
      · simp at place
      · exact described
  · intro described
    refine StandsIn.append_left (StandsIn.append_left ?_)
    rw [docLine, if_neg described]
    exact .constant (List.mem_cons_of_mem _ List.mem_cons_self)

/-- A function stands in documented code only as a block. -/
theorem function_standsIn_documented (blocks : OnlyBlocks code) {head : String} :
    (function head).StandsIn (documented position symbol description code) ↔
      ∃ close body, .block head close body ∈ code := by
  refine ⟨?_, ?_⟩
  · intro stands
    cases stands with
    | block member => exact ⟨_, _, block_mem_documented.mp member⟩
    | lines inside =>
      have brace := inside.subset (List.mem_cons_of_mem _ List.mem_cons_self)
      rcases line_of_mem_documented blocks brace with place | ⟨_, doc⟩
      · cases place
      · cases doc
    | text member _ => exact absurd member (text_not_mem_documented blocks _)
  · rintro ⟨close, body, member⟩
    exact .block (block_mem_documented.mpr member)

end Documented

/-! ### Functions and members -/

section Code

variable {head : String} {site : Fragment → Site} {fragment? : Option Fragment}

theorem onlyBlocks_code (code : CodeOf context head site fragment? steps) : OnlyBlocks steps := by
  cases code <;> simp [OnlyBlocks]

theorem exists_block_of_code (coded : fragment?.isSome) (code : CodeOf context head site fragment? steps) :
    ∃ close body, .block head close body ∈ steps := by
  cases code with
  | missing => cases coded
  | given expanded => exact ⟨_, _, List.mem_cons_self⟩

theorem block_mem_code {other close : String} {body : List Step} (code : CodeOf context head site fragment? steps)
    (member : .block other close body ∈ steps) : other = head ∧ fragment?.isSome := by
  cases code with
  | missing => cases member
  | given expanded =>
    cases List.mem_singleton.mp member
    exact ⟨rfl, rfl⟩

end Code

theorem function_defined {entity : Entity.Function} (coded : entity.body?.isSome)
    (succeeds : (Part.function entity).Succeeds context) :
    (function (functionHead context entity)).StandsIn ((Part.function entity).written context) ∧
    ((constant (Symbols.docOf (context.symbols.function entity.name))).StandsIn
      ((Part.function entity).written context) ↔ entity.description ≠ "") := by
  obtain ⟨code, made, same⟩ := functionDefinition_eq_ok succeeds
  have blocks := onlyBlocks_code made
  rw [same]
  exact ⟨(function_standsIn_documented blocks).mpr (exists_block_of_code coded made),
    constant_standsIn_documented blocks⟩

theorem method_defined {self : Entity.Class} {method : Entity.Function} (coded : method.body?.isSome)
    (succeeds : (Part.method self method).Succeeds context) :
    (function (methodHead context self method)).StandsIn ((Part.method self method).written context) ∧
    ((constant (Symbols.docOf ((classSymbols context self).method method.name))).StandsIn
      ((Part.method self method).written context) ↔ constantDescription method ≠ "") := by
  obtain ⟨code, made, same⟩ := methodDefinition_eq_ok succeeds
  have blocks := onlyBlocks_code made
  rw [same]
  exact ⟨(function_standsIn_documented blocks).mpr (exists_block_of_code coded made),
    constant_standsIn_documented blocks⟩

theorem getterHead_ne_setterHead (symbols : ClassSymbols) (property : Entity.Property) :
    getterHead symbols property ≠ setterHead symbols property := by
  intro same
  have first := congrArg (fun s => s.toList.head?) same
  simp [getterHead, setterHead] at first

theorem property_defined {self : Entity.Class} {property : Entity.Property}
    (succeeds : (Part.property self property).Succeeds context) :
    ((function (getterHead (classSymbols context self) property)).StandsIn
      ((Part.property self property).written context) ↔ property.getter?.isSome) ∧
    ((function (setterHead (classSymbols context self) property)).StandsIn
      ((Part.property self property).written context) ↔ property.setter?.isSome) ∧
    ((constant (Symbols.docOf ((classSymbols context self).getter property.name))).StandsIn
      ((Part.property self property).written context) ↔ property.description ≠ "") := by
  obtain ⟨getter, setter, getterMade, setterMade, same⟩ := propertyDefinition_eq_ok succeeds
  have blocks : OnlyBlocks (getter ++ setter) :=
    List.forall_mem_append.mpr ⟨onlyBlocks_code getterMade, onlyBlocks_code setterMade⟩
  rw [same, function_standsIn_documented blocks, function_standsIn_documented blocks]
  refine ⟨⟨?_, ?_⟩, ⟨?_, ?_⟩, constant_standsIn_documented blocks⟩
  · rintro ⟨close, body, member⟩
    rcases List.mem_append.mp member with own | other
    · exact (block_mem_code getterMade own).2
    · exact absurd (block_mem_code setterMade other).1 (getterHead_ne_setterHead _ _)
  · intro coded
    obtain ⟨close, body, member⟩ := exists_block_of_code coded getterMade
    exact ⟨close, body, List.mem_append_left _ member⟩
  · rintro ⟨close, body, member⟩
    rcases List.mem_append.mp member with other | own
    · exact absurd (block_mem_code getterMade other).1.symm (getterHead_ne_setterHead _ _)
    · exact (block_mem_code setterMade own).2
  · intro coded
    obtain ⟨close, body, member⟩ := exists_block_of_code coded setterMade
    exact ⟨close, body, List.mem_append_right _ member⟩

/-! ### Classes and tables -/

theorem comparison_defined (self : Entity.Class) :
    (function (compareHead (classSymbols context self))).StandsIn ((Part.comparison self).written context) ↔
      compareMethods self ≠ [] := by
  change (function _).StandsIn (compareDefinition (classSymbols context self) self) ↔ _
  unfold compareDefinition
  dsimp only
  by_cases empty : compareMethods self = []
  · simp [empty, not_standsIn_nil]
  · rw [if_neg (by simpa using empty)]
    refine ⟨fun _ => empty, fun _ => .lines ?_⟩
    exact (List.prefix_append [_, _] _).isInfix

theorem array_standsIn_arrayTable (type symbol : String) (rows : List String) (last : String) :
    (array type symbol).StandsIn (arrayTable type symbol rows last) :=
  .array List.mem_cons_self

theorem struct_standsIn {table : StructTable} {type symbol : String} (kind : table.type = type)
    (name : table.name = symbol) (member : .text table.render ∈ steps) : (struct type symbol).StandsIn steps := by
  subst kind name
  exact .struct member

theorem struct_standsIn_slotStruct {type symbol : String} {fields : List Field} {values : List (String × String)} :
    (struct type symbol).StandsIn (slotStruct type symbol fields values) ↔ values ≠ [] := by
  unfold slotStruct
  by_cases empty : values = []
  · simp [empty, not_standsIn_nil]
  · rw [if_neg (by simpa using empty)]
    refine ⟨fun _ => empty, fun _ => ?_⟩
    exact struct_standsIn (StructTable.type_setAll _ _) (StructTable.name_setAll _ _) List.mem_cons_self

theorem typeObject_defined (self : Entity.Class) :
    (struct "PyTypeObject" (classSymbols context self).typeStruct).StandsIn
      ((Part.typeObject self).written context) :=
  struct_standsIn (StructTable.type_setAll _ _) (StructTable.name_setAll _ _) List.mem_cons_self

theorem moduleDef_defined :
    (struct "PyModuleDef" (context.symbols.moduleDef context.graph.module.name)).StandsIn
      (Part.moduleDef.written context) :=
  struct_standsIn (StructTable.type_setAll _ _) (StructTable.name_setAll _ _) List.mem_cons_self

/-! ### Functions in filled templates -/

def lifecycleSegments : List Segment :=
  [.text "PyObject* ", .field "new_fn", .text "(PyTypeObject* type, PyObject* args, PyObject* kwargs)", .text "\n\x7b",
    .text "\n    ", .field "struct", .text "* self = ", .text "reinterpret_cast<", .field "struct",
    .text "*>(type->tp_alloc(type, 0));", .text "\n    if (self != NULL)", .text "\n        self->", .field "on_new",
    .text "();", .text "\n    return reinterpret_cast<PyObject*>(self);", .text "\n\x7d\n\n",
    .text "void ", .field "dealloc_fn", .text "(", .field "struct", .text "* self)", .text "\n\x7b",
    .text "\n    self->", .field "on_free", .text "();", .text "\n    Py_TYPE(self)->tp_free(",
    .text "reinterpret_cast<PyObject*>(self));", .text "\n\x7d\n\n",
    .field "struct", .text "* ", .field "copy_fn", .text "(", .field "struct", .text "* self)", .text "\n\x7b",
    .text "\n    ", .field "struct", .text "* copy = ", .field "new_expr", .text ";", .text "\n    if (copy != NULL)",
    .text "\n        self->", .field "on_copy", .text "(copy);", .text "\n    return copy;", .text "\n\x7d"]

set_option maxRecDepth 4000 in
theorem pieces_lifecycleTemplate : pieces lifecycleTemplate.toList = lifecycleSegments.flatMap Segment.pieces :=
  pieces_segments (by rfl) (by decide)

def registrationSegments : List Segment :=
  [.text "bool ", .field "init_fn", .text "(PyObject* module)", .text "\n\x7b",
    .text "\n    if (", .text "PyType_Ready(&", .field "type_struct", .text ")", .text " < 0)",
    .text "\n        return false;", .text "\n    Py_INCREF(&", .field "type_struct", .text ");",
    .text "\n    if (PyModule_AddObject(module, \"", .field "name", .text "\", ",
    .text "reinterpret_cast<PyObject*>(&", .field "type_struct", .text ")) < 0)",
    .text "\n    \x7b", .text "\n        Py_DECREF(&", .field "type_struct", .text ");",
    .text "\n        return false;", .text "\n    \x7d", .text "\n    return true;", .text "\n\x7d"]

set_option maxRecDepth 4000 in
theorem pieces_registrationTemplate :
    pieces registrationTemplate.toList = registrationSegments.flatMap Segment.pieces :=
  pieces_segments (by rfl) (by decide)

/-- A filled template prints the values of any segments of it. -/
theorem prints_fill {template s : String} {values : Values} {segments : List Segment} (inside : List Segment)
    (same : pieces template.toList = segments.flatMap Segment.pieces) (consecutive : inside <:+: segments)
    (whole : ink s.toList = inside.flatMap fun segment => ink (segment.value values).toList) :
    Prints (context.fill template values) s := by
  rw [Prints, Context.fill, toList_onString, whole]
  exact ink_infix_fill _ _ same consecutive

theorem ink_brace : ink "\n\x7b".toList = ink "\x7b".toList := by decide

theorem new_defined (self : Entity.Class) :
    (function (newHead (classSymbols context self))).StandsIn ((Part.lifecycle self).written context) := by
  refine .text List.mem_cons_self (prints_fill [.text "PyObject* ", .field "new_fn",
    .text "(PyTypeObject* type, PyObject* args, PyObject* kwargs)", .text "\n\x7b"] pieces_lifecycleTemplate
    ⟨[], _, rfl⟩ ?_)
  simp only [newHead, String.toList_append, ink_append, List.append_assoc, List.flatMap_cons, List.flatMap_nil,
    List.append_nil, Segment.value, List.lookup_cons_self, Option.getD_some, ink_brace]

theorem dealloc_defined (self : Entity.Class) :
    (function (deallocHead (classSymbols context self))).StandsIn ((Part.lifecycle self).written context) := by
  have pointer : ink "* self)".toList = ink "*".toList ++ ink " self)".toList := by decide
  refine .text List.mem_cons_self (prints_fill [.text "void ", .field "dealloc_fn", .text "(", .field "struct",
    .text "* self)", .text "\n\x7b"] pieces_lifecycleTemplate ⟨lifecycleSegments.take 16, _, rfl⟩ ?_)
  simp only [deallocHead, receiver, String.toList_append, ink_append, List.append_assoc, List.flatMap_cons,
    List.flatMap_nil, List.append_nil, Segment.value, List.lookup_cons, String.reduceBEq, Option.getD_some, pointer,
    ink_brace]

theorem register_defined (self : Entity.Class) :
    (function (registerHead (classSymbols context self))).StandsIn ((Part.registration self).written context) := by
  refine .text List.mem_cons_self (prints_fill [.text "bool ", .field "init_fn", .text "(PyObject* module)",
    .text "\n\x7b"] pieces_registrationTemplate ⟨[], _, rfl⟩ ?_)
  simp only [registerHead, String.toList_append, ink_append, List.append_assoc, List.flatMap_cons, List.flatMap_nil,
    List.append_nil, Segment.value, List.lookup_cons_self, Option.getD_some, ink_brace]

/-! ### The functions of the module -/

def createSegments : List Segment :=
  [.text "PyObject* ", .field "create_fn", .text "()", .text "\n\x7b", .text "\n    PyObject* module = ",
    .text "PyModule_Create(&", .field "module_def", .text ");", .text "\n    if (module == NULL)",
    .text "\n        return NULL;", .text "\n    ", .field "classes", .text "\n    return module;", .text "\n\x7d"]

set_option maxRecDepth 2000 in
theorem pieces_createTemplate : pieces createTemplate.toList = createSegments.flatMap Segment.pieces :=
  pieces_segments (by rfl) (by decide)

def initCallSegments : List Segment :=
  [.text "if (!", .field "init_fn", .text "(module))", .text "\n\x7b\n    Py_DECREF(module);",
    .text "\n    return NULL;\n\x7d"]

theorem pieces_initCallTemplate : pieces initCallTemplate.toList = initCallSegments.flatMap Segment.pieces :=
  pieces_segments (by rfl) (by decide)

def registerSegments : List Segment :=
  [.text "bool ", .field "init_fn", .text "()", .text "\n\x7b\n    return 0 == ", .text "PyImport_AppendInittab(\"",
    .field "module", .text "\", &", .field "create_fn", .text ")", .text ";\n\x7d"]

theorem pieces_registerTemplate : pieces registerTemplate.toList = registerSegments.flatMap Segment.pieces :=
  pieces_segments (by rfl) (by decide)

theorem create_defined : (function (createHead context)).StandsIn (Part.creation.written context) := by
  refine .text List.mem_cons_self (prints_fill [.text "PyObject* ", .field "create_fn", .text "()", .text "\n\x7b"]
    pieces_createTemplate ⟨[], _, rfl⟩ ?_)
  simp only [createHead, String.toList_append, ink_append, List.append_assoc, List.flatMap_cons, List.flatMap_nil,
    List.append_nil, Segment.value, List.lookup_cons_self, Option.getD_some, ink_brace]

/-- The text that creates the module makes one call for every class, and no other. -/
theorem ink_creationText : ink (creationText context).toList =
    ink (createHead context ++ "\x7b PyObject* module = PyModule_Create(&"
        ++ context.symbols.moduleDef context.graph.module.name ++ "); if (module == NULL) return NULL;").toList
      ++ context.graph.includedClasses.flatMap (fun self => ink (registerCall (classSymbols context self)).toList)
      ++ ink "return module; \x7d".toList := by
  have call : ∀ self : Entity.Class,
      ink (initCall context self).toList = ink (registerCall (classSymbols context self)).toList := by
    intro self
    rw [initCall, Context.fill, toList_onString, ink_fill_eq _ _ pieces_initCallTemplate]
    have tail : ink "(module)) \x7b Py_DECREF(module); return NULL; \x7d".toList = ink "(module))".toList
        ++ (ink "\n\x7b\n    Py_DECREF(module);".toList ++ ink "\n    return NULL;\n\x7d".toList) := by
      decide +kernel
    simp only [initCallSegments, registerCall, String.toList_append, ink_append, List.append_assoc, List.flatMap_cons,
      List.flatMap_nil, List.append_nil, Segment.value, List.lookup_cons_self, Option.getD_some, tail]
  have opening : ink "\x7b PyObject* module = PyModule_Create(&".toList = ink "\n\x7b".toList
      ++ (ink "\n    PyObject* module = ".toList ++ ink "PyModule_Create(&".toList) := by decide +kernel
  have test : ink "); if (module == NULL) return NULL;".toList = ink ");".toList
      ++ (ink "\n    if (module == NULL)".toList ++ (ink "\n        return NULL;".toList ++ ink "\n    ".toList)) := by
    decide +kernel
  have closing : ink "return module; \x7d".toList =
      ink "\n    return module;".toList ++ ink "\n\x7d".toList := by decide +kernel
  rw [creationText, Context.fill, toList_onString, ink_fill_eq _ _ pieces_createTemplate]
  simp only [createSegments, createHead, String.toList_append, ink_append, List.append_assoc, List.flatMap_cons,
    List.flatMap_nil, List.append_nil, Segment.value, List.lookup_cons, String.reduceBEq, Option.getD_some,
    ink_intercalate, List.flatMap_map, call, opening, test, closing]

end DocWeave.Render
