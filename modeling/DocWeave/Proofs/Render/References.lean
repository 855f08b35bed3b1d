import DocWeave.Proofs.Render.Definitions
import DocWeave.Proofs.Render.Dispatch

/-!
# References among the parts of an implementation

The entries that the text of a table prints refer to what earlier parts define. An entry for something that its entity
may lack is `NULL` when the part of the entity does not define it.
-/

namespace DocWeave.Render

open Code Extension Step StructTable Text

/-- The part comes before and defines the symbol, and its text prints the definition. -/
structure Defined (context : Context) (before : List Part) (part : Part) (definition : Definition) (symbol : String) :
    Prop where
  earlier : part ∈ before
  names : definition.Names symbol
  stands : definition.StandsIn (part.written context)
  printed : Prints (part.text context) definition.opening

/-- The entry for a symbol that a part may define: a reference if the part defines it, or else `NULL`. -/
inductive Entry (context : Context) (before : List Part) (part : Part) (definition : Definition)
    (symbol reference : String) : String → Prop
  | reference (defined : Defined context before part definition symbol) (other : reference ≠ "NULL") :
      Entry context before part definition symbol reference reference
  | null (missing : ¬ definition.StandsIn (part.written context)) :
      Entry context before part definition symbol reference "NULL"

/-- The row of a function or a method that is reached by name. -/
def FunctionRow (context : Context) (before : List Part) (part : Part) (head name symbol : String)
    (convention : Convention) (row : String) : Prop :=
  Defined context before part (.function head) symbol ∧
  ∃ doc,
    Entry context before part (.constant (Symbols.docOf symbol)) (Symbols.docOf symbol) (Symbols.docOf symbol) doc ∧
    row = "\x7b \"" ++ name ++ "\", reinterpret_cast<PyCFunction>(" ++ symbol ++ "), " ++ convention.flags ++ ", "
      ++ doc ++ " \x7d,"

/-- The row of a method of a class. -/
def MethodRow (context : Context) (self : Entity.Class) (before : List Part)
    (entry : Convention × Entity.Function) (row : String) : Prop :=
  FunctionRow context before (.method self entry.2) (methodHead context self entry.2) entry.2.name
    ((classSymbols context self).method entry.2.name) entry.1 row

/-- The row of a property. -/
def PropertyRow (context : Context) (self : Entity.Class) (before : List Part) (property : Entity.Property)
    (row : String) : Prop :=
  let symbols := classSymbols context self
  let part := Part.property self property
  let constant := Symbols.docOf (symbols.getter property.name)
  ∃ getter setter doc,
    Entry context before part (.function (getterHead symbols property)) (symbols.getter property.name)
      (symbols.getter property.name) getter ∧
    Entry context before part (.function (setterHead symbols property)) (symbols.setter property.name)
      (symbols.setter property.name) setter ∧
    Entry context before part (.constant constant) constant ("(char*)" ++ constant) doc ∧
    row = "\x7b (char*)\"" ++ property.name ++ "\", (getter)" ++ getter ++ ", (setter)" ++ setter ++ ", " ++ doc
      ++ ", NULL \x7d,"

/-- The line of a method that compares. -/
def CompareLine (context : Context) (self : Entity.Class) (before : List Part)
    (entry : String × Entity.Function) (line : String) : Prop :=
  let symbol := (classSymbols context self).method entry.2.name
  comparison? entry.2.name = some entry.1 ∧
  Defined context before (.method self entry.2) (.function (methodHead context self entry.2)) symbol ∧
  line = "case " ++ entry.1 ++ ": return " ++ symbol ++ "(self, arg1, arg2);"

/-- The text of the function that passes comparisons on: nothing, or a line for every method that compares. -/
def Compares (context : Context) (self : Entity.Class) (before : List Part) (text : String) : Prop :=
  compareMethods self = [] ∧ text = "" ∨
  compareMethods self ≠ [] ∧ ∃ cases,
    List.Forall₂ (CompareLine context self before) (compareMethods self) cases ∧
    text.toList = sheet context.options.indentWidth
      ([(1, compareHead (classSymbols context self)), (1, "\x7b"), (2, "switch (arg2)"), (2, "\x7b")]
        ++ cases.map (3, ·)
        ++ [(3, "default: Py_RETURN_NOTIMPLEMENTED;"), (2, "\x7d"), (1, "\x7d"), (0, "")])

/-- The text of an array: a line for every row, the lines that close it, and an empty one. -/
def Lists (context : Context) (type symbol : String) (rows : List String) (last : String) (text : String) : Prop :=
  text.toList = sheet context.options.indentWidth
    ([(1, "static " ++ type ++ " " ++ symbol ++ "[] ="), (1, "\x7b")] ++ rows.map (2, ·)
      ++ [(2, last), (1, "\x7d; /* " ++ symbol ++ " */"), (0, "")])

/-- The text of a struct, up to white space: a row for every field of the layout, in order, with its value. -/
structure Initializes (opening symbol head : String) (layout : List Field) (rows : List (Field × String))
    (text : String) : Prop where
  fields : rows.map Prod.fst = layout
  distinct : (rows.map fun row => row.1.name).Nodup
  printed : ink text.toList = ink (structText opening symbol head rows).toList

/-- The row of a field that has no value: `0` for an integer, and `NULL` for anything else. -/
inductive Unset : Field × String → Prop
  | integer {field : Field} (whole : field.type ∈ integerTypes) : Unset (field, "0")
  | pointer {field : Field} (other : field.type ∉ integerTypes) : Unset (field, "NULL")

/-- The rows of the slots hold their methods, and nothing else is set but the reserved fields. -/
structure FillsSlots (context : Context) (self : Entity.Class) (slots : SlotTable) (reserved : List String)
    (before : List Part) (rows : List (Field × String)) : Prop where
  methods : ∀ entry ∈ slotMethods self slots,
    Gives rows entry.1.field ((classSymbols context self).method entry.2.name) ∧
    Defined context before (.method self entry.2) (.function (methodHead context self entry.2))
      ((classSymbols context self).method entry.2.name)
  others : ∀ row ∈ rows, row.1.name ∉ reserved →
    (∀ entry ∈ slotMethods self slots, entry.1.field ≠ row.1.name) → Unset row

/-- The text of a struct of slots: nothing, or the slots of its methods. -/
def SlotEntries (context : Context) (self : Entity.Class) (slots : SlotTable) (type symbol : String)
    (before : List Part) (text : String) : Prop :=
  slotMethods self slots = [] ∧ text = "" ∨
  slotMethods self slots ≠ [] ∧ ∃ rows, Initializes ("static " ++ type) symbol "" slots.layout rows text ∧
    FillsSlots context self slots [] before rows

/-- A field of a struct that refers to what a part defines. -/
structure Reference where
  field : String
  part : Part
  definition : Definition
  symbol : String
  value : String

/-- The row of the field holds the reference, and the part defines what it refers to. -/
def Reference.Holds (reference : Reference) (context : Context) (before : List Part) (rows : List (Field × String)) :
    Prop :=
  Defined context before reference.part reference.definition reference.symbol ∧
  Gives rows reference.field reference.value

/-- The row of the field holds the reference, or `NULL` if the part does not define what it refers to. -/
def Reference.MayHold (reference : Reference) (context : Context) (before : List Part)
    (rows : List (Field × String)) : Prop :=
  ∃ value, Entry context before reference.part reference.definition reference.symbol reference.value value ∧
    Gives rows reference.field value

/-- The references that every type has. -/
def typeReferences (symbols : ClassSymbols) (self : Entity.Class) : List Reference :=
  [⟨"tp_dealloc", .lifecycle self, .function (deallocHead symbols), symbols.deallocFunction, symbols.deallocFunction⟩,
    ⟨"tp_new", .lifecycle self, .function (newHead symbols), symbols.newFunction, symbols.newFunction⟩,
    ⟨"tp_methods", .methodTable self, .array "PyMethodDef" symbols.methodTable, symbols.methodTable,
      symbols.methodTable⟩,
    ⟨"tp_getset", .accessorTable self, .array "PyGetSetDef" symbols.accessorTable, symbols.accessorTable,
      symbols.accessorTable⟩]

/-- The references that a type may lack. -/
def typeOptions (symbols : ClassSymbols) (self : Entity.Class) : List Reference :=
  [⟨"tp_doc", .classDoc self, .constant symbols.doc, symbols.doc, symbols.doc⟩,
    ⟨"tp_as_number", .numberTable self, .struct "PyNumberMethods" symbols.numberTable, symbols.numberTable,
      "&" ++ symbols.numberTable⟩,
    ⟨"tp_as_sequence", .sequenceTable self, .struct "PySequenceMethods" symbols.sequenceTable, symbols.sequenceTable,
      "&" ++ symbols.sequenceTable⟩,
    ⟨"tp_richcompare", .comparison self, .function (compareHead symbols), symbols.compareFunction,
      symbols.compareFunction⟩]

/-- The text of the type of a class. -/
def TypeEntries (context : Context) (self : Entity.Class) (before : List Part) (text : String) : Prop :=
  let symbols := classSymbols context self
  ∃ rows, Initializes "PyTypeObject" symbols.typeStruct "PyVarObject_HEAD_INIT(NULL, 0)" Layout.typeObject rows text ∧
    FillsSlots context self .type reservedFields before rows ∧
    (∀ reference ∈ typeReferences symbols self, reference.Holds context before rows) ∧
    ∀ reference ∈ typeOptions symbols self, reference.MayHold context before rows

/-- The text of a method table: a row for every method that is reached by name. -/
def MethodEntries (context : Context) (self : Entity.Class) (before : List Part) (text : String) : Prop :=
  ∃ rows, List.Forall₂ (MethodRow context self before) (plainMethods self) rows ∧
    Lists context "PyMethodDef" (classSymbols context self).methodTable rows "\x7b NULL, NULL, 0, NULL \x7d" text

/-- The text of an accessor table: a row for every property. -/
def PropertyEntries (context : Context) (self : Entity.Class) (before : List Part) (text : String) : Prop :=
  ∃ rows, List.Forall₂ (PropertyRow context self before) self.includedProperties rows ∧
    Lists context "PyGetSetDef" (classSymbols context self).accessorTable rows
      "\x7b NULL, NULL, NULL, NULL, NULL \x7d" text

/-- The text of the function that adds a class to the module. -/
def Registers (context : Context) (self : Entity.Class) (before : List Part) (text : String) : Prop :=
  let symbols := classSymbols context self
  Defined context before (.typeObject self) (.struct "PyTypeObject" symbols.typeStruct) symbols.typeStruct ∧
    Prints text ("PyType_Ready(&" ++ symbols.typeStruct ++ ")")

/-- The text of the table of functions: a row for every function. -/
def FunctionEntries (context : Context) (before : List Part) (text : String) : Prop :=
  ∃ rows,
    List.Forall₂ (fun entity row => FunctionRow context before (.function entity) (functionHead context entity)
      entity.name (context.symbols.function entity.name) (Convention.ofFunction entity.arity) row)
      context.graph.includedFunctions rows ∧
    Lists context "PyMethodDef" (context.symbols.moduleMethods context.graph.module.name) rows
      "\x7b NULL, NULL, 0, NULL \x7d" text

/-- The text of the struct of the module. -/
def ModuleEntries (context : Context) (before : List Part) (text : String) : Prop :=
  let symbols := context.symbols
  let module := context.graph.module.name
  ∃ rows, Initializes "static PyModuleDef" (symbols.moduleDef module) "PyModuleDef_HEAD_INIT," Layout.moduleDef rows
      text ∧
    Reference.Holds ⟨"m_methods", .functionTable, .array "PyMethodDef" (symbols.moduleMethods module),
      symbols.moduleMethods module, symbols.moduleMethods module⟩ context before rows ∧
    Reference.MayHold ⟨"m_doc", .moduleDoc, .constant (symbols.moduleDoc module), symbols.moduleDoc module,
      symbols.moduleDoc module⟩ context before rows

/-- The text of the function that creates the module. It registers every class. -/
def Creates (context : Context) (before : List Part) (text : String) : Prop :=
  let symbol := context.symbols.moduleDef context.graph.module.name
  Defined context before .moduleDef (.struct "PyModuleDef" symbol) symbol ∧
    (∀ self ∈ context.graph.includedClasses,
      Defined context before (.registration self) (.function (registerHead (classSymbols context self)))
        (classSymbols context self).registerFunction) ∧
    ink text.toList =
      ink (createHead context ++ "\x7b PyObject* module = PyModule_Create(&" ++ symbol
        ++ "); if (module == NULL) return NULL;").toList
      ++ context.graph.includedClasses.flatMap (fun self => ink (registerCall (classSymbols context self)).toList)
      ++ ink "return module; \x7d".toList

/-- The text of the function that makes the module known. -/
def Announces (context : Context) (before : List Part) (text : String) : Prop :=
  let symbol := context.symbols.createModule context.graph.module.name
  Defined context before .creation (.function (createHead context)) symbol ∧
    Prints text ("PyImport_AppendInittab(\"" ++ context.graph.module.name ++ "\", &" ++ symbol ++ ")")

/-- The part stands in the implementation, and what is said holds of the parts before it and of its steps. -/
def At (context : Context) (part : Part) (holds : List Part → List Step → Prop) : Prop :=
  ∃ before after, parts context.graph = before ++ part :: after ∧ holds before (part.written context)

/-- The part stands in the implementation, and what is said holds of the parts before it and of its text. -/
def Displays (context : Context) (part : Part) (holds : List Part → String → Prop) : Prop :=
  ∃ before after, parts context.graph = before ++ part :: after ∧ holds before (part.text context)

/-- The tables of a class agree with its definitions. -/
structure ClassAgrees (context : Context) (entity : Entity.Class) : Prop where
  dispatched : ∀ method ∈ entity.includedMethods, ∃! place, method ∈ methodsAt entity place
  competing : ∀ table, ∀ first ∈ slotMethods entity table, ∀ second ∈ slotMethods entity table,
    first.1.field = second.1.field → first.2.name = second.2.name
  methods : Displays context (.methodTable entity) (MethodEntries context entity)
  comparison : Displays context (.comparison entity) (Compares context entity)
  number : Displays context (.numberTable entity)
    (SlotEntries context entity .number "PyNumberMethods" (classSymbols context entity).numberTable)
  sequence : Displays context (.sequenceTable entity)
    (SlotEntries context entity .sequence "PySequenceMethods" (classSymbols context entity).sequenceTable)
  type : Displays context (.typeObject entity) (TypeEntries context entity)
  properties : Displays context (.accessorTable entity) (PropertyEntries context entity)
  registration : Displays context (.registration entity) (Registers context entity)

mutual

/-- The heads of the functions that a step defines, at any depth. -/
def heads : Step → List String
  | .block head _ body => head :: allHeads body
  | .indented body => allHeads body
  | _ => []

def allHeads : List Step → List String
  | [] => []
  | step :: rest => heads step ++ allHeads rest

end

/-- The functions that a part defines belong to something included, which has an entry at its place. -/
inductive Referenced (context : Context) : Part → String → Prop
  | function {entity} (listed : entity ∈ context.graph.includedFunctions) :
      Referenced context (.function entity) (functionHead context entity)
  | method {self method place} (owner : self ∈ context.graph.includedClasses)
      (listed : method ∈ methodsAt self place) :
      Referenced context (.method self method) (methodHead context self method)
  | getter {self property} (owner : self ∈ context.graph.includedClasses)
      (listed : property ∈ self.includedProperties) :
      Referenced context (.property self property) (getterHead (classSymbols context self) property)
  | setter {self property} (owner : self ∈ context.graph.includedClasses)
      (listed : property ∈ self.includedProperties) :
      Referenced context (.property self property) (setterHead (classSymbols context self) property)

/-- The tables of an implementation agree with its definitions. -/
structure Agrees (context : Context) : Prop where
  classes : ∀ self ∈ context.graph.includedClasses, ClassAgrees context self
  functions : Displays context .functionTable (FunctionEntries context)
  module : Displays context .moduleDef (ModuleEntries context)
  creation : Displays context .creation (Creates context)
  entryPoint : Displays context .entryPoint (Announces context)
  referenced : ∀ part ∈ parts context.graph, ∀ head ∈ allHeads (part.written context), Referenced context part head

end DocWeave.Render
