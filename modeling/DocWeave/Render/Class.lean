import DocWeave.Render.Piece

/-!
The parts of a generated module that belong to one class.
-/

namespace DocWeave.Render

open DocWeave.Code DocWeave.Entity DocWeave.Extension DocWeave.Tag DocWeave.Text

def structTemplate : String :=
  "struct %(struct)s
\x7b
    PyObject_HEAD
    %(fields)s

    void %(on_new)s()
    \x7b
        %(new)s
    \x7d

    void %(on_free)s()
    \x7b
        %(free)s
    \x7d

    void %(on_copy)s(%(struct)s* copy)
    \x7b
        %(copy)s
    \x7d
\x7d;"

/-- The functions that make, free and copy an instance. -/
def lifecycleTemplate : String :=
  "PyObject* %(new_fn)s(PyTypeObject* type, PyObject* args, PyObject* kwargs)
\x7b
    %(struct)s* self = reinterpret_cast<%(struct)s*>(type->tp_alloc(type, 0));
    if (self != NULL)
        self->%(on_new)s();
    return reinterpret_cast<PyObject*>(self);
\x7d

void %(dealloc_fn)s(%(struct)s* self)
\x7b
    self->%(on_free)s();
    Py_TYPE(self)->tp_free(reinterpret_cast<PyObject*>(self));
\x7d

%(struct)s* %(copy_fn)s(%(struct)s* self)
\x7b
    %(struct)s* copy = %(new_expr)s;
    if (copy != NULL)
        self->%(on_copy)s(copy);
    return copy;
\x7d"

/-- The function that adds the class to the module. -/
def registrationTemplate : String :=
  "bool %(init_fn)s(PyObject* module)
\x7b
    if (PyType_Ready(&%(type_struct)s) < 0)
        return false;
    Py_INCREF(&%(type_struct)s);
    if (PyModule_AddObject(module, \"%(name)s\", reinterpret_cast<PyObject*>(&%(type_struct)s)) < 0)
    \x7b
        Py_DECREF(&%(type_struct)s);
        return false;
    \x7d
    return true;
\x7d"

def classSymbols (context : Context) (self : Entity.Class) : ClassSymbols :=
  context.symbols.forClass self.name

def receiver (symbols : ClassSymbols) : String :=
  symbols.instanceStruct ++ "*"

def forwardDeclarations (symbols : ClassSymbols) : List Step :=
  let object := receiver symbols
  [.line ("struct " ++ symbols.instanceStruct ++ ";"),
    .line ("extern PyTypeObject " ++ symbols.typeStruct ++ ";"),
    .line ("PyObject* " ++ symbols.newFunction ++ "(PyTypeObject* type, PyObject* args, PyObject* kwargs);"),
    .line ("void " ++ symbols.deallocFunction ++ "(" ++ object ++ " self);"),
    .line (object ++ " " ++ symbols.copyFunction ++ "(" ++ object ++ " self);"),
    .blank]

/-- The place of a fragment that a class has from one of its ancestors. -/
def ancestorSite (self ancestor : Entity.Class) (fragment : Fragment) : Site where
  origin := ⟨self.name, fragment.key, ancestor.position, ancestor.doc⟩
  offset := fragment.offset
  defaultClass := some self.name

/-- The texts of fragments that a class has, without those that are blank. -/
def ancestorTexts (context : Context) (self : Entity.Class) :
    List (Entity.Class × Fragment) → Except Fault (List String)
  | [] => .ok []
  | (ancestor, fragment) :: rest => do
    let expanded ← context.expand (ancestorSite self ancestor fragment) fragment
    let text := onString (reindent context.options.tabWidth 0) expanded
    let others ← ancestorTexts context self rest
    return if text = "" then others else text :: others

/-- The code that a class has for a key, base first. -/
def effectiveText (context : Context) (self : Entity.Class) (key : FragmentKey) : Except Fault String := do
  return "\n".intercalate (← ancestorTexts context self (context.graph.effective self key))

def structDefinition (context : Context) (self : Entity.Class) : Except Fault (List Step) := do
  let symbols := classSymbols context self
  let fields ← effectiveText context self .default
  let new ← effectiveText context self .new
  let free ← effectiveText context self .free
  let copy ← effectiveText context self .copy
  let values := [("struct", symbols.instanceStruct), ("fields", fields), ("on_new", symbols.onNew),
    ("new", new), ("on_free", symbols.onFree), ("free", free), ("on_copy", symbols.onCopy), ("copy", copy)]
  return [positionLine self.position, .text (context.fill structTemplate values), .blank]

def dispatchOf (method : Entity.Function) : Dispatch :=
  Dispatch.ofMethod method.name method.arity

/-- A method. Only a method in the method table has a documentation constant. -/
def methodDefinition (context : Context) (self : Entity.Class) (method : Entity.Function) :
    Except Fault (List Step) := do
  let symbols := classSymbols context self
  let symbol := symbols.method method.name
  let dispatch := dispatchOf method
  let doc := match dispatch with
    | .plain _ => docLine (Symbols.docOf symbol) method.description
    | _ => []
  let body ← functionBody context (dispatch.signature symbol (receiver symbols)) method
  return positionLine method.position :: doc ++ body ++ [.blank]

/-- The place of a fragment of a property. -/
def propertySite (property : Entity.Property) (fragment : Fragment) : Site where
  origin := ⟨property.qualifiedName, fragment.key, property.position, property.doc⟩
  offset := fragment.offset
  defaultClass := some property.owner

/-- An accessor of a property, if it has code. -/
def accessor (context : Context) (head : String) (property : Entity.Property) :
    Option Fragment → Except Fault (List Step)
  | some fragment => definition context head (propertySite property fragment) fragment
  | none => .ok []

def propertyDefinition (context : Context) (self : Entity.Class) (property : Entity.Property) :
    Except Fault (List Step) := do
  let symbols := classSymbols context self
  let object := receiver symbols
  let getterSymbol := symbols.getter property.name
  let getterHead := "PyObject* " ++ getterSymbol ++ "(" ++ object ++ " self, void*)"
  let setterHead := "int " ++ symbols.setter property.name ++ "(" ++ object ++ " self, PyObject* arg1, void*)"
  let getter ← accessor context getterHead property property.getter?
  let setter ← accessor context setterHead property property.setter?
  return positionLine property.position :: docLine (Symbols.docOf getterSymbol) property.description
    ++ getter ++ setter ++ [.blank]

/-- The methods of a class that compare, with the operations that they answer. -/
def compareMethods (self : Entity.Class) : List (String × Entity.Function) :=
  self.includedMethods.filterMap fun method =>
    match dispatchOf method with
    | .compare operation => some (operation, method)
    | _ => none

/-- The function that passes comparisons on to the methods that answer them. -/
def compareDefinition (symbols : ClassSymbols) (self : Entity.Class) : List Step :=
  let methods := compareMethods self
  if methods.isEmpty then []
  else
    let cases := methods.map fun (operation, method) =>
      Step.line ("case " ++ operation ++ ": return " ++ symbols.method method.name ++ "(self, arg1, arg2);")
    [.line ("PyObject* " ++ symbols.compareFunction ++ "(" ++ receiver symbols
        ++ " self, PyObject* arg1, int arg2)"),
      .line "\x7b",
      .indented [.line "switch (arg2)", .line "\x7b",
        .indented (cases ++ [.line "default: Py_RETURN_NOTIMPLEMENTED;"]), .line "\x7d"],
      .line "\x7d", .blank]

def lifecycle (context : Context) (symbols : ClassSymbols) : List Step :=
  let values := [("new_fn", symbols.newFunction), ("struct", symbols.instanceStruct),
    ("on_new", symbols.onNew), ("dealloc_fn", symbols.deallocFunction), ("on_free", symbols.onFree),
    ("copy_fn", symbols.copyFunction), ("new_expr", symbols.newExpr), ("on_copy", symbols.onCopy)]
  [.text (context.fill lifecycleTemplate values), .blank]

def concat {α : Type} (part : α → Except Fault (List Step)) : List α → Except Fault (List Step)
  | [] => .ok []
  | a :: rest => do
    let first ← part a
    let others ← concat part rest
    return first ++ others

def classBodies (context : Context) (self : Entity.Class) : Except Fault (List Step) := do
  let symbols := classSymbols context self
  let methods ← concat (methodDefinition context self) self.includedMethods
  let properties ← concat (propertyDefinition context self) self.includedProperties
  return docLine symbols.doc self.description ++ methods ++ properties ++ compareDefinition symbols self
    ++ lifecycle context symbols

/-- The slots of a table that methods of a class fill. -/
def slotValues (symbols : ClassSymbols) (self : Entity.Class) (table : SlotTable) : List (String × String) :=
  self.includedMethods.filterMap fun method =>
    match dispatchOf method with
    | .slot entry => if entry.table = table then some (entry.field, symbols.method method.name) else none
    | _ => none

def methodRows (symbols : ClassSymbols) (self : Entity.Class) : List String :=
  self.includedMethods.filterMap fun method =>
    match dispatchOf method with
    | .plain convention =>
      some (methodRow method.name (symbols.method method.name) convention method.description)
    | _ => none

/-- The row of a property. An accessor without code is `NULL`. -/
def accessorRow (symbols : ClassSymbols) (property : Entity.Property) : String :=
  let getterSymbol := symbols.getter property.name
  let getter := if property.getter?.isSome then getterSymbol else "NULL"
  let setter := if property.setter?.isSome then symbols.setter property.name else "NULL"
  let doc := docReference ("(char*)" ++ Symbols.docOf getterSymbol) property.description
  "\x7b (char*)\"" ++ property.name ++ "\", (getter)" ++ getter ++ ", (setter)" ++ setter ++ ", " ++ doc
    ++ ", NULL \x7d,"

def accessorTable (symbols : ClassSymbols) (self : Entity.Class) : List Step :=
  arrayTable "PyGetSetDef" symbols.accessorTable (self.includedProperties.map (accessorRow symbols))
    "\x7b NULL, NULL, NULL, NULL, NULL \x7d"

/-- A struct of slots, if there are any. -/
def slotStruct (type symbol : String) (fields : List Field) (values : List (String × String)) : List Step :=
  if values.isEmpty then []
  else
    let table : StructTable := { type, name := symbol, fields }
    [.text (table.setAll values).render, .blank]

/-- The reference to a struct of slots, if there are any. -/
def slotReference (field symbol : String) (values : List (String × String)) : List (String × String) :=
  if values.isEmpty then [] else [(field, "&" ++ symbol)]

def typeObject (context : Context) (self : Entity.Class) : StructTable :=
  let symbols := classSymbols context self
  let compare := if (compareMethods self).isEmpty then [] else [("tp_richcompare", symbols.compareFunction)]
  let slots := slotValues symbols self .type
    ++ slotReference "tp_as_number" symbols.numberTable (slotValues symbols self .number)
    ++ slotReference "tp_as_sequence" symbols.sequenceTable (slotValues symbols self .sequence)
    ++ compare
  let table : StructTable :=
    { type := "PyTypeObject", name := symbols.typeStruct, fields := Layout.typeObject, storage := none,
      head := some "PyVarObject_HEAD_INIT(NULL, 0)" }
  table.setAll ([("tp_name", "\"" ++ context.graph.module.name ++ "." ++ self.name ++ "\""),
    ("tp_basicsize", "sizeof(" ++ symbols.instanceStruct ++ ")"),
    ("tp_dealloc", symbols.deallocFunction),
    ("tp_flags", "Py_TPFLAGS_DEFAULT | Py_TPFLAGS_BASETYPE"),
    ("tp_doc", docReference symbols.doc self.description),
    ("tp_methods", symbols.methodTable),
    ("tp_getset", symbols.accessorTable),
    ("tp_new", symbols.newFunction)] ++ slots)

def classTables (context : Context) (self : Entity.Class) : List Step :=
  let symbols := classSymbols context self
  methodTable symbols.methodTable (methodRows symbols self)
    ++ accessorTable symbols self
    ++ slotStruct "PyNumberMethods" symbols.numberTable Layout.numberMethods
      (slotValues symbols self .number)
    ++ slotStruct "PySequenceMethods" symbols.sequenceTable Layout.sequenceMethods
      (slotValues symbols self .sequence)
    ++ [.text (typeObject context self).render, .blank]

/-- The function that adds a class to the module. -/
def classRegistration (context : Context) (self : Entity.Class) : List Step :=
  let symbols := classSymbols context self
  let values := [("init_fn", symbols.registerFunction), ("type_struct", symbols.typeStruct),
    ("name", self.name)]
  [.text (context.fill registrationTemplate values), .blank]

end DocWeave.Render
