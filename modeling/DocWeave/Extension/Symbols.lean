/-!
The names of everything that a generated module defines.

What the renderer defines and what a tag in a fragment refers to are both named here, so they agree.
-/

namespace DocWeave.Extension

/-- The names of a module, which share a leading word. -/
structure Symbols where
  stem : String
  deriving DecidableEq, Repr

namespace Symbols

def function (symbols : Symbols) (name : String) : String :=
  symbols.stem ++ "_function_" ++ name

def moduleDef (symbols : Symbols) (module : String) : String :=
  symbols.stem ++ "_module_" ++ module

def moduleMethods (symbols : Symbols) (module : String) : String :=
  symbols.stem ++ "_module_methods_" ++ module

def moduleDoc (symbols : Symbols) (module : String) : String :=
  symbols.stem ++ "_module_doc_" ++ module

def createModule (symbols : Symbols) (module : String) : String :=
  symbols.stem ++ "_create_module_" ++ module

/-- The entry point of a module has no stem. -/
def registerModule (module : String) : String :=
  "initialize_module_" ++ module

/-- The documentation of a function or of an accessor. -/
def docOf (function : String) : String :=
  function ++ "_doc"

end Symbols

structure ClassSymbols where
  stem : String
  name : String
  deriving DecidableEq, Repr

def Symbols.forClass (symbols : Symbols) (name : String) : ClassSymbols :=
  ⟨symbols.stem, name⟩

namespace ClassSymbols

/-- A name made of the stem, a role and the class. -/
def role (symbols : ClassSymbols) (what : String) : String :=
  symbols.stem ++ "_" ++ what ++ "_" ++ symbols.name

def instanceStruct (symbols : ClassSymbols) : String :=
  symbols.name ++ "_struct"

def typeStruct (symbols : ClassSymbols) : String :=
  symbols.name ++ "_type_struct"

def newFunction (symbols : ClassSymbols) : String :=
  symbols.role "new"

def deallocFunction (symbols : ClassSymbols) : String :=
  symbols.role "dealloc"

def copyFunction (symbols : ClassSymbols) : String :=
  symbols.role "copy"

def compareFunction (symbols : ClassSymbols) : String :=
  symbols.role "richcompare"

def methodTable (symbols : ClassSymbols) : String :=
  symbols.role "methods"

def accessorTable (symbols : ClassSymbols) : String :=
  symbols.role "getset"

def numberTable (symbols : ClassSymbols) : String :=
  symbols.role "number"

def sequenceTable (symbols : ClassSymbols) : String :=
  symbols.role "sequence"

def doc (symbols : ClassSymbols) : String :=
  symbols.role "doc"

def method (symbols : ClassSymbols) (name : String) : String :=
  symbols.role "method" ++ "_" ++ name

def getter (symbols : ClassSymbols) (property : String) : String :=
  symbols.role "get" ++ "_" ++ property

def setter (symbols : ClassSymbols) (property : String) : String :=
  symbols.role "set" ++ "_" ++ property

/-- The function that registers the class has no stem. -/
def registerFunction (symbols : ClassSymbols) : String :=
  "initialize_class_" ++ symbols.name

def onNew (symbols : ClassSymbols) : String :=
  symbols.stem ++ "_on_new"

def onFree (symbols : ClassSymbols) : String :=
  symbols.stem ++ "_on_free"

def onCopy (symbols : ClassSymbols) : String :=
  symbols.stem ++ "_on_copy"

/-- An object seen as an instance of the class. -/
def castExpr (symbols : ClassSymbols) (object : String) : String :=
  "reinterpret_cast<" ++ symbols.instanceStruct ++ "*>(" ++ object ++ ")"

def newExpr (symbols : ClassSymbols) : String :=
  symbols.castExpr (symbols.newFunction ++ "(&" ++ symbols.typeStruct ++ ", NULL, NULL)")

def copyExpr (symbols : ClassSymbols) (object : String) : String :=
  symbols.copyFunction ++ "(" ++ symbols.castExpr object ++ ")"

/-- The test whether an object is an instance of the class. -/
def isInstanceExpr (symbols : ClassSymbols) (object : String) : String :=
  "PyObject_TypeCheck(reinterpret_cast<PyObject*>(" ++ object ++ "), &" ++ symbols.typeStruct ++ ")"

end ClassSymbols

end DocWeave.Extension
