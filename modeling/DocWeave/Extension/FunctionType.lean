/-!
The function pointer types of the extension interface, and the C signatures that they demand.
-/

namespace DocWeave.Extension

structure FunctionType where
  name : String
  returns : String
  parameters : List String
  deriving DecidableEq, Repr

namespace FunctionType

/-- Every function pointer type that a slot or an accessor has. -/
def all : List FunctionType :=
  [⟨"unaryfunc", "PyObject*", ["PyObject*"]⟩,
    ⟨"binaryfunc", "PyObject*", ["PyObject*", "PyObject*"]⟩,
    ⟨"ternaryfunc", "PyObject*", ["PyObject*", "PyObject*", "PyObject*"]⟩,
    ⟨"inquiry", "int", ["PyObject*"]⟩, ⟨"lenfunc", "Py_ssize_t", ["PyObject*"]⟩,
    ⟨"ssizeargfunc", "PyObject*", ["PyObject*", "Py_ssize_t"]⟩,
    ⟨"ssizessizeargfunc", "PyObject*", ["PyObject*", "Py_ssize_t", "Py_ssize_t"]⟩,
    ⟨"ssizeobjargproc", "int", ["PyObject*", "Py_ssize_t", "PyObject*"]⟩,
    ⟨"objobjargproc", "int", ["PyObject*", "PyObject*", "PyObject*"]⟩,
    ⟨"objobjproc", "int", ["PyObject*", "PyObject*"]⟩, ⟨"freefunc", "void", ["void*"]⟩,
    ⟨"destructor", "void", ["PyObject*"]⟩, ⟨"getattrfunc", "PyObject*", ["PyObject*", "char*"]⟩,
    ⟨"getattrofunc", "PyObject*", ["PyObject*", "PyObject*"]⟩,
    ⟨"setattrfunc", "int", ["PyObject*", "char*", "PyObject*"]⟩,
    ⟨"setattrofunc", "int", ["PyObject*", "PyObject*", "PyObject*"]⟩,
    ⟨"reprfunc", "PyObject*", ["PyObject*"]⟩, ⟨"hashfunc", "Py_hash_t", ["PyObject*"]⟩,
    ⟨"richcmpfunc", "PyObject*", ["PyObject*", "PyObject*", "int"]⟩,
    ⟨"getiterfunc", "PyObject*", ["PyObject*"]⟩, ⟨"iternextfunc", "PyObject*", ["PyObject*"]⟩,
    ⟨"descrgetfunc", "PyObject*", ["PyObject*", "PyObject*", "PyObject*"]⟩,
    ⟨"descrsetfunc", "int", ["PyObject*", "PyObject*", "PyObject*"]⟩,
    ⟨"initproc", "int", ["PyObject*", "PyObject*", "PyObject*"]⟩,
    ⟨"newfunc", "PyObject*", ["PyTypeObject*", "PyObject*", "PyObject*"]⟩,
    ⟨"allocfunc", "PyObject*", ["PyTypeObject*", "Py_ssize_t"]⟩,
    ⟨"getter", "PyObject*", ["PyObject*", "void*"]⟩,
    ⟨"setter", "int", ["PyObject*", "PyObject*", "void*"]⟩]

def named? (name : String) : Option FunctionType :=
  all.find? (·.name = name)

/-- A parameter of a definition. The first object is the receiver, and a bare pointer has no name. -/
def parameter (receiver : String) (index : Nat) (type : String) : String :=
  if index = 0 && type = "PyObject*" then receiver ++ " self"
  else if type = "void*" then "void*"
  else type ++ " arg" ++ toString index

def signature (type : FunctionType) (symbol receiver : String) : String :=
  let parameters := type.parameters.zipIdx.map fun entry => parameter receiver entry.2 entry.1
  type.returns ++ " " ++ symbol ++ "(" ++ ", ".intercalate parameters ++ ")"

end FunctionType

end DocWeave.Extension
