import DocWeave.Extension.FunctionType
import DocWeave.Extension.Slot

/-!
How a function or a method is called from outside: by a calling convention, through a slot of its type,
or by comparison.
-/

namespace DocWeave.Extension

/-- The parameters that a function or a method declares. A method counts its receiver. -/
structure Arity where
  params : Nat := 0
  varargs : Bool := false
  kwargs : Bool := false
  deriving DecidableEq, Repr

/-- The ways to pass arguments to a function in a method table. -/
inductive Convention where
  | noArgs
  | object
  | varArgs
  | keywords
  deriving DecidableEq, Repr

namespace Convention

/-- The convention for a number of arguments. -/
def ofCount : Nat → Convention
  | 0 => .noArgs
  | 1 => .object
  | _ => .varArgs

def ofFunction (arity : Arity) : Convention :=
  if arity.varargs || arity.kwargs then .keywords else ofCount arity.params

/-- The convention of a method, whose first parameter is the receiver. -/
def ofMethod (arity : Arity) : Convention :=
  if arity.varargs || arity.kwargs then .keywords else ofCount (arity.params - 1)

def flags : Convention → String
  | .noArgs => "METH_NOARGS"
  | .object => "METH_O"
  | .varArgs => "METH_VARARGS"
  | .keywords => "METH_VARARGS | METH_KEYWORDS"

/-- The parameters after the receiver. -/
def parameters : Convention → String
  | .noArgs => "PyObject*"
  | .object => "PyObject* arg1"
  | .varArgs => "PyObject* arg1"
  | .keywords => "PyObject* arg1, PyObject* arg2"

def signature (convention : Convention) (symbol receiver : String) : String :=
  "PyObject* " ++ symbol ++ "(" ++ receiver ++ " self, " ++ convention.parameters ++ ")"

end Convention

inductive Dispatch where
  /-- By name, through the method table of its class. -/
  | plain (convention : Convention)
  /-- Through a slot of its type. -/
  | slot (entry : Slot)
  /-- Through the comparison function of its class. -/
  | compare (operation : String)
  deriving DecidableEq, Repr

namespace Dispatch

/-- How the method of a name is reached. -/
def ofMethod (name : String) (arity : Arity) : Dispatch :=
  match comparison? name with
  | some operation => .compare operation
  | none =>
    match Slot.ofMethod? name with
    | some entry => .slot entry
    | none => .plain (Convention.ofMethod arity)

def signature (dispatch : Dispatch) (symbol receiver : String) : String :=
  match dispatch with
  | .plain convention => convention.signature symbol receiver
  | .slot entry =>
    match FunctionType.named? entry.pointer with
    | some type => type.signature symbol receiver
    | none => "PyObject* " ++ symbol ++ "(" ++ receiver ++ " self)"
  | .compare _ => "PyObject* " ++ symbol ++ "(" ++ receiver ++ " self, PyObject* arg1, int arg2)"

end Dispatch

end DocWeave.Extension
