/-!
The special methods: which of them fill a slot of a type, and which of them compare.
-/

namespace DocWeave.Extension

inductive SlotTable where
  | type
  | number
  | sequence
  deriving DecidableEq, Repr

/-- The place of a special method in a type. -/
structure Slot where
  method : String
  table : SlotTable
  field : String
  /-- The name of the function pointer type of the field. -/
  pointer : String
  deriving DecidableEq, Repr

/-- The special methods that fill a slot. -/
def Slot.all : List Slot :=
  [⟨"__init__", .type, "tp_init", "initproc"⟩, ⟨"__str__", .type, "tp_str", "reprfunc"⟩,
    ⟨"__repr__", .type, "tp_repr", "reprfunc"⟩, ⟨"__hash__", .type, "tp_hash", "hashfunc"⟩,
    ⟨"__call__", .type, "tp_call", "ternaryfunc"⟩, ⟨"__iter__", .type, "tp_iter", "getiterfunc"⟩,
    ⟨"__next__", .type, "tp_iternext", "iternextfunc"⟩,
    ⟨"__len__", .sequence, "sq_length", "lenfunc"⟩,
    ⟨"__getitem__", .sequence, "sq_item", "ssizeargfunc"⟩,
    ⟨"__setitem__", .sequence, "sq_ass_item", "ssizeobjargproc"⟩,
    ⟨"__contains__", .sequence, "sq_contains", "objobjproc"⟩,
    ⟨"__add__", .number, "nb_add", "binaryfunc"⟩, ⟨"__sub__", .number, "nb_subtract", "binaryfunc"⟩,
    ⟨"__mul__", .number, "nb_multiply", "binaryfunc"⟩,
    ⟨"__mod__", .number, "nb_remainder", "binaryfunc"⟩,
    ⟨"__divmod__", .number, "nb_divmod", "binaryfunc"⟩,
    ⟨"__pow__", .number, "nb_power", "ternaryfunc"⟩,
    ⟨"__neg__", .number, "nb_negative", "unaryfunc"⟩,
    ⟨"__pos__", .number, "nb_positive", "unaryfunc"⟩,
    ⟨"__abs__", .number, "nb_absolute", "unaryfunc"⟩, ⟨"__bool__", .number, "nb_bool", "inquiry"⟩,
    ⟨"__invert__", .number, "nb_invert", "unaryfunc"⟩,
    ⟨"__lshift__", .number, "nb_lshift", "binaryfunc"⟩,
    ⟨"__rshift__", .number, "nb_rshift", "binaryfunc"⟩,
    ⟨"__and__", .number, "nb_and", "binaryfunc"⟩, ⟨"__xor__", .number, "nb_xor", "binaryfunc"⟩,
    ⟨"__or__", .number, "nb_or", "binaryfunc"⟩, ⟨"__int__", .number, "nb_int", "unaryfunc"⟩,
    ⟨"__float__", .number, "nb_float", "unaryfunc"⟩,
    ⟨"__iadd__", .number, "nb_inplace_add", "binaryfunc"⟩,
    ⟨"__isub__", .number, "nb_inplace_subtract", "binaryfunc"⟩,
    ⟨"__imul__", .number, "nb_inplace_multiply", "binaryfunc"⟩,
    ⟨"__imod__", .number, "nb_inplace_remainder", "binaryfunc"⟩,
    ⟨"__ipow__", .number, "nb_inplace_power", "ternaryfunc"⟩,
    ⟨"__ilshift__", .number, "nb_inplace_lshift", "binaryfunc"⟩,
    ⟨"__irshift__", .number, "nb_inplace_rshift", "binaryfunc"⟩,
    ⟨"__iand__", .number, "nb_inplace_and", "binaryfunc"⟩,
    ⟨"__ixor__", .number, "nb_inplace_xor", "binaryfunc"⟩,
    ⟨"__ior__", .number, "nb_inplace_or", "binaryfunc"⟩,
    ⟨"__floordiv__", .number, "nb_floor_divide", "binaryfunc"⟩,
    ⟨"__truediv__", .number, "nb_true_divide", "binaryfunc"⟩,
    ⟨"__ifloordiv__", .number, "nb_inplace_floor_divide", "binaryfunc"⟩,
    ⟨"__itruediv__", .number, "nb_inplace_true_divide", "binaryfunc"⟩,
    ⟨"__index__", .number, "nb_index", "unaryfunc"⟩,
    ⟨"__matmul__", .number, "nb_matrix_multiply", "binaryfunc"⟩,
    ⟨"__imatmul__", .number, "nb_inplace_matrix_multiply", "binaryfunc"⟩]

def Slot.ofMethod? (method : String) : Option Slot :=
  Slot.all.find? (·.method = method)

/-- The special methods that compare, with the operation each of them answers. -/
def comparisons : List (String × String) :=
  [("__lt__", "Py_LT"), ("__le__", "Py_LE"), ("__eq__", "Py_EQ"), ("__ne__", "Py_NE"),
    ("__gt__", "Py_GT"), ("__ge__", "Py_GE")]

/-- The operation that a comparing method answers. -/
def comparison? (method : String) : Option String :=
  comparisons.lookup method

end DocWeave.Extension
