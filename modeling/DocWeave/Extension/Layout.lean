import DocWeave.Code.StructTable

/-!
The layouts of the structs that an extension module initializes.
-/

namespace DocWeave.Extension.Layout

open DocWeave.Code

/-- The fields of `PyTypeObject` after its head. -/
def typeObject : List Field :=
  [⟨"tp_name", "const char*"⟩, ⟨"tp_basicsize", "Py_ssize_t"⟩, ⟨"tp_itemsize", "Py_ssize_t"⟩,
    ⟨"tp_dealloc", "destructor"⟩, ⟨"tp_vectorcall_offset", "Py_ssize_t"⟩,
    ⟨"tp_getattr", "getattrfunc"⟩, ⟨"tp_setattr", "setattrfunc"⟩,
    ⟨"tp_as_async", "PyAsyncMethods*"⟩, ⟨"tp_repr", "reprfunc"⟩,
    ⟨"tp_as_number", "PyNumberMethods*"⟩, ⟨"tp_as_sequence", "PySequenceMethods*"⟩,
    ⟨"tp_as_mapping", "PyMappingMethods*"⟩, ⟨"tp_hash", "hashfunc"⟩, ⟨"tp_call", "ternaryfunc"⟩,
    ⟨"tp_str", "reprfunc"⟩, ⟨"tp_getattro", "getattrofunc"⟩, ⟨"tp_setattro", "setattrofunc"⟩,
    ⟨"tp_as_buffer", "PyBufferProcs*"⟩, ⟨"tp_flags", "unsigned long"⟩, ⟨"tp_doc", "const char*"⟩,
    ⟨"tp_traverse", "traverseproc"⟩, ⟨"tp_clear", "inquiry"⟩, ⟨"tp_richcompare", "richcmpfunc"⟩,
    ⟨"tp_weaklistoffset", "Py_ssize_t"⟩, ⟨"tp_iter", "getiterfunc"⟩,
    ⟨"tp_iternext", "iternextfunc"⟩, ⟨"tp_methods", "struct PyMethodDef*"⟩,
    ⟨"tp_members", "struct PyMemberDef*"⟩, ⟨"tp_getset", "struct PyGetSetDef*"⟩,
    ⟨"tp_base", "PyTypeObject*"⟩, ⟨"tp_dict", "PyObject*"⟩, ⟨"tp_descr_get", "descrgetfunc"⟩,
    ⟨"tp_descr_set", "descrsetfunc"⟩, ⟨"tp_dictoffset", "Py_ssize_t"⟩, ⟨"tp_init", "initproc"⟩,
    ⟨"tp_alloc", "allocfunc"⟩, ⟨"tp_new", "newfunc"⟩, ⟨"tp_free", "freefunc"⟩,
    ⟨"tp_is_gc", "inquiry"⟩, ⟨"tp_bases", "PyObject*"⟩, ⟨"tp_mro", "PyObject*"⟩,
    ⟨"tp_cache", "PyObject*"⟩, ⟨"tp_subclasses", "PyObject*"⟩, ⟨"tp_weaklist", "PyObject*"⟩,
    ⟨"tp_del", "destructor"⟩, ⟨"tp_version_tag", "unsigned int"⟩, ⟨"tp_finalize", "destructor"⟩,
    ⟨"tp_vectorcall", "vectorcallfunc"⟩]

def numberMethods : List Field :=
  [⟨"nb_add", "binaryfunc"⟩, ⟨"nb_subtract", "binaryfunc"⟩, ⟨"nb_multiply", "binaryfunc"⟩,
    ⟨"nb_remainder", "binaryfunc"⟩, ⟨"nb_divmod", "binaryfunc"⟩, ⟨"nb_power", "ternaryfunc"⟩,
    ⟨"nb_negative", "unaryfunc"⟩, ⟨"nb_positive", "unaryfunc"⟩, ⟨"nb_absolute", "unaryfunc"⟩,
    ⟨"nb_bool", "inquiry"⟩, ⟨"nb_invert", "unaryfunc"⟩, ⟨"nb_lshift", "binaryfunc"⟩,
    ⟨"nb_rshift", "binaryfunc"⟩, ⟨"nb_and", "binaryfunc"⟩, ⟨"nb_xor", "binaryfunc"⟩,
    ⟨"nb_or", "binaryfunc"⟩, ⟨"nb_int", "unaryfunc"⟩, ⟨"nb_reserved", "void*"⟩,
    ⟨"nb_float", "unaryfunc"⟩, ⟨"nb_inplace_add", "binaryfunc"⟩,
    ⟨"nb_inplace_subtract", "binaryfunc"⟩, ⟨"nb_inplace_multiply", "binaryfunc"⟩,
    ⟨"nb_inplace_remainder", "binaryfunc"⟩, ⟨"nb_inplace_power", "ternaryfunc"⟩,
    ⟨"nb_inplace_lshift", "binaryfunc"⟩, ⟨"nb_inplace_rshift", "binaryfunc"⟩,
    ⟨"nb_inplace_and", "binaryfunc"⟩, ⟨"nb_inplace_xor", "binaryfunc"⟩,
    ⟨"nb_inplace_or", "binaryfunc"⟩, ⟨"nb_floor_divide", "binaryfunc"⟩,
    ⟨"nb_true_divide", "binaryfunc"⟩, ⟨"nb_inplace_floor_divide", "binaryfunc"⟩,
    ⟨"nb_inplace_true_divide", "binaryfunc"⟩, ⟨"nb_index", "unaryfunc"⟩,
    ⟨"nb_matrix_multiply", "binaryfunc"⟩, ⟨"nb_inplace_matrix_multiply", "binaryfunc"⟩]

def sequenceMethods : List Field :=
  [⟨"sq_length", "lenfunc"⟩, ⟨"sq_concat", "binaryfunc"⟩, ⟨"sq_repeat", "ssizeargfunc"⟩,
    ⟨"sq_item", "ssizeargfunc"⟩, ⟨"was_sq_slice", "void*"⟩, ⟨"sq_ass_item", "ssizeobjargproc"⟩,
    ⟨"was_sq_ass_slice", "void*"⟩, ⟨"sq_contains", "objobjproc"⟩,
    ⟨"sq_inplace_concat", "binaryfunc"⟩, ⟨"sq_inplace_repeat", "ssizeargfunc"⟩]

/-- The fields of `PyModuleDef` after its head. -/
def moduleDef : List Field :=
  [⟨"m_name", "const char*"⟩, ⟨"m_doc", "const char*"⟩, ⟨"m_size", "Py_ssize_t"⟩,
    ⟨"m_methods", "PyMethodDef*"⟩, ⟨"m_slots", "PyModuleDef_Slot*"⟩, ⟨"m_traverse", "traverseproc"⟩,
    ⟨"m_clear", "inquiry"⟩, ⟨"m_free", "freefunc"⟩]

/-- The layout of a struct by the name of its type. -/
def named? (type : String) : Option (List Field) :=
  [("PyTypeObject", typeObject), ("PyNumberMethods", numberMethods),
    ("PySequenceMethods", sequenceMethods), ("PyModuleDef", moduleDef)].lookup type

end DocWeave.Extension.Layout
