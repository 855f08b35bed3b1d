import DocWeave.Proofs.Render.Agreement
import DocWeave.Proofs.Render.Emission
import DocWeave.Proofs.Render.Symbols

/-!
# What every part defines

A part defines a few items, each by its symbol. It lacks only what its entity does not have: a description, an accessor,
or methods for a table.
-/

namespace DocWeave.Render

open Code Definition Extension Step Template Text

variable {context : Context}

/-- Something that a part may define. -/
structure Provision where
  item : Item
  definition : Definition
  present : Bool

def Item.name (context : Context) (item : Item) : String :=
  item.symbol context.symbols context.graph.module.name

/-- The struct of a class is written like a function: a head, and a body in braces. -/
def structHead (symbols : ClassSymbols) : String :=
  "struct " ++ symbols.instanceStruct

def copyHead (symbols : ClassSymbols) : String :=
  receiver symbols ++ " " ++ symbols.copyFunction ++ "(" ++ receiver symbols ++ " self)"

def entryHead (context : Context) : String :=
  "bool " ++ Symbols.registerModule context.graph.module.name ++ "()"

/-- What a part may define, in its order. -/
def Part.provisions (context : Context) : Part → List Provision
  | .opening | .forward _ | .closing => []
  | .struct self => [⟨.instanceStruct self.name, .function (structHead (classSymbols context self)), true⟩]
  | .moduleDoc =>
    [⟨.ofModule .doc, .constant (context.symbols.moduleDoc context.graph.module.name),
      context.graph.module.description ≠ ""⟩]
  | .function entity =>
    [⟨.function entity.name, .function (functionHead context entity), true⟩,
      ⟨.functionDoc entity.name, .constant (Symbols.docOf (context.symbols.function entity.name)),
        entity.description ≠ ""⟩]
  | .classDoc self => [⟨.ofClass .doc self.name, .constant (classSymbols context self).doc, self.description ≠ ""⟩]
  | .method self member =>
    [⟨.member .method self.name member.name, .function (methodHead context self member), true⟩,
      ⟨.memberDoc .method self.name member.name,
        .constant (Symbols.docOf ((classSymbols context self).method member.name)), constantDescription member ≠ ""⟩]
  | .property self member =>
    [⟨.member .getter self.name member.name, .function (getterHead (classSymbols context self) member),
        member.getter?.isSome⟩,
      ⟨.member .setter self.name member.name, .function (setterHead (classSymbols context self) member),
        member.setter?.isSome⟩,
      ⟨.memberDoc .getter self.name member.name,
        .constant (Symbols.docOf ((classSymbols context self).getter member.name)), member.description ≠ ""⟩]
  | .comparison self =>
    [⟨.ofClass .comparison self.name, .function (compareHead (classSymbols context self)), compareMethods self ≠ []⟩]
  | .lifecycle self =>
    [⟨.ofClass .new self.name, .function (newHead (classSymbols context self)), true⟩,
      ⟨.ofClass .dealloc self.name, .function (deallocHead (classSymbols context self)), true⟩,
      ⟨.ofClass .copy self.name, .function (copyHead (classSymbols context self)), true⟩]
  | .methodTable self =>
    [⟨.ofClass .methods self.name, .array "PyMethodDef" (classSymbols context self).methodTable, true⟩]
  | .accessorTable self =>
    [⟨.ofClass .accessors self.name, .array "PyGetSetDef" (classSymbols context self).accessorTable, true⟩]
  | .numberTable self =>
    [⟨.ofClass .numbers self.name, .struct "PyNumberMethods" (classSymbols context self).numberTable,
      slotValues (classSymbols context self) self .number ≠ []⟩]
  | .sequenceTable self =>
    [⟨.ofClass .sequence self.name, .struct "PySequenceMethods" (classSymbols context self).sequenceTable,
      slotValues (classSymbols context self) self .sequence ≠ []⟩]
  | .typeObject self => [⟨.typeObject self.name, .struct "PyTypeObject" (classSymbols context self).typeStruct, true⟩]
  | .functionTable =>
    [⟨.ofModule .methods, .array "PyMethodDef" (context.symbols.moduleMethods context.graph.module.name), true⟩]
  | .moduleDef =>
    [⟨.ofModule .definition, .struct "PyModuleDef" (context.symbols.moduleDef context.graph.module.name), true⟩]
  | .registration self => [⟨.registerClass self.name, .function (registerHead (classSymbols context self)), true⟩]
  | .creation => [⟨.creation, .function (createHead context), true⟩]
  | .entryPoint => [⟨.registerModule, .function (entryHead context), true⟩]

/-! ### Symbols of provisions -/

theorem names_copy (symbols : ClassSymbols) : (function (copyHead symbols)).Names symbols.copyFunction := by
  have blank : (receiver symbols ++ " ").toList.getLast? = some ' ' := by simp
  apply names_head (receiver symbols ++ " self)") blank
  simp only [copyHead, String.append_assoc]

/-- A provision defines the symbol of its item. -/
theorem names_of_mem {part : Part} {provision : Provision} (member : provision ∈ part.provisions context) :
    provision.definition.Names (provision.item.name context) := by
  cases part with
  | opening | forward | closing => cases member
  | struct self =>
    cases List.mem_singleton.mp member
    exact .record
  | function entity =>
    rcases List.mem_pair.mp member with rfl | rfl
    · exact names_convention _ _ _
    · exact .constant
  | method self method =>
    rcases List.mem_pair.mp member with rfl | rfl
    · exact names_dispatch _ _ _
    · exact .constant
  | property self property =>
    rw [Part.provisions, List.mem_cons, List.mem_pair] at member
    rcases member with rfl | rfl | rfl
    · exact names_getter _ _
    · exact names_setter _ _
    · exact .constant
  | comparison self =>
    cases List.mem_singleton.mp member
    exact names_compare _
  | lifecycle self =>
    rw [Part.provisions, List.mem_cons, List.mem_pair] at member
    rcases member with rfl | rfl | rfl
    · exact names_new _
    · exact names_dealloc _
    · exact names_copy _
  | registration =>
    cases List.mem_singleton.mp member
    exact names_register _
  | creation =>
    cases List.mem_singleton.mp member
    exact names_create _
  | entryPoint =>
    cases List.mem_singleton.mp member
    exact .head (by decide) (by decide)
  | moduleDoc | classDoc =>
    cases List.mem_singleton.mp member
    exact .constant
  | methodTable | accessorTable | functionTable =>
    cases List.mem_singleton.mp member
    exact .array
  | numberTable | sequenceTable | typeObject | moduleDef =>
    cases List.mem_singleton.mp member
    exact .struct

/-! ### What stands in the parts -/

theorem Prints.of_append {text s rest : String} (prints : Prints text (s ++ rest)) : Prints text s := by
  refine List.IsInfix.trans ?_ prints
  rw [String.toList_append, ink_append]
  exact (List.prefix_append _ _).isInfix

theorem instanceStruct_defined {self : Entity.Class} (succeeds : (Part.struct self).Succeeds context) :
    (function (structHead (classSymbols context self))).StandsIn ((Part.struct self).written context) := by
  obtain ⟨code, _, same⟩ := structDefinition_eq_ok succeeds
  have body : ink "\n\x7b\n    PyObject_HEAD".toList = ink "\x7b".toList ++ ink "PyObject_HEAD".toList := by
    decide +kernel
  have printed : Prints (context.fill structTemplate (structValues (classSymbols context self) code))
      (structHead (classSymbols context self) ++ "\x7b" ++ "PyObject_HEAD") := by
    refine prints_fill [.text "struct ", .field "struct", .text "\n\x7b\n    PyObject_HEAD"] pieces_structTemplate
      ⟨[], _, rfl⟩ ?_
    simp only [structHead, structValues, String.toList_append, ink_append, List.append_assoc, List.flatMap_cons,
      List.flatMap_nil, List.append_nil, Segment.value, List.lookup_cons_self, Option.getD_some, body]
  rw [same]
  exact .text (List.mem_cons_of_mem _ List.mem_cons_self) printed.of_append

theorem copy_defined (self : Entity.Class) :
    (function (copyHead (classSymbols context self))).StandsIn ((Part.lifecycle self).written context) := by
  have result : ink "* ".toList = ink "*".toList ++ ink " ".toList := by decide
  have pointer : ink "* self)".toList = ink "*".toList ++ ink " self)".toList := by decide
  refine .text List.mem_cons_self (prints_fill [.field "struct", .text "* ", .field "copy_fn", .text "(",
    .field "struct", .text "* self)", .text "\n\x7b"] pieces_lifecycleTemplate
    ⟨lifecycleSegments.take 28, _, rfl⟩ ?_)
  simp only [copyHead, receiver, String.toList_append, ink_append, List.append_assoc, List.flatMap_cons,
    List.flatMap_nil, List.append_nil, Segment.value, List.lookup_cons, String.reduceBEq, Option.getD_some, result,
    pointer, ink_brace]

theorem entry_defined : (function (entryHead context)).StandsIn (Part.entryPoint.written context) := by
  have body : ink "\n\x7b\n    return 0 == ".toList = ink "\x7b".toList ++ ink "return 0 ==".toList := by
    decide +kernel
  have printed : Prints (entryPointText context) (entryHead context ++ "\x7b" ++ "return 0 ==") := by
    refine prints_fill [.text "bool ", .field "init_fn", .text "()", .text "\n\x7b\n    return 0 == "]
      pieces_registerTemplate ⟨[], _, rfl⟩ ?_
    simp only [entryHead, String.toList_append, ink_append, List.append_assoc, List.flatMap_cons, List.flatMap_nil,
      List.append_nil, Segment.value, List.lookup_cons_self, Option.getD_some, body]
  exact .text List.mem_cons_self printed.of_append

/-- A part holds exactly those of its provisions that are present. -/
theorem standsIn_iff_present (coded : Coded context.graph) {part : Part} (listed : part ∈ parts context.graph)
    (succeeds : part.Succeeds context) {provision : Provision} (member : provision ∈ part.provisions context) :
    provision.definition.StandsIn (part.written context) ↔ provision.present = true := by
  have included := included_of_mem_parts listed
  cases part with
  | opening | forward | closing => cases member
  | struct self =>
    cases List.mem_singleton.mp member
    exact iff_of_true (instanceStruct_defined succeeds) rfl
  | moduleDoc | classDoc =>
    cases List.mem_singleton.mp member
    exact constant_standsIn_docLine_iff.trans decide_eq_true_iff.symm
  | function entity =>
    obtain ⟨code, doc⟩ := function_defined (coded.functions entity included) succeeds
    rcases List.mem_pair.mp member with rfl | rfl
    · exact iff_of_true code rfl
    · exact doc.trans decide_eq_true_iff.symm
  | method self method =>
    obtain ⟨code, doc⟩ := method_defined (coded.methods self included.1 method included.2) succeeds
    rcases List.mem_pair.mp member with rfl | rfl
    · exact iff_of_true code rfl
    · exact doc.trans decide_eq_true_iff.symm
  | property self property =>
    obtain ⟨getter, setter, doc⟩ := property_defined succeeds
    rw [Part.provisions, List.mem_cons, List.mem_pair] at member
    rcases member with rfl | rfl | rfl
    · exact getter
    · exact setter
    · exact doc.trans decide_eq_true_iff.symm
  | comparison self =>
    cases List.mem_singleton.mp member
    exact (comparison_defined self).trans decide_eq_true_iff.symm
  | lifecycle self =>
    rw [Part.provisions, List.mem_cons, List.mem_pair] at member
    rcases member with rfl | rfl | rfl
    · exact iff_of_true (new_defined self) rfl
    · exact iff_of_true (dealloc_defined self) rfl
    · exact iff_of_true (copy_defined self) rfl
  | methodTable | accessorTable | functionTable =>
    cases List.mem_singleton.mp member
    exact iff_of_true (array_standsIn_arrayTable ..) rfl
  | numberTable | sequenceTable =>
    cases List.mem_singleton.mp member
    exact struct_standsIn_slotStruct.trans decide_eq_true_iff.symm
  | typeObject self =>
    cases List.mem_singleton.mp member
    exact iff_of_true (typeObject_defined self) rfl
  | moduleDef =>
    cases List.mem_singleton.mp member
    exact iff_of_true moduleDef_defined rfl
  | registration self =>
    cases List.mem_singleton.mp member
    exact iff_of_true (register_defined self) rfl
  | creation =>
    cases List.mem_singleton.mp member
    exact iff_of_true create_defined rfl
  | entryPoint =>
    cases List.mem_singleton.mp member
    exact iff_of_true entry_defined rfl

end DocWeave.Render
