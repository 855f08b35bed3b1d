import DocWeave.Proofs.Render.Provisions

/-!
# What an implementation offers for a class

Code refers to a class by four symbols: its struct, its type object, and the functions that make and copy an instance.
The implementation declares each of them in a line before all code, and defines it in a part behind.
-/

namespace DocWeave.Render

open Code Definition Extension Step Text

variable {context : Context} {steps : List Step}

/-- A symbol that code refers to, with the line that declares it and the part that defines it. -/
structure Handle where
  item : Item
  declaration : String
  part : Part
  definition : Definition

/-- What code may refer to for a class. -/
def handles (context : Context) (self : Entity.Class) : List Handle :=
  let symbols := classSymbols context self
  [⟨.instanceStruct self.name, structHead symbols ++ ";", .struct self, .function (structHead symbols)⟩,
    ⟨.typeObject self.name, "extern PyTypeObject " ++ symbols.typeStruct ++ ";", .typeObject self,
      .struct "PyTypeObject" symbols.typeStruct⟩,
    ⟨.ofClass .new self.name, newHead symbols ++ ";", .lifecycle self, .function (newHead symbols)⟩,
    ⟨.ofClass .copy self.name, copyHead symbols ++ ";", .lifecycle self, .function (copyHead symbols)⟩]

/-- The text holds the line that declares the symbol, and a part behind all declarations of the class gives the symbol
its meaning. -/
structure Handle.Holds (handle : Handle) (context : Context) (self : Entity.Class) (text : String) : Prop where
  declared : (handle.declaration ++ "\n").toList <:+: text.toList
  defined : At context handle.part fun before steps => .forward self ∈ before ∧ handle.definition.StandsIn steps
  printed : Prints text handle.definition.opening
  names : handle.definition.Names (handle.item.name context)

variable {self : Entity.Class} {handle : Handle}

/-- The part of a handle always defines the item of the handle. -/
theorem provision_of_mem_handles (member : handle ∈ handles context self) :
    ⟨handle.item, handle.definition, true⟩ ∈ handle.part.provisions context := by
  simp only [handles, List.mem_cons, List.not_mem_nil, or_false] at member
  rcases member with rfl | rfl | rfl | rfl
  · exact List.mem_cons_self
  · exact List.mem_cons_self
  · exact List.mem_cons_self
  · exact List.mem_cons_of_mem _ (List.mem_cons_of_mem _ List.mem_cons_self)

theorem declaration_mem_forward (member : handle ∈ handles context self) :
    .line handle.declaration ∈ (Part.forward self).written context := by
  change _ ∈ forwardDeclarations (classSymbols context self)
  have new : newHead (classSymbols context self) ++ ";" = "PyObject* " ++ (classSymbols context self).newFunction
      ++ "(PyTypeObject* type, PyObject* args, PyObject* kwargs);" := by
    rw [newHead, String.append_assoc]
    rfl
  have copy : copyHead (classSymbols context self) ++ ";" = receiver (classSymbols context self) ++ " "
      ++ (classSymbols context self).copyFunction ++ "(" ++ receiver (classSymbols context self) ++ " self);" := by
    rw [copyHead, String.append_assoc]
    rfl
  simp only [handles, List.mem_cons, List.not_mem_nil, or_false] at member
  rcases member with rfl | rfl | rfl | rfl
  · exact List.mem_cons_self
  · exact List.mem_cons_of_mem _ List.mem_cons_self
  · simp [forwardDeclarations, new]
  · simp [forwardDeclarations, copy]

theorem line_infix_of_mem (tabWidth : Nat) (indent : Indent) {s : String} (member : .line s ∈ steps) :
    (s ++ "\n").toList <:+: (outputAll tabWidth indent steps).toList := by
  refine List.IsInfix.trans ?_ (output_infix_of_mem tabWidth indent member)
  rw [output, Builder.lineText]
  split
  · rename_i empty
    rw [empty]
    exact List.infix_rfl
  · rw [String.append_assoc, @String.toList_append indent.lead]
    exact (List.suffix_append _ _).isInfix

/-- The parts behind all declarations. -/
def partsBehind (graph : Graph) : List Part :=
  graph.includedClasses.map .struct ++ .moduleDoc :: graph.includedFunctions.map .function
    ++ graph.includedClasses.flatMap bodyParts ++ graph.includedClasses.flatMap tableParts
    ++ .functionTable :: .moduleDef :: outerParts graph

theorem parts_eq_forward (graph : Graph) :
    parts graph = .opening :: graph.includedClasses.map .forward ++ partsBehind graph := by
  simp [parts, innerParts, partsBehind]

theorem part_mem_partsBehind (listed : self ∈ context.graph.includedClasses) (member : handle ∈ handles context self) :
    handle.part ∈ partsBehind context.graph := by
  have body : .lifecycle self ∈ context.graph.includedClasses.flatMap bodyParts :=
    List.mem_flatMap.mpr ⟨self, listed, by simp [bodyParts]⟩
  have table : .typeObject self ∈ context.graph.includedClasses.flatMap tableParts :=
    List.mem_flatMap.mpr ⟨self, listed, by simp [tableParts]⟩
  simp only [handles, List.mem_cons, List.not_mem_nil, or_false] at member
  rcases member with rfl | rfl | rfl | rfl
  · simp [partsBehind, listed]
  · simp only [partsBehind, List.mem_append, table, or_true, true_or]
  · simp only [partsBehind, List.mem_append, body, or_true, true_or]
  · simp only [partsBehind, List.mem_append, body, or_true, true_or]

/-- The texts of the parts hold every handle of an included class. -/
theorem holds_of_mem_handles {text : String} (coded : Coded context.graph)
    (whole : text.toList = (parts context.graph).flatMap fun part => (part.text context).toList)
    (succeeds : ∀ part ∈ parts context.graph, part.Succeeds context) (listed : self ∈ context.graph.includedClasses)
    (member : handle ∈ handles context self) : handle.Holds context self text := by
  have inside : ∀ part ∈ parts context.graph, (part.text context).toList <:+: text.toList := by
    intro part known
    rw [whole, List.flatMap_def]
    exact List.infix_of_mem_flatten (List.mem_map_of_mem known)
  have split := parts_eq_forward context.graph
  have forward : .forward self ∈ Part.opening :: context.graph.includedClasses.map .forward :=
    List.mem_cons_of_mem _ (List.mem_map_of_mem listed)
  have behind := part_mem_partsBehind listed member
  have known : handle.part ∈ parts context.graph := split ▸ List.mem_append_right _ behind
  have provision := provision_of_mem_handles member
  have stands := (standsIn_iff_present coded known (succeeds _ known) provision).mpr rfl
  constructor
  · have declaring := inside _ (split ▸ List.mem_append_left _ forward)
    exact (line_infix_of_mem _ _ (declaration_mem_forward member)).trans declaring
  · obtain ⟨front, back, rest⟩ := List.append_of_mem behind
    refine ⟨Part.opening :: context.graph.includedClasses.map .forward ++ front, back, ?_, ?_, stands⟩
    · rw [split, rest, List.append_assoc]
    · exact List.mem_append_left _ forward
  · exact (stands.prints _ _).mono (inside _ known)
  · exact names_of_mem provision

end DocWeave.Render
