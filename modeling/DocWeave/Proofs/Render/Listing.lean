import DocWeave.Proofs.Render.Parts

/-!
# The parts of an implementation in order

Every part of an implementation is about one entity, or about the module. The implementation is the texts of the
parts, one after the other.
-/

namespace DocWeave.Render

open Code Extension Step Tag

inductive Part where
  | opening
  | forward (self : Entity.Class)
  | struct (self : Entity.Class)
  | moduleDoc
  | function (function : Entity.Function)
  | classDoc (self : Entity.Class)
  | method (self : Entity.Class) (method : Entity.Function)
  | property (self : Entity.Class) (property : Entity.Property)
  | comparison (self : Entity.Class)
  | lifecycle (self : Entity.Class)
  | methodTable (self : Entity.Class)
  | accessorTable (self : Entity.Class)
  | numberTable (self : Entity.Class)
  | sequenceTable (self : Entity.Class)
  | typeObject (self : Entity.Class)
  | functionTable
  | moduleDef
  | closing
  | registration (self : Entity.Class)
  | creation
  | entryPoint

/-- The parts of the definitions of a class. -/
def bodyParts (self : Entity.Class) : List Part :=
  .classDoc self :: self.includedMethods.map (.method self) ++ self.includedProperties.map (.property self)
    ++ [.comparison self, .lifecycle self]

/-- The parts of the tables of a class. -/
def tableParts (self : Entity.Class) : List Part :=
  [.methodTable self, .accessorTable self, .numberTable self, .sequenceTable self, .typeObject self]

/-- The parts between the braces. -/
def innerParts (graph : Graph) : List Part :=
  graph.includedClasses.map .forward ++ graph.includedClasses.map .struct ++ [.moduleDoc]
    ++ graph.includedFunctions.map .function ++ graph.includedClasses.flatMap bodyParts
    ++ graph.includedClasses.flatMap tableParts ++ [.functionTable, .moduleDef]

/-- The parts behind the closing brace. -/
def outerParts (graph : Graph) : List Part :=
  .closing :: graph.includedClasses.map .registration ++ [.creation, .entryPoint]

/-- The parts of an implementation. -/
def parts (graph : Graph) : List Part :=
  .opening :: innerParts graph ++ outerParts graph

/-- The struct that describes the module. -/
def moduleDefinition (context : Context) : StructTable :=
  let module := context.graph.module
  let symbols := context.symbols
  let table : StructTable :=
    { type := "PyModuleDef", name := symbols.moduleDef module.name, fields := Layout.moduleDef,
      head := some "PyModuleDef_HEAD_INIT," }
  table.setAll [("m_name", "\"" ++ module.name ++ "\""),
    ("m_doc", docReference (symbols.moduleDoc module.name) module.description),
    ("m_size", "-1"), ("m_methods", symbols.moduleMethods module.name)]

/-- The call that registers a class. -/
def initCall (context : Context) (self : Entity.Class) : String :=
  context.fill initCallTemplate [("init_fn", (classSymbols context self).registerFunction)]

/-- The function that creates the module. -/
def creationText (context : Context) : String :=
  let module := context.graph.module.name
  context.fill createTemplate [("create_fn", context.symbols.createModule module),
    ("module_def", context.symbols.moduleDef module),
    ("classes", "\n".intercalate (context.graph.includedClasses.map (initCall context)))]

/-- The function that makes the module known. -/
def entryPointText (context : Context) : String :=
  let module := context.graph.module.name
  context.fill registerTemplate [("init_fn", Symbols.registerModule module), ("module", module),
    ("create_fn", context.symbols.createModule module)]

/-- What rendering writes for a part. -/
def Part.steps (context : Context) : Part → Except Fault (List Step)
  | .opening => do
    let preamble ← moduleFragment context .default
    return [.line ("#include \"" ++ context.options.name ++ ".h\""), .blank] ++ preamble ++ [openExtern, .blank]
  | .forward self => .ok (forwardDeclarations (classSymbols context self))
  | .struct self => structDefinition context self
  | .moduleDoc => .ok (docLine (context.symbols.moduleDoc context.graph.module.name) context.graph.module.description)
  | .function entity => functionDefinition context entity
  | .classDoc self => .ok (docLine (classSymbols context self).doc self.description)
  | .method self member => methodDefinition context self member
  | .property self member => propertyDefinition context self member
  | .comparison self => .ok (compareDefinition (classSymbols context self) self)
  | .lifecycle self => .ok (Render.lifecycle context (classSymbols context self))
  | .methodTable self =>
    .ok (Render.methodTable (classSymbols context self).methodTable (methodRows (classSymbols context self) self))
  | .accessorTable self => .ok (Render.accessorTable (classSymbols context self) self)
  | .numberTable self =>
    .ok (slotStruct "PyNumberMethods" (classSymbols context self).numberTable Layout.numberMethods
      (slotValues (classSymbols context self) self .number))
  | .sequenceTable self =>
    .ok (slotStruct "PySequenceMethods" (classSymbols context self).sequenceTable Layout.sequenceMethods
      (slotValues (classSymbols context self) self .sequence))
  | .typeObject self => .ok [.text (Render.typeObject context self).render, .blank]
  | .functionTable =>
    .ok (Render.methodTable (context.symbols.moduleMethods context.graph.module.name)
      (context.graph.includedFunctions.map (functionRow context)))
  | .moduleDef => .ok [.text (moduleDefinition context).render, .blank]
  | .closing => .ok [closeExtern, .blank]
  | .registration self => .ok (classRegistration context self)
  | .creation => .ok [.text (creationText context), .blank]
  | .entryPoint => .ok [.text (entryPointText context)]

/-- The steps of a part that can be written. -/
def stepsOf : Except Fault (List Step) → List Step
  | .ok steps => steps
  | .error _ => []

@[simp]
theorem stepsOf_ok (steps : List Step) : stepsOf (.ok steps) = steps := rfl

def Part.written (context : Context) (part : Part) : List Step :=
  stepsOf (part.steps context)

/-- The depth at which a part is written. -/
def Part.depth : Part → Nat
  | .opening | .closing | .registration _ | .creation | .entryPoint => 0
  | _ => 1

/-- The text of a part. -/
def Part.text (context : Context) (part : Part) : String :=
  outputAll context.options.tabWidth { depth := part.depth, width := context.options.indentWidth }
    (part.written context)

variable {context : Context} {steps : List Step}

/-- The part can be written. -/
def Part.Succeeds (context : Context) (part : Part) : Prop :=
  part.steps context = .ok (part.written context)

theorem written_eq_of_ok {part : Part} (success : part.steps context = .ok steps) :
    part.written context = steps := by
  rw [Part.written, success, stepsOf]

theorem succeeds_of_ok {part : Part} (success : part.steps context = .ok steps) : part.Succeeds context := by
  rw [Part.Succeeds, written_eq_of_ok success, success]

theorem concat_eq_flatMap {α : Type} {part : α → Except Fault (List Step)} {items : List α}
    (success : concat part items = .ok steps) :
    steps = items.flatMap (fun item => stepsOf (part item)) ∧
      ∀ item ∈ items, part item = .ok (stepsOf (part item)) := by
  obtain ⟨each, related, rfl⟩ := concat_eq_ok success
  clear success
  induction related with
  | nil => exact ⟨rfl, by simp⟩
  | cons made _ ih =>
    obtain ⟨joined, rest⟩ := ih
    have own : stepsOf (part _) = _ := congrArg stepsOf made
    refine ⟨?_, ?_⟩
    · rw [List.flatten_cons, joined, List.flatMap_cons, own]
      rfl
    · refine List.forall_mem_cons.mpr ⟨?_, rest⟩
      rw [own, made]
      rfl

theorem classBodies_eq_flatMap {self : Entity.Class} (success : classBodies context self = .ok steps) :
    steps = (bodyParts self).flatMap (·.written context) ∧ ∀ part ∈ bodyParts self, part.Succeeds context := by
  obtain ⟨methods, methodsMade, success⟩ := bind_eq_ok.mp success
  obtain ⟨properties, propertiesMade, success⟩ := bind_eq_ok.mp success
  cases success
  obtain ⟨methodSteps, methodsSucceed⟩ := concat_eq_flatMap methodsMade
  obtain ⟨propertySteps, propertiesSucceed⟩ := concat_eq_flatMap propertiesMade
  refine ⟨?_, ?_⟩
  · rw [methodSteps, propertySteps]
    simp [bodyParts, List.flatMap_map, Part.written, Part.steps]
  · intro part member
    simp only [bodyParts, List.cons_append, List.mem_cons, List.mem_append, List.mem_map, List.not_mem_nil,
      or_false] at member
    rcases member with rfl | (⟨method, listed, rfl⟩ | ⟨property, listed, rfl⟩) | rfl | rfl
    · exact succeeds_of_ok rfl
    · exact succeeds_of_ok (methodsSucceed method listed)
    · exact succeeds_of_ok (propertiesSucceed property listed)
    · exact succeeds_of_ok rfl
    · exact succeeds_of_ok rfl

theorem flatMap_bodyParts {classes : List Entity.Class} (success : concat (classBodies context) classes = .ok steps) :
    steps = (classes.flatMap bodyParts).flatMap (·.written context) ∧
      ∀ part ∈ classes.flatMap bodyParts, part.Succeeds context := by
  obtain ⟨rfl, each⟩ := concat_eq_flatMap success
  refine ⟨?_, ?_⟩
  · rw [List.flatMap_assoc]
    refine List.flatMap_congr fun self member => ?_
    exact (classBodies_eq_flatMap (each self member)).1
  · intro part member
    obtain ⟨self, listed, own⟩ := List.mem_flatMap.mp member
    exact (classBodies_eq_flatMap (each self listed)).2 part own

theorem classTables_eq_flatMap (self : Entity.Class) :
    classTables context self = (tableParts self).flatMap (·.written context) := by
  simp [classTables, tableParts, Part.written, Part.steps]

theorem moduleTables_eq : moduleTables context = [Part.functionTable, .moduleDef].flatMap (·.written context) := by
  simp [moduleTables, Part.written, Part.steps, moduleDefinition]

theorem moduleRegistration_eq :
    moduleRegistration context = [Part.creation, .entryPoint].flatMap (·.written context) := rfl

theorem body_eq_flatMap {structs functions bodies : List Step}
    (structsMade : concat (structDefinition context) context.graph.includedClasses = .ok structs)
    (functionsMade : concat (functionDefinition context) context.graph.includedFunctions = .ok functions)
    (bodiesMade : concat (classBodies context) context.graph.includedClasses = .ok bodies) :
    body context structs functions bodies = (innerParts context.graph).flatMap (·.written context) ∧
      ∀ part ∈ innerParts context.graph, part.Succeeds context := by
  obtain ⟨structSteps, structsSucceed⟩ := concat_eq_flatMap structsMade
  obtain ⟨functionSteps, functionsSucceed⟩ := concat_eq_flatMap functionsMade
  obtain ⟨bodySteps, bodiesSucceed⟩ := flatMap_bodyParts bodiesMade
  refine ⟨?_, ?_⟩
  · have tables : context.graph.includedClasses.flatMap (classTables context) =
        (context.graph.includedClasses.flatMap tableParts).flatMap (·.written context) := by
      rw [List.flatMap_assoc]
      exact List.flatMap_congr fun self _ => classTables_eq_flatMap self
    rw [body, tables, moduleTables_eq, structSteps, functionSteps, bodySteps]
    simp [innerParts, List.flatMap_append, List.flatMap_map, Part.written, Part.steps]
  · intro part member
    simp only [innerParts, List.append_assoc, List.mem_append, List.mem_map, List.mem_cons, List.not_mem_nil,
      or_false] at member
    rcases member with ⟨self, _, rfl⟩ | ⟨self, listed, rfl⟩ | rfl | ⟨function, listed, rfl⟩ | listed | listed |
      rfl | rfl
    · exact succeeds_of_ok rfl
    · exact succeeds_of_ok (structsSucceed self listed)
    · exact succeeds_of_ok rfl
    · exact succeeds_of_ok (functionsSucceed function listed)
    · exact bodiesSucceed part listed
    · obtain ⟨self, _, own⟩ := List.mem_flatMap.mp listed
      simp only [tableParts, List.mem_cons, List.not_mem_nil, or_false] at own
      rcases own with rfl | rfl | rfl | rfl | rfl <;> exact succeeds_of_ok rfl
    · exact succeeds_of_ok rfl
    · exact succeeds_of_ok rfl

theorem toList_outputAll_flatMap {α : Type} (tabWidth : Nat) (indent : Indent) (part : α → List Step)
    (items : List α) : (outputAll tabWidth indent (items.flatMap part)).toList =
      items.flatMap fun item => (outputAll tabWidth indent (part item)).toList := by
  induction items with
  | nil => rfl
  | cons item rest ih => rw [List.flatMap_cons, outputAll_append, String.toList_append, ih, List.flatMap_cons]

theorem text_of_depth {part : Part} {depth : Nat} (same : part.depth = depth) :
    outputAll context.options.tabWidth { depth, width := context.options.indentWidth } (part.written context) =
      part.text context := by
  rw [Part.text, same]

theorem depth_of_mem_innerParts {graph : Graph} {part : Part} (member : part ∈ innerParts graph) :
    part.depth = 1 := by
  simp only [innerParts, bodyParts, tableParts, List.append_assoc, List.mem_append, List.mem_map, List.mem_flatMap,
    List.cons_append, List.mem_cons, List.not_mem_nil, or_false, false_or] at member
  rcases member with ⟨_, _, rfl⟩ | ⟨_, _, rfl⟩ | rfl | ⟨_, _, rfl⟩ |
    ⟨_, _, rfl | ⟨_, _, rfl⟩ | ⟨_, _, rfl⟩ | rfl | rfl⟩ | ⟨_, _, rfl | rfl | rfl | rfl | rfl⟩ | rfl | rfl <;> rfl

theorem depth_of_mem_outerParts {graph : Graph} {part : Part} (member : part ∈ outerParts graph) :
    part.depth = 0 := by
  simp only [outerParts, List.cons_append, List.mem_cons, List.mem_append, List.mem_map, List.not_mem_nil,
    or_false] at member
  rcases member with rfl | ⟨_, _, rfl⟩ | rfl | rfl <;> rfl

theorem succeeds_of_mem_outerParts {graph : Graph} {part : Part} (member : part ∈ outerParts graph) :
    part.Succeeds context := by
  simp only [outerParts, List.cons_append, List.mem_cons, List.mem_append, List.mem_map, List.not_mem_nil,
    or_false] at member
  rcases member with rfl | ⟨_, _, rfl⟩ | rfl | rfl <;> exact succeeds_of_ok rfl

theorem steps_opening {preamble : List Step} (made : moduleFragment context .default = .ok preamble) :
    Part.steps context .opening =
      .ok ([.line ("#include \"" ++ context.options.name ++ ".h\""), .blank] ++ preamble ++ [openExtern, .blank]) := by
  rw [Part.steps, made]
  rfl

/-- The steps of an implementation are those of its parts. -/
theorem nested_eq_parts (nested : Nested context steps) :
    steps = Part.written context .opening ++ .indented ((innerParts context.graph).flatMap (·.written context)) ::
        (outerParts context.graph).flatMap (·.written context) ∧
      ∀ part ∈ parts context.graph, part.Succeeds context := by
  obtain ⟨preamble, structs, functions, bodies, preambleMade, structsMade, functionsMade, bodiesMade, rfl⟩ := nested
  obtain ⟨inner, innerSucceed⟩ := body_eq_flatMap structsMade functionsMade bodiesMade
  have opening := steps_opening preambleMade
  refine ⟨?_, ?_⟩
  · rw [around, written_eq_of_ok opening, inner, moduleRegistration_eq]
    simp [outerParts, List.flatMap_map, Part.written, Part.steps]
  · intro part member
    rcases List.mem_append.mp member with first | outer
    · rcases List.mem_cons.mp first with rfl | inside
      · exact succeeds_of_ok opening
      · exact innerSucceed part inside
    · exact succeeds_of_mem_outerParts outer

theorem page_eq_flatMap (nested : Nested context steps) :
    (page context.options steps).toList = (parts context.graph).flatMap fun part => (part.text context).toList := by
  have inner : (innerParts context.graph).flatMap (fun part =>
      (outputAll context.options.tabWidth { depth := 1, width := context.options.indentWidth }
        (part.written context)).toList) =
      (innerParts context.graph).flatMap fun part => (part.text context).toList :=
    List.flatMap_congr fun part member => by rw [text_of_depth (depth_of_mem_innerParts member)]
  have outer : (outerParts context.graph).flatMap (fun part =>
      (outputAll context.options.tabWidth { depth := 0, width := context.options.indentWidth }
        (part.written context)).toList) =
      (outerParts context.graph).flatMap fun part => (part.text context).toList :=
    List.flatMap_congr fun part member => by rw [text_of_depth (depth_of_mem_outerParts member)]
  rw [(nested_eq_parts nested).1, page, outputAll_append, outputAll, output, String.toList_append,
    String.toList_append, toList_outputAll_flatMap, toList_outputAll_flatMap, outer]
  simp only [parts, List.cons_append, List.flatMap_cons, List.flatMap_append, ← inner]
  rfl

/-- The implementation is the texts of its parts, and every part can be written. -/
theorem implementation_eq_parts {graph : Graph} {options : Options} {artifacts : Artifacts}
    (success : graph.render options = .ok artifacts) :
    artifacts.implementation.toList =
        (parts graph).flatMap (fun part => (part.text { graph, options }).toList) ∧
      ∀ part ∈ parts graph, part.Succeeds { graph, options } := by
  obtain ⟨_, _, steps, _, _, nested, _, rfl⟩ := render_eq_ok success
  exact ⟨page_eq_flatMap nested, (nested_eq_parts nested).2⟩

end DocWeave.Render
