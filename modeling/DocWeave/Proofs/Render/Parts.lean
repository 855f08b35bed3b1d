import DocWeave.Proofs.Render.Sites

/-!
# The parts of a generated module

Every part is made of regular steps, so the texts of a module are the outputs of their parts, one after the
other.
-/

namespace DocWeave.Render

open Code Extension Step Tag

theorem concat_eq_ok {α : Type} {part : α → Except Fault (List Step)} {items : List α} {steps : List Step}
    (success : concat part items = .ok steps) :
    ∃ parts, List.Forall₂ (fun item own => part item = .ok own) items parts ∧ steps = parts.flatten := by
  induction items generalizing steps with
  | nil =>
    cases success
    exact ⟨[], .nil, rfl⟩
  | cons item rest ih =>
    obtain ⟨first, own, success⟩ := bind_eq_ok.mp success
    obtain ⟨others, further, success⟩ := bind_eq_ok.mp success
    cases success
    obtain ⟨parts, each, rfl⟩ := ih further
    exact ⟨first :: parts, .cons own each, rfl⟩

theorem allRegular_flatten {parts : List (List Step)} (each : ∀ part ∈ parts, AllRegular part) :
    AllRegular parts.flatten := by
  rw [allRegular_iff]
  intro step member
  obtain ⟨part, listed, inside⟩ := List.mem_flatten.mp member
  exact allRegular_iff.mp (each part listed) step inside

theorem regular_concat {α : Type} {part : α → Except Fault (List Step)} {items : List α} {steps : List Step}
    (each : ∀ item own, part item = .ok own → AllRegular own) (success : concat part items = .ok steps) :
    AllRegular steps := by
  obtain ⟨parts, related, rfl⟩ := concat_eq_ok success
  apply allRegular_flatten
  intro own member
  obtain ⟨item, _, made⟩ := exists_of_forall₂_right related member
  exact each item own made

theorem allRegular_flatMap {α : Type} {part : α → List Step} (items : List α)
    (each : ∀ item, AllRegular (part item)) : AllRegular (items.flatMap part) := by
  rw [List.flatMap]
  apply allRegular_flatten
  intro own member
  obtain ⟨item, _, rfl⟩ := List.mem_map.mp member
  exact each item

theorem allRegular_map {α : Type} {step : α → Step} {items : List α} (each : ∀ item, (step item).Regular) :
    AllRegular (items.map step) := by
  rw [allRegular_iff]
  intro own member
  obtain ⟨item, _, rfl⟩ := List.mem_map.mp member
  exact each item

/-! ### Parts without fragments -/

variable {context : Context} {self : Entity.Class} {steps : List Step}

@[simp]
theorem regular_positionLine (position : Position) : (positionLine position).Regular := trivial

@[simp]
theorem regular_docLine (symbol description : String) : AllRegular (docLine symbol description) := by
  unfold docLine
  split <;> simp

@[simp]
theorem regular_arrayTable (type symbol : String) (rows : List String) (last : String) :
    AllRegular (arrayTable type symbol rows last) := by
  have lines : AllRegular ((rows ++ [last]).map Step.line) := allRegular_map regular_line
  simp only [arrayTable, allRegular_cons, regular_line, regular_indented, regular_blank, allRegular_nil, lines,
    and_self]

@[simp]
theorem regular_slotStruct (type symbol : String) (fields : List Field) (values : List (String × String)) :
    AllRegular (slotStruct type symbol fields values) := by
  unfold slotStruct
  split <;> simp

@[simp]
theorem regular_forwardDeclarations (symbols : ClassSymbols) :
    AllRegular (forwardDeclarations symbols) := by
  simp [forwardDeclarations]

@[simp]
theorem regular_compareDefinition (symbols : ClassSymbols) (self : Entity.Class) :
    AllRegular (compareDefinition symbols self) := by
  unfold compareDefinition
  dsimp only
  split
  · simp
  · have cases : AllRegular ((compareMethods self).map fun entry =>
        Step.line ("case " ++ entry.1 ++ ": return " ++ symbols.method entry.2.name ++ "(self, arg1, arg2);")) :=
      allRegular_map fun _ => regular_line _
    simpa using cases

@[simp]
theorem regular_classTables (context : Context) (self : Entity.Class) : AllRegular (classTables context self) := by
  simp [classTables, methodTable, accessorTable]

@[simp]
theorem regular_moduleTables (context : Context) : AllRegular (moduleTables context) := by
  simp [moduleTables, methodTable]

@[simp]
theorem regular_lifecycle (context : Context) (symbols : ClassSymbols) :
    AllRegular (lifecycle context symbols) := by
  simp [lifecycle]

@[simp]
theorem regular_classRegistration (context : Context) (self : Entity.Class) :
    AllRegular (classRegistration context self) := by
  simp [classRegistration]

@[simp]
theorem regular_moduleRegistration (context : Context) : AllRegular (moduleRegistration context) := by
  simp [moduleRegistration]

/-! ### Heads -/

def functionHead (context : Context) (function : Entity.Function) : String :=
  (Convention.ofFunction function.arity).signature (context.symbols.function function.name) "PyObject*"

def methodHead (context : Context) (self : Entity.Class) (method : Entity.Function) : String :=
  let symbols := classSymbols context self
  (dispatchOf method).signature (symbols.method method.name) (receiver symbols)

def getterHead (symbols : ClassSymbols) (property : Entity.Property) : String :=
  "PyObject* " ++ symbols.getter property.name ++ "(" ++ receiver symbols ++ " self, void*)"

def setterHead (symbols : ClassSymbols) (property : Entity.Property) : String :=
  "int " ++ symbols.setter property.name ++ "(" ++ receiver symbols ++ " self, PyObject* arg1, void*)"

def compareHead (symbols : ClassSymbols) : String :=
  "PyObject* " ++ symbols.compareFunction ++ "(" ++ receiver symbols ++ " self, PyObject* arg1, int arg2)"

def newHead (symbols : ClassSymbols) : String :=
  "PyObject* " ++ symbols.newFunction ++ "(PyTypeObject* type, PyObject* args, PyObject* kwargs)"

def deallocHead (symbols : ClassSymbols) : String :=
  "void " ++ symbols.deallocFunction ++ "(" ++ receiver symbols ++ " self)"

def registerHead (symbols : ClassSymbols) : String :=
  "bool " ++ symbols.registerFunction ++ "(PyObject* module)"

/-- The call that registers a class. -/
def registerCall (symbols : ClassSymbols) : String :=
  "if (!" ++ symbols.registerFunction ++ "(module)) \x7b Py_DECREF(module); return NULL; \x7d"

def createHead (context : Context) : String :=
  "PyObject* " ++ context.symbols.createModule context.graph.module.name ++ "()"

/-! ### Parts with fragments -/

theorem definition_eq_ok {head : String} {site : Site} {fragment : Fragment} :
    definition context head site fragment = .ok steps ↔
      ∃ body, context.expand site fragment = .ok body ∧ steps = [.block head "\x7d" [.text body]] := by
  unfold definition
  rw [bind_eq_ok]
  refine exists_congr fun body => and_congr_right fun _ => ?_
  rw [pure_eq_ok, eq_comm]

/-- The steps for code that may be missing: nothing, or one function. -/
inductive CodeOf (context : Context) (head : String) (site : Fragment → Site) : Option Fragment → List Step → Prop
  | missing : CodeOf context head site none []
  | given {fragment body} (expanded : context.expand (site fragment) fragment = .ok body) :
      CodeOf context head site (some fragment) [.block head "\x7d" [.text body]]

theorem codeOf_functionBody {head : String} {function : Entity.Function}
    (success : functionBody context head function = .ok steps) :
    CodeOf context head (functionSite function) function.body? steps := by
  unfold functionBody at success
  split at success
  · rename_i fragment found
    obtain ⟨body, expanded, rfl⟩ := definition_eq_ok.mp success
    rw [found]
    exact .given expanded
  · rename_i missing
    cases success
    rw [missing]
    exact .missing

theorem codeOf_accessor {head : String} {property : Entity.Property} {fragment? : Option Fragment}
    (success : accessor context head property fragment? = .ok steps) :
    CodeOf context head (propertySite property) fragment? steps := by
  unfold accessor at success
  split at success
  · rename_i fragment
    obtain ⟨body, expanded, rfl⟩ := definition_eq_ok.mp success
    exact .given expanded
  · cases success
    exact .missing

/-- The steps of an entity: where it is, its description, and its code. -/
def documented (position : Position) (symbol description : String) (code : List Step) : List Step :=
  positionLine position :: docLine symbol description ++ code ++ [.blank]

theorem functionDefinition_eq_ok {entity : Entity.Function} (success : functionDefinition context entity = .ok steps) :
    ∃ code, CodeOf context (functionHead context entity) (functionSite entity) entity.body? code ∧
      steps = documented entity.position (Symbols.docOf (context.symbols.function entity.name)) entity.description
        code := by
  obtain ⟨code, made, success⟩ := bind_eq_ok.mp success
  cases success
  exact ⟨code, codeOf_functionBody made, rfl⟩

/-- The description of a method that has a documentation constant. -/
def constantDescription (method : Entity.Function) : String :=
  match dispatchOf method with
  | .plain _ => method.description
  | _ => ""

theorem methodDefinition_eq_ok {self : Entity.Class} {method : Entity.Function}
    (success : methodDefinition context self method = .ok steps) :
    ∃ code, CodeOf context (methodHead context self method) (functionSite method) method.body? code ∧
      steps = documented method.position (Symbols.docOf ((classSymbols context self).method method.name))
        (constantDescription method) code := by
  obtain ⟨code, made, success⟩ := bind_eq_ok.mp success
  refine ⟨code, codeOf_functionBody made, ?_⟩
  rw [← pure_eq_ok.mp success, documented, constantDescription]
  cases dispatchOf method <;> rfl

theorem propertyDefinition_eq_ok {self : Entity.Class} {property : Entity.Property}
    (success : propertyDefinition context self property = .ok steps) :
    ∃ getter setter,
      CodeOf context (getterHead (classSymbols context self) property) (propertySite property) property.getter? getter ∧
      CodeOf context (setterHead (classSymbols context self) property) (propertySite property) property.setter? setter ∧
      steps = documented property.position (Symbols.docOf ((classSymbols context self).getter property.name))
        property.description (getter ++ setter) := by
  obtain ⟨getter, getterMade, success⟩ := bind_eq_ok.mp success
  obtain ⟨setter, setterMade, success⟩ := bind_eq_ok.mp success
  cases success
  refine ⟨getter, setter, codeOf_accessor getterMade, codeOf_accessor setterMade, ?_⟩
  simp [documented]

theorem moduleFragment_eq_ok {key : FragmentKey} (success : moduleFragment context key = .ok steps) :
    Fragment.find? context.graph.module.fragments key = none ∧ steps = [] ∨
    ∃ fragment text, Fragment.find? context.graph.module.fragments key = some fragment ∧
      context.expand (moduleSite context.graph.module fragment) fragment = .ok text ∧
      steps = [.text text, .blank] := by
  unfold moduleFragment at success
  dsimp only at success
  split at success
  · rename_i fragment found
    obtain ⟨text, expanded, done⟩ := bind_eq_ok.mp success
    cases done
    exact .inr ⟨fragment, text, found, expanded, rfl⟩
  · rename_i missing
    cases success
    exact .inl ⟨missing, rfl⟩

theorem ancestorTexts_eq_ok {entries : List (Entity.Class × Fragment)} {texts : List String}
    (success : ancestorTexts context self entries = .ok texts) :
    ∃ bodies, List.Forall₂ (fun entry body =>
        context.expand (ancestorSite self entry.1 entry.2) entry.2 = .ok body) entries bodies ∧
      texts = (bodies.map (Text.onString (Text.reindent context.options.tabWidth 0))).filter (· ≠ "") := by
  induction entries generalizing texts with
  | nil =>
    cases success
    exact ⟨[], .nil, rfl⟩
  | cons entry rest ih =>
    obtain ⟨body, own, success⟩ := bind_eq_ok.mp success
    obtain ⟨others, further, success⟩ := bind_eq_ok.mp success
    obtain ⟨bodies, each, rfl⟩ := ih further
    refine ⟨body :: bodies, .cons own each, ?_⟩
    rw [← pure_eq_ok.mp success, List.map_cons, List.filter_cons]
    by_cases blank : Text.onString (Text.reindent context.options.tabWidth 0) body = ""
    · simp [blank]
    · simp [blank]

theorem CodeOf.regular {head : String} {site : Fragment → Site} {fragment? : Option Fragment}
    (code : CodeOf context head site fragment? steps) : AllRegular steps := by
  cases code <;> simp

theorem regular_moduleFragment {key : FragmentKey} (success : moduleFragment context key = .ok steps) :
    AllRegular steps := by
  rcases moduleFragment_eq_ok success with ⟨_, rfl⟩ | ⟨_, _, _, _, rfl⟩ <;> simp

theorem regular_structDefinition (success : structDefinition context self = .ok steps) : AllRegular steps := by
  obtain ⟨_, _, success⟩ := bind_eq_ok.mp success
  obtain ⟨_, _, success⟩ := bind_eq_ok.mp success
  obtain ⟨_, _, success⟩ := bind_eq_ok.mp success
  obtain ⟨_, _, success⟩ := bind_eq_ok.mp success
  cases success
  simp

theorem regular_documented {position : Position} {symbol description : String} {code : List Step} :
    AllRegular (documented position symbol description code) ↔ AllRegular code := by
  simp [documented]

theorem regular_methodDefinition {method : Entity.Function}
    (success : methodDefinition context self method = .ok steps) : AllRegular steps := by
  obtain ⟨code, made, rfl⟩ := methodDefinition_eq_ok success
  exact regular_documented.mpr made.regular

theorem regular_propertyDefinition {property : Entity.Property}
    (success : propertyDefinition context self property = .ok steps) : AllRegular steps := by
  obtain ⟨getter, setter, getterMade, setterMade, rfl⟩ := propertyDefinition_eq_ok success
  exact regular_documented.mpr (allRegular_append.mpr ⟨getterMade.regular, setterMade.regular⟩)

theorem regular_classBodies (success : classBodies context self = .ok steps) : AllRegular steps := by
  obtain ⟨methods, methodsMade, success⟩ := bind_eq_ok.mp success
  obtain ⟨properties, propertiesMade, success⟩ := bind_eq_ok.mp success
  cases success
  simp [regular_concat (fun _ _ => regular_methodDefinition) methodsMade,
    regular_concat (fun _ _ => regular_propertyDefinition) propertiesMade]

theorem regular_functionDefinition {function : Entity.Function}
    (success : functionDefinition context function = .ok steps) : AllRegular steps := by
  obtain ⟨code, made, rfl⟩ := functionDefinition_eq_ok success
  exact regular_documented.mpr made.regular

theorem regular_interfaceSteps (success : interfaceSteps context = .ok steps) : AllRegular steps := by
  obtain ⟨header, made, success⟩ := bind_eq_ok.mp success
  cases success
  simp [regular_moduleFragment made, openExtern, closeExtern]

/-- The indented part of an implementation: declarations and definitions, and behind them the tables. -/
def body (context : Context) (structs functions bodies : List Step) : List Step :=
  let classes := context.graph.includedClasses
  classes.flatMap (fun self => forwardDeclarations (classSymbols context self)) ++ structs
    ++ docLine (context.symbols.moduleDoc context.graph.module.name) context.graph.module.description
    ++ functions ++ bodies ++ (classes.flatMap (classTables context) ++ moduleTables context)

/-- The steps of an implementation around those between its braces. -/
def around (context : Context) (preamble inner : List Step) : List Step :=
  [.line ("#include \"" ++ context.options.name ++ ".h\""), .blank] ++ preamble ++ [openExtern, .blank] ++ inner
    ++ [closeExtern, .blank] ++ context.graph.includedClasses.flatMap (classRegistration context)
    ++ moduleRegistration context

/-- The steps of an implementation, if those between its braces were one step that is indented. -/
def Nested (context : Context) (steps : List Step) : Prop :=
  ∃ preamble structs functions bodies, moduleFragment context .default = .ok preamble ∧
    concat (structDefinition context) context.graph.includedClasses = .ok structs ∧
    concat (functionDefinition context) context.graph.includedFunctions = .ok functions ∧
    concat (classBodies context) context.graph.includedClasses = .ok bodies ∧
    steps = around context preamble [.indented (body context structs functions bodies)]

theorem regular_body {structs functions bodies : List Step}
    (structsMade : concat (structDefinition context) context.graph.includedClasses = .ok structs)
    (functionsMade : concat (functionDefinition context) context.graph.includedFunctions = .ok functions)
    (bodiesMade : concat (classBodies context) context.graph.includedClasses = .ok bodies) :
    AllRegular (body context structs functions bodies) := by
  have forward := allRegular_flatMap context.graph.includedClasses
    fun self => regular_forwardDeclarations (classSymbols context self)
  have tables := allRegular_flatMap context.graph.includedClasses (regular_classTables context)
  simp [body, regular_concat (fun _ _ => regular_structDefinition) structsMade,
    regular_concat (fun _ _ => regular_functionDefinition) functionsMade,
    regular_concat (fun _ _ => regular_classBodies) bodiesMade, forward, tables]

theorem Nested.regular (nested : Nested context steps) : AllRegular steps := by
  obtain ⟨preamble, structs, functions, bodies, preambleMade, structsMade, functionsMade, bodiesMade, rfl⟩ := nested
  have registrations := allRegular_flatMap context.graph.includedClasses (regular_classRegistration context)
  simp [around, regular_moduleFragment preambleMade, regular_body structsMade functionsMade bodiesMade, registrations,
    openExtern, closeExtern]

/-- Entering a level and leaving it makes the same text as one step that is indented. -/
theorem exists_nested (success : implementationSteps context = .ok steps) :
    ∃ nested, Nested context nested ∧ ∀ builder, runAll steps builder = runAll nested builder := by
  obtain ⟨preamble, preambleMade, success⟩ := bind_eq_ok.mp success
  obtain ⟨structs, structsMade, success⟩ := bind_eq_ok.mp success
  obtain ⟨functions, functionsMade, success⟩ := bind_eq_ok.mp success
  obtain ⟨bodies, bodiesMade, success⟩ := bind_eq_ok.mp success
  have whole : steps =
      around context preamble (.enter :: (body context structs functions bodies ++ [.leave])) := by
    rw [← pure_eq_ok.mp success]
    simp [around, body]
  refine ⟨_, ⟨preamble, structs, functions, bodies, preambleMade, structsMade, functionsMade, bodiesMade, rfl⟩, ?_⟩
  intro builder
  rw [whole]
  simp only [around, runAll_append, runAll_enter_leave (regular_body structsMade functionsMade bodiesMade)]

/-! ### The texts of a module -/

/-- What steps add to an empty text. -/
def page (options : Options) (steps : List Step) : String :=
  outputAll options.tabWidth { width := options.indentWidth } steps

theorem written_eq {options : Options} (regular : AllRegular steps) :
    written options steps = .ok (page options steps) := by
  rw [written, runAll_eq_append regular]
  simp [page, Builder.append]

theorem written_implementation {options : Options} {nested : List Step} (inner : Nested context nested)
    (same : ∀ builder, runAll steps builder = runAll nested builder) :
    written options steps = .ok (page options nested) := by
  rw [written, same]
  exact written_eq inner.regular

theorem render_eq_ok {graph : Graph} {options : Options} {artifacts : Artifacts}
    (success : graph.render options = .ok artifacts) :
    ∃ interface implementation nested, interfaceSteps { graph, options } = .ok interface ∧
      implementationSteps { graph, options } = .ok implementation ∧ Nested { graph, options } nested ∧
      (∀ builder, runAll implementation builder = runAll nested builder) ∧
      artifacts = ⟨options.name, page options interface, page options nested⟩ := by
  obtain ⟨interface, interfaceMade, success⟩ := bind_eq_ok.mp success
  obtain ⟨first, firstWritten, success⟩ := bind_eq_ok.mp success
  obtain ⟨implementation, implementationMade, success⟩ := bind_eq_ok.mp success
  obtain ⟨second, secondWritten, success⟩ := bind_eq_ok.mp success
  obtain ⟨nested, inner, same⟩ := exists_nested implementationMade
  rw [written_eq (regular_interfaceSteps interfaceMade)] at firstWritten
  rw [written_implementation inner same] at secondWritten
  cases firstWritten
  cases secondWritten
  cases success
  exact ⟨interface, implementation, nested, interfaceMade, implementationMade, inner, same, rfl⟩

theorem exists_render_of_steps {graph : Graph} {options : Options} {interface implementation : List Step}
    (first : interfaceSteps { graph, options } = .ok interface)
    (second : implementationSteps { graph, options } = .ok implementation) :
    ∃ artifacts, graph.render options = .ok artifacts := by
  obtain ⟨nested, inner, same⟩ := exists_nested second
  refine ⟨⟨options.name, page options interface, page options nested⟩, bind_eq_ok.mpr ⟨interface, first, ?_⟩⟩
  refine bind_eq_ok.mpr ⟨_, written_eq (regular_interfaceSteps first), bind_eq_ok.mpr ⟨implementation, second, ?_⟩⟩
  exact bind_eq_ok.mpr ⟨_, written_implementation inner same, rfl⟩

theorem fails_of_render {graph : Graph} {options : Options} {fault : Fault}
    (failure : graph.render options = .error fault) : FailsToWrite { graph, options } fault := by
  rcases bind_eq_error.mp failure with failed | ⟨interface, made, failure⟩
  · exact fails_of_interfaceSteps failed
  rcases bind_eq_error.mp failure with failed | ⟨_, _, failure⟩
  · rw [written_eq (regular_interfaceSteps made)] at failed
    cases failed
  rcases bind_eq_error.mp failure with failed | ⟨implementation, made, failure⟩
  · exact fails_of_implementationSteps failed
  rcases bind_eq_error.mp failure with failed | ⟨_, _, done⟩
  · obtain ⟨nested, inner, same⟩ := exists_nested made
    rw [written_implementation inner same] at failed
    cases failed
  · cases done

/-- Only a fragment that cannot be expanded stops the rendering of a graph. -/
theorem render_eq_error {graph : Graph} {options : Options} {fault : Fault}
    (failure : graph.render options = .error fault) : FailsToExpand { graph, options } fault :=
  (fails_of_render failure).failsToExpand

end DocWeave.Render
