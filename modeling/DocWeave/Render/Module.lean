import DocWeave.Code.GeneratedFile
import DocWeave.Manifest.Record
import DocWeave.Render.Class

/-!
Rendering a graph: the interface and the implementation of an extension module.
-/

namespace DocWeave.Render

open DocWeave.Code DocWeave.Entity DocWeave.Extension DocWeave.Tag DocWeave.Text

structure Artifacts where
  /-- The base name of the files. -/
  name : String
  interface : String
  implementation : String
  deriving DecidableEq, Repr

def Artifacts.files (artifacts : Artifacts) : List (String × String) :=
  [(artifacts.name ++ ".h", withHeader (some generatedHeader) artifacts.interface),
    (artifacts.name ++ ".cpp", withHeader (some generatedHeader) artifacts.implementation)]

/-- The choices that the settings of a manifest make. -/
def Options.ofSettings (name : String) (settings : Manifest.Settings) : Options where
  name := name
  stem := settings.stem
  indentWidth := settings.indentWidth
  tabWidth := settings.tabWidth
  header := settings.header

def initCallTemplate : String :=
  "if (!%(init_fn)s(module))
\x7b
    Py_DECREF(module);
    return NULL;
\x7d"

def createTemplate : String :=
  "PyObject* %(create_fn)s()
\x7b
    PyObject* module = PyModule_Create(&%(module_def)s);
    if (module == NULL)
        return NULL;
    %(classes)s
    return module;
\x7d"

def registerTemplate : String :=
  "bool %(init_fn)s()
\x7b
    return 0 == PyImport_AppendInittab(\"%(module)s\", &%(create_fn)s);
\x7d"

/-- A macro name made of a file name. -/
def includeGuard (name : String) : String :=
  "QUILL_" ++ name.map (fun c => if c.isAlphanum then c.toUpper else '_') ++ "_H"

def moduleSite (module : Entity.Module) (fragment : Fragment) : Site where
  origin := ⟨module.name, fragment.key, module.position, module.doc⟩
  offset := fragment.offset
  defaultClass := none

/-- A fragment of the module, if there is one with this key. -/
def moduleFragment (context : Context) (key : FragmentKey) : Except Fault (List Step) :=
  let module := context.graph.module
  match Fragment.find? module.fragments key with
  | some fragment => do
    let text ← context.expand (moduleSite module fragment) fragment
    return [.text text, .blank]
  | none => .ok []

def openExtern : Step := .line "extern \"C\" \x7b"

def closeExtern : Step := .line "\x7d // extern \"C\""

def interfaceSteps (context : Context) : Except Fault (List Step) := do
  let guard := includeGuard context.options.name
  let header ← moduleFragment context .header
  let register := Symbols.registerModule context.graph.module.name
  return [.line ("#ifndef " ++ guard), .line ("#define " ++ guard), .blank,
      .line ("#include <" ++ context.options.header ++ ">"), .blank]
    ++ header
    ++ [openExtern, .indented [.line ("bool " ++ register ++ "();")], closeExtern, .blank,
      .line ("#endif // " ++ guard)]

def functionDefinition (context : Context) (function : Entity.Function) : Except Fault (List Step) := do
  let symbol := context.symbols.function function.name
  let head := (Convention.ofFunction function.arity).signature symbol "PyObject*"
  let body ← functionBody context head function
  return positionLine function.position :: docLine (Symbols.docOf symbol) function.description ++ body
    ++ [.blank]

def functionRow (context : Context) (function : Entity.Function) : String :=
  methodRow function.name (context.symbols.function function.name) (Convention.ofFunction function.arity)
    function.description

def moduleTables (context : Context) : List Step :=
  let module := context.graph.module
  let symbols := context.symbols
  let methods := symbols.moduleMethods module.name
  let table : StructTable :=
    { type := "PyModuleDef", name := symbols.moduleDef module.name, fields := Layout.moduleDef,
      head := some "PyModuleDef_HEAD_INIT," }
  let filled := table.setAll [("m_name", "\"" ++ module.name ++ "\""),
    ("m_doc", docReference (symbols.moduleDoc module.name) module.description),
    ("m_size", "-1"), ("m_methods", methods)]
  methodTable methods (context.graph.includedFunctions.map (functionRow context))
    ++ [.text filled.render, .blank]

/-- The functions that create the module and make it known. -/
def moduleRegistration (context : Context) : List Step :=
  let module := context.graph.module.name
  let symbols := context.symbols
  let create := symbols.createModule module
  let calls := context.graph.includedClasses.map fun self =>
    context.fill initCallTemplate [("init_fn", (classSymbols context self).registerFunction)]
  let created := context.fill createTemplate [("create_fn", create),
    ("module_def", symbols.moduleDef module), ("classes", "\n".intercalate calls)]
  let registered := context.fill registerTemplate [("init_fn", Symbols.registerModule module),
    ("module", module), ("create_fn", create)]
  [.text created, .blank, .text registered]

def implementationSteps (context : Context) : Except Fault (List Step) := do
  let graph := context.graph
  let classes := graph.includedClasses
  let preamble ← moduleFragment context .default
  let structs ← concat (structDefinition context) classes
  let functions ← concat (functionDefinition context) graph.includedFunctions
  let bodies ← concat (classBodies context) classes
  let forward := classes.flatMap fun self => forwardDeclarations (classSymbols context self)
  let doc := docLine (context.symbols.moduleDoc graph.module.name) graph.module.description
  let tables := classes.flatMap (classTables context) ++ moduleTables context
  return [.line ("#include \"" ++ context.options.name ++ ".h\""), .blank]
    ++ preamble
    ++ [openExtern, .blank, .enter] ++ forward ++ structs ++ doc ++ functions ++ bodies ++ tables
    ++ [.leave, closeExtern, .blank]
    ++ classes.flatMap (classRegistration context) ++ moduleRegistration context

def written (options : Options) (steps : List Step) : Except Fault String :=
  match Step.runAll steps { indent := { width := options.indentWidth }, tabWidth := options.tabWidth } with
  | (builder, none) => .ok builder.text
  | (_, some fault) => .error fault

end Render

open Render

def Graph.render (graph : Graph) (options : Options) : Except Fault Artifacts := do
  let context : Context := { graph, options }
  let interface ← written options (← interfaceSteps context)
  let implementation ← written options (← implementationSteps context)
  return { name := options.name, interface, implementation }

end DocWeave
