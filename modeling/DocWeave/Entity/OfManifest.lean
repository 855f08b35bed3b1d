import DocWeave.Entity.Graph
import DocWeave.Manifest.Record

/-!
The graph of a manifest.

Records are taken in order, and the documentation of each is taken apart. A fragment whose key is taken gives
a warning; the first fault stops the building.
-/

namespace DocWeave

open Entity Manifest

namespace Entity

/-- What the records of a manifest have in common. -/
structure Reader where
  marker : String
  file : String
  deriving DecidableEq, Repr

namespace Reader

def position (reader : Reader) (line : Option Nat) : Position :=
  ⟨reader.file, line⟩

/-- The qualified name of a member of a class. -/
def memberName (owner name : String) : String :=
  owner ++ "." ++ name

def moduleSubject (reader : Reader) (record : ModuleRecord) : Documentation.Subject :=
  ⟨record.name, .module, reader.position none⟩

/-- The documented function of a record. `owner` is its class, if it is a method. -/
def functionSubject (reader : Reader) (owner : Option String) (record : FunctionRecord) :
    Documentation.Subject :=
  ⟨owner.elim record.name (memberName · record.name), .function, reader.position record.line⟩

def propertySubject (reader : Reader) (owner : String) (record : PropertyRecord) :
    Documentation.Subject :=
  ⟨memberName owner record.name, .property, reader.position record.line⟩

def classSubject (reader : Reader) (record : ClassRecord) : Documentation.Subject :=
  ⟨record.name, .class, reader.position record.line⟩

/-- The documentation texts of a class and its members. -/
def documentedClass (reader : Reader) (record : ClassRecord) : List (Documentation.Subject × String) :=
  (reader.classSubject record, record.doc)
    :: record.methods.map (fun method => (reader.functionSubject (some record.name) method, method.doc))
    ++ record.properties.map fun property => (reader.propertySubject record.name property, property.doc)

/-- Every documentation text of a manifest, in the order in which the texts are taken apart. -/
def documented (reader : Reader) (manifest : Manifest) : List (Documentation.Subject × String) :=
  (reader.moduleSubject manifest.module, manifest.module.doc)
    :: manifest.functions.map (fun record => (reader.functionSubject none record, record.doc))
    ++ manifest.classes.flatMap reader.documentedClass

/-- A fragment repeats the key of an earlier one. -/
def repeated (subject : Documentation.Subject) (fragment : Fragment) : Diagnostic where
  severity := .warning
  phase := "parse"
  message := subject.kind.label ++ " '" ++ subject.name ++ "' repeats the " ++ fragment.key.label
    ++ " fragment, the first one is kept"
  location := some subject.name

/-- Take the documentation of an entity apart, with a warning for each repeated key. -/
def read (reader : Reader) (subject : Documentation.Subject) (doc : String) :
    Except Fault (Documentation × List Diagnostic) := do
  let documentation ← Documentation.parse reader.marker subject doc
  return (documentation, documentation.repeats.map (repeated subject))

def module (reader : Reader) (record : ModuleRecord) : Except Fault (Module × List Diagnostic) := do
  let subject := reader.moduleSubject record
  let (documentation, warnings) ← reader.read subject record.doc
  return ({ name := record.name, doc := record.doc, description := documentation.description,
            fragments := documentation.fragments, position := subject.position }, warnings)

/-- A function of the module, or a method of `owner`. -/
def function (reader : Reader) (owner : Option String) (record : FunctionRecord) :
    Except Fault (Function × List Diagnostic) := do
  let subject := reader.functionSubject owner record
  let (documentation, warnings) ← reader.read subject record.doc
  return ({ name := record.name, qualifiedName := subject.name, doc := record.doc,
            description := documentation.description, fragments := documentation.fragments,
            position := subject.position, arity := record.arity, owner }, warnings)

def property (reader : Reader) (owner : String) (record : PropertyRecord) :
    Except Fault (Property × List Diagnostic) := do
  let subject := reader.propertySubject owner record
  let (documentation, warnings) ← reader.read subject record.doc
  return ({ name := record.name, qualifiedName := subject.name, doc := record.doc,
            description := documentation.description, fragments := documentation.fragments,
            position := subject.position, hasSetter := record.setter, owner }, warnings)

def «class» (reader : Reader) (record : ClassRecord) : Except Fault (Class × List Diagnostic) := do
  let subject := reader.classSubject record
  let (documentation, warnings) ← reader.read subject record.doc
  let methods ← record.methods.mapM (reader.function (some record.name))
  let properties ← record.properties.mapM (reader.property record.name)
  return ({ name := record.name, doc := record.doc, description := documentation.description,
            fragments := documentation.fragments, position := subject.position,
            baseNames := record.bases, methods := methods.map Prod.fst,
            properties := properties.map Prod.fst },
    warnings ++ methods.flatMap Prod.snd ++ properties.flatMap Prod.snd)

end Reader

end Entity

namespace Graph

def reader (manifest : Manifest) : Reader :=
  ⟨manifest.settings.marker, manifest.module.fileName⟩

/-- Add the functions of records. -/
def addFunctions (reader : Reader) (graph : Graph) :
    List FunctionRecord → Except Fault (Graph × List Diagnostic)
  | [] => .ok (graph, [])
  | record :: rest => do
    let (added, warnings) ← reader.function none record
    let (whole, others) ← addFunctions reader (← graph.addFunction added) rest
    return (whole, warnings ++ others)

/-- Add the classes of records. -/
def addClasses (reader : Reader) (graph : Graph) :
    List ClassRecord → Except Fault (Graph × List Diagnostic)
  | [] => .ok (graph, [])
  | record :: rest => do
    let (added, warnings) ← reader.class record
    let (whole, others) ← addClasses reader (← graph.addClass added) rest
    return (whole, warnings ++ others)

/-- The graph of a manifest, with a warning for each repeated key. -/
def ofManifest (manifest : Manifest) : Except Fault (Graph × List Diagnostic) := do
  let reader := reader manifest
  let (module, moduleWarnings) ← reader.module manifest.module
  let (withFunctions, functionWarnings) ← addFunctions reader { module := module } manifest.functions
  let (graph, classWarnings) ← addClasses reader withFunctions manifest.classes
  return (graph, moduleWarnings ++ functionWarnings ++ classWarnings)

end Graph

end DocWeave
