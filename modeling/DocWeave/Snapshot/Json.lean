import DocWeave.Json.Value
import DocWeave.Snapshot.Basic

/-!
The written form of a snapshot.

Entities are keyed by name. Where one class refers to another, the place of that class in the order of
discovery is written.
-/

namespace DocWeave.Snapshot

open DocWeave.Json DocWeave.Entity

/-- The word of a fragment key in a snapshot. -/
def keyWord (key : FragmentKey) : String :=
  key.label.map Char.toUpper

def fragmentValue (fragment : Fragment) : Value :=
  .record [("key", .text (keyWord fragment.key)), ("body", .text fragment.body),
    ("offset", .number fragment.offset)]

def fragmentsValue (fragments : List Fragment) : Value :=
  .record (fragments.map fun fragment => (keyWord fragment.key, fragmentValue fragment))

def positionValue (position : Position) : Value :=
  .record [("file", .text position.file), ("line", .ofNat? position.line)]

def moduleValue (module : Entity.Module) : Value :=
  .record [("name", .text module.name), ("description", .text module.description),
    ("fragments", fragmentsValue module.fragments), ("position", positionValue module.position)]

/-- The place of a class, if there is one. -/
def classPlace (graph : Graph) (name : Option String) : Value :=
  .ofNat? (name.bind graph.classIndex?)

def functionValue (graph : Graph) (self : Entity.Function) : Value :=
  .record [("name", .text self.name), ("qualified_name", .text self.qualifiedName),
    ("description", .text self.description), ("fragments", fragmentsValue self.fragments),
    ("position", positionValue self.position),
    ("signature", .record [("params", .number self.arity.params), ("varargs", .bool self.arity.varargs),
      ("kwargs", .bool self.arity.kwargs)]),
    ("owner", classPlace graph self.owner), ("inherited_from", classPlace graph self.inheritedFrom),
    ("included", .bool self.included)]

def propertyValue (graph : Graph) (self : Entity.Property) : Value :=
  .record [("name", .text self.name), ("qualified_name", .text self.qualifiedName),
    ("description", .text self.description), ("fragments", fragmentsValue self.fragments),
    ("position", positionValue self.position), ("has_setter", .bool self.hasSetter),
    ("owner", classPlace graph (some self.owner)),
    ("inherited_from", classPlace graph self.inheritedFrom), ("included", .bool self.included)]

def classValue (graph : Graph) (self : Entity.Class) : Value :=
  let places (names : List String) := .list (names.map fun name => classPlace graph (some name))
  .record [("name", .text self.name), ("description", .text self.description),
    ("fragments", fragmentsValue self.fragments), ("position", positionValue self.position),
    ("base_names", .list (self.baseNames.map .text)), ("bases", places self.bases),
    ("lineage", places self.lineage), ("methods", .list (self.methods.map (functionValue graph))),
    ("properties", .list (self.properties.map (propertyValue graph))), ("included", .bool self.included)]

def graphValue (graph : Graph) : Value :=
  .record [("module", moduleValue graph.module),
    ("functions", .record (graph.functions.map fun self => (self.qualifiedName, functionValue graph self))),
    ("classes", .record (graph.classes.map fun self => (self.name, classValue graph self))),
    ("finalized", .bool graph.finalized)]

def artifactsValue (artifacts : Render.Artifacts) : Value :=
  .record [("name", .text artifacts.name), ("interface", .text artifacts.interface),
    ("implementation", .text artifacts.implementation)]

def diagnosticValue (diagnostic : Diagnostic) : Value :=
  .record [("severity", .text diagnostic.severity.label), ("phase", .text diagnostic.phase),
    ("message", .text diagnostic.message), ("location", .ofText? diagnostic.location)]

/-- A snapshot as a record. What the run does not have yet is left out. -/
def toValue (snapshot : Snapshot) : Value :=
  .record ([("phase", .text snapshot.phase)]
    ++ (snapshot.graph.map fun graph => ("graph", graphValue graph)).toList
    ++ (snapshot.artifacts.map fun artifacts => ("artifacts", artifactsValue artifacts)).toList
    ++ [("diagnostics", .list (snapshot.diagnostics.map diagnosticValue))])

def toText (snapshot : Snapshot) : String :=
  snapshot.toValue.write 0

end DocWeave.Snapshot
