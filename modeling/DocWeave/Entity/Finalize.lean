import DocWeave.Diagnostic
import DocWeave.Entity.Graph
import DocWeave.Entity.Lineage

/-!
Finalizing a graph: bases are resolved, lineages are found, members are inherited, and it is decided what is
exported.
-/

namespace DocWeave

namespace Entity

/-- The base that every class has. It is not listed among the bases. -/
def rootClass : String := "object"

def Class.declaredBases (self : Class) : List String :=
  self.baseNames.filter (· ≠ rootClass)

/-- A fault in the bases of a class. -/
def Class.baseFault (self : Class) (base : String) (cause : Unresolved) : Fault :=
  .unresolved base "base class" cause ⟨self.name, .default, self.position, self.doc⟩ none

/-- Resolve the bases of classes up to the first class that has an unknown base. -/
def resolveBases (known : List String) : List Class → List Class × Option Fault
  | [] => ([], none)
  | self :: rest =>
    match self.declaredBases.find? (!known.contains ·) with
    | some base => (self :: rest, some (self.baseFault base .unknownBase))
    | none =>
      let (resolved, fault) := resolveBases known rest
      ({ self with bases := self.declaredBases } :: resolved, fault)

/-- Keep the first candidate of every name that is not taken. -/
def pickNew {α : Type} (name : α → String) (taken : List String) :
    List (String × α) → List (String × α)
  | [] => []
  | (source, member) :: rest =>
    if taken.contains (name member) then pickNew name taken rest
    else (source, member) :: pickNew name (name member :: taken) rest

/-- The copy of a method in a class that inherits it. -/
def Function.inherit (heir source : String) (method : Function) : Function :=
  { method with qualifiedName := heir ++ "." ++ method.name, owner := some heir,
                inheritedFrom := some source }

/-- The copy of a property in a class that inherits it. -/
def Property.inherit (heir source : String) (property : Property) : Property :=
  { property with qualifiedName := heir ++ "." ++ property.name, owner := heir,
                  inheritedFrom := some source }

/-- The methods that a class declares itself. -/
def Class.ownMethods (self : Class) : List Function :=
  self.methods.filter (·.inheritedFrom.isNone)

/-- The properties that a class declares itself. -/
def Class.ownProperties (self : Class) : List Property :=
  self.properties.filter (·.inheritedFrom.isNone)

/-- Whether a function, or a method of an exported class, is included. -/
def Function.mark (exported : Bool) (function : Function) : Function :=
  { function with included := exported && !function.fragments.isEmpty }

/-- Whether a property of a class is included. -/
def Property.mark (exported : Bool) (property : Property) : Property :=
  { property with included := exported && property.annotated }

/-- Include a class or leave it out, with the members that have code. -/
def Class.mark (exported : Bool) (self : Class) : Class :=
  { self with included := exported, methods := self.methods.map (Function.mark exported),
              properties := self.properties.map (Property.mark exported) }

/-- Tell that a documented entity is left out. -/
def excluded (entity : Entity) : List Diagnostic :=
  if entity.included || entity.description = "" then []
  else
    let name := entity.qualifiedName
    [{ severity := .info, phase := "finalize", location := some name,
       message := entity.kind.label ++ " '" ++ name
        ++ "' is documented but has no fragment, not exported" }]

/-- Whether a class is left out although members have code. -/
def Class.orphansMembers (self : Class) : Bool :=
  !self.included
    && (self.methods.any (!·.fragments.isEmpty) || self.properties.any (·.annotated))

/-- The findings about a class that is marked. -/
def Class.findings (self : Class) : List Diagnostic :=
  let members :=
    if self.included then self.ownMethods.map .function ++ self.ownProperties.map .property else []
  let orphaned := if self.orphansMembers then
    [{ severity := .warning, phase := "finalize", location := some self.name,
       message := "class '" ++ self.name
        ++ "' has no fragments, so its annotated members are not exported" }]
    else []
  excluded (.class self) ++ members.flatMap excluded ++ orphaned

end Entity

open Entity

namespace Graph

def hierarchy (graph : Graph) : Hierarchy :=
  graph.classes.map fun self => (self.name, self.bases)

/-- A class is among its own ancestors. -/
def cycleFault (graph : Graph) (name : String) : Fault :=
  match graph.class? name with
  | some self => self.baseFault name .cyclicBase
  | none => .unresolved name "base class" .cyclicBase ⟨name, .default, graph.module.position, ""⟩ none

/-- Give every class its lineage. -/
def withLineages (graph : Graph) (lineages : Hierarchy.Lineages) : Graph :=
  let placed := graph.classes.map fun self => { self with lineage := (lineages.lookup self.name).getD [] }
  { graph with classes := placed }

/-- The ancestors of a class, the last of its lineage first. -/
def properAncestors (graph : Graph) (self : Entity.Class) : List Entity.Class :=
  (self.lineage.reverse.drop 1).filterMap graph.class?

def inheritedMethods (graph : Graph) (self : Entity.Class) : List Entity.Function :=
  let candidates := (graph.properAncestors self).flatMap fun ancestor =>
    ancestor.ownMethods.map (ancestor.name, ·)
  (pickNew (·.name) (self.methods.map (·.name)) candidates).map fun (source, inherited) =>
    inherited.inherit self.name source

def inheritedProperties (graph : Graph) (self : Entity.Class) : List Entity.Property :=
  let candidates := (graph.properAncestors self).flatMap fun ancestor =>
    ancestor.ownProperties.map (ancestor.name, ·)
  (pickNew (·.name) (self.properties.map (·.name)) candidates).map fun (source, inherited) =>
    inherited.inherit self.name source

/-- Give every class copies of the members that its ancestors declare and it does not have. -/
def inheritMembers (graph : Graph) : Graph :=
  let heirs := graph.classes.map fun self =>
    { self with methods := self.methods ++ graph.inheritedMethods self,
                properties := self.properties ++ graph.inheritedProperties self }
  { graph with classes := heirs }

def markIncluded (graph : Graph) : Graph :=
  { graph with functions := graph.functions.map (Entity.Function.mark true),
               classes := graph.classes.map fun self => self.mark (graph.hasEffective self) }

/-- The findings about a graph that is marked. -/
def findings (graph : Graph) : List Diagnostic :=
  (graph.functions.map Entity.function).flatMap excluded ++ graph.classes.flatMap Entity.Class.findings

/-- Finalize a graph.

After a fault the graph is as before, but for the bases that were resolved. -/
def finalize (inheriting : Bool) (graph : Graph) : Graph × Except Fault (List Diagnostic) :=
  let (classes, unknown) := resolveBases (graph.classes.map Entity.Class.name) graph.classes
  let resolved := { graph with classes }
  match unknown, resolved.hierarchy.lineages with
  | some fault, _ => (resolved, .error fault)
  | none, .error name => (resolved, .error (resolved.cycleFault name))
  | none, .ok lineages =>
    let placed := resolved.withLineages lineages
    let heirs := if inheriting then placed.inheritMembers else placed
    let marked := { heirs.markIncluded with finalized := true }
    (marked, .ok marked.findings)

end Graph

end DocWeave
