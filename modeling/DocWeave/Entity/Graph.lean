import DocWeave.Extension.Dispatch
import DocWeave.Fragment.Documentation

/-!
The entities of a module.

Functions and classes have unique names, so a class is referred to by its name. The bases and the lineage of
a class, the ancestors that a member comes from, and what is included are empty until the graph is finalized.
-/

namespace DocWeave.Entity

open DocWeave.Extension

structure Module where
  name : String
  doc : String
  description : String
  fragments : List Fragment
  position : Position
  deriving DecidableEq, Repr

/-- A function of the module or a method of a class. -/
structure Function where
  name : String
  qualifiedName : String
  doc : String
  description : String
  fragments : List Fragment
  position : Position
  arity : Arity
  /-- The class that has the method. -/
  owner : Option String := none
  /-- The ancestor of that class that declares the method. -/
  inheritedFrom : Option String := none
  included : Bool := false
  deriving DecidableEq, Repr

structure Property where
  name : String
  qualifiedName : String
  doc : String
  description : String
  fragments : List Fragment
  position : Position
  /-- Whether the documented property can be set. -/
  hasSetter : Bool
  owner : String
  inheritedFrom : Option String := none
  included : Bool := false
  deriving DecidableEq, Repr

structure Class where
  name : String
  doc : String
  description : String
  fragments : List Fragment
  position : Position
  /-- The bases as they are declared. -/
  baseNames : List String
  bases : List String := []
  /-- The ancestors, every class after its own bases, and last the class itself. -/
  lineage : List String := []
  methods : List Function
  properties : List Property
  included : Bool := false
  deriving DecidableEq, Repr

def Function.body? (function : Function) : Option Fragment :=
  Fragment.find? function.fragments .default

def Property.getter? (property : Property) : Option Fragment :=
  Fragment.find? property.fragments .get

def Property.setter? (property : Property) : Option Fragment :=
  Fragment.find? property.fragments .set

/-- Whether the property has code. -/
def Property.annotated (property : Property) : Bool :=
  property.getter?.isSome || property.setter?.isSome

def Class.includedMethods (self : Class) : List Function :=
  self.methods.filter (·.included)

def Class.includedProperties (self : Class) : List Property :=
  self.properties.filter (·.included)

/-- The lineage of a class, or only the class before it has one. -/
def Class.ancestry (self : Class) : List String :=
  if self.lineage.isEmpty then [self.name] else self.lineage

end Entity

open Entity

inductive Entity where
  | function (self : Entity.Function)
  | class (self : Entity.Class)
  | property (self : Entity.Property)
  deriving DecidableEq, Repr

namespace Entity

def kind : Entity → EntityKind
  | .function _ => .function
  | .class _ => .class
  | .property _ => .property

def qualifiedName : Entity → String
  | .function self => self.qualifiedName
  | .class self => self.name
  | .property self => self.qualifiedName

def description : Entity → String
  | .function self => self.description
  | .class self => self.description
  | .property self => self.description

def fragments : Entity → List Fragment
  | .function self => self.fragments
  | .class self => self.fragments
  | .property self => self.fragments

def position : Entity → Position
  | .function self => self.position
  | .class self => self.position
  | .property self => self.position

def included : Entity → Bool
  | .function self => self.included
  | .class self => self.included
  | .property self => self.included

end Entity

structure Graph where
  module : Entity.Module
  functions : List Entity.Function := []
  classes : List Entity.Class := []
  finalized : Bool := false
  deriving DecidableEq, Repr

namespace Graph

def function? (graph : Graph) (name : String) : Option Entity.Function :=
  graph.functions.find? (·.qualifiedName = name)

def class? (graph : Graph) (name : String) : Option Entity.Class :=
  graph.classes.find? (·.name = name)

/-- The place of a class in the order of discovery. -/
def classIndex? (graph : Graph) (name : String) : Option Nat :=
  graph.classes.findIdx? (·.name = name)

def addFunction (graph : Graph) (function : Entity.Function) : Except Fault Graph :=
  if (graph.function? function.qualifiedName).isSome then
    .error (.duplicate .function function.qualifiedName)
  else
    .ok { graph with functions := graph.functions ++ [function] }

def addClass (graph : Graph) (added : Entity.Class) : Except Fault Graph :=
  if (graph.class? added.name).isSome then
    .error (.duplicate .class added.name)
  else
    .ok { graph with classes := graph.classes ++ [added] }

def includedFunctions (graph : Graph) : List Entity.Function :=
  graph.functions.filter (·.included)

def includedClasses (graph : Graph) : List Entity.Class :=
  graph.classes.filter (·.included)

/-- Whether a class of this name is exported. -/
def exports (graph : Graph) (name : String) : Bool :=
  (graph.class? name).any (·.included)

/-- A class, followed by its members. -/
def withMembers (self : Entity.Class) : List Entity :=
  .class self :: self.methods.map .function ++ self.properties.map .property

def entities (graph : Graph) : List Entity :=
  graph.functions.map .function ++ graph.classes.flatMap withMembers

/-- Split a name at its first dot. -/
def splitMember (name : String) : Option (String × String) :=
  let cs := name.toList
  match cs.dropWhile (· ≠ '.') with
  | [] => none
  | _ :: member => some (String.ofList (cs.takeWhile (· ≠ '.')), String.ofList member)

/-- The entity with a qualified name. Functions come first, then classes, then members. -/
def entity? (graph : Graph) (name : String) : Option Entity :=
  match graph.function? name, graph.class? name with
  | some found, _ => some (.function found)
  | none, some found => some (.class found)
  | none, none => do
    let (className, member) ← splitMember name
    let owner ← graph.class? className
    match owner.methods.find? (·.name = member) with
    | some method => some (.function method)
    | none => (owner.properties.find? (·.name = member)).map .property

/-- The classes of a lineage. -/
def lineageClasses (graph : Graph) (self : Entity.Class) : List Entity.Class :=
  self.ancestry.filterMap graph.class?

/-- The fragments that a class has for a key, each with the class that declares it, base first. -/
def effective (graph : Graph) (self : Entity.Class) (key : FragmentKey) : List (Entity.Class × Fragment) :=
  (graph.lineageClasses self).filterMap fun ancestor =>
    (Fragment.find? ancestor.fragments key).map (ancestor, ·)

/-- The code of the fragments that a class has for a key. -/
def effectiveBody (graph : Graph) (self : Entity.Class) (key : FragmentKey) : String :=
  "\n".intercalate ((graph.effective self key).map (·.2.body))

/-- Whether the class or an ancestor has a fragment. -/
def hasEffective (graph : Graph) (self : Entity.Class) : Bool :=
  (graph.lineageClasses self).any (!·.fragments.isEmpty)

end Graph

end DocWeave
