import DocWeave.Compilation

/-!
Running phases one after the other, with plugins around each of them.

An action may have effects of its own besides the state of the run. The first action that fails stops the
run, and no later action is performed.
-/

namespace DocWeave

variable {m : Type → Type}

abbrev Action (m : Type → Type) := ExceptT Fault (StateT Compilation m) Unit

structure Phase (m : Type → Type) where
  name : String
  description : String
  run : Action m

/-- What is done before and after each phase. The actions are given the name of the phase. -/
structure Plugin (m : Type → Type) where
  before : String → Action m
  after : String → Action m

namespace Phase

/-- The action of a phase that has no effects of its own. -/
def perform [Monad m] (phase : Compilation → Compilation.Outcome) : Action m :=
  fun state => pure (phase state)

def validate [Monad m] : Phase m where
  name := "validate"
  description := "Check manifest integrity and collect diagnostics"
  run := perform (Compilation.validate Lint.all)

def parse [Monad m] : Phase m where
  name := "parse"
  description := "Extract fragments from documentation and build the entity graph"
  run := perform Compilation.parse

def finalize [Monad m] : Phase m where
  name := "finalize"
  description := "Resolve base classes, inherit members and decide what is exported"
  run := perform Compilation.finalize

def render [Monad m] : Phase m where
  name := "render"
  description := "Render the C++ interface and implementation files"
  run := perform Compilation.render

/-- The phases of every run, in order. -/
def all [Monad m] : List (Phase m) :=
  [validate, parse, finalize, render]

def runWith [Monad m] (plugins : List (Plugin m)) (phase : Phase m) : Action m := do
  plugins.forM (·.before phase.name)
  phase.run
  plugins.forM (·.after phase.name)

end Phase

structure Pipeline (m : Type → Type) where
  plugins : List (Plugin m) := []
  /-- The phases that follow the phases of every run. -/
  further : List (Phase m) := []

namespace Pipeline

def phases [Monad m] (pipeline : Pipeline m) : List (Phase m) :=
  Phase.all ++ pipeline.further

def run [Monad m] (pipeline : Pipeline m) : Action m :=
  pipeline.phases.forM (·.runWith pipeline.plugins)

/-- Run every phase from the state before a run. The files are named `outputName`, or after the module. -/
def compile [Monad m] (pipeline : Pipeline m) (manifest : Manifest) (outputName : Option String) :
    m Compilation.Outcome :=
  let state := Compilation.ofManifest manifest
  pipeline.run { state with outputName := outputName.getD state.outputName }

end Pipeline

end DocWeave
