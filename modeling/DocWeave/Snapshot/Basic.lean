import DocWeave.Pipeline

/-!
Snapshots of a run, one after each phase that succeeds.
-/

namespace DocWeave

structure Snapshot where
  /-- The phase that has just ended. -/
  phase : String
  graph : Option Graph
  artifacts : Option Render.Artifacts
  diagnostics : List Diagnostic

namespace Snapshot

def ofCompilation (phase : String) (state : Compilation) : Snapshot :=
  ⟨phase, state.graph, state.artifacts, state.diagnostics⟩

/-- Keep a snapshot after each phase. -/
def plugin {m : Type → Type} [Monad m] (keep : Snapshot → Action m) : Plugin m where
  before _ := pure ()
  after phase := do keep (ofCompilation phase (← get))

end Snapshot

end DocWeave
