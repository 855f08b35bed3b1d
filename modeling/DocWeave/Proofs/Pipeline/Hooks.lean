import DocWeave.Proofs.Pipeline.Phases
import DocWeave.Snapshot.Basic
import Mathlib.Data.List.Infix

/-!
# The steps of a run

A run performs hooks and phases in a fixed order, up to the first that fails. What plugins and phases do besides
changing the state of the run is a change of the world around it, so what a plugin keeps is a part of that world.
-/

namespace DocWeave

open Compilation

namespace Pipeline

variable {m : Type → Type} {ω : Type}

/-- A hook of the plugin at a place, or a phase. -/
inductive Step (m : Type → Type) where
  | before (place : Nat) (plugin : Plugin m) (phase : Phase m)
  | perform (phase : Phase m)
  | after (place : Nat) (plugin : Plugin m) (phase : Phase m)

def Step.action : Step m → Action m
  | .before _ plugin phase => plugin.before phase.name
  | .perform phase => phase.run
  | .after _ plugin phase => plugin.after phase.name

/-- The steps for one phase: a hook of each plugin, the phase, and again a hook of each plugin. -/
def steps (plugins : List (Plugin m)) (phase : Phase m) : List (Step m) :=
  plugins.zipIdx.map (fun (plugin, place) => .before place plugin phase) ++
    .perform phase :: plugins.zipIdx.map (fun (plugin, place) => .after place plugin phase)

/-- The steps for the phases of every run, and then for the further ones. -/
def schedule [Monad m] (pipeline : Pipeline m) : List (Step m) :=
  pipeline.phases.flatMap (steps pipeline.plugins)

/-! ### Steps in a world -/

/-- The state of a run, and the world around it. -/
structure Moment (ω : Type) where
  state : Compilation
  world : ω

/-- How an action ends, and what it leaves. -/
def ends (action : Action (StateM ω)) (moment : Moment ω) : Except Fault Unit × Moment ω :=
  match (action moment.state : StateM ω Outcome) moment.world with
  | ((outcome, state), world) => (outcome, ⟨state, world⟩)

/-- The plugin of a hook, by its place. -/
def Step.place? : Step m → Option Nat
  | .before place .. => some place
  | .perform _ => none
  | .after place .. => some place

/-- The snapshot for a step: the phase, and the graph, artifacts and diagnostics that the hook behind the phase finds,
if the hook belongs to the plugin at this place. -/
def taken (place : Nat) : Step (StateM ω) × Moment ω → Option Snapshot
  | (.after index _ phase, moment) =>
    if index = place then
      some { phase := phase.name, graph := moment.state.graph, artifacts := moment.state.artifacts,
             diagnostics := moment.state.diagnostics }
    else none
  | _ => none

/-- The plugin at a place keeps its snapshots in a store that nothing else changes. Keeping one may still fail. -/
structure Records (pipeline : Pipeline (StateM ω)) (place : Nat) (store : ω → List Snapshot) : Prop where
  keeps : ∃ keep : Snapshot → Action (StateM ω), pipeline.plugins[place]? = some (Snapshot.plugin keep) ∧
    ∀ snapshot moment, store (ends (keep snapshot) moment).2.world = store moment.world ++ [snapshot]
  leaves : ∀ step ∈ pipeline.schedule, step.place? ≠ some place →
    ∀ moment, store (ends step.action moment).2.world = store moment.world

section Snapshots

variable {pipeline : Pipeline (StateM ω)} {place : Nat} {store : ω → List Snapshot}

theorem mem_schedule {step : Step (StateM ω)} (listed : step ∈ pipeline.schedule) :
    ∃ phase ∈ pipeline.phases, step = .perform phase ∨
      ∃ index plugin, pipeline.plugins[index]? = some plugin ∧
        (step = .before index plugin phase ∨ step = .after index plugin phase) := by
  obtain ⟨phase, member, inside⟩ := List.mem_flatMap.mp listed
  refine ⟨phase, member, ?_⟩
  rcases List.mem_append.mp inside with hook | rest
  · obtain ⟨⟨plugin, index⟩, numbered, rfl⟩ := List.mem_map.mp hook
    exact .inr ⟨index, plugin, List.mem_zipIdx_iff_getElem?.mp numbered, .inl rfl⟩
  rcases List.mem_cons.mp rest with rfl | hook
  · exact .inl rfl
  · obtain ⟨⟨plugin, index⟩, numbered, rfl⟩ := List.mem_map.mp hook
    exact .inr ⟨index, plugin, List.mem_zipIdx_iff_getElem?.mp numbered, .inr rfl⟩

/-- A step adds its snapshot to the store. -/
theorem Records.step (records : pipeline.Records place store) {step : Step (StateM ω)}
    (listed : step ∈ pipeline.schedule) (moment : Moment ω) :
    store (ends step.action moment).2.world = store moment.world ++ (taken place (step, moment)).toList := by
  by_cases own : step.place? = some place
  · obtain ⟨keep, known, keeps⟩ := records.keeps
    obtain ⟨phase, _, rfl | ⟨index, plugin, numbered, rfl | rfl⟩⟩ := mem_schedule listed
    · cases own
    · cases own
      cases known.symm.trans numbered
      exact (List.append_nil _).symm
    · cases own
      cases known.symm.trans numbered
      simp only [taken, if_true]
      exact keeps _ moment
  · have nothing : taken place (step, moment) = none := by
      cases step with
      | after index plugin phase => exact if_neg fun same => own (congrArg some same)
      | before | perform => rfl
    rw [records.leaves step listed own moment, nothing, Option.toList_none, List.append_nil]

end Snapshots

end Pipeline

/-! ### A run that is only recorded -/

namespace Pipeline

end Pipeline

open Pipeline

end DocWeave
