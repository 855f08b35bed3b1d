import DocWeave.Proofs.Entity.Bases
import DocWeave.Proofs.Outcome

/-!
# What a failed run leaves

Finalizing fails at a base that no class has, or at a cycle once every base is known. Nothing is stored by then but
the bases of the classes in front of the fault. So a graph that was finalized before keeps its lineages, its inherited
members and what it exports.
-/

namespace DocWeave.Graph

open Entity

/-- The class is the same, but it may have other bases. -/
def SameButBases (before after : Entity.Class) : Prop :=
  after = { before with bases := after.bases }

/-- The graphs are the same, but their classes may have other bases. -/
structure Undisturbed (graph left : Graph) : Prop where
  module : left.module = graph.module
  functions : left.functions = graph.functions
  finalized : left.finalized = graph.finalized
  classes : List.Forall₂ SameButBases graph.classes left.classes

theorem SameButBases.refl (self : Entity.Class) : SameButBases self self := rfl

theorem sameButBases_withBases (self : Entity.Class) : SameButBases self (withBases self) := rfl

/-- How a run fails, and the classes that it leaves. -/
inductive Fails (graph : Graph) : List Entity.Class → Fault → Prop
  | unknownBase {left fault} (stops : Stops (graph.classes.map (·.name)) graph.classes left fault) :
      Fails graph left fault
  | cyclicBase {name} (resolved : ∀ self ∈ graph.classes, AllKnown (graph.classes.map (·.name)) self)
      (cyclic : graph.resolved.hierarchy.lineages = .error name) :
      Fails graph (graph.classes.map withBases) (graph.resolved.cycleFault name)

theorem forall₂_map_withBases (classes : List Entity.Class) :
    List.Forall₂ SameButBases classes (classes.map withBases) := by
  rw [List.forall₂_map_right_iff, List.forall₂_same]
  exact fun self _ => sameButBases_withBases self

theorem Stops.forall₂ {known : List String} {classes left : List Entity.Class} {fault : Fault}
    (stops : Stops known classes left fault) : List.Forall₂ SameButBases classes left := by
  obtain ⟨resolved, declared, first, unknown⟩ := stops
  apply List.rel_append (forall₂_map_withBases _)
  rw [List.forall₂_same]
  exact fun self _ => .refl self

theorem Fails.forall₂ {graph : Graph} {left : List Entity.Class} {fault : Fault} (fails : graph.Fails left fault) :
    List.Forall₂ SameButBases graph.classes left := by
  cases fails with
  | unknownBase stops => exact stops.forall₂
  | cyclicBase resolved cyclic => exact forall₂_map_withBases graph.classes

/-- A failed run stores the classes that it leaves, and nothing else. -/
theorem fails_of_finalize {graph left : Graph} {inheriting : Bool} {fault : Fault}
    (failure : graph.finalize inheriting = (left, .error fault)) :
    left = { graph with classes := left.classes } ∧ graph.Fails left.classes fault := by
  unfold finalize at failure
  rcases resolveBases_stops (graph.classes.map (·.name)) graph.classes with
    ⟨resolved, known⟩ | ⟨classes, reason, stopped, stops⟩
  · rw [resolved] at failure
    dsimp only at failure
    -- Lineages are stored once all of them are found, so the failure with a cycle has stored none.
    split at failure
    · rename_i impossible
      cases impossible
    · rename_i name _ cyclic
      cases failure
      exact ⟨rfl, .cyclicBase known cyclic⟩
    · cases failure
  · rw [stopped] at failure
    cases failure
    exact ⟨rfl, .unknownBase stops⟩

/-- A failed run changes nothing but the bases of classes. Those in front of an unknown base, or all of them if there is
a cycle, then have the bases that they declare. -/
theorem finalize_failure_keeps {graph left : Graph} {inheriting : Bool} {fault : Fault}
    (failure : graph.finalize inheriting = (left, .error fault)) :
    graph.Undisturbed left ∧ graph.Fails left.classes fault := by
  obtain ⟨same, fails⟩ := fails_of_finalize failure
  refine ⟨?_, fails⟩
  constructor
  · rw [same]
  · rw [same]
  · rw [same]
  · exact fails.forall₂

/-- A further class, with a base that no class has. -/
def cube : Entity.Class where
  name := "Cube"
  doc := ""
  description := ""
  fragments := []
  position := ⟨"shapes.py", none⟩
  baseNames := ["Square", "Solid"]
  methods := []
  properties := []

/-- The finalized diamond with a class behind it that cannot be finalized. -/
def stretched : Graph :=
  { (diamond.finalize true).1 with classes := (diamond.finalize true).1.classes ++ [cube] }

theorem stretched_keeps :
    (diamond.finalize true).1.addClass cube = .ok stretched ∧
    (stretched.finalize true).2 = .error (cube.baseFault "Solid" .unknownBase) ∧
    stretched.Undisturbed (stretched.finalize true).1 ∧
    (stretched.finalize true).1.finalized = true ∧
    (stretched.finalize true).1.classes.map (·.lineage) =
      [["Shape", "Rectangle", "Rhombus", "Square"], ["Shape", "Rhombus"], ["Shape", "Rectangle"], ["Shape"], []] := by
  have failed : (stretched.finalize true).2 = .error (cube.baseFault "Solid" .unknownBase) := by decide +kernel
  obtain ⟨undisturbed, _⟩ := finalize_failure_keeps (Prod.ext rfl failed)
  refine ⟨by decide +kernel, failed, undisturbed, undisturbed.finalized.trans (by decide +kernel), ?_⟩
  have lineages : ∀ before after, SameButBases before after → before.lineage = after.lineage := by
    intro before after same
    rw [same]
  rw [← map_eq_map_of_forall₂ undisturbed.classes lineages]
  decide +kernel

end DocWeave.Graph
