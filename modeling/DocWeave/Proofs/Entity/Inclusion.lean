import DocWeave.Proofs.Entity.Inheritance
import DocWeave.Proofs.Entity.Sources

/-!
# What is exported, and what is reported as left out

An entity is exported for its fragments: a function for its own, a class also for those of the classes above it, and
a member for its own in an exported class. Of what is left out, every documented entity is reported once, but members
only where their class is exported. For a class that is left out it is reported once that its members have code.
-/

namespace DocWeave

open Entity Relation

/-- The entity is documented and not exported. -/
def Entity.dropped (entity : Entity) : Bool :=
  !entity.included && entity.description ≠ ""

def Entity.dropNote (entity : Entity) : Diagnostic where
  severity := .info
  phase := "finalize"
  message := entity.kind.label ++ " '" ++ entity.qualifiedName ++ "' is documented but has no fragment, not exported"
  location := some entity.qualifiedName

namespace Entity.Class

/-- A member of the class, its own or inherited, has a fragment. -/
def hasCode (self : Class) : Bool :=
  (self.methods.any fun method => method.fragments ≠ []) || self.properties.any fun property => property.fragments ≠ []

def codeWarning (self : Class) : Diagnostic where
  severity := .warning
  phase := "finalize"
  message := "class '" ++ self.name ++ "' has no fragments, so its annotated members are not exported"
  location := some self.name

/-- The members that a class declares itself. -/
def ownMembers (self : Class) : List Entity :=
  self.ownMethods.map .function ++ self.ownProperties.map .property

/-- Behind its own members, a class has only copies of inherited ones. -/
def Keeps (raw self : Class) : Prop :=
  self = { raw with bases := self.bases, lineage := self.lineage, methods := self.methods,
                    properties := self.properties, included := self.included } ∧
    List.Forall₂ (fun old method => method = { old with included := method.included }) raw.methods self.ownMethods ∧
    List.Forall₂ (fun old property => property = { old with included := property.included }) raw.properties
      self.ownProperties

end Entity.Class

namespace Graph

/-- The entities that are reported if they are documented and left out. -/
def judged (graph : Graph) : List Entity :=
  graph.functions.map .function ++ graph.classes.map .class ++ graph.includedClasses.flatMap Class.ownMembers

/-- The class became `self`, exported exactly if it or a class above it has a fragment. -/
structure MarksClass (graph : Graph) (raw self : Entity.Class) : Prop where
  keeps : raw.Keeps self
  included : self.included = true ↔
    ∃ ancestor ∈ graph.classes, ReflTransGen graph.Base raw.name ancestor.name ∧ ancestor.fragments ≠ []
  methods : ∀ method ∈ self.methods, method.included = true ↔ self.included = true ∧ method.fragments ≠ []
  properties : ∀ property ∈ self.properties,
    property.included = true ↔ self.included = true ∧ property.fragments ≠ []

/-- Exports follow fragments, and what is left out is reported. -/
structure Marks (graph final : Graph) (findings : List Diagnostic) : Prop where
  functions : List.Forall₂ (fun raw function => function = { raw with included := function.included } ∧
    (function.included = true ↔ raw.fragments ≠ [])) graph.functions final.functions
  classes : List.Forall₂ graph.MarksClass graph.classes final.classes
  heirs : ∀ heir ∈ final.classes, ∀ ancestor ∈ final.classes, TransGen graph.Base heir.name ancestor.name →
    ancestor.included = true → heir.included = true
  findings : findings.Perm ((final.judged.filter Entity.dropped).map Entity.dropNote ++
    (final.classes.filter fun self => !self.included && self.hasCode).map Class.codeWarning)

variable {manifest : Manifest} {graph : Graph} {lineages : Hierarchy.Lineages} {inheriting : Bool}

/-! ### Findings -/

theorem flatMap_if {α β : Type} (test : α → Bool) (expand : α → List β) (items : List α) :
    (items.flatMap fun item => if test item then expand item else []) = (items.filter test).flatMap expand := by
  induction items with
  | nil => rfl
  | cons item rest ih =>
    rw [List.flatMap_cons, ih]
    cases tested : test item <;> simp [tested]

theorem excluded_eq (entity : Entity) : excluded entity = if entity.dropped then [entity.dropNote] else [] := by
  unfold excluded Entity.dropped
  by_cases told : entity.included = true ∨ entity.description = ""
  · rw [if_pos (by simpa using told), if_neg]
    simpa [← imp_iff_not_or, or_iff_not_imp_left] using told
  · rw [if_neg (by simpa using told), if_pos]
    · rfl
    · simpa using told

theorem flatMap_excluded (entities : List Entity) :
    entities.flatMap excluded = (entities.filter Entity.dropped).map Entity.dropNote := by
  rw [List.map_eq_flatMap, ← flatMap_if]
  exact List.flatMap_congr fun entity _ => excluded_eq entity

/-- The findings about the members of a class, and about the class itself, go apart. -/
theorem perm_findings (coded : ∀ self ∈ graph.classes, self.orphansMembers = (!self.included && self.hasCode)) :
    graph.findings.Perm ((graph.judged.filter Entity.dropped).map Entity.dropNote ++
      (graph.classes.filter fun self => !self.included && self.hasCode).map Class.codeWarning) := by
  have members : (graph.classes.flatMap fun self => (if self.included then self.ownMembers else []).flatMap excluded) =
      (graph.includedClasses.flatMap Class.ownMembers).flatMap excluded := by
    rw [includedClasses, ← flatMap_if, List.flatMap_assoc]
  have orphaned : (graph.classes.flatMap fun self => if self.orphansMembers then [self.codeWarning] else []) =
      (graph.classes.filter fun self => !self.included && self.hasCode).map Class.codeWarning := by
    rw [flatMap_if, List.map_eq_flatMap, List.filter_congr coded]
  rw [← flatMap_excluded, judged, List.flatMap_append, List.flatMap_append, ← members, ← orphaned, findings,
    List.append_assoc, List.append_assoc, List.flatMap_map Entity.class]
  apply List.Perm.append_left
  have apart := List.flatMap_append_perm graph.classes (fun self => excluded (.class self) ++
    (if self.included then self.ownMembers else []).flatMap excluded)
      fun self => if self.orphansMembers then [self.codeWarning] else []
  refine apart.symm.trans ?_
  rw [← List.append_assoc]
  exact (List.flatMap_append_perm graph.classes _ _).symm.append_right _

/-! ### Marks -/

theorem annotated_iff {property : Entity.Property}
    (holds : manifest.Holds .property property.doc property.fragments) :
    property.annotated = true ↔ property.fragments ≠ [] := by
  constructor
  · intro annotated empty
    simp [Property.annotated, Property.getter?, Property.setter?, Fragment.find?, empty] at annotated
  · intro coded
    obtain ⟨fragment, member⟩ := List.exists_mem_of_ne_nil _ coded
    rcases accesses_of_mem holds member with ⟨_, getter⟩ | ⟨_, setter⟩
    · simp [Property.annotated, getter]
    · simp [Property.annotated, setter]

theorem orphansMembers_eq {self : Entity.Class} (sourced : self.Sourced manifest) :
    self.orphansMembers = (!self.included && self.hasCode) := by
  have coded : ∀ method : Entity.Function, (!method.fragments.isEmpty) = decide (method.fragments ≠ []) := by
    intro method
    cases method.fragments <;> rfl
  have annotated : self.properties.any (·.annotated) = self.properties.any fun property => property.fragments ≠ [] := by
    rw [Bool.eq_iff_iff, List.any_eq_true, List.any_eq_true]
    apply exists_congr
    intro property
    apply and_congr_right
    intro member
    rw [annotated_iff (sourced.properties property member), decide_eq_true_iff]
  rw [Class.orphansMembers, annotated, Class.hasCode]
  simp only [coded]

/-- Among marked members, the own ones are those in front of the copies. -/
theorem filter_own {α : Type} {change : α → α} {origin : α → Option String} {own inherited : List α}
    (blind : ∀ item, origin (change item) = origin item) (declared : ∀ item ∈ own, origin item = none)
    (copied : ∀ item ∈ inherited, origin item ≠ none) :
    ((own ++ inherited).map change).filter (fun item => (origin item).isNone) = own.map change := by
  have front : (own.map change).filter (fun item => (origin item).isNone) = own.map change := by
    apply List.filter_eq_self.mpr
    intro item member
    obtain ⟨source, listed, rfl⟩ := List.mem_map.mp member
    rw [blind, declared source listed]
    rfl
  have back : (inherited.map change).filter (fun item => (origin item).isNone) = [] := by
    apply List.filter_eq_nil_iff.mpr
    intro item member
    obtain ⟨source, listed, rfl⟩ := List.mem_map.mp member
    rw [blind, Option.isNone_iff_eq_none]
    exact copied source listed
  rw [List.map_append, List.filter_append, front, back, List.append_nil]

theorem keeps_final (raw : graph.Raw) {self : Entity.Class} (member : self ∈ graph.classes) :
    self.Keeps (graph.final inheriting lineages self) := by
  refine ⟨by cases inheriting <;> rfl, ?_, ?_⟩
  · obtain ⟨inherited, whole, copies⟩ := methods_final graph inheriting lineages self
    have own : (graph.final inheriting lineages self).ownMethods =
        self.methods.map (Function.mark (graph.final inheriting lineages self).included) := by
      rw [Class.ownMethods, whole]
      refine filter_own (fun _ => rfl) (raw self member).1 fun method listed => ?_
      obtain ⟨ancestor, _, source, _, rfl⟩ := copies method listed
      exact Option.some_ne_none _
    rw [own, List.forall₂_map_right_iff, List.forall₂_same]
    exact fun method _ => rfl
  · obtain ⟨inherited, whole, copies⟩ := properties_final graph inheriting lineages self
    have own : (graph.final inheriting lineages self).ownProperties =
        self.properties.map (Property.mark (graph.final inheriting lineages self).included) := by
      rw [Class.ownProperties, whole]
      refine filter_own (fun _ => rfl) (raw self member).2 fun property listed => ?_
      obtain ⟨ancestor, _, source, _, rfl⟩ := copies property listed
      exact Option.some_ne_none _
    rw [own, List.forall₂_map_right_iff, List.forall₂_same]
    exact fun property _ => rfl

theorem included_final_iff (distinct : graph.Distinct) (found : graph.resolved.hierarchy.lineages = .ok lineages)
    {self : Entity.Class} (member : self ∈ graph.classes) :
    (graph.final inheriting lineages self).included = true ↔
      ∃ ancestor ∈ graph.classes, ReflTransGen graph.Base self.name ancestor.name ∧ ancestor.fragments ≠ [] := by
  rw [← Bool.not_eq_false, included_final_eq_false distinct found member]
  push Not
  rfl

theorem marksClass_final (distinct : graph.Distinct) (raw : graph.Raw)
    (sourced : (graph.finalWith inheriting lineages).Sourced manifest)
    (found : graph.resolved.hierarchy.lineages = .ok lineages) {self : Entity.Class} (member : self ∈ graph.classes) :
    graph.MarksClass self (graph.final inheriting lineages self) := by
  have listed : graph.final inheriting lineages self ∈ (graph.finalWith inheriting lineages).classes := by
    rw [classes_finalWith]
    exact List.mem_map_of_mem member
  refine ⟨keeps_final raw member, included_final_iff distinct found member, ?_, ?_⟩
  · intro method inside
    obtain ⟨source, _, rfl⟩ := exists_of_mem_methods_final graph inheriting lineages inside
    simp [Function.mark]
  · intro property inside
    have holds := (sourced.classes _ listed).properties property inside
    obtain ⟨source, _, rfl⟩ := exists_of_mem_properties_final graph inheriting lineages inside
    rw [← annotated_iff holds]
    simp [Property.mark, Property.annotated, Property.getter?, Property.setter?]

end Graph

open DocWeave.Graph

/-- Finalizing exports what has fragments and reports what it leaves out. -/
theorem finalize_marks {manifest : Manifest} {graph final : Graph} {inheriting : Bool}
    {warnings findings : List Diagnostic} (built : ofManifest manifest = .ok (graph, warnings))
    (success : graph.finalize inheriting = (final, .ok findings)) : graph.Marks final findings := by
  obtain ⟨reads, distinct, _⟩ := reads_of_ofManifest built
  obtain ⟨lineages, found, rfl, rfl⟩ := finalWith_of_finalize distinct success
  have sourced := (sourced_of_reads reads).finalWith inheriting lineages
  constructor
  · rw [functions_finalWith, List.forall₂_map_right_iff, List.forall₂_same]
    intro function _
    exact ⟨rfl, by simp [Function.mark]⟩
  · rw [classes_finalWith, List.forall₂_map_right_iff, List.forall₂_same]
    intro self member
    exact marksClass_final distinct reads.raw sourced found member
  · rw [classes_finalWith]
    intro heir heirListed other otherListed derives exported
    obtain ⟨self, member, rfl⟩ := List.mem_map.mp heirListed
    obtain ⟨base, known, rfl⟩ := List.mem_map.mp otherListed
    rw [final_name, final_name] at derives
    obtain ⟨ancestor, listed, above, coded⟩ := (included_final_iff distinct found known).mp exported
    have path := derives.to_reflTransGen.trans above
    exact (included_final_iff distinct found member).mpr ⟨ancestor, listed, path, coded⟩
  · exact perm_findings fun self member => orphansMembers_eq (sourced.classes self member)

/-- Code reaches a class from above in two ways: as a fragment of its own base, and as a member that it inherits. -/
def mills : Manifest where
  module := { name := "mills" }
  functions := [{ name := "grind", doc := "_CPP_: return NULL;" }, { name := "sweep", doc := "Sweeps the floor." }]
  classes := [
    { name := "Mill", doc := "_CPP_: int stones;",
      methods := [{ name := "turn", doc := "_CPP_: return NULL;" }, { name := "rest", doc := "Stands still." }] },
    { name := "Watermill", doc := "Stands at a river.", bases := ["Mill"] },
    { name := "Plan", doc := "A drawing.", methods := [{ name := "draw", doc := "_CPP_: return NULL;" }] },
    { name := "Sketch", bases := ["Plan"] }]

theorem marks_of_mills : ∃ graph warnings final findings,
    ofManifest mills = .ok (graph, warnings) ∧ graph.finalize true = (final, .ok findings) ∧
    final.includedClasses.map (·.name) = ["Mill", "Watermill"] ∧
    findings.map (fun finding => (finding.severity, finding.location)) =
      [(.info, some "sweep"), (.info, some "Mill.rest"), (.info, some "Plan"), (.warning, some "Plan"),
        (.warning, some "Sketch")] ∧
    graph.Marks final findings := by
  have evaluated : (ofManifest mills >>= fun built => (built.1.finalize true).2 >>= fun findings =>
      (.ok (decide ((built.1.finalize true).1.includedClasses.map (·.name) = ["Mill", "Watermill"] ∧
        findings.map (fun finding => (finding.severity, finding.location)) =
          [(.info, some "sweep"), (.info, some "Mill.rest"), (.info, some "Plan"), (.warning, some "Plan"),
            (.warning, some "Sketch")])) :
        Except Fault Bool)) = .ok true := by decide +kernel
  obtain ⟨⟨graph, warnings⟩, built, evaluated⟩ := bind_eq_ok.mp evaluated
  obtain ⟨findings, finalized, evaluated⟩ := bind_eq_ok.mp evaluated
  obtain ⟨exported, reported⟩ := of_decide_eq_true (Except.ok.inj evaluated)
  have success : graph.finalize true = ((graph.finalize true).1, .ok findings) := Prod.ext rfl finalized
  exact ⟨graph, warnings, _, findings, built, success, exported, reported, finalize_marks built success⟩

end DocWeave
