import DocWeave.Entity.Finalize
import DocWeave.Proofs.Entity.Lineage

/-!
# Bases of a graph

Finalizing stops at a class that declares a base which no class has. Once the bases are resolved, the
hierarchy of the graph decides: it has a cycle, or every class gets its lineage.
-/

namespace DocWeave.Graph

open Entity Relation

/-- Names tell the classes and the functions of a graph apart. -/
structure Distinct (graph : Graph) : Prop where
  classes : (graph.classes.map (·.name)).Nodup
  functions : (graph.functions.map (·.qualifiedName)).Nodup

/-- The class `heir` declares the base `base`. -/
def Base (graph : Graph) (heir base : String) : Prop :=
  ∃ self ∈ graph.classes, self.name = heir ∧ base ∈ self.declaredBases

/-- A class lists a base besides the root that no class has. -/
def LacksBase (graph : Graph) : Prop :=
  ∃ self ∈ graph.classes, ∃ base ∈ self.baseNames, base ≠ rootClass ∧ graph.class? base = none

theorem class?_eq_none {graph : Graph} {name : String} :
    graph.class? name = none ↔ name ∉ graph.classes.map (·.name) := by
  simp [class?]

/-- An entry whose name no other one has is found under that name. -/
theorem find?_name_of_mem {α : Type} {name : α → String} {entries : List α} (distinct : (entries.map name).Nodup)
    {entry : α} (member : entry ∈ entries) : (entries.find? fun other => name other = name entry) = some entry := by
  induction entries with
  | nil => cases member
  | cons first rest ih =>
    rw [List.map_cons, List.nodup_cons] at distinct
    rcases List.mem_cons.mp member with rfl | later
    · exact List.find?_cons_of_pos (by simp)
    · have other : name first ≠ name entry := by
        intro same
        exact distinct.1 (same ▸ List.mem_map_of_mem later)
      rw [List.find?_cons_of_neg (by simpa using other)]
      exact ih distinct.2 later

theorem class?_of_mem {graph : Graph} (distinct : (graph.classes.map (·.name)).Nodup) {self : Entity.Class}
    (member : self ∈ graph.classes) : graph.class? self.name = some self :=
  find?_name_of_mem distinct member

theorem mem_of_class? {graph : Graph} {name : String} {self : Entity.Class}
    (found : graph.class? name = some self) : self ∈ graph.classes ∧ self.name = name :=
  ⟨List.mem_of_find?_eq_some found, by simpa using List.find?_some found⟩

theorem map_name_filterMap_class? {graph : Graph} {names : List String}
    (known : ∀ name ∈ names, name ∈ graph.classes.map (·.name)) :
    (names.filterMap graph.class?).map (·.name) = names := by
  induction names with
  | nil => rfl
  | cons name rest ih =>
    obtain ⟨own, others⟩ := List.forall_mem_cons.mp known
    cases found : graph.class? name with
    | none => exact absurd own (class?_eq_none.mp found)
    | some self =>
      rw [List.filterMap_cons_some found, List.map_cons, ih others, (mem_of_class? found).2]

theorem mem_declaredBases {self : Entity.Class} {base : String} :
    base ∈ self.declaredBases ↔ base ∈ self.baseNames ∧ base ≠ rootClass := by
  simp [Class.declaredBases]

/-! ### Resolving -/

/-- The class with its bases resolved. -/
def withBases (self : Entity.Class) : Entity.Class :=
  { self with bases := self.declaredBases }

/-- The graph with every base resolved. -/
def resolved (graph : Graph) : Graph :=
  { graph with classes := graph.classes.map withBases }

/-- Every base that the class declares is known. -/
def AllKnown (known : List String) (self : Entity.Class) : Prop :=
  ∀ base ∈ self.declaredBases, base ∈ known

/-- Among these classes the first one with an unknown base stops the run, with the first such base. The classes in front
of it are left with their bases resolved. -/
inductive Stops (known : List String) : List Entity.Class → List Entity.Class → Fault → Prop
  | unknown {before self front base back after} (resolved : ∀ other ∈ before, AllKnown known other)
      (declared : self.declaredBases = front ++ base :: back) (first : ∀ other ∈ front, other ∈ known)
      (unknown : base ∉ known) :
      Stops known (before ++ self :: after) (before.map withBases ++ self :: after)
        (self.baseFault base .unknownBase)

theorem Stops.cons {known : List String} {self : Entity.Class} (own : AllKnown known self)
    {rest left : List Entity.Class} {fault : Fault} (stops : Stops known rest left fault) :
    Stops known (self :: rest) (withBases self :: left) fault := by
  obtain ⟨resolved, declared, first, unknown⟩ := stops
  exact .unknown (List.forall_mem_cons.mpr ⟨own, resolved⟩) declared first unknown

/-- The run over the classes: each one is passed with its bases resolved, or stops the run as it is. -/
theorem resolveBases_stops (known : List String) (classes : List Entity.Class) :
    (resolveBases known classes = (classes.map withBases, none) ∧ ∀ self ∈ classes, AllKnown known self) ∨
    ∃ left fault, resolveBases known classes = (left, some fault) ∧ Stops known classes left fault := by
  induction classes with
  | nil => exact .inl ⟨rfl, List.forall_mem_nil _⟩
  | cons self rest ih =>
    unfold resolveBases
    cases found : self.declaredBases.find? (!known.contains ·) with
    | some base =>
      obtain ⟨missing, front, back, declared, first⟩ := List.find?_eq_some_iff_append.mp found
      have stops : Stops known ([] ++ self :: rest) ([].map withBases ++ self :: rest)
          (self.baseFault base .unknownBase) :=
        .unknown (List.forall_mem_nil _) declared (by simpa using first) (by simpa using missing)
      exact .inr ⟨_, _, rfl, stops⟩
    | none =>
      have own : AllKnown known self := by
        intro base declared
        simpa using List.find?_eq_none.mp found base declared
      rcases ih with ⟨resolved, others⟩ | ⟨left, fault, stopped, stops⟩
      · rw [resolved]
        exact .inl ⟨rfl, List.forall_mem_cons.mpr ⟨own, others⟩⟩
      · rw [stopped]
        exact .inr ⟨_, fault, rfl, stops.cons own⟩

theorem resolveBases_cases (known : List String) (classes : List Entity.Class) :
    (resolveBases known classes = (classes.map withBases, none) ∧
      ∀ self ∈ classes, ∀ base ∈ self.declaredBases, base ∈ known) ∨
    ∃ self ∈ classes, ∃ base ∈ self.declaredBases, base ∉ known ∧
      (resolveBases known classes).2 = some (self.baseFault base .unknownBase) := by
  rcases resolveBases_stops known classes with resolved | ⟨left, fault, stopped, stops⟩
  · exact .inl resolved
  · rw [stopped]
    obtain ⟨_, declared, _, unknown⟩ := stops
    exact .inr ⟨_, by simp, _, by simp [declared], unknown, rfl⟩

@[simp]
theorem map_name_resolved (graph : Graph) :
    graph.resolved.classes.map (·.name) = graph.classes.map (·.name) := by
  simp [resolved, withBases]

theorem hierarchy_resolved (graph : Graph) :
    graph.resolved.hierarchy = graph.classes.map fun self => (self.name, self.declaredBases) := by
  simp [hierarchy, resolved, withBases, Function.comp_def]

theorem hierarchy_resolved_names (graph : Graph) :
    graph.resolved.hierarchy.map Prod.fst = graph.classes.map (·.name) := by
  simp [hierarchy_resolved, Function.comp_def]

theorem hierarchy_resolved_base (graph : Graph) : graph.resolved.hierarchy.Base = graph.Base := by
  funext heir base
  simp only [Hierarchy.Base, hierarchy_resolved, Base, List.mem_map, Prod.mk.injEq, eq_iff_iff]
  constructor
  · rintro ⟨_, ⟨self, member, rfl, rfl⟩, declared⟩
    exact ⟨self, member, rfl, declared⟩
  · rintro ⟨self, member, rfl, declared⟩
    exact ⟨_, ⟨self, member, rfl, rfl⟩, declared⟩

/-- Every declared base is a class of the graph. -/
theorem base_known {graph : Graph} (complete : ¬ graph.LacksBase) (heir base : String)
    (link : graph.Base heir base) : base ∈ graph.classes.map (·.name) := by
  obtain ⟨self, member, _, declared⟩ := link
  obtain ⟨listed, notRoot⟩ := mem_declaredBases.mp declared
  by_contra unknown
  exact complete ⟨self, member, base, listed, notRoot, class?_eq_none.mpr unknown⟩

theorem lacksBase_iff {graph : Graph} :
    graph.LacksBase ↔ ∃ heir base, graph.Base heir base ∧ base ∉ graph.classes.map (·.name) := by
  constructor
  · rintro ⟨self, member, base, listed, notRoot, missing⟩
    exact ⟨self.name, base, ⟨self, member, rfl, mem_declaredBases.mpr ⟨listed, notRoot⟩⟩, class?_eq_none.mp missing⟩
  · rintro ⟨heir, base, link, unknown⟩
    by_contra complete
    exact unknown (base_known complete heir base link)

/-- Everything above a class is a class of the graph. -/
theorem above_known {graph : Graph} (complete : ¬ graph.LacksBase) {heir ancestor : String}
    (listed : heir ∈ graph.classes.map (·.name)) (above : ReflTransGen graph.Base heir ancestor) :
    ancestor ∈ graph.classes.map (·.name) := by
  cases above with
  | refl => exact listed
  | tail _ last => exact base_known complete _ _ last

/-! ### The three ways in which finalizing ends -/

/-- The finalized graph, given the lineages of its classes. -/
def finalWith (graph : Graph) (inheriting : Bool) (lineages : Hierarchy.Lineages) : Graph :=
  let placed := graph.resolved.withLineages lineages
  { (if inheriting then placed.inheritMembers else placed).markIncluded with finalized := true }

/-- How finalizing a graph ends. -/
inductive Finalized (graph : Graph) (inheriting : Bool) : Graph → Except Fault (List Diagnostic) → Prop
  | unknownBase {left self base} (member : self ∈ graph.classes) (declared : base ∈ self.declaredBases)
      (unknown : graph.class? base = none) :
      Finalized graph inheriting left (.error (self.baseFault base .unknownBase))
  | cyclicBase {self} (complete : ¬ graph.LacksBase) (member : self ∈ graph.classes)
      (cycle : TransGen graph.Base self.name self.name) :
      Finalized graph inheriting graph.resolved (.error (self.baseFault self.name .cyclicBase))
  | done {lineages} (complete : ¬ graph.LacksBase) (acyclic : ¬ ∃ name, TransGen graph.Base name name)
      (found : graph.resolved.hierarchy.lineages = .ok lineages) :
      Finalized graph inheriting (graph.finalWith inheriting lineages)
        (.ok (graph.finalWith inheriting lineages).findings)

theorem cycleFault_resolved {graph : Graph} (distinct : graph.Distinct) {self : Entity.Class}
    (member : self ∈ graph.classes) :
    graph.resolved.cycleFault self.name = self.baseFault self.name .cyclicBase := by
  have listed : withBases self ∈ graph.resolved.classes := List.mem_map_of_mem member
  have found := class?_of_mem (by simpa using distinct.classes) listed
  have own : graph.resolved.class? self.name = some (withBases self) := found
  rw [cycleFault, own]
  rfl

theorem finalize_of_unknown {graph : Graph} {inheriting : Bool} {fault : Fault}
    (unknown : (resolveBases (graph.classes.map (·.name)) graph.classes).2 = some fault) :
    (graph.finalize inheriting).2 = .error fault := by
  unfold finalize
  generalize resolveBases _ _ = resolution at unknown ⊢
  obtain ⟨classes, outcome⟩ := resolution
  cases unknown
  rfl

theorem finalize_of_error {graph : Graph} {inheriting : Bool} {name : String}
    (resolution : resolveBases (graph.classes.map (·.name)) graph.classes
      = (graph.classes.map withBases, none))
    (cyclic : graph.resolved.hierarchy.lineages = .error name) :
    graph.finalize inheriting = (graph.resolved, .error (graph.resolved.cycleFault name)) := by
  rw [resolved] at cyclic ⊢
  rw [finalize, resolution]
  simp only [cyclic]

theorem finalize_of_ok {graph : Graph} {inheriting : Bool} {lineages : Hierarchy.Lineages}
    (resolution : resolveBases (graph.classes.map (·.name)) graph.classes
      = (graph.classes.map withBases, none))
    (found : graph.resolved.hierarchy.lineages = .ok lineages) :
    graph.finalize inheriting
      = (graph.finalWith inheriting lineages, .ok (graph.finalWith inheriting lineages).findings) := by
  rw [finalWith, resolved] at *
  rw [finalize, resolution]
  simp only [found]

theorem finalize_finalized {graph : Graph} (distinct : graph.Distinct) (inheriting : Bool) :
    Finalized graph inheriting (graph.finalize inheriting).1 (graph.finalize inheriting).2 := by
  rcases resolveBases_cases (graph.classes.map (·.name)) graph.classes with
    ⟨resolution, known⟩ | ⟨self, member, base, declared, unknown, fault⟩
  · have complete : ¬ graph.LacksBase := by
      rintro ⟨self, member, base, listed, notRoot, missing⟩
      exact class?_eq_none.mp missing (known self member base (mem_declaredBases.mpr ⟨listed, notRoot⟩))
    have names : (graph.resolved.hierarchy.map Prod.fst).Nodup := by
      rw [hierarchy_resolved_names]
      exact distinct.classes
    have inside : ∀ heir base, graph.resolved.hierarchy.Base heir base →
        base ∈ graph.resolved.hierarchy.map Prod.fst := by
      rw [hierarchy_resolved_names, hierarchy_resolved_base]
      exact base_known complete
    have cyclic := Hierarchy.exists_lineages_eq_error_iff names inside
    rw [hierarchy_resolved_base] at cyclic
    cases found : graph.resolved.hierarchy.lineages with
    | error name =>
      have cycle := Hierarchy.lineages_eq_error names inside found
      rw [hierarchy_resolved_base] at cycle
      obtain ⟨_, ⟨self, member, rfl, _⟩, _⟩ := TransGen.head'_iff.mp cycle
      rw [finalize_of_error resolution found, cycleFault_resolved distinct member]
      exact .cyclicBase complete member cycle
    | ok lineages =>
      rw [finalize_of_ok resolution found]
      refine .done complete ?_ found
      rw [← cyclic, found]
      simp
  · rw [finalize_of_unknown fault]
    exact .unknownBase member declared (class?_eq_none.mpr unknown)

theorem finalWith_of_finalize {graph final : Graph} {inheriting : Bool} {found : List Diagnostic}
    (distinct : graph.Distinct) (success : graph.finalize inheriting = (final, .ok found)) :
    ∃ lineages, graph.resolved.hierarchy.lineages = .ok lineages ∧
      final = graph.finalWith inheriting lineages ∧ found = final.findings := by
  have ending := finalize_finalized distinct inheriting
  rw [success] at ending
  cases ending with
  | done _ _ known => exact ⟨_, known, rfl, rfl⟩

/-- Finalizing succeeds exactly if every base is known and no class is its own ancestor. -/
theorem exists_finalize_eq_ok_iff {graph : Graph} (distinct : graph.Distinct) (inheriting : Bool) :
    (∃ final found, graph.finalize inheriting = (final, .ok found)) ↔
      ¬ graph.LacksBase ∧ ¬ ∃ name, TransGen graph.Base name name := by
  have ending := finalize_finalized distinct inheriting
  generalize graph.finalize inheriting = ends at ending ⊢
  obtain ⟨left, outcome⟩ := ends
  cases ending with
  | unknownBase member declared unknown =>
    obtain ⟨listed, notRoot⟩ := mem_declaredBases.mp declared
    simp only [Prod.mk.injEq, reduceCtorEq, and_false, exists_false, false_iff, not_and]
    exact fun complete => absurd ⟨_, member, _, listed, notRoot, unknown⟩ complete
  | cyclicBase _ _ cycle =>
    simp only [Prod.mk.injEq, reduceCtorEq, and_false, exists_false, false_iff, not_and]
    exact fun _ acyclic => acyclic ⟨_, cycle⟩
  | done complete acyclic _ => exact ⟨fun _ => ⟨complete, acyclic⟩, fun _ => ⟨_, _, rfl⟩⟩

/-! ### Lineages of a finalized graph -/

section Blind

/-! Marking and inheriting leave everything but the members and the inclusion of a class as it is. -/

variable {α : Type} (f : Entity.Class → α) (graph : Graph)
  (blind : ∀ (self : Entity.Class) methods properties included,
    f { self with methods, properties, included } = f self)

include blind

theorem map_markIncluded_classes : graph.markIncluded.classes.map f = graph.classes.map f := by
  rw [markIncluded, List.map_map]
  apply List.map_congr_left
  intro self _
  exact blind self _ _ _

theorem map_inheritMembers_classes : graph.inheritMembers.classes.map f = graph.classes.map f := by
  rw [inheritMembers, List.map_map]
  apply List.map_congr_left
  intro self _
  exact blind self _ _ self.included

theorem map_finalWith_classes (inheriting : Bool) (lineages : Hierarchy.Lineages) :
    (graph.finalWith inheriting lineages).classes.map f = graph.classes.map fun self =>
      f { withBases self with lineage := (lineages.lookup self.name).getD [] } := by
  have placed : (graph.resolved.withLineages lineages).classes.map f = graph.classes.map fun self =>
      f { withBases self with lineage := (lineages.lookup self.name).getD [] } := by
    rw [withLineages, resolved, List.map_map, List.map_map]
    rfl
  rw [← placed, finalWith, map_markIncluded_classes f _ blind]
  cases inheriting
  · rfl
  · exact map_inheritMembers_classes f _ blind

end Blind

/-- What a stored lineage says about the bases of a graph. -/
structure StoredLineage (graph : Graph) (entity : Entity.Class) : Prop where
  nodup : entity.lineage.Nodup
  mem_iff : ∀ name, name ∈ entity.lineage ↔ ReflTransGen graph.Base entity.name name
  last : entity.lineage.getLast? = some entity.name
  behind : ∀ before name after, entity.lineage = before ++ name :: after →
    ∀ base, graph.Base name base → base ∈ before
  single : ∀ base ∈ graph.classes, (∀ other, graph.Base entity.name other ↔ other = base.name) →
    entity.lineage = base.lineage ++ [entity.name]

theorem base_finalWith (graph : Graph) (inheriting : Bool) (lineages : Hierarchy.Lineages) :
    (graph.finalWith inheriting lineages).Base = graph.Base := by
  have same := map_finalWith_classes (fun self => (self.name, self.declaredBases)) graph
    (by simp [Class.declaredBases]) inheriting lineages
  funext heir base
  have links : ∀ graph : Graph, graph.Base heir base ↔
      ∃ entry ∈ graph.classes.map (fun self => (self.name, self.declaredBases)),
        entry.1 = heir ∧ base ∈ entry.2 := by
    simp [Base]
  rw [eq_iff_iff, links, links, same]
  simp [withBases, Class.declaredBases]

theorem lacksBase_finalWith {graph : Graph} {inheriting : Bool} {lineages : Hierarchy.Lineages} :
    (graph.finalWith inheriting lineages).LacksBase ↔ graph.LacksBase := by
  rw [lacksBase_iff, lacksBase_iff, base_finalWith, map_finalWith_classes (·.name) graph (by simp)]
  rfl

theorem storedLineage_finalWith {graph : Graph} (distinct : graph.Distinct) (inheriting : Bool)
    {lineages : Hierarchy.Lineages} (found : graph.resolved.hierarchy.lineages = .ok lineages)
    {self : Entity.Class} (member : self ∈ (graph.finalWith inheriting lineages).classes) :
    (graph.finalWith inheriting lineages).StoredLineage self := by
  have names : (graph.resolved.hierarchy.map Prod.fst).Nodup := by
    rw [hierarchy_resolved_names]
    exact distinct.classes
  obtain ⟨sound, complete⟩ := Hierarchy.lineages_eq_ok names found
  -- What follows the lineages, inheriting and marking, leaves names and lineages alone.
  have stored : ∀ other ∈ (graph.finalWith inheriting lineages).classes,
      lineages.lookup other.name = some other.lineage := by
    have same := map_finalWith_classes (fun self => (self.name, self.lineage)) graph (by simp)
      inheriting lineages
    intro other listed
    have entry : (other.name, other.lineage) ∈ (graph.finalWith inheriting lineages).classes.map
        fun self => (self.name, self.lineage) := List.mem_map_of_mem listed
    rw [same] at entry
    obtain ⟨raw, old, equal⟩ := List.mem_map.mp entry
    obtain ⟨name, lineage⟩ := Prod.mk.inj equal
    have present := complete (raw.name, raw.declaredBases) (by
      rw [hierarchy_resolved]
      exact List.mem_map_of_mem old)
    obtain ⟨settled, known⟩ := Option.isSome_iff_exists.mp present
    rw [← name, ← lineage]
    simp [withBases, known]
  have entry := Hierarchy.mem_of_lookup (stored self member)
  have isLineage := sound.isLineage _ _ entry
  obtain ⟨front, whole⟩ := isLineage.last
  constructor
  · exact isLineage.nodup
  · intro name
    rw [base_finalWith, ← hierarchy_resolved_base]
    exact ⟨isLineage.ancestor name, isLineage.ordered.ancestor_mem (by simp [whole])⟩
  · simp [whole]
  · rw [base_finalWith, ← hierarchy_resolved_base]
    exact isLineage.ordered
  · intro base listed only
    rw [base_finalWith, ← hierarchy_resolved_base] at only
    obtain ⟨above, known, join⟩ := sound.lineage_of_single names entry only
    rw [stored base listed] at known
    cases known
    exact join

/-- Every name in a lineage is that of a class, so the classes of a lineage stand in its order. -/
theorem map_name_lineageClasses {graph : Graph} (complete : ¬ graph.LacksBase) {self : Entity.Class}
    (member : self ∈ graph.classes) (stored : graph.StoredLineage self) :
    (graph.lineageClasses self).map (·.name) = self.lineage := by
  have own : self.name ∈ self.lineage := List.mem_of_getLast? stored.last
  have whole : self.ancestry = self.lineage := if_neg (by simpa using List.ne_nil_of_mem own)
  rw [lineageClasses, whole]
  exact map_name_filterMap_class? fun name listed =>
    above_known complete (List.mem_map_of_mem member) ((stored.mem_iff name).mp listed)

/-- The outcome is a reference that cannot be resolved for this reason. -/
def FailsFor (reason : String) (outcome : Except Fault (List Diagnostic)) : Prop :=
  ∃ name tag cause origin span,
    outcome = .error (.unresolved name tag cause origin span) ∧ cause.reason = reason

theorem failsFor_baseFault {reason : String} {self : Entity.Class} {base : String} {cause : Unresolved} :
    FailsFor reason (.error (self.baseFault base cause)) ↔ cause.reason = reason := by
  constructor
  · rintro ⟨name, tag, other, origin, span, same, given⟩
    cases same
    exact given
  · intro given
    exact ⟨_, _, _, _, _, rfl, given⟩

theorem not_failsFor_ok {reason : String} {found : List Diagnostic} : ¬ FailsFor reason (.ok found) := by
  rintro ⟨name, tag, cause, origin, span, same, given⟩
  cases same

/-- A base that no class has comes first, then a cycle of bases, and otherwise every class has its lineage. -/
theorem finalize_resolves_lineages (graph : Graph) (distinct : graph.Distinct) (inheriting : Bool) :
    (FailsFor "no class with this name was discovered" (graph.finalize inheriting).2 ↔ graph.LacksBase) ∧
    (FailsFor "cyclic inheritance" (graph.finalize inheriting).2 ↔
      ¬ graph.LacksBase ∧ ∃ name, TransGen graph.Base name name) ∧
    (∀ name tag origin span, (graph.finalize inheriting).2 = .error (.unresolved name tag .cyclicBase origin span) →
      TransGen graph.Base name name ∧ origin.entity = name) ∧
    ((∃ found, (graph.finalize inheriting).2 = .ok found) ↔
      ¬ graph.LacksBase ∧ ¬ ∃ name, TransGen graph.Base name name) ∧
    (∀ found, (graph.finalize inheriting).2 = .ok found →
      (graph.finalize inheriting).1.Base = graph.Base ∧
      (graph.finalize inheriting).1.classes.map (·.name) = graph.classes.map (·.name) ∧
      ∀ self ∈ (graph.finalize inheriting).1.classes, (graph.finalize inheriting).1.StoredLineage self) := by
  have ending := finalize_finalized distinct inheriting
  generalize (graph.finalize inheriting).1 = final, (graph.finalize inheriting).2 = outcome at ending ⊢
  cases ending with
  | @unknownBase _ self base member declared unknown =>
    obtain ⟨listed, notRoot⟩ := mem_declaredBases.mp declared
    have lacks : graph.LacksBase := ⟨self, member, base, listed, notRoot, unknown⟩
    refine ⟨iff_of_true (failsFor_baseFault.mpr rfl) lacks, ?_, ?_, ?_, ?_⟩
    · refine iff_of_false ?_ (fun complete => complete.1 lacks)
      simp [failsFor_baseFault, Unresolved.reason]
    · rintro name tag origin span ⟨⟩
    · exact iff_of_false (by simp) (fun complete => complete.1 lacks)
    · rintro found ⟨⟩
  | @cyclicBase self complete member cycle =>
    refine ⟨iff_of_false ?_ complete, iff_of_true (failsFor_baseFault.mpr rfl) ⟨complete, _, cycle⟩, ?_, ?_, ?_⟩
    · simp [failsFor_baseFault, Unresolved.reason]
    · rintro name tag origin span ⟨⟩
      exact ⟨cycle, rfl⟩
    · exact iff_of_false (by simp) (fun fine => fine.2 ⟨_, cycle⟩)
    · rintro found ⟨⟩
  | @done lineages complete acyclic found =>
    refine ⟨iff_of_false not_failsFor_ok complete, iff_of_false not_failsFor_ok (fun fault => acyclic fault.2),
      ?_, iff_of_true ⟨_, rfl⟩ ⟨complete, acyclic⟩, ?_⟩
    · rintro name tag origin span ⟨⟩
    · rintro _ ⟨⟩
      refine ⟨base_finalWith graph inheriting lineages, ?_, ?_⟩
      · exact map_finalWith_classes (·.name) graph (by simp) inheriting lineages
      · intro self member
        exact storedLineage_finalWith distinct inheriting found member

/-- Two bases with a common base, all declared behind their heir. -/
def diamond : Graph :=
  let declare (name : String) (baseNames : List String) : Entity.Class :=
    { name, doc := "", description := "", fragments := [], position := ⟨"shapes.py", none⟩, baseNames,
      methods := [], properties := [] }
  { module := ⟨"shapes", "", "", [], ⟨"shapes.py", none⟩⟩
    classes := [declare "Square" ["Rectangle", "Rhombus"], declare "Rhombus" ["Shape"],
      declare "Rectangle" ["object", "Shape"], declare "Shape" ["object"]] }

theorem lineages_of_diamond :
    diamond.Distinct ∧
    (diamond.finalize true).1.classes.map (·.lineage) =
      [["Shape", "Rectangle", "Rhombus", "Square"], ["Shape", "Rhombus"], ["Shape", "Rectangle"], ["Shape"]] ∧
    ∀ self ∈ (diamond.finalize true).1.classes, (diamond.finalize true).1.StoredLineage self := by
  have distinct : diamond.Distinct := ⟨by decide, by decide⟩
  refine ⟨distinct, by decide +kernel, ?_⟩
  obtain ⟨_, _, _, ends, stored⟩ := finalize_resolves_lineages diamond distinct true
  exact (stored (diamond.finalize true).1.findings (by decide +kernel)).2.2

end DocWeave.Graph
