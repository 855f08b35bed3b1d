import DocWeave.Proofs.Entity.Heirs
import DocWeave.Proofs.Entity.Reading

/-!
# Inherited members

A class looks for members in the classes above it, the nearest first. It never comes to a class before a class
that derives from it, so a member that is declared again hides the older one along every path of bases.
-/

namespace DocWeave

open Entity Relation

namespace Entity

/-- `copy` is what the class `heir` makes of a method that the class `source` declares. Whether the copy is included
is left open. -/
def Function.Copies (heir source : String) (method copy : Function) : Prop :=
  copy = { method with qualifiedName := heir ++ "." ++ method.name, owner := some heir,
                       inheritedFrom := some source, included := copy.included }

/-- `copy` is what the class `heir` makes of a property that the class `source` declares. -/
def Property.Copies (heir source : String) (property copy : Property) : Prop :=
  copy = { property with qualifiedName := heir ++ "." ++ property.name, owner := heir,
                         inheritedFrom := some source, included := copy.included }

end Entity

namespace Graph

/-- Every member of the graph is declared where it is found. -/
def Raw (graph : Graph) : Prop :=
  ∀ self ∈ graph.classes, (∀ method ∈ self.methods, method.inheritedFrom = none) ∧
    ∀ property ∈ self.properties, property.inheritedFrom = none

theorem Reads.raw {manifest : Manifest} {warnings : List Diagnostic} {graph : Graph}
    (reads : graph.Reads manifest warnings) : graph.Raw := by
  intro self member
  obtain ⟨record, _, classReads⟩ := exists_of_forall₂_right reads.classes member
  constructor
  · intro method listed
    obtain ⟨_, _, methodReads⟩ := exists_of_forall₂_right classReads.methods listed
    exact methodReads.declared
  · intro property listed
    obtain ⟨_, _, propertyReads⟩ := exists_of_forall₂_right classReads.properties listed
    exact propertyReads.declared

/-- `inherited` is what a class takes from the classes above it: one copy for every name that they have and it does
not, and never from a class that another one above it overrides. -/
structure Inherits {α : Type} (graph : Graph) (members : Entity.Class → List α) (name : α → String)
    (copies : String → String → α → α → Prop) (self : Entity.Class) (inherited : List α) : Prop where
  nodup : (inherited.map name).Nodup
  mem_names : ∀ picked, picked ∈ inherited.map name ↔ picked ∉ (members self).map name ∧
    ∃ ancestor ∈ graph.classes, TransGen graph.Base self.name ancestor.name ∧ picked ∈ (members ancestor).map name
  sources : ∀ copy ∈ inherited, ∃ ancestor ∈ graph.classes, TransGen graph.Base self.name ancestor.name ∧
    (∃ source ∈ members ancestor, copies self.name ancestor.name source copy) ∧
    ∀ other ∈ graph.classes, TransGen graph.Base self.name other.name →
      TransGen graph.Base other.name ancestor.name → name copy ∉ (members other).map name

/-- `heir` is `self` with its own members as they were, but for being marked, and the inherited ones behind them. -/
structure InheritsMembers (graph : Graph) (self heir : Entity.Class) : Prop where
  name : heir.name = self.name
  methods : ∃ inherited, heir.methods = self.methods.map (Function.mark heir.included) ++ inherited ∧
    graph.Inherits Class.methods (·.name) Function.Copies self inherited
  properties : ∃ inherited, heir.properties = self.properties.map (Property.mark heir.included) ++ inherited ∧
    graph.Inherits Class.properties (·.name) Property.Copies self inherited

/-! ### The order of ancestors -/

section Ancestors

variable {graph : Graph} {lineages : Hierarchy.Lineages} {self : Entity.Class}

/-- The ancestors that a class inherits from are the classes above it, but not the class itself. -/
theorem mem_properAncestors_located (distinct : graph.Distinct)
    (found : graph.resolved.hierarchy.lineages = .ok lineages) (member : self ∈ graph.classes)
    (ancestor : Entity.Class) :
    ancestor ∈ (graph.resolved.withLineages lineages).properAncestors (located lineages self) ↔
      ∃ raw ∈ graph.classes, ancestor = located lineages raw ∧ raw.name ≠ self.name ∧
        ReflTransGen graph.Base self.name raw.name := by
  have listed : graph.final true lineages self ∈ (graph.finalWith true lineages).classes := by
    rw [classes_finalWith]
    exact List.mem_map_of_mem member
  have stored := storedLineage_finalWith distinct true found listed
  obtain ⟨front, whole⟩ := List.getLast?_eq_some_iff.mp stored.last
  have lineage : (located lineages self).lineage = front ++ [self.name] := whole
  have nodup := stored.nodup
  rw [whole, List.nodup_append] at nodup
  have above : ∀ name, name ∈ front ↔ name ≠ self.name ∧ ReflTransGen graph.Base self.name name := by
    intro name
    have inside := stored.mem_iff name
    rw [whole, base_finalWith, final_name, List.mem_append, List.mem_singleton] at inside
    rw [← inside]
    constructor
    · intro earlier
      exact ⟨nodup.2.2 name earlier self.name (List.mem_singleton_self _), .inl earlier⟩
    · rintro ⟨other, earlier | own⟩
      · exact earlier
      · exact absurd own other
  have placed : ∀ name, (graph.resolved.withLineages lineages).class? name =
      (graph.class? name).map (located lineages) :=
    class?_change (classes_withLineages graph lineages) fun _ => rfl
  rw [properAncestors, lineage, List.reverse_append, List.reverse_singleton, List.singleton_append,
    List.drop_one, List.tail_cons, List.mem_filterMap]
  simp only [List.mem_reverse, placed, Option.map_eq_some_iff]
  constructor
  · rintro ⟨name, earlier, raw, known, rfl⟩
    obtain ⟨listed, rfl⟩ := mem_of_class? known
    exact ⟨raw, listed, rfl, (above raw.name).mp earlier⟩
  · rintro ⟨raw, listed, rfl, higher⟩
    exact ⟨raw.name, (above raw.name).mpr higher, raw, class?_of_mem distinct.classes listed, rfl⟩

/-- An ancestor comes before the classes that it derives from. -/
theorem pairwise_properAncestors_located (distinct : graph.Distinct)
    (found : graph.resolved.hierarchy.lineages = .ok lineages) (member : self ∈ graph.classes) :
    ((graph.resolved.withLineages lineages).properAncestors (located lineages self)).Pairwise
      fun nearer farther => ¬ TransGen graph.Base farther.name nearer.name := by
  have listed : graph.final true lineages self ∈ (graph.finalWith true lineages).classes := by
    rw [classes_finalWith]
    exact List.mem_map_of_mem member
  have stored := storedLineage_finalWith distinct true found listed
  have ordered : graph.resolved.hierarchy.Ordered (located lineages self).lineage := by
    rw [Hierarchy.Ordered, hierarchy_resolved_base, ← base_finalWith graph true lineages]
    exact stored.behind
  have sorted := ordered.pairwise stored.nodup
  rw [hierarchy_resolved_base] at sorted
  apply List.pairwise_filterMap.mpr
  apply ((List.pairwise_reverse.mpr sorted).sublist (List.drop_sublist 1 _)).imp
  intro nearer farther apart near knownNear far knownFar
  rw [(mem_of_class? knownNear).2, (mem_of_class? knownFar).2]
  exact apart

/-- The ancestors that a class inherits from are all the classes that it derives from. -/
theorem mem_properAncestors_located_iff (distinct : graph.Distinct) (acyclic : ¬ ∃ name, TransGen graph.Base name name)
    (found : graph.resolved.hierarchy.lineages = .ok lineages) (member : self ∈ graph.classes)
    (ancestor : Entity.Class) :
    ancestor ∈ (graph.resolved.withLineages lineages).properAncestors (located lineages self) ↔
      ∃ raw ∈ graph.classes, ancestor = located lineages raw ∧ TransGen graph.Base self.name raw.name := by
  rw [mem_properAncestors_located distinct found member]
  apply exists_congr
  intro raw
  apply and_congr_right
  intro _
  apply and_congr_right
  intro _
  constructor
  · rintro ⟨other, above⟩
    exact (reflTransGen_iff_eq_or_transGen.mp above).resolve_left other
  · intro above
    refine ⟨?_, above.to_reflTransGen⟩
    intro same
    rw [same] at above
    exact acyclic ⟨_, above⟩

end Ancestors

/-! ### Picking members from ancestors -/

/-- A member is picked from the first ancestor that has its name. -/
theorem nearest_of_mem_pickNew {α : Type} {name : α → String} {taken : List String} {owners : List Entity.Class}
    {members : Entity.Class → List α} {source : String} {picked : α}
    (listed : (source, picked) ∈ pickNew name taken
      (owners.flatMap fun owner => (members owner).map (owner.name, ·))) :
    ∃ nearer owner farther, owners = nearer ++ owner :: farther ∧ owner.name = source ∧ picked ∈ members owner ∧
      ∀ other ∈ nearer, name picked ∉ (members other).map name := by
  have first := find?_of_mem_pickNew listed
  rw [List.find?_flatMap, List.findSome?_eq_some_iff] at first
  obtain ⟨nearer, owner, farther, split, inside, without⟩ := first
  obtain ⟨item, own, same⟩ := List.mem_map.mp (List.mem_of_find?_eq_some inside)
  cases same
  refine ⟨nearer, owner, farther, split, rfl, own, ?_⟩
  intro other before present
  obtain ⟨hidden, declared, same⟩ := List.mem_map.mp present
  have missing := List.find?_eq_none.mp (without other before) _ (List.mem_map_of_mem declared)
  exact missing (by simpa using same)

section Picked

variable {α : Type} {graph : Graph} {lineages : Hierarchy.Lineages} {self : Entity.Class}
  {members own : Entity.Class → List α} {name : α → String} {copies : String → String → α → α → Prop}
  {copy : String × α → α}

/-- Picking from the ancestors in their order gives what a class inherits. -/
theorem inherits_pickNew (distinct : graph.Distinct) (acyclic : ¬ ∃ name, TransGen graph.Base name name)
    (found : graph.resolved.hierarchy.lineages = .ok lineages) (member : self ∈ graph.classes)
    (declared : ∀ raw ∈ graph.classes, own (located lineages raw) = members raw)
    (named : ∀ entry, name (copy entry) = name entry.2)
    (copied : ∀ entry, copies self.name entry.1 entry.2 (copy entry)) :
    graph.Inherits members name copies self
      ((pickNew name ((members self).map name)
        (((graph.resolved.withLineages lineages).properAncestors (located lineages self)).flatMap fun ancestor =>
          (own ancestor).map (ancestor.name, ·))).map copy) := by
  have above := mem_properAncestors_located_iff distinct acyclic found member
  have order := pairwise_properAncestors_located distinct found member
  generalize (graph.resolved.withLineages lineages).properAncestors (located lineages self) = ancestors at above order
  constructor
  · simp only [List.map_map, Function.comp_def, named]
    exact nodup_pickNew
  · intro picked
    simp only [List.map_map, Function.comp_def, named]
    rw [mem_map_pickNew, List.map_flatMap, List.mem_flatMap]
    apply and_congr_right
    intro _
    simp only [above, List.map_map, Function.comp_def]
    constructor
    · rintro ⟨_, ⟨raw, listed, rfl, derives⟩, inside⟩
      exact ⟨raw, listed, derives, declared raw listed ▸ inside⟩
    · rintro ⟨raw, listed, derives, inside⟩
      exact ⟨_, ⟨raw, listed, rfl, derives⟩, (declared raw listed).symm ▸ inside⟩
  · intro inherited listed
    obtain ⟨⟨source, item⟩, picked, rfl⟩ := List.mem_map.mp listed
    obtain ⟨nearer, owner, farther, split, rfl, inside, hidden⟩ := nearest_of_mem_pickNew picked
    have listed : owner ∈ ancestors := split ▸ List.mem_append_right _ List.mem_cons_self
    obtain ⟨raw, known, rfl, derives⟩ := (above _).mp listed
    rw [declared raw known] at inside
    refine ⟨raw, known, derives, ⟨item, inside, copied (raw.name, item)⟩, ?_⟩
    intro other otherKnown otherAbove overrides
    rw [named, ← declared other otherKnown]
    -- A class that derives from the source stands before it, and what stands before it lacks the name.
    apply hidden
    have place : located lineages other ∈ nearer ++ located lineages raw :: farther :=
      split ▸ (above _).mpr ⟨other, otherKnown, rfl, otherAbove⟩
    rcases List.mem_append.mp place with before | rest
    · exact before
    · rcases List.mem_cons.mp rest with same | behind
      · have loop : (located lineages other).name = (located lineages raw).name := congrArg Class.name same
        exact absurd ⟨_, loop ▸ overrides⟩ acyclic
      · rw [split] at order
        have apart := (List.pairwise_cons.mp (List.pairwise_append.mp order).2.1).1 _ behind
        exact absurd overrides apart

end Picked

theorem inheritsMembers_final {graph : Graph} {lineages : Hierarchy.Lineages} (distinct : graph.Distinct)
    (raw : graph.Raw) (acyclic : ¬ ∃ name, TransGen graph.Base name name)
    (found : graph.resolved.hierarchy.lineages = .ok lineages) {self : Entity.Class} (member : self ∈ graph.classes) :
    graph.InheritsMembers self (graph.final true lineages self) := by
  constructor
  · exact final_name self
  · refine ⟨_, List.map_append, ?_⟩
    rw [inheritedMethods, List.map_map]
    apply inherits_pickNew distinct acyclic found member
    · intro self listed
      apply List.filter_eq_self.mpr
      intro method inside
      exact Option.isNone_iff_eq_none.mpr ((raw self listed).1 method inside)
    · intro entry
      rfl
    · intro entry
      rfl
  · refine ⟨_, List.map_append, ?_⟩
    rw [inheritedProperties, List.map_map]
    apply inherits_pickNew distinct acyclic found member
    · intro self listed
      apply List.filter_eq_self.mpr
      intro property inside
      exact Option.isNone_iff_eq_none.mpr ((raw self listed).2 property inside)
    · intro entry
      rfl
    · intro entry
      rfl

end Graph

open DocWeave.Graph

/-- Every class of a finalized graph has its own members, and copies of all others that the classes above it declare,
each from a class whose declaration no other class above it overrides. -/
theorem finalize_inherits {manifest : Manifest} {graph final : Graph} {warnings findings : List Diagnostic}
    (built : ofManifest manifest = .ok (graph, warnings))
    (success : graph.finalize true = (final, .ok findings)) :
    List.Forall₂ graph.InheritsMembers graph.classes final.classes := by
  obtain ⟨reads, distinct, _⟩ := reads_of_ofManifest built
  obtain ⟨_, acyclic⟩ := (exists_finalize_eq_ok_iff distinct true).mp ⟨final, findings, success⟩
  obtain ⟨lineages, found, rfl, _⟩ := finalWith_of_finalize distinct success
  rw [classes_finalWith, List.forall₂_map_right_iff, List.forall₂_same]
  intro self member
  exact inheritsMembers_final distinct reads.raw acyclic found member

/-- Two classes derive from a third one, one of them overrides its members, and a fourth derives from both. -/
def tools : Manifest where
  module := { name := "tools" }
  classes := [
    { name := "Tool", doc := "_CPP_: int size;",
      methods := [{ name := "weigh", doc := "_CPP_: return NULL;" }, { name := "store", doc := "_CPP_: return NULL;" }],
      properties := [{ name := "size", doc := "_CPP_: return NULL;" }] },
    { name := "Saw", bases := ["Tool"],
      methods := [{ name := "weigh", doc := "_CPP_: return PyLong_FromLong(1);" }],
      properties := [{ name := "size", doc := "_CPP_: return PyLong_FromLong(2);" }] },
    { name := "Drill", bases := ["Tool"] },
    { name := "Multitool", bases := ["Saw", "Drill"] }]

/-- The class at the end takes what is overridden from the class that overrides it. -/
theorem inheritance_of_tools : ∃ graph warnings final findings,
    ofManifest tools = .ok (graph, warnings) ∧ graph.finalize true = (final, .ok findings) ∧
    (∃ self ∈ final.classes, self.name = "Multitool" ∧
      self.methods.map (fun method => (method.name, method.inheritedFrom)) =
        [("weigh", some "Saw"), ("store", some "Tool")] ∧
      self.properties.map (fun property => (property.name, property.inheritedFrom)) = [("size", some "Saw")]) ∧
    List.Forall₂ graph.InheritsMembers graph.classes final.classes := by
  have evaluated : (ofManifest tools >>= fun built => (built.1.finalize true).2 >>= fun _ =>
      (.ok ((built.1.finalize true).1.classes.any fun self => self.name = "Multitool" ∧
        self.methods.map (fun method => (method.name, method.inheritedFrom)) =
          [("weigh", some "Saw"), ("store", some "Tool")] ∧
        self.properties.map (fun property => (property.name, property.inheritedFrom)) = [("size", some "Saw")]) :
        Except Fault Bool)) = .ok true := by decide +kernel
  obtain ⟨⟨graph, warnings⟩, built, evaluated⟩ := bind_eq_ok.mp evaluated
  obtain ⟨findings, finalized, evaluated⟩ := bind_eq_ok.mp evaluated
  obtain ⟨self, listed, sources⟩ := List.any_eq_true.mp (Except.ok.inj evaluated)
  have success : graph.finalize true = ((graph.finalize true).1, .ok findings) := Prod.ext rfl finalized
  exact ⟨graph, warnings, _, findings, built, success, ⟨self, listed, of_decide_eq_true sources⟩,
    finalize_inherits built success⟩

end DocWeave
