import DocWeave.Proofs.Entity.Inheritance
import Mathlib.Order.Lattice.Nat

/-!
# Which ancestor a member comes from

A class asks the classes above it one after the other, and takes a member from the first that declares it. The last
base is asked first, with everything above it, but what an earlier base leads to has to wait. So the source of a
member is the nearest class that declares it where no class has two bases, but not in general.
-/

namespace DocWeave

open Entity Relation

namespace Entity.Hierarchy

/-- The order in which a class with these bases asks the classes above it. The last base comes first, and behind it
what is above it in the order of that base, but the classes that the bases in front lead to come at the end. -/
inductive Asks (hierarchy : Hierarchy) : List String → List String → Prop
  | nil : Asks hierarchy [] []
  | concat {front asked base bases above} (before : Asks hierarchy front asked) (entry : (base, bases) ∈ hierarchy)
      (up : Asks hierarchy bases above) :
      Asks hierarchy (front ++ [base]) ((base :: above).filter (!asked.contains ·) ++ asked)

variable {hierarchy : Hierarchy} {settled : Lineages}

theorem merge_concat (lineages : List (List String)) (lineage : List String) :
    merge (lineages ++ [lineage]) = merge lineages ++ lineage.filter (!(merge lineages).contains ·) := by
  rw [merge, List.foldl_append]
  rfl

/-- If every lineage ends with what is asked of its class, so does a join of lineages. -/
theorem asks_merge {bases : List String} {lineages : List (List String)}
    (found : allSettled settled bases = some lineages)
    (each : ∀ base lineage, (base, lineage) ∈ settled → lineage ∈ lineages → ∃ others above,
      (base, others) ∈ hierarchy ∧ hierarchy.Asks others above ∧ lineage = above.reverse ++ [base]) :
    hierarchy.Asks bases (merge lineages).reverse := by
  have looked := allSettled_eq_some.mp found
  clear found
  induction bases using List.reverseRecOn generalizing lineages with
  | nil =>
    obtain rfl : lineages = [] := by simpa using looked.symm
    exact .nil
  | append_singleton front base ih =>
    rcases List.eq_nil_or_concat' lineages with rfl | ⟨first, last, rfl⟩
    · simp at looked
    rw [List.map_append, List.map_append] at looked
    obtain ⟨frontLooked, lastLooked⟩ := List.append_inj' looked rfl
    have known : (base, last) ∈ settled := mem_of_lookup (by simpa using lastLooked)
    obtain ⟨others, above, entry, up, split⟩ := each base last known (by simp)
    have before := ih (fun name lineage member listed => each name lineage member (List.mem_append_left _ listed))
      frontLooked
    have whole := Asks.concat before entry up
    rw [merge_concat, List.reverse_append, ← List.filter_reverse, split, List.reverse_append, List.reverse_reverse]
    simpa using whole

/-- A lineage is the order in which its class asks, the other way round. -/
theorem Settled.asks (sound : hierarchy.Settled settled) {name : String} {lineage : List String}
    (member : (name, lineage) ∈ settled) : ∃ bases above, (name, bases) ∈ hierarchy ∧
      hierarchy.Asks bases above ∧ lineage = above.reverse ++ [name] := by
  -- The lineage of a base is part of the join, and so it is shorter than the lineage of the class.
  induction size : lineage.length using Nat.strong_induction_on generalizing name lineage with
  | h length ih =>
    obtain ⟨bases, lineages, entry, found, rfl⟩ := sound.joined name lineage member
    refine ⟨bases, (merge lineages).reverse, entry, asks_merge found ?_, by rw [List.reverse_reverse]⟩
    intro base lineage known listed
    refine ih lineage.length ?_ known rfl
    have inside : lineage ⊆ merge lineages := fun name among => mem_merge.mpr ⟨lineage, listed, among⟩
    have short := (List.subperm_of_subset (sound.isLineage base lineage known).nodup inside).length_le
    simp only [List.length_append, List.length_singleton] at size
    omega

end Entity.Hierarchy

namespace Graph

/-! ### Distances -/

/-- From `heir` up to `ancestor` there is a path of so many bases. -/
def Links (graph : Graph) : Nat → String → String → Prop
  | 0, heir, ancestor => heir = ancestor
  | links + 1, heir, ancestor => ∃ base, graph.Base heir base ∧ graph.Links links base ancestor

/-- The least number of bases on a path from `heir` up to `ancestor`. -/
noncomputable def distance (graph : Graph) (heir ancestor : String) : Nat :=
  sInf {links | graph.Links links heir ancestor}

variable {graph : Graph}

theorem exists_links {heir ancestor : String} (above : ReflTransGen graph.Base heir ancestor) :
    ∃ links, graph.Links links heir ancestor := by
  induction above using ReflTransGen.head_induction_on with
  | refl => exact ⟨0, rfl⟩
  | head link _ ih =>
    obtain ⟨links, further⟩ := ih
    exact ⟨links + 1, _, link, further⟩

theorem links_distance {heir ancestor : String} (above : ∃ links, graph.Links links heir ancestor) :
    graph.Links (graph.distance heir ancestor) heir ancestor :=
  Nat.sInf_mem above

theorem distance_le {heir ancestor : String} {links : Nat} (path : graph.Links links heir ancestor) :
    graph.distance heir ancestor ≤ links :=
  Nat.sInf_le path

theorem distance_eq {heir ancestor : String} {links : Nat} (path : graph.Links links heir ancestor)
    (shortest : ∀ fewer < links, ¬ graph.Links fewer heir ancestor) : graph.distance heir ancestor = links := by
  apply Nat.le_antisymm (distance_le path)
  by_contra fewer
  exact shortest _ (Nat.lt_of_not_le fewer) (links_distance ⟨links, path⟩)

/-- No class that is called `heir`, or that is above it, has two bases. -/
def Single (graph : Graph) (heir : String) : Prop :=
  ∀ ancestor, ReflTransGen graph.Base heir ancestor →
    ∀ base other, graph.Base ancestor base → graph.Base ancestor other → base = other

/-- Above a class with single bases there is one path, so a longer path goes on where a shorter one ends. -/
theorem Single.links {heir near far : String} {few more : Nat} (single : graph.Single heir)
    (short : graph.Links few heir near) (long : graph.Links (few + more) heir far) : graph.Links more near far := by
  induction few generalizing heir with
  | zero =>
    cases short
    simpa using long
  | succ few ih =>
    rw [Nat.succ_add] at long
    obtain ⟨base, link, further⟩ := short
    obtain ⟨other, also, longer⟩ := long
    cases single heir .refl base other link also
    exact ih (fun ancestor above => single ancestor (.head link above)) further longer

theorem transGen_of_links {heir ancestor : String} {links : Nat} (path : graph.Links (links + 1) heir ancestor) :
    TransGen graph.Base heir ancestor := by
  induction links generalizing heir with
  | zero =>
    obtain ⟨base, link, rfl⟩ := path
    exact .single link
  | succ links ih =>
    obtain ⟨base, link, further⟩ := path
    exact .head link (ih further)

/-- With single bases, a class that is not above another one is not farther away than it. -/
theorem Single.distance_le {heir first second : String} (single : graph.Single heir)
    (firstAbove : ReflTransGen graph.Base heir first) (secondAbove : ReflTransGen graph.Base heir second)
    (apart : ¬ TransGen graph.Base second first) : graph.distance heir first ≤ graph.distance heir second := by
  by_contra farther
  obtain ⟨more, size⟩ := Nat.exists_eq_add_of_lt (Nat.lt_of_not_le farther)
  have long := links_distance (exists_links firstAbove)
  rw [size, Nat.add_assoc] at long
  exact apart (transGen_of_links (single.links (links_distance (exists_links secondAbove)) long))

/-! ### The order of the classes above a class -/

section Order

variable {lineages : Hierarchy.Lineages} {self : Entity.Class}

/-- The ancestors that a class inherits from stand in the order in which the class asks them. -/
theorem asks_properAncestors (distinct : graph.Distinct) (complete : ¬ graph.LacksBase)
    (found : graph.resolved.hierarchy.lineages = .ok lineages) (member : self ∈ graph.classes) :
    graph.resolved.hierarchy.Asks self.declaredBases
      (((graph.resolved.withLineages lineages).properAncestors (located lineages self)).map (·.name)) := by
  have names : (graph.resolved.hierarchy.map Prod.fst).Nodup := by
    rw [hierarchy_resolved_names]
    exact distinct.classes
  have entry : (self.name, self.declaredBases) ∈ graph.resolved.hierarchy := by
    rw [hierarchy_resolved]
    exact List.mem_map_of_mem member
  obtain ⟨sound, settled⟩ := Hierarchy.lineages_eq_ok names found
  obtain ⟨lineage, known⟩ := Option.isSome_iff_exists.mp (settled _ entry)
  obtain ⟨bases, above, other, asks, split⟩ := sound.asks (Hierarchy.mem_of_lookup known)
  have same := (Hierarchy.lookup_of_mem names entry).symm.trans (Hierarchy.lookup_of_mem names other)
  cases same
  have placed : (located lineages self).lineage = above.reverse ++ [self.name] := by
    simp only [located, known, Option.getD_some]
    exact split
  have classes : (graph.resolved.withLineages lineages).classes.map (·.name) = graph.classes.map (·.name) := by
    rw [classes_withLineages, List.map_map]
    rfl
  have listed : ∀ name ∈ above, name ∈ (graph.resolved.withLineages lineages).classes.map (·.name) := by
    intro name inside
    rw [classes]
    apply ancestry_known distinct.classes complete found member
    apply Class.lineage_subset_ancestry
    simp [placed, inside]
  have order : (located lineages self).lineage.reverse.drop 1 = above := by simp [placed]
  rw [properAncestors, order, map_name_filterMap_class? listed]
  exact asks

end Order

/-! ### Where members come from -/

section Members

variable {α : Type} (graph : Graph) (own : Entity.Class → List α) (name : α → String)

/-- `ancestor` is above `heir` and declares a member of this name. -/
structure Offers (heir picked : String) (ancestor : Entity.Class) : Prop where
  listed : ancestor ∈ graph.classes
  above : TransGen graph.Base heir ancestor.name
  declared : picked ∈ (own ancestor).map name

/-- No class that offers the member is nearer. -/
def NearestOffer (heir picked : String) (source : Entity.Class) : Prop :=
  graph.Offers own name heir picked source ∧
    ∀ other, graph.Offers own name heir picked other →
      graph.distance heir source.name ≤ graph.distance heir other.name

/-- The class offers the member, and no class that is asked before it does. -/
structure FirstOffer (order : List String) (heir picked : String) (source : Entity.Class) : Prop where
  offers : graph.Offers own name heir picked source
  first : ∃ before after, order = before ++ source.name :: after ∧
    ∀ other, graph.Offers own name heir picked other → other.name ∉ before

/-- What a class takes from the classes above it, where some names are taken: one copy of every other member that they
offer, always from the first class that offers it. -/
structure TakesFirst (order : List String) (origin : α → Option String) (heir : String) (taken : List String)
    (inherited : List α) : Prop where
  nodup : (inherited.map name).Nodup
  mem_names : ∀ picked, picked ∈ inherited.map name ↔
    picked ∉ taken ∧ ∃ ancestor, graph.Offers own name heir picked ancestor
  sources : ∀ copy ∈ inherited, ∃ source, origin copy = some source.name ∧
    graph.FirstOffer own name order heir (name copy) source ∧
    (graph.NearestOffer own name heir (name copy) source ↔ ∀ other, graph.Offers own name heir (name copy) other →
      [source.name, other.name].Sublist order → graph.distance heir source.name ≤ graph.distance heir other.name) ∧
    (graph.Single heir → graph.NearestOffer own name heir (name copy) source)

end Members

/-- `heir` is `self` with its members as they were, but for being marked, and behind them what it takes from the
classes above it in the order in which it asks them. -/
structure AsksForMembers (graph : Graph) (self heir : Entity.Class) : Prop where
  name : heir.name = self.name
  takes : ∃ order, graph.resolved.hierarchy.Asks self.declaredBases order ∧
    (∃ inherited, heir.methods = self.methods.map (Function.mark heir.included) ++ inherited ∧
      graph.TakesFirst Class.ownMethods (·.name) order (·.inheritedFrom) self.name (self.methods.map (·.name))
        inherited) ∧
    ∃ inherited, heir.properties = self.properties.map (Property.mark heir.included) ++ inherited ∧
      graph.TakesFirst Class.ownProperties (·.name) order (·.inheritedFrom) self.name (self.properties.map (·.name))
        inherited

section Picked

variable {α : Type} {own : Entity.Class → List α} {name : α → String} {order : List String} {heir picked : String}
  {source : Entity.Class}

/-- Only a class that is asked later can be nearer than the first one. -/
theorem FirstOffer.nearest_iff
    (asked : ∀ other, TransGen graph.Base heir other → other ∈ order)
    (first : graph.FirstOffer own name order heir picked source) :
    graph.NearestOffer own name heir picked source ↔ ∀ other, graph.Offers own name heir picked other →
      [source.name, other.name].Sublist order → graph.distance heir source.name ≤ graph.distance heir other.name := by
  constructor
  · intro nearest other offers _
    exact nearest.2 other offers
  · intro later
    refine ⟨first.offers, fun other offers => ?_⟩
    obtain ⟨before, after, rfl, silent⟩ := first.first
    rcases List.mem_append.mp (asked other.name offers.above) with early | rest
    · exact absurd early (silent other offers)
    · rcases List.mem_cons.mp rest with same | behind
      · rw [same]
      · apply later other offers
        exact (List.Sublist.cons_cons _ (List.singleton_sublist.mpr behind)).trans (List.sublist_append_right _ _)

/-- With single bases the first class that offers a member is the nearest one. -/
theorem FirstOffer.nearest (single : graph.Single heir)
    (asked : ∀ other, TransGen graph.Base heir other → other ∈ order)
    (apart : order.Pairwise fun nearer farther => ¬ TransGen graph.Base farther nearer)
    (first : graph.FirstOffer own name order heir picked source) :
    graph.NearestOffer own name heir picked source := by
  refine (first.nearest_iff asked).mpr fun other offers behind => ?_
  have above : ¬ TransGen graph.Base other.name source.name := List.pairwise_pair.mp (apart.sublist behind)
  exact single.distance_le first.offers.above.to_reflTransGen offers.above.to_reflTransGen above

variable {lineages : Hierarchy.Lineages} {self : Entity.Class} {taken : List String} {copy : String × α → α}
  {origin : α → Option String}

/-- Picking from the ancestors in their order takes every member from the first class that offers it. -/
theorem takesFirst_pickNew (distinct : graph.Distinct) (complete : ¬ graph.LacksBase)
    (acyclic : ¬ ∃ name, TransGen graph.Base name name) (found : graph.resolved.hierarchy.lineages = .ok lineages)
    (member : self ∈ graph.classes) (kept : ∀ raw, own (located lineages raw) = own raw)
    (named : ∀ entry, name (copy entry) = name entry.2) (copied : ∀ entry, origin (copy entry) = some entry.1) :
    graph.TakesFirst own name
      (((graph.resolved.withLineages lineages).properAncestors (located lineages self)).map (·.name)) origin self.name
      taken ((pickNew name taken
        (((graph.resolved.withLineages lineages).properAncestors (located lineages self)).flatMap fun ancestor =>
          (own ancestor).map (ancestor.name, ·))).map copy) := by
  have above := mem_properAncestors_located_iff distinct acyclic found member
  have sorted := pairwise_properAncestors_located distinct found member
  generalize (graph.resolved.withLineages lineages).properAncestors (located lineages self) = ancestors at above sorted
  have apart : (ancestors.map (·.name)).Pairwise fun nearer farther => ¬ TransGen graph.Base farther nearer :=
    List.pairwise_map.mpr sorted
  have offered : ∀ picked, (∃ ancestor, graph.Offers own name self.name picked ancestor) ↔
      picked ∈ (ancestors.flatMap fun ancestor => (own ancestor).map (ancestor.name, ·)).map fun entry =>
        name entry.2 := by
    intro picked
    rw [List.map_flatMap, List.mem_flatMap]
    simp only [above, List.map_map, Function.comp_def]
    constructor
    · rintro ⟨raw, listed, derives, inside⟩
      exact ⟨_, ⟨raw, listed, rfl, derives⟩, (kept raw).symm ▸ inside⟩
    · rintro ⟨_, ⟨raw, listed, rfl, derives⟩, inside⟩
      exact ⟨raw, listed, derives, kept raw ▸ inside⟩
  have asked : ∀ other, TransGen graph.Base self.name other → other ∈ ancestors.map (·.name) := by
    intro other derives
    have known := above_known complete (List.mem_map_of_mem member) derives.to_reflTransGen
    obtain ⟨raw, listed, rfl⟩ := List.mem_map.mp known
    exact List.mem_map.mpr ⟨_, (above _).mpr ⟨raw, listed, rfl, derives⟩, rfl⟩
  constructor
  · simp only [List.map_map, Function.comp_def, named]
    exact nodup_pickNew
  · intro picked
    simp only [List.map_map, Function.comp_def, named]
    rw [mem_map_pickNew, offered]
  · intro inherited listed
    obtain ⟨⟨source, item⟩, chosen, rfl⟩ := List.mem_map.mp listed
    obtain ⟨nearer, owner, farther, split, rfl, inside, hidden⟩ := nearest_of_mem_pickNew chosen
    have present : owner ∈ ancestors := split ▸ List.mem_append_right _ List.mem_cons_self
    obtain ⟨raw, known, rfl, derives⟩ := (above _).mp present
    rw [kept] at inside
    have first : graph.FirstOffer own name (ancestors.map (·.name)) self.name (name item) raw := by
      refine ⟨⟨known, derives, List.mem_map_of_mem inside⟩, nearer.map (·.name), farther.map (·.name), ?_, ?_⟩
      · rw [split, List.map_append, List.map_cons]
        rfl
      · intro other offers early
        obtain ⟨asker, before, same⟩ := List.mem_map.mp early
        obtain ⟨source, listed, rfl, _⟩ := (above asker).mp (split ▸ List.mem_append_left _ before)
        obtain rfl := List.inj_on_of_nodup_map distinct.classes listed offers.listed same
        exact hidden _ before ((kept source).symm ▸ offers.declared)
    rw [named]
    exact ⟨raw, copied _, first, first.nearest_iff asked, fun single => first.nearest single asked apart⟩

end Picked

theorem asksForMembers_final {lineages : Hierarchy.Lineages} (distinct : graph.Distinct) (complete : ¬ graph.LacksBase)
    (acyclic : ¬ ∃ name, TransGen graph.Base name name)
    (found : graph.resolved.hierarchy.lineages = .ok lineages) {self : Entity.Class} (member : self ∈ graph.classes) :
    graph.AsksForMembers self (graph.final true lineages self) := by
  refine ⟨final_name self, _, asks_properAncestors distinct complete found member, ?_, ?_⟩
  · refine ⟨_, List.map_append, ?_⟩
    rw [inheritedMethods, List.map_map]
    exact takesFirst_pickNew distinct complete acyclic found member (fun _ => rfl) (fun _ => rfl) fun _ => rfl
  · refine ⟨_, List.map_append, ?_⟩
    rw [inheritedProperties, List.map_map]
    exact takesFirst_pickNew distinct complete acyclic found member (fun _ => rfl) (fun _ => rfl) fun _ => rfl

/-- Every class of a finalized graph takes a member that it lacks from the first class above it that declares the
member, in the order in which it asks them. This is the nearest one if no class at or above it has two bases. -/
theorem finalize_asks_in_order {final : Graph} {findings : List Diagnostic} (distinct : graph.Distinct)
    (success : graph.finalize true = (final, .ok findings)) :
    List.Forall₂ graph.AsksForMembers graph.classes final.classes := by
  obtain ⟨complete, acyclic⟩ := (exists_finalize_eq_ok_iff distinct true).mp ⟨final, findings, success⟩
  obtain ⟨lineages, found, rfl, _⟩ := finalWith_of_finalize distinct success
  rw [classes_finalWith, List.forall₂_map_right_iff, List.forall₂_same]
  intro self member
  exact asksForMembers_final distinct complete acyclic found member

end Graph

open DocWeave.Graph

/-- A class has two bases. The first declares a method, and the second inherits one of the same name. -/
def taxis : Manifest where
  module := { name := "taxis" }
  classes := [
    { name := "Vehicle", doc := "_CPP_: int wheels;",
      methods := [{ name := "honk", doc := "Blows the horn.\n_CPP_: return NULL;", arity := { params := 1 } }] },
    { name := "Car", bases := ["Vehicle"] },
    { name := "Radio", doc := "_CPP_: int volume;",
      methods := [{ name := "honk", doc := "Plays a sound.\n_CPP_: return NULL;", arity := { params := 1 } }] },
    { name := "Taxi", bases := ["Radio", "Car"] }]

theorem finalize_taxis : ∃ graph warnings final findings,
    ofManifest taxis = .ok (graph, warnings) ∧ graph.finalize true = (final, .ok findings) ∧
    graph.resolved.hierarchy = [("Vehicle", []), ("Car", ["Vehicle"]), ("Radio", []), ("Taxi", ["Radio", "Car"])] ∧
    (∃ radio ∈ graph.classes, radio.name = "Radio" ∧ "honk" ∈ radio.ownMethods.map (·.name)) ∧
    ∃ taxi ∈ final.classes, taxi.name = "Taxi" ∧
      taxi.methods.map (fun method => (method.name, method.inheritedFrom)) = [("honk", some "Vehicle")] := by
  have evaluated : (ofManifest taxis >>= fun built => (built.1.finalize true).2 >>= fun _ =>
      (.ok (decide (built.1.resolved.hierarchy =
          [("Vehicle", []), ("Car", ["Vehicle"]), ("Radio", []), ("Taxi", ["Radio", "Car"])]) &&
        (built.1.classes.any fun radio => radio.name = "Radio" ∧ "honk" ∈ radio.ownMethods.map (·.name)) &&
        (built.1.finalize true).1.classes.any fun taxi => taxi.name = "Taxi" ∧
          taxi.methods.map (fun method => (method.name, method.inheritedFrom)) = [("honk", some "Vehicle")]) :
        Except Fault Bool)) = .ok true := by decide +kernel
  obtain ⟨⟨graph, warnings⟩, built, evaluated⟩ := bind_eq_ok.mp evaluated
  obtain ⟨findings, finalized, evaluated⟩ := bind_eq_ok.mp evaluated
  obtain ⟨declares, copies⟩ := Bool.and_eq_true_iff.mp (Except.ok.inj evaluated)
  obtain ⟨hierarchy, declares⟩ := Bool.and_eq_true_iff.mp declares
  obtain ⟨radio, known, declared⟩ := List.any_eq_true.mp declares
  obtain ⟨taxi, listed, sources⟩ := List.any_eq_true.mp copies
  exact ⟨graph, warnings, _, findings, built, Prod.ext rfl finalized, of_decide_eq_true hierarchy,
    ⟨radio, known, of_decide_eq_true declared⟩, taxi, listed, of_decide_eq_true sources⟩

/-- The class takes the method from a base of its second base, although its first base declares it. -/
theorem taxis_take_farther : ∃ graph warnings final findings,
    ofManifest taxis = .ok (graph, warnings) ∧ graph.finalize true = (final, .ok findings) ∧
    (∃ taxi ∈ final.classes, taxi.name = "Taxi" ∧
      taxi.methods.map (fun method => (method.name, method.inheritedFrom)) = [("honk", some "Vehicle")]) ∧
    (∃ radio, radio.name = "Radio" ∧ graph.Offers Class.ownMethods (·.name) "Taxi" "honk" radio) ∧
    graph.distance "Taxi" "Radio" = 1 ∧ graph.distance "Taxi" "Vehicle" = 2 := by
  obtain ⟨graph, warnings, final, findings, built, success, hierarchy, ⟨radio, known, name, declared⟩, copies⟩ :=
    finalize_taxis
  have base : ∀ heir base, graph.Base heir base ↔
      heir = "Car" ∧ base = "Vehicle" ∨ heir = "Taxi" ∧ (base = "Radio" ∨ base = "Car") := by
    intro heir base
    rw [← hierarchy_resolved_base, Hierarchy.Base, hierarchy]
    simp [or_and_right, exists_or, and_assoc]
  have radioAbove : graph.Base "Taxi" "Radio" := (base _ _).mpr (by simp)
  refine ⟨graph, warnings, final, findings, built, success, copies, ⟨radio, name, known, ?_, declared⟩, ?_, ?_⟩
  · rw [name]
    exact .single radioAbove
  · have path : graph.Links 1 "Taxi" "Radio" := ⟨"Radio", radioAbove, rfl⟩
    refine distance_eq path fun fewer less shorter => ?_
    obtain rfl : fewer = 0 := by omega
    simp [Links] at shorter
  · have path : graph.Links 2 "Taxi" "Vehicle" :=
      ⟨"Car", (base _ _).mpr (by simp), "Vehicle", (base _ _).mpr (by simp), rfl⟩
    refine distance_eq path fun fewer less shorter => ?_
    obtain rfl | rfl : fewer = 0 ∨ fewer = 1 := by omega
    · simp [Links] at shorter
    · simp [Links, base] at shorter

theorem order_of_taxis : ∃ graph warnings final findings,
    ofManifest taxis = .ok (graph, warnings) ∧ graph.finalize true = (final, .ok findings) ∧
    List.Forall₂ graph.AsksForMembers graph.classes final.classes := by
  obtain ⟨graph, warnings, final, findings, built, success, _⟩ := finalize_taxis
  obtain ⟨_, distinct, _⟩ := reads_of_ofManifest built
  exact ⟨graph, warnings, final, findings, built, success, finalize_asks_in_order distinct success⟩

end DocWeave
