import DocWeave.Manifest.Check
import DocWeave.Proofs.Entity.Inheritance
import DocWeave.Proofs.Pipeline.Lints

/-!
# Names of inherited members

A class inherits the methods whose names none of its methods has, and the properties whose names none of its
properties has. So methods stay apart and properties stay apart. A method and a property of one name meet exactly if
they are declared by two classes of one lineage.
-/

namespace DocWeave

open Entity Relation

namespace Graph

/-- Some class that is called `heir`, or that is above it, has a method of this name. -/
def DeclaresMethod (graph : Graph) (heir name : String) : Prop :=
  ∃ ancestor ∈ graph.classes, ReflTransGen graph.Base heir ancestor.name ∧ name ∈ ancestor.methods.map (·.name)

def DeclaresProperty (graph : Graph) (heir name : String) : Prop :=
  ∃ ancestor ∈ graph.classes, ReflTransGen graph.Base heir ancestor.name ∧ name ∈ ancestor.properties.map (·.name)

section Names

variable {graph : Graph} {lineages : Hierarchy.Lineages} {self : Entity.Class}

theorem methodNames_final : (graph.final true lineages self).methods.map (·.name) =
    self.methods.map (·.name) ++ (pickNew (·.name) (self.methods.map (·.name))
      (((graph.resolved.withLineages lineages).properAncestors (located lineages self)).flatMap fun ancestor =>
        ancestor.ownMethods.map (ancestor.name, ·))).map fun entry => entry.2.name := by
  simp only [final, Class.mark, heir, if_true, List.map_map, List.map_append, inheritedMethods]
  rfl

theorem propertyNames_final : (graph.final true lineages self).properties.map (·.name) =
    self.properties.map (·.name) ++ (pickNew (·.name) (self.properties.map (·.name))
      (((graph.resolved.withLineages lineages).properAncestors (located lineages self)).flatMap fun ancestor =>
        ancestor.ownProperties.map (ancestor.name, ·))).map fun entry => entry.2.name := by
  simp only [final, Class.mark, heir, if_true, List.map_map, List.map_append, inheritedProperties]
  rfl

theorem nodup_methodNames_final (graph : Graph) (lineages : Hierarchy.Lineages) (inheriting : Bool)
    (own : (self.methods.map (·.name)).Nodup) :
    ((graph.final inheriting lineages self).methods.map (·.name)).Nodup := by
  cases inheriting with
  | false => simpa [final, heir, located, withBases, Class.mark, Function.mark, Function.comp_def] using own
  | true =>
    rw [methodNames_final]
    exact nodup_append_pickNew own

theorem nodup_propertyNames_final (graph : Graph) (lineages : Hierarchy.Lineages) (inheriting : Bool)
    (own : (self.properties.map (·.name)).Nodup) :
    ((graph.final inheriting lineages self).properties.map (·.name)).Nodup := by
  cases inheriting with
  | false => simpa [final, heir, located, withBases, Class.mark, Property.mark, Function.comp_def] using own
  | true =>
    rw [propertyNames_final]
    exact nodup_append_pickNew own

/-- What a class has itself or takes from its ancestors is what the classes above it have. -/
theorem mem_own_or_ancestors (distinct : graph.Distinct) (found : graph.resolved.hierarchy.lineages = .ok lineages)
    (member : self ∈ graph.classes) (names : Entity.Class → List String)
    (blind : ∀ raw, names (located lineages raw) = names raw) (name : String) :
    name ∈ names self ∨
        name ∈ ((graph.resolved.withLineages lineages).properAncestors (located lineages self)).flatMap names ↔
      ∃ ancestor ∈ graph.classes, ReflTransGen graph.Base self.name ancestor.name ∧ name ∈ names ancestor := by
  simp only [List.mem_flatMap, mem_properAncestors_located distinct found member]
  constructor
  · rintro (own | ⟨_, ⟨raw, listed, rfl, _, above⟩, inside⟩)
    · exact ⟨self, member, .refl, own⟩
    · exact ⟨raw, listed, above, blind raw ▸ inside⟩
  · rintro ⟨ancestor, listed, above, inside⟩
    by_cases same : ancestor.name = self.name
    · have own : some ancestor = some self := by
        rw [← class?_of_mem distinct.classes listed, same, class?_of_mem distinct.classes member]
      cases own
      exact .inl inside
    · exact .inr ⟨_, ⟨ancestor, listed, rfl, same, above⟩, (blind ancestor).symm ▸ inside⟩

theorem mem_methodNames_final (distinct : graph.Distinct) (raw : graph.Raw)
    (found : graph.resolved.hierarchy.lineages = .ok lineages) (member : self ∈ graph.classes) (name : String) :
    name ∈ (graph.final true lineages self).methods.map (·.name) ↔ graph.DeclaresMethod self.name name := by
  have own : ∀ self ∈ graph.classes, self.ownMethods.map (·.name) = self.methods.map (·.name) := by
    intro self listed
    rw [Class.ownMethods, List.filter_eq_self.mpr]
    intro method inside
    rw [(raw self listed).1 method inside]
    rfl
  have reached := mem_own_or_ancestors distinct found member (fun self => self.ownMethods.map (·.name))
    (fun _ => rfl) name
  rw [own self member] at reached
  rw [methodNames_final, mem_append_pickNew, List.map_flatMap]
  simp only [List.map_map]
  apply reached.trans
  apply exists_congr
  intro ancestor
  apply and_congr_right
  intro listed
  rw [own ancestor listed]

theorem mem_propertyNames_final (distinct : graph.Distinct) (raw : graph.Raw)
    (found : graph.resolved.hierarchy.lineages = .ok lineages) (member : self ∈ graph.classes) (name : String) :
    name ∈ (graph.final true lineages self).properties.map (·.name) ↔ graph.DeclaresProperty self.name name := by
  have own : ∀ self ∈ graph.classes, self.ownProperties.map (·.name) = self.properties.map (·.name) := by
    intro self listed
    rw [Class.ownProperties, List.filter_eq_self.mpr]
    intro property inside
    rw [(raw self listed).2 property inside]
    rfl
  have reached := mem_own_or_ancestors distinct found member (fun self => self.ownProperties.map (·.name))
    (fun _ => rfl) name
  rw [own self member] at reached
  rw [propertyNames_final, mem_append_pickNew, List.map_flatMap]
  simp only [List.map_map]
  apply reached.trans
  apply exists_congr
  intro ancestor
  apply and_congr_right
  intro listed
  rw [own ancestor listed]

end Names

end Graph

open DocWeave.Graph

theorem Entity.Reader.ReadsClass.memberNames {reader : Reader} {warnings : List Diagnostic}
    {record : Manifest.ClassRecord} {self : Entity.Class} (reads : reader.ReadsClass warnings record self) :
    record.methods.map (·.name) ++ record.properties.map (·.name) =
      self.methods.map (·.name) ++ self.properties.map (·.name) := by
  have methods : record.methods.map (·.name) = self.methods.map (·.name) :=
    map_eq_map_of_forall₂ reads.methods fun _ _ method => method.name.symm
  have properties : record.properties.map (·.name) = self.properties.map (·.name) :=
    map_eq_map_of_forall₂ reads.properties fun _ _ property => property.name.symm
  rw [methods, properties]

/-- The lints tell the members of every class apart. -/
theorem Graph.Reads.nodup_memberNames {manifest : Manifest} {warnings : List Diagnostic} {graph : Graph}
    (reads : graph.Reads manifest warnings) (distinct : manifest.Distinct) {self : Entity.Class}
    (member : self ∈ graph.classes) : (self.methods.map (·.name) ++ self.properties.map (·.name)).Nodup := by
  obtain ⟨record, recorded, read⟩ := exists_of_forall₂_right reads.classes member
  rw [← read.memberNames]
  exact distinct.members record recorded

/-- In a finalized graph the methods of a class have different names, and so have its properties. A method and a
property have the same name exactly if the lineage of the class declares it as both. -/
theorem finalize_member_names {manifest : Manifest} (unique : Lint.duplicateEntity.check manifest = [])
    {graph final : Graph} {warnings findings : List Diagnostic} (built : ofManifest manifest = .ok (graph, warnings))
    (success : graph.finalize true = (final, .ok findings)) : ∀ self ∈ final.classes,
    (self.methods.map (·.name)).Nodup ∧ (self.properties.map (·.name)).Nodup ∧
    ((self.methods.map (·.name) ++ self.properties.map (·.name)).Nodup ↔
      ∀ name, ¬ (graph.DeclaresMethod self.name name ∧ graph.DeclaresProperty self.name name)) := by
  obtain ⟨reads, distinct, _⟩ := reads_of_ofManifest built
  obtain ⟨lineages, found, rfl, _⟩ := finalWith_of_finalize distinct success
  intro self listed
  rw [classes_finalWith] at listed
  obtain ⟨raw, member, rfl⟩ := List.mem_map.mp listed
  have clean : Lint.Clean (Lint.duplicateEntity.check manifest) := by
    rw [unique]
    exact List.forall_mem_nil _
  have own := reads.nodup_memberNames (Lint.clean_duplicateEntity_iff.mp clean) member
  have methods := nodup_methodNames_final graph lineages true own.of_append_left
  have properties := nodup_propertyNames_final graph lineages true own.of_append_right
  refine ⟨methods, properties, ?_⟩
  rw [List.nodup_append', List.disjoint_left, final_name]
  simp only [mem_methodNames_final distinct reads.raw found member,
    mem_propertyNames_final distinct reads.raw found member, methods, properties, true_and, not_and]

/-- A method in one class, and a property of the same name in a class that inherits from it. -/
def gaugesText : String :=
  "[module]
name = \"gauges\"
[[classes]]
name = \"Gauge\"
doc = \"_CPP_: int level;\"
[[classes.methods]]
name = \"value\"
params = 1
doc = \"_CPP_: return NULL;\"
[[classes]]
name = \"Dial\"
bases = [\"Gauge\"]
[[classes.properties]]
name = \"value\"
doc = \"_CPP_: return NULL;\""

def gauges : Manifest where
  module := { name := "gauges" }
  classes := [
    { name := "Gauge", doc := "_CPP_: int level;",
      methods := [{ name := "value", doc := "_CPP_: return NULL;", arity := { params := 1 } }] },
    { name := "Dial", bases := ["Gauge"], properties := [{ name := "value", doc := "_CPP_: return NULL;" }] }]

/-- The text is accepted. Its characters are taken from the literal as a whole, which is faster than decoding them. -/
theorem parse_gauges : Manifest.parse "gauges.toml" gaugesText = .ok gauges := by
  have characters : gaugesText.toList = _ := (String.toList_ofList : (String.ofList _).toList = _)
  have read : (Toml.read? gaugesText).bind Manifest.Decode.manifest = some gauges := by
    rw [Toml.read?, characters]
    decide +kernel
  rw [Manifest.parse, read]
  decide +kernel

/-- The graph is finalized, and one of its classes has a method and a property of one name. -/
theorem finalize_gauges : ∃ graph warnings final findings,
    ofManifest gauges = .ok (graph, warnings) ∧ graph.finalize true = (final, .ok findings) ∧
    ∃ self ∈ final.classes, self.name = "Dial" ∧
      ¬ (self.methods.map (·.name) ++ self.properties.map (·.name)).Nodup := by
  have evaluated : (ofManifest gauges >>= fun built => (built.1.finalize true).2 >>= fun _ =>
      (.ok ((built.1.finalize true).1.classes.any fun self =>
        self.name = "Dial" ∧ ¬ (self.methods.map (·.name) ++ self.properties.map (·.name)).Nodup) :
        Except Fault Bool)) = .ok true := by decide +kernel
  obtain ⟨⟨graph, warnings⟩, built, evaluated⟩ := bind_eq_ok.mp evaluated
  obtain ⟨findings, finalized, evaluated⟩ := bind_eq_ok.mp evaluated
  obtain ⟨self, listed, both⟩ := List.any_eq_true.mp (Except.ok.inj evaluated)
  exact ⟨graph, warnings, _, findings, built, Prod.ext rfl finalized, self, listed, of_decide_eq_true both⟩

/-- The property does not keep the method from being inherited. -/
theorem gauges_meet : Manifest.parse "gauges.toml" gaugesText = .ok gauges ∧
    Lint.duplicateEntity.check gauges = [] ∧ ∃ graph warnings final findings,
      ofManifest gauges = .ok (graph, warnings) ∧ graph.finalize true = (final, .ok findings) ∧
      ∃ self ∈ final.classes, self.name = "Dial" ∧
        ¬ (self.methods.map (·.name) ++ self.properties.map (·.name)).Nodup :=
  ⟨parse_gauges, by decide +kernel, finalize_gauges⟩

theorem names_of_gauges : ∃ graph warnings final findings,
    ofManifest gauges = .ok (graph, warnings) ∧ graph.finalize true = (final, .ok findings) ∧
    ∀ self ∈ final.classes, (self.methods.map (·.name)).Nodup ∧ (self.properties.map (·.name)).Nodup := by
  obtain ⟨graph, warnings, final, findings, built, success, _⟩ := finalize_gauges
  refine ⟨graph, warnings, final, findings, built, success, ?_⟩
  intro self listed
  have unique := finalize_member_names (by decide +kernel) built success self listed
  exact ⟨unique.1, unique.2.1⟩

end DocWeave
