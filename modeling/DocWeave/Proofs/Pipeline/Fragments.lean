import DocWeave.Proofs.Pipeline.Phases
import DocWeave.Proofs.Render.Emission

/-!
# What becomes of a fragment

A run that succeeds loses no code. The fragment behind each marker is emitted, or it is set aside for an earlier
one with its key, or it belongs to a member of a class that is not exported. The last two give a warning.
-/

namespace DocWeave

open Compilation Entity Relation Render Text

/-- The texts of the members of a class. -/
def Entity.Reader.documentedMembers (reader : Reader) (record : Manifest.ClassRecord) :
    List (Documentation.Subject × String) :=
  record.methods.map (fun method => (reader.functionSubject (some record.name) method, method.doc))
    ++ record.properties.map fun property => (reader.propertySubject record.name property, property.doc)

/-- There is a warning of the phase about the entity. -/
def Warned (diagnostics : List Diagnostic) (phase entity : String) : Prop :=
  ∃ warning ∈ diagnostics, warning.severity = .warning ∧ warning.phase = phase ∧ warning.location = some entity

section Fate

variable (manifest : Manifest) (final : Graph) (options : Options) (artifacts : Artifacts)
  (diagnostics : List Diagnostic) (subject : Documentation.Subject) (doc : String) (marker : Marker)

/-- The fragment behind the marker is kept, its entity is exported, and the expanded code is emitted. -/
def Emitted : Prop :=
  ∃ documentation fragment site body,
    Documentation.parse manifest.settings.marker subject doc = .ok documentation ∧
    fragment ∈ documentation.fragments ∧ fragment.marker = marker.span ∧
    Exports final subject doc documentation.fragments site ∧
    ({ graph := final, options } : Context).scope.expand (site fragment) fragment.body = .ok body ∧
    Emits (artifacts.buffer fragment.key).toList body.toList

/-- The key of the fragment behind the marker is taken, and a warning tells so. -/
def SetAside : Prop :=
  ∃ documentation fragment,
    Documentation.parse manifest.settings.marker subject doc = .ok documentation ∧
    fragment ∈ documentation.repeats ∧ fragment.marker = marker.span ∧
    fragment.key ∈ documentation.fragments.map Fragment.key ∧ Warned diagnostics "parse" subject.name

/-- The text documents a member of a class. Neither the class nor an ancestor has a fragment, and a warning
tells so. -/
def Orphaned : Prop :=
  ∃ record ∈ manifest.classes, (subject, doc) ∈ (Graph.reader manifest).documentedMembers record ∧
    (∀ ancestor ∈ final.classes, ReflTransGen final.Base record.name ancestor.name → ancestor.fragments = []) ∧
    Warned diagnostics "finalize" record.name

end Fate

namespace Completes

variable {manifest : Manifest} {outputName : Option String} {raw final : Graph} {repeats found : List Diagnostic}
  {artifacts : Artifacts} {state : Compilation}
  (completes : Completes manifest outputName raw final repeats found artifacts state)

include completes

theorem reads : raw.Reads manifest repeats := (Graph.reads_of_ofManifest completes.built).1

theorem distinct : raw.Distinct := (Graph.reads_of_ofManifest completes.built).2.1

theorem sourced : final.Sourced manifest := by
  obtain ⟨lineages, _, rfl, _⟩ := Graph.finalWith_of_finalize completes.distinct completes.finalized
  exact (Graph.sourced_of_reads completes.reads).finalWith _ lineages

theorem storedLineage {self : Entity.Class} (member : self ∈ final.classes) : final.StoredLineage self := by
  obtain ⟨lineages, known, rfl, _⟩ := Graph.finalWith_of_finalize completes.distinct completes.finalized
  exact Graph.storedLineage_finalWith completes.distinct _ known member

theorem names : (final.classes.map (·.name)).Nodup := by
  obtain ⟨lineages, _, rfl, _⟩ := Graph.finalWith_of_finalize completes.distinct completes.finalized
  rw [Graph.map_finalWith_classes (·.name) raw (fun _ _ _ _ => rfl)]
  exact completes.distinct.classes

theorem name_mem_ancestry {self : Entity.Class} (member : self ∈ final.classes) : self.name ∈ self.ancestry := by
  unfold Class.ancestry
  split
  · exact List.mem_singleton_self _
  · exact List.mem_of_getLast? (completes.storedLineage member).last

/-- A class is left out only if no ancestor has a fragment. -/
theorem fragments_eq_nil {self : Entity.Class} (member : self ∈ final.classes)
    (left : final.hasEffective self = false) {ancestor : Entity.Class} (listed : ancestor ∈ final.classes)
    (above : ReflTransGen final.Base self.name ancestor.name) : ancestor.fragments = [] := by
  rw [Graph.hasEffective_eq_false completes.names (completes.storedLineage member)] at left
  exact left ancestor listed above

theorem warned_of_orphansMembers {self : Entity.Class} (member : self ∈ final.classes)
    (orphans : self.orphansMembers = true) : Warned state.diagnostics "finalize" self.name := by
  obtain ⟨lineages, _, _, rfl⟩ := Graph.finalWith_of_finalize completes.distinct completes.finalized
  have told : ⟨.warning, "finalize", "class '" ++ self.name
      ++ "' has no fragments, so its annotated members are not exported", some self.name⟩ ∈ self.findings := by
    unfold Class.findings
    simp [orphans]
  have kept : self.findings ⊆ state.diagnostics := by
    intro finding inside
    rw [completes.diagnostics]
    exact List.mem_append_right _ (List.mem_append_right _ (List.mem_flatMap_of_mem member inside))
  exact ⟨_, kept told, rfl, rfl, rfl⟩

/-- The three ways for a text whose entity is exported, or else orphaned, once it has a fragment. -/
theorem account {subject : Documentation.Subject} {doc : String} {fragments : List Fragment}
    (reads : (Graph.reader manifest).Reads repeats subject doc fragments)
    (fate : fragments ≠ [] → (∃ site, Exports final subject doc fragments site) ∨
      Orphaned manifest final state.diagnostics subject doc)
    {marker : Marker} (member : marker ∈ Marker.all manifest.settings.marker doc.toList) :
    Emitted manifest final (Options.ofSettings (outputName.getD manifest.module.name) manifest.settings)
        artifacts subject doc marker ∨
      SetAside manifest state.diagnostics subject doc marker ∨
      Orphaned manifest final state.diagnostics subject doc := by
  obtain ⟨documentation, parsed, rfl, warned⟩ := reads
  obtain ⟨fragment, either, place⟩ := Documentation.exists_fragment_of_parse parsed marker member
  rcases List.mem_append.mp either with kept | repeated
  · rcases fate (List.ne_nil_of_mem kept) with ⟨site, exported⟩ | orphaned
    · obtain ⟨body, expanded, emitted⟩ := emits_of_render completes.sourced completes.names
        (fun _ listed => completes.name_mem_ancestry listed) completes.rendered exported kept
      exact .inl ⟨documentation, fragment, site, body, parsed, kept, place, exported, expanded, emitted⟩
    · exact .inr (.inr orphaned)
  · have taken := (Documentation.keyed_of_parse parsed).taken fragment repeated
    have listed : Reader.repeated subject fragment ∈ state.diagnostics := by
      rw [completes.diagnostics]
      exact List.mem_append_left _ (List.mem_append_right _ (warned fragment repeated))
    exact .inr (.inl ⟨documentation, fragment, parsed, repeated, place, taken, _, listed, rfl, rfl, rfl⟩)

/-! ### The records one by one -/

theorem exports_module : ∃ site,
    Exports final ((Graph.reader manifest).moduleSubject manifest.module) manifest.module.doc
      raw.module.fragments site := by
  obtain ⟨lineages, _, rfl, _⟩ := Graph.finalWith_of_finalize completes.distinct completes.finalized
  have exported : Exports (raw.finalWith manifest.settings.inheritMembers lineages) _ _ _ _ := .module
  have read := completes.reads.module
  rw [Graph.module_finalWith, read.name, read.doc, read.position] at exported
  exact ⟨_, exported⟩

theorem exports_function {record : Manifest.FunctionRecord} {function : Entity.Function}
    (member : function ∈ raw.functions)
    (read : (Graph.reader manifest).ReadsFunction repeats none record function)
    (coded : function.fragments ≠ []) : ∃ site,
    Exports final ((Graph.reader manifest).functionSubject none record) record.doc function.fragments site := by
  obtain ⟨lineages, _, rfl, _⟩ := Graph.finalWith_of_finalize completes.distinct completes.finalized
  have listed : function.mark true ∈
      (raw.finalWith manifest.settings.inheritMembers lineages).includedFunctions := by
    refine List.mem_filter.mpr ⟨?_, by simpa [Function.mark] using coded⟩
    rw [Graph.functions_finalWith]
    exact List.mem_map_of_mem member
  have exported := Exports.function listed
  simp only [Function.mark, read.qualifiedName, read.doc, read.position] at exported
  exact ⟨_, exported⟩

/-- What finalizing made of a class. -/
theorem exists_final {old : Entity.Class} (member : old ∈ raw.classes) :
    ∃ lineages, raw.final manifest.settings.inheritMembers lineages old ∈ final.classes ∧
      (raw.final manifest.settings.inheritMembers lineages old).included =
        final.hasEffective (raw.final manifest.settings.inheritMembers lineages old) := by
  obtain ⟨lineages, _, rfl, _⟩ := Graph.finalWith_of_finalize completes.distinct completes.finalized
  refine ⟨lineages, ?_, Graph.included_final old⟩
  rw [Graph.classes_finalWith]
  exact List.mem_map_of_mem member

theorem exports_class {record : Manifest.ClassRecord} {old : Entity.Class} (member : old ∈ raw.classes)
    (read : (Graph.reader manifest).ReadsClass repeats record old) (coded : old.fragments ≠ []) :
    ∃ site, Exports final ((Graph.reader manifest).classSubject record) record.doc old.fragments site := by
  obtain ⟨lineages, listed, included⟩ := completes.exists_final member
  have own : raw.final manifest.settings.inheritMembers lineages old ∈
      final.lineageClasses (raw.final manifest.settings.inheritMembers lineages old) :=
    List.mem_filterMap.mpr ⟨_, completes.name_mem_ancestry listed, Graph.class?_of_mem completes.names listed⟩
  have effective : final.hasEffective (raw.final manifest.settings.inheritMembers lineages old) = true :=
    List.any_eq_true.mpr ⟨_, own, by simpa using coded⟩
  have exported := Exports.class (List.mem_filter.mpr ⟨listed, included.trans effective⟩)
  rw [Graph.final_name, Graph.final_doc, Graph.final_position, Graph.final_fragments, read.name, read.doc,
    read.position] at exported
  exact ⟨_, exported⟩

/-- A class that is left out although a member has code. -/
theorem orphaned_of_member {record : Manifest.ClassRecord} {new : Entity.Class} {subject : Documentation.Subject}
    {doc : String} (known : record ∈ manifest.classes) (listed : new ∈ final.classes) (name : new.name = record.name)
    (left : new.included = false) (ineffective : final.hasEffective new = false)
    (documented : (subject, doc) ∈ (Graph.reader manifest).documentedMembers record)
    (annotated : (new.methods.any (!·.fragments.isEmpty) || new.properties.any (·.annotated)) = true) :
    Orphaned manifest final state.diagnostics subject doc := by
  refine ⟨record, known, documented, ?_, ?_⟩
  · intro ancestor above path
    rw [← name] at path
    exact completes.fragments_eq_nil listed ineffective above path
  · rw [← name]
    apply completes.warned_of_orphansMembers listed
    rw [Class.orphansMembers, left, annotated]
    rfl

theorem fate_of_method {record : Manifest.ClassRecord} {old : Entity.Class} (known : record ∈ manifest.classes)
    (member : old ∈ raw.classes) (read : (Graph.reader manifest).ReadsClass repeats record old)
    {entry : Manifest.FunctionRecord} (documented : entry ∈ record.methods) {method : Entity.Function}
    (declared : method ∈ old.methods)
    (methodRead : (Graph.reader manifest).ReadsFunction repeats (some record.name) entry method)
    (code : method.fragments ≠ []) :
    (∃ site, Exports final ((Graph.reader manifest).functionSubject (some record.name) entry) entry.doc
        method.fragments site) ∨
      Orphaned manifest final state.diagnostics
        ((Graph.reader manifest).functionSubject (some record.name) entry) entry.doc := by
  obtain ⟨lineages, listed, included⟩ := completes.exists_final member
  have marked := Graph.mark_mem_methods_final raw manifest.settings.inheritMembers lineages declared
  generalize shape : raw.final manifest.settings.inheritMembers lineages old = new at listed included marked
  have name : new.name = record.name := by rw [← shape, Graph.final_name, read.name]
  by_cases exported : new.included = true
  · have fine : method.mark new.included ∈ new.includedMethods :=
      List.mem_filter.mpr ⟨marked, by simpa [Function.mark, exported] using code⟩
    have exporting := Exports.method (List.mem_filter.mpr ⟨listed, exported⟩) fine
    simp only [Function.mark, methodRead.qualifiedName, methodRead.doc, methodRead.position] at exporting
    exact .inl ⟨_, exporting⟩
  · have left : new.included = false := by simpa using exported
    refine .inr (completes.orphaned_of_member known listed name left (included ▸ left) ?_ ?_)
    · exact List.mem_append_left _ (List.mem_map.mpr ⟨entry, documented, rfl⟩)
    · rw [Bool.or_eq_true, List.any_eq_true]
      exact .inl ⟨_, marked, by simpa [Function.mark] using code⟩

theorem fate_of_property {record : Manifest.ClassRecord} {old : Entity.Class} (known : record ∈ manifest.classes)
    (member : old ∈ raw.classes) (read : (Graph.reader manifest).ReadsClass repeats record old)
    {entry : Manifest.PropertyRecord} (documented : entry ∈ record.properties) {property : Entity.Property}
    (declared : property ∈ old.properties)
    (propertyRead : (Graph.reader manifest).ReadsProperty repeats record.name entry property)
    (code : property.fragments ≠ []) :
    (∃ site, Exports final ((Graph.reader manifest).propertySubject record.name entry) entry.doc
        property.fragments site) ∨
      Orphaned manifest final state.diagnostics ((Graph.reader manifest).propertySubject record.name entry)
        entry.doc := by
  obtain ⟨lineages, listed, included⟩ := completes.exists_final member
  have marked := Graph.mark_mem_properties_final raw manifest.settings.inheritMembers lineages declared
  generalize shape : raw.final manifest.settings.inheritMembers lineages old = new at listed included marked
  have annotated : (property.mark new.included).annotated = true := by
    obtain ⟨fragment, own⟩ := List.exists_mem_of_ne_nil _ code
    have holds := (completes.sourced.classes new listed).properties _ marked
    rcases accesses_of_mem holds own with ⟨_, found⟩ | ⟨_, found⟩ <;> simp [Property.annotated, found]
  have name : new.name = record.name := by rw [← shape, Graph.final_name, read.name]
  by_cases exported : new.included = true
  · have fine : property.mark new.included ∈ new.includedProperties := by
      refine List.mem_filter.mpr ⟨marked, ?_⟩
      exact Bool.and_eq_true_iff.mpr ⟨exported, annotated⟩
    have exporting := Exports.property (List.mem_filter.mpr ⟨listed, exported⟩) fine
    simp only [Property.mark, propertyRead.qualifiedName, propertyRead.doc, propertyRead.position] at exporting
    exact .inl ⟨_, exporting⟩
  · have left : new.included = false := by simpa using exported
    refine .inr (completes.orphaned_of_member known listed name left (included ▸ left) ?_ ?_)
    · exact List.mem_append_right _ (List.mem_map.mpr ⟨entry, documented, rfl⟩)
    · rw [Bool.or_eq_true, List.any_eq_true, List.any_eq_true]
      exact .inr ⟨_, marked, annotated⟩

end Completes

/-- Behind every marker of a documented text stands code that is emitted, set aside or orphaned. -/
theorem compile_accounts_for_fragments {manifest : Manifest} {outputName : Option String} {state : Compilation}
    (success : (({} : Pipeline Id).compile manifest outputName : Outcome) = (.ok (), state)) :
    ∃ final artifacts, state.graph = some final ∧ state.artifacts = some artifacts ∧
      ∀ subject doc, (subject, doc) ∈ (Graph.reader manifest).documented manifest →
      ∀ marker ∈ Marker.all manifest.settings.marker doc.toList,
        Emitted manifest final (Options.ofSettings (outputName.getD manifest.module.name) manifest.settings)
            artifacts subject doc marker ∨
          SetAside manifest state.diagnostics subject doc marker ∨
          Orphaned manifest final state.diagnostics subject doc := by
  obtain ⟨raw, final, repeats, found, artifacts, completes⟩ := completes_of_compile success
  refine ⟨final, artifacts, completes.graph, completes.artifacts, ?_⟩
  intro subject doc documented marker member
  simp only [Reader.documented, List.cons_append, List.mem_cons, List.mem_append, List.mem_map, List.mem_flatMap,
    Prod.mk.injEq] at documented
  rcases documented with ⟨rfl, rfl⟩ | ⟨record, known, rfl, rfl⟩ | ⟨record, known, inside⟩
  · exact completes.account completes.reads.module.reads (fun _ => .inl completes.exports_module) member
  · obtain ⟨function, listed, read⟩ := exists_of_forall₂_left completes.reads.functions known
    exact completes.account read.reads (fun some => .inl (completes.exports_function listed read some)) member
  · obtain ⟨old, listed, read⟩ := exists_of_forall₂_left completes.reads.classes known
    simp only [Reader.documentedClass, List.cons_append, List.mem_cons, List.mem_append, List.mem_map,
      Prod.mk.injEq] at inside
    rcases inside with ⟨rfl, rfl⟩ | ⟨entry, documented, rfl, rfl⟩ | ⟨entry, documented, rfl, rfl⟩
    · exact completes.account read.reads (fun some => .inl (completes.exports_class listed read some)) member
    · obtain ⟨method, declared, methodRead⟩ := exists_of_forall₂_left read.methods documented
      exact completes.account methodRead.reads
        (completes.fate_of_method known listed read documented declared methodRead) member
    · obtain ⟨property, declared, propertyRead⟩ := exists_of_forall₂_left read.properties documented
      exact completes.account propertyRead.reads
        (completes.fate_of_property known listed read documented declared propertyRead) member

/-- A module with a header, a function with a second body, and a class whose only code is that of a method. -/
def shapes : Manifest where
  module := { name := "shapes", doc := "_CPP_(header):\n    enum Form \x7b FLAT \x7d;" }
  functions := [{ name := "area", doc := "_CPP_:\n    return NULL;\n_CPP_:\n    return self;" }]
  classes := [{ name := "Shape", methods :=
    [{ name := "grow", doc := "_CPP_:\n    return self;", arity := { params := 1 } }] }]

theorem fragments_of_shapes :
    (({} : Pipeline Id).compile shapes none).1 = .ok () ∧
    ∃ final artifacts, (({} : Pipeline Id).compile shapes none).2.graph = some final ∧
      (({} : Pipeline Id).compile shapes none).2.artifacts = some artifacts ∧
      ∀ subject doc, (subject, doc) ∈ (Graph.reader shapes).documented shapes →
      ∀ marker ∈ Marker.all shapes.settings.marker doc.toList,
        Emitted shapes final (Options.ofSettings "shapes" shapes.settings) artifacts subject doc marker ∨
          SetAside shapes (({} : Pipeline Id).compile shapes none).2.diagnostics subject doc marker ∨
          Orphaned shapes final (({} : Pipeline Id).compile shapes none).2.diagnostics subject doc := by
  have success : (({} : Pipeline Id).compile shapes none).1 = .ok () := by decide +kernel
  exact ⟨success, compile_accounts_for_fragments (Prod.ext success rfl)⟩

end DocWeave
