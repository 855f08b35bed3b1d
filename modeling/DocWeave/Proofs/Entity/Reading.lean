import DocWeave.Entity.OfManifest
import DocWeave.Proofs.Entity.Bases
import DocWeave.Proofs.Outcome
import Mathlib.Data.List.Duplicate

/-!
# Entities read from records

A graph that is built from a manifest has one entity for each record. The entity keeps the name and the
documentation of its record, and the fragments are those of the documentation.
-/

namespace DocWeave

open Entity Manifest

namespace Entity

namespace Reader

variable {reader : Reader} {warnings : List Diagnostic}

/-- The description and the fragments come from a documentation text, and its repeated keys are among the
warnings. -/
def Reads (reader : Reader) (warnings : List Diagnostic) (subject : Documentation.Subject) (doc : String)
    (fragments : List Fragment) : Prop :=
  ∃ documentation, Documentation.parse reader.marker subject doc = .ok documentation ∧
    fragments = documentation.fragments ∧
    ∀ fragment ∈ documentation.repeats, repeated subject fragment ∈ warnings

structure ReadsModule (reader : Reader) (warnings : List Diagnostic) (record : ModuleRecord)
    (module : Entity.Module) : Prop where
  name : module.name = record.name
  doc : module.doc = record.doc
  position : module.position = (reader.moduleSubject record).position
  reads : reader.Reads warnings (reader.moduleSubject record) record.doc module.fragments

/-- A function is read from a record, as a method if there is an owner. -/
structure ReadsFunction (reader : Reader) (warnings : List Diagnostic) (owner : Option String)
    (record : FunctionRecord) (function : Entity.Function) : Prop where
  name : function.name = record.name
  doc : function.doc = record.doc
  qualifiedName : function.qualifiedName = (reader.functionSubject owner record).name
  position : function.position = (reader.functionSubject owner record).position
  owned : function.owner = owner
  declared : function.inheritedFrom = none
  reads : reader.Reads warnings (reader.functionSubject owner record) record.doc function.fragments

structure ReadsProperty (reader : Reader) (warnings : List Diagnostic) (owner : String)
    (record : PropertyRecord) (property : Entity.Property) : Prop where
  name : property.name = record.name
  doc : property.doc = record.doc
  qualifiedName : property.qualifiedName = (reader.propertySubject owner record).name
  position : property.position = (reader.propertySubject owner record).position
  owned : property.owner = owner
  declared : property.inheritedFrom = none
  reads : reader.Reads warnings (reader.propertySubject owner record) record.doc property.fragments

structure ReadsClass (reader : Reader) (warnings : List Diagnostic) (record : ClassRecord)
    (entity : Entity.Class) : Prop where
  name : entity.name = record.name
  doc : entity.doc = record.doc
  position : entity.position = (reader.classSubject record).position
  reads : reader.Reads warnings (reader.classSubject record) record.doc entity.fragments
  methods : List.Forall₂ (reader.ReadsFunction warnings (some record.name)) record.methods entity.methods
  properties : List.Forall₂ (reader.ReadsProperty warnings record.name) record.properties entity.properties

theorem Reads.mono {more : List Diagnostic} {subject : Documentation.Subject} {doc : String}
    {fragments : List Fragment} (sub : warnings ⊆ more)
    (reads : reader.Reads warnings subject doc fragments) : reader.Reads more subject doc fragments := by
  obtain ⟨documentation, parsed, same, warned⟩ := reads
  exact ⟨documentation, parsed, same, fun fragment member => sub (warned fragment member)⟩

theorem ReadsFunction.mono {more : List Diagnostic} {owner : Option String} {record : FunctionRecord}
    {function : Entity.Function} (sub : warnings ⊆ more)
    (reads : reader.ReadsFunction warnings owner record function) :
    reader.ReadsFunction more owner record function :=
  { reads with reads := reads.reads.mono sub }

theorem ReadsProperty.mono {more : List Diagnostic} {owner : String} {record : PropertyRecord}
    {property : Entity.Property} (sub : warnings ⊆ more)
    (reads : reader.ReadsProperty warnings owner record property) :
    reader.ReadsProperty more owner record property :=
  { reads with reads := reads.reads.mono sub }

theorem ReadsClass.mono {more : List Diagnostic} {record : ClassRecord} {self : Entity.Class}
    (sub : warnings ⊆ more) (reads : reader.ReadsClass warnings record self) :
    reader.ReadsClass more record self :=
  { reads with
    reads := reads.reads.mono sub
    methods := reads.methods.imp fun _ _ method => method.mono sub
    properties := reads.properties.imp fun _ _ property => property.mono sub }

theorem reads_of_read {subject : Documentation.Subject} {doc : String} {documentation : Documentation}
    (success : reader.read subject doc = .ok (documentation, warnings)) :
    reader.Reads warnings subject doc documentation.fragments := by
  obtain ⟨_, parsed, done⟩ := bind_eq_ok.mp success
  cases done
  exact ⟨_, parsed, rfl, fun _ member => List.mem_map_of_mem member⟩

theorem parse_of_read_error {subject : Documentation.Subject} {doc : String} {fault : Fault}
    (failure : reader.read subject doc = .error fault) :
    Documentation.parse reader.marker subject doc = .error fault := by
  rcases bind_eq_error.mp failure with failed | ⟨_, _, done⟩
  · exact failed
  · cases done

theorem readsModule_of_module {record : ModuleRecord} {module : Entity.Module}
    (success : reader.module record = .ok (module, warnings)) : reader.ReadsModule warnings record module := by
  obtain ⟨⟨_, _⟩, read, done⟩ := bind_eq_ok.mp success
  cases done
  exact ⟨rfl, rfl, rfl, reads_of_read read⟩

theorem readsFunction_of_function {owner : Option String} {record : FunctionRecord}
    {function : Entity.Function} (success : reader.function owner record = .ok (function, warnings)) :
    reader.ReadsFunction warnings owner record function := by
  obtain ⟨⟨_, _⟩, read, done⟩ := bind_eq_ok.mp success
  cases done
  exact ⟨rfl, rfl, rfl, rfl, rfl, rfl, reads_of_read read⟩

theorem readsProperty_of_property {owner : String} {record : PropertyRecord} {property : Entity.Property}
    (success : reader.property owner record = .ok (property, warnings)) :
    reader.ReadsProperty warnings owner record property := by
  obtain ⟨⟨_, _⟩, read, done⟩ := bind_eq_ok.mp success
  cases done
  exact ⟨rfl, rfl, rfl, rfl, rfl, rfl, reads_of_read read⟩

/-- Members that are read one by one, with the warnings of all of them. -/
theorem forall₂_of_mapM {α β : Type} {read : α → Except Fault (β × List Diagnostic)}
    {R : List Diagnostic → α → β → Prop} {records : List α} {members : List (β × List Diagnostic)}
    (holds : ∀ record entity found, read record = .ok (entity, found) → R found record entity)
    (mono : ∀ found more record entity, found ⊆ more → R found record entity → R more record entity)
    (success : records.mapM read = .ok members) :
    List.Forall₂ (R (members.flatMap Prod.snd)) records (members.map Prod.fst) := by
  have each := mapM_eq_ok success
  clear success
  induction each with
  | nil => exact .nil
  | @cons record entry records others first rest ih =>
    rw [List.flatMap_cons]
    refine .cons ?_ (ih.imp fun record entity => mono _ _ record entity ?_)
    · exact mono _ _ record entry.1 (List.subset_append_left _ _) (holds record entry.1 entry.2 first)
    · exact List.subset_append_right _ _

theorem readsClass_of_class {record : ClassRecord} {self : Entity.Class}
    (success : reader.class record = .ok (self, warnings)) : reader.ReadsClass warnings record self := by
  obtain ⟨⟨_, own⟩, read, success⟩ := bind_eq_ok.mp success
  obtain ⟨methods, methodsRead, success⟩ := bind_eq_ok.mp success
  obtain ⟨properties, propertiesRead, success⟩ := bind_eq_ok.mp success
  cases success
  have methodsHold := forall₂_of_mapM (fun _ _ _ => readsFunction_of_function)
    (fun _ _ _ _ => ReadsFunction.mono) methodsRead
  have propertiesHold := forall₂_of_mapM (fun _ _ _ => readsProperty_of_property)
    (fun _ _ _ _ => ReadsProperty.mono) propertiesRead
  refine ⟨rfl, rfl, rfl, (reads_of_read read).mono ?_, methodsHold.imp fun _ _ method => method.mono ?_,
    propertiesHold.imp fun _ _ property => property.mono ?_⟩
  · exact List.subset_append_of_subset_left _ (List.subset_append_left _ _)
  · exact List.subset_append_of_subset_left _ (List.subset_append_right _ _)
  · exact List.subset_append_right _ _

theorem baseNames_of_class {record : ClassRecord} {self : Entity.Class}
    (success : reader.class record = .ok (self, warnings)) : self.baseNames = record.bases := by
  obtain ⟨_, _, success⟩ := bind_eq_ok.mp success
  obtain ⟨_, _, success⟩ := bind_eq_ok.mp success
  obtain ⟨_, _, success⟩ := bind_eq_ok.mp success
  cases success
  rfl

theorem ReadsClass.parses {record : ClassRecord} {self : Entity.Class} (reads : reader.ReadsClass warnings record self)
    {text : Documentation.Subject × String} (listed : text ∈ reader.documentedClass record) :
    ∃ documentation, Documentation.parse reader.marker text.1 text.2 = .ok documentation := by
  simp only [documentedClass, List.cons_append, List.mem_cons, List.mem_append, List.mem_map] at listed
  rcases listed with rfl | ⟨method, member, rfl⟩ | ⟨property, member, rfl⟩
  · exact reads.reads.imp fun _ => And.left
  · obtain ⟨_, _, methodReads⟩ := exists_of_forall₂_left reads.methods member
    exact methodReads.reads.imp fun _ => And.left
  · obtain ⟨_, _, propertyReads⟩ := exists_of_forall₂_left reads.properties member
    exact propertyReads.reads.imp fun _ => And.left

/-! ### Texts that cannot be read -/

theorem parse_of_module_error {record : ModuleRecord} {fault : Fault}
    (failure : reader.module record = .error fault) :
    Documentation.parse reader.marker (reader.moduleSubject record) record.doc = .error fault := by
  rcases bind_eq_error.mp failure with failed | ⟨_, _, done⟩
  · exact parse_of_read_error failed
  · cases done

theorem parse_of_function_error {owner : Option String} {record : FunctionRecord} {fault : Fault}
    (failure : reader.function owner record = .error fault) :
    Documentation.parse reader.marker (reader.functionSubject owner record) record.doc = .error fault := by
  rcases bind_eq_error.mp failure with failed | ⟨_, _, done⟩
  · exact parse_of_read_error failed
  · cases done

theorem parse_of_property_error {owner : String} {record : PropertyRecord} {fault : Fault}
    (failure : reader.property owner record = .error fault) :
    Documentation.parse reader.marker (reader.propertySubject owner record) record.doc = .error fault := by
  rcases bind_eq_error.mp failure with failed | ⟨_, _, done⟩
  · exact parse_of_read_error failed
  · cases done

theorem exists_parse_of_class_error {record : ClassRecord} {fault : Fault}
    (failure : reader.class record = .error fault) :
    ∃ text ∈ reader.documentedClass record,
      Documentation.parse reader.marker text.1 text.2 = .error fault := by
  rcases bind_eq_error.mp failure with failed | ⟨_, _, failure⟩
  · exact ⟨(reader.classSubject record, record.doc), by simp [documentedClass], parse_of_read_error failed⟩
  rcases bind_eq_error.mp failure with failed | ⟨_, _, failure⟩
  · obtain ⟨method, member, failed⟩ := mapM_eq_error failed
    refine ⟨(reader.functionSubject (some record.name) method, method.doc), ?_, parse_of_function_error failed⟩
    simp only [documentedClass, List.cons_append, List.mem_cons, List.mem_append, List.mem_map]
    exact .inr (.inl ⟨method, member, rfl⟩)
  rcases bind_eq_error.mp failure with failed | ⟨_, _, done⟩
  · obtain ⟨property, member, failed⟩ := mapM_eq_error failed
    refine ⟨(reader.propertySubject record.name property, property.doc), ?_, parse_of_property_error failed⟩
    simp only [documentedClass, List.cons_append, List.mem_cons, List.mem_append, List.mem_map]
    exact .inr (.inr ⟨property, member, rfl⟩)
  · cases done

end Reader

end Entity

namespace Graph

open Reader

/-- The graph has one entity for each record of a manifest. -/
structure Reads (manifest : Manifest) (warnings : List Diagnostic) (graph : Graph) : Prop where
  module : (reader manifest).ReadsModule warnings manifest.module graph.module
  functions : List.Forall₂ ((reader manifest).ReadsFunction warnings none) manifest.functions graph.functions
  classes : List.Forall₂ ((reader manifest).ReadsClass warnings) manifest.classes graph.classes

theorem Reads.functionNames {manifest : Manifest} {warnings : List Diagnostic} {graph : Graph}
    (reads : graph.Reads manifest warnings) : manifest.functions.map (·.name) = graph.functions.map (·.name) :=
  map_eq_map_of_forall₂ reads.functions fun _ _ function => function.name.symm

theorem Reads.qualifiedNames {manifest : Manifest} {warnings : List Diagnostic} {graph : Graph}
    (reads : graph.Reads manifest warnings) :
    manifest.functions.map (·.name) = graph.functions.map (·.qualifiedName) :=
  map_eq_map_of_forall₂ reads.functions fun _ _ function => function.qualifiedName.symm

theorem Reads.classNames {manifest : Manifest} {warnings : List Diagnostic} {graph : Graph}
    (reads : graph.Reads manifest warnings) : manifest.classes.map (·.name) = graph.classes.map (·.name) :=
  map_eq_map_of_forall₂ reads.classes fun _ _ self => self.name.symm

/-- Every documentation text could be taken apart. -/
theorem Reads.parses {manifest : Manifest} {warnings : List Diagnostic} {graph : Graph}
    (reads : graph.Reads manifest warnings) {text : Documentation.Subject × String}
    (listed : text ∈ (reader manifest).documented manifest) :
    ∃ documentation, Documentation.parse manifest.settings.marker text.1 text.2 = .ok documentation := by
  simp only [documented, List.cons_append, List.mem_cons, List.mem_append, List.mem_map, List.mem_flatMap] at listed
  rcases listed with rfl | ⟨record, member, rfl⟩ | ⟨record, member, inside⟩
  · exact reads.module.reads.imp fun _ => And.left
  · obtain ⟨_, _, functionReads⟩ := exists_of_forall₂_left reads.functions member
    exact functionReads.reads.imp fun _ => And.left
  · obtain ⟨_, _, classReads⟩ := exists_of_forall₂_left reads.classes member
    exact classReads.parses inside

theorem addFunction_eq_ok {graph grown : Graph} {added : Entity.Function}
    (success : graph.addFunction added = .ok grown) :
    grown = { graph with functions := graph.functions ++ [added] } := by
  unfold addFunction at success
  split at success <;> cases success
  rfl

theorem addClass_eq_ok {graph grown : Graph} {added : Entity.Class} (success : graph.addClass added = .ok grown) :
    grown = { graph with classes := graph.classes ++ [added] } := by
  unfold addClass at success
  split at success <;> cases success
  rfl

theorem Distinct.addFunction {graph result : Graph} {added : Entity.Function} (distinct : graph.Distinct)
    (success : graph.addFunction added = .ok result) : result.Distinct := by
  unfold Graph.addFunction at success
  split at success
  · cases success
  · rename_i fresh
    cases success
    refine ⟨distinct.classes, ?_⟩
    have unused : ∀ other ∈ graph.functions, other.qualifiedName ≠ added.qualifiedName := by
      simpa [function?] using fresh
    simp only [List.map_append, List.map_singleton]
    refine List.nodup_append.mpr ⟨distinct.functions, by simp, ?_⟩
    intro name old _ new same
    obtain ⟨other, member, rfl⟩ := List.mem_map.mp old
    exact unused other member (same.trans (List.mem_singleton.mp new))

theorem Distinct.addClass {graph result : Graph} {added : Entity.Class} (distinct : graph.Distinct)
    (success : graph.addClass added = .ok result) : result.Distinct := by
  unfold Graph.addClass at success
  split at success
  · cases success
  · rename_i fresh
    cases success
    refine ⟨?_, distinct.functions⟩
    have unused : ∀ other ∈ graph.classes, other.name ≠ added.name := by
      simpa [class?] using fresh
    simp only [List.map_append, List.map_singleton]
    refine List.nodup_append.mpr ⟨distinct.classes, by simp, ?_⟩
    intro name old _ new same
    obtain ⟨other, member, rfl⟩ := List.mem_map.mp old
    exact unused other member (same.trans (List.mem_singleton.mp new))

theorem addFunctions_eq_ok {reader : Reader} {graph whole : Graph} {records : List FunctionRecord}
    {warnings : List Diagnostic} (success : addFunctions reader graph records = .ok (whole, warnings)) :
    (graph.Distinct → whole.Distinct) ∧ ∃ added, whole = { graph with functions := graph.functions ++ added } ∧
      List.Forall₂ (reader.ReadsFunction warnings none) records added := by
  induction records generalizing graph whole warnings with
  | nil =>
    cases success
    exact ⟨id, [], by simp, .nil⟩
  | cons record rest ih =>
    obtain ⟨⟨first, own⟩, read, success⟩ := bind_eq_ok.mp success
    obtain ⟨grown, fits, success⟩ := bind_eq_ok.mp success
    obtain ⟨⟨_, others⟩, further, success⟩ := bind_eq_ok.mp success
    cases success
    obtain ⟨keeps, added, rfl, hold⟩ := ih further
    refine ⟨fun distinct => keeps (distinct.addFunction fits), first :: added, ?_, .cons ?_ ?_⟩
    · simp [addFunction_eq_ok fits]
    · exact (readsFunction_of_function read).mono (List.subset_append_left _ _)
    · exact hold.imp fun _ _ function => function.mono (List.subset_append_right _ _)

theorem addClasses_eq_ok {reader : Reader} {graph whole : Graph} {records : List ClassRecord}
    {warnings : List Diagnostic} (success : addClasses reader graph records = .ok (whole, warnings)) :
    (graph.Distinct → whole.Distinct) ∧ ∃ added, whole = { graph with classes := graph.classes ++ added } ∧
      List.Forall₂ (reader.ReadsClass warnings) records added := by
  induction records generalizing graph whole warnings with
  | nil =>
    cases success
    exact ⟨id, [], by simp, .nil⟩
  | cons record rest ih =>
    obtain ⟨⟨first, own⟩, read, success⟩ := bind_eq_ok.mp success
    obtain ⟨grown, fits, success⟩ := bind_eq_ok.mp success
    obtain ⟨⟨_, others⟩, further, success⟩ := bind_eq_ok.mp success
    cases success
    obtain ⟨keeps, added, rfl, hold⟩ := ih further
    refine ⟨fun distinct => keeps (distinct.addClass fits), first :: added, ?_, .cons ?_ ?_⟩
    · simp [addClass_eq_ok fits]
    · exact (readsClass_of_class read).mono (List.subset_append_left _ _)
    · exact hold.imp fun _ _ self => self.mono (List.subset_append_right _ _)

variable {manifest : Manifest} {graph : Graph} {warnings : List Diagnostic} {fault : Fault}

theorem reads_of_ofManifest (success : ofManifest manifest = .ok (graph, warnings)) :
    graph.Reads manifest warnings ∧ graph.Distinct ∧ graph.finalized = false := by
  obtain ⟨⟨module, own⟩, read, success⟩ := bind_eq_ok.mp success
  obtain ⟨⟨withFunctions, _⟩, functionsAdded, success⟩ := bind_eq_ok.mp success
  obtain ⟨⟨whole, _⟩, classesAdded, success⟩ := bind_eq_ok.mp success
  cases success
  obtain ⟨keepsFirst, functions, rfl, functionsHold⟩ := addFunctions_eq_ok functionsAdded
  obtain ⟨keepsSecond, classes, rfl, classesHold⟩ := addClasses_eq_ok classesAdded
  refine ⟨⟨?_, ?_, ?_⟩, keepsSecond (keepsFirst ⟨by simp, by simp⟩), rfl⟩
  · exact { readsModule_of_module read with
      reads := (readsModule_of_module read).reads.mono
        (List.subset_append_of_subset_left _ (List.subset_append_left _ _)) }
  · refine functionsHold.imp fun _ _ function => function.mono ?_
    exact List.subset_append_of_subset_left _ (List.subset_append_right _ _)
  · exact classesHold.imp fun _ _ self => self.mono (List.subset_append_right _ _)

/-! ### The entities of the records one by one -/

/-- The entity that was read, if reading succeeded. -/
def entityRead? {α : Type} (outcome : Except Fault (α × List Diagnostic)) : Option α :=
  outcome.toOption.map Prod.fst

theorem entityRead?_eq_some {α : Type} {outcome : Except Fault (α × List Diagnostic)} {entity : α} :
    entityRead? outcome = some entity ↔ ∃ found, outcome = .ok (entity, found) := by
  rcases outcome with _ | ⟨_, _⟩ <;> simp [entityRead?, Except.toOption]

theorem exists_of_mem_filterMap {α β : Type} {read : α → Except Fault (β × List Diagnostic)} {record : α} {entity : β}
    (member : entity ∈ [record].filterMap fun record => entityRead? (read record)) :
    ∃ found, read record = .ok (entity, found) := by
  obtain ⟨_, listed, same⟩ := List.mem_filterMap.mp member
  obtain rfl := List.mem_singleton.mp listed
  exact entityRead?_eq_some.mp same

theorem functions_addFunctions {reader : Reader} {graph whole : Graph} {records : List FunctionRecord}
    {warnings : List Diagnostic} (success : addFunctions reader graph records = .ok (whole, warnings)) :
    whole = { graph with
      functions := graph.functions ++ records.filterMap fun record => entityRead? (reader.function none record) } := by
  induction records generalizing graph whole warnings with
  | nil =>
    cases success
    simp
  | cons record rest ih =>
    obtain ⟨⟨first, own⟩, read, success⟩ := bind_eq_ok.mp success
    obtain ⟨grown, fits, success⟩ := bind_eq_ok.mp success
    obtain ⟨⟨_, others⟩, further, success⟩ := bind_eq_ok.mp success
    cases success
    have here := entityRead?_eq_some.mpr ⟨own, read⟩
    rw [ih further, addFunction_eq_ok fits]
    simp [here]

theorem classes_addClasses {reader : Reader} {graph whole : Graph} {records : List ClassRecord}
    {warnings : List Diagnostic} (success : addClasses reader graph records = .ok (whole, warnings)) :
    whole = { graph with
      classes := graph.classes ++ records.filterMap fun record => entityRead? (reader.class record) } := by
  induction records generalizing graph whole warnings with
  | nil =>
    cases success
    simp
  | cons record rest ih =>
    obtain ⟨⟨first, own⟩, read, success⟩ := bind_eq_ok.mp success
    obtain ⟨grown, fits, success⟩ := bind_eq_ok.mp success
    obtain ⟨⟨_, others⟩, further, success⟩ := bind_eq_ok.mp success
    cases success
    have here := entityRead?_eq_some.mpr ⟨own, read⟩
    rw [ih further, addClass_eq_ok fits]
    simp [here]

/-- Each entity depends on its own record only, besides the marker and the file. -/
theorem entities_of_ofManifest (success : ofManifest manifest = .ok (graph, warnings)) :
    entityRead? ((reader manifest).module manifest.module) = some graph.module ∧
    (graph.functions = manifest.functions.filterMap fun record =>
      entityRead? ((reader manifest).function none record)) ∧
    graph.classes = manifest.classes.filterMap fun record => entityRead? ((reader manifest).class record) := by
  obtain ⟨⟨module, own⟩, read, success⟩ := bind_eq_ok.mp success
  obtain ⟨⟨withFunctions, _⟩, functionsAdded, success⟩ := bind_eq_ok.mp success
  obtain ⟨⟨whole, _⟩, classesAdded, success⟩ := bind_eq_ok.mp success
  cases success
  rw [classes_addClasses classesAdded, functions_addFunctions functionsAdded]
  exact ⟨entityRead?_eq_some.mpr ⟨own, read⟩, rfl, rfl⟩

/-! ### Graphs that cannot be built -/

/-- A function cannot be added only if its name is taken. -/
theorem addFunction_eq_error {graph : Graph} {added : Entity.Function}
    (failure : graph.addFunction added = .error fault) :
    fault = .duplicate .function added.qualifiedName ∧
      added.qualifiedName ∈ graph.functions.map (·.qualifiedName) := by
  unfold addFunction at failure
  split at failure
  · rename_i taken
    cases failure
    refine ⟨rfl, ?_⟩
    simpa [function?] using taken
  · cases failure

theorem addClass_eq_error {graph : Graph} {added : Entity.Class} (failure : graph.addClass added = .error fault) :
    fault = .duplicate .class added.name ∧ added.name ∈ graph.classes.map (·.name) := by
  unfold addClass at failure
  split at failure
  · rename_i taken
    cases failure
    refine ⟨rfl, ?_⟩
    simpa [class?] using taken
  · cases failure

theorem duplicate_of_mem {names : List String} {name : String} (taken : name ∈ names) (others : List String) :
    (names ++ name :: others).Duplicate name :=
  List.duplicate_iff_sublist.mpr
    ((List.singleton_sublist.mpr taken).append (List.singleton_sublist.mpr List.mem_cons_self))

theorem addFunctions_eq_error {reader : Reader} {records : List FunctionRecord}
    (failure : addFunctions reader graph records = .error fault) :
    (∃ record ∈ records,
      Documentation.parse reader.marker (reader.functionSubject none record) record.doc = .error fault) ∨
    ∃ name, fault = .duplicate .function name ∧
      (graph.functions.map (·.qualifiedName) ++ records.map (·.name)).Duplicate name := by
  induction records generalizing graph with
  | nil => cases failure
  | cons record rest ih =>
    rcases bind_eq_error.mp failure with failed | ⟨⟨first, own⟩, read, failure⟩
    · exact .inl ⟨record, List.mem_cons_self, parse_of_function_error failed⟩
    have named : first.qualifiedName = record.name := (readsFunction_of_function read).qualifiedName
    rcases bind_eq_error.mp failure with failed | ⟨grown, fits, failure⟩
    · obtain ⟨rfl, taken⟩ := addFunction_eq_error failed
      exact .inr ⟨_, rfl, by simpa [named] using duplicate_of_mem taken (rest.map (·.name))⟩
    rcases bind_eq_error.mp failure with later | ⟨_, _, done⟩
    · rcases ih later with ⟨other, member, failed⟩ | ⟨name, taken, repeats⟩
      · exact .inl ⟨other, List.mem_cons_of_mem _ member, failed⟩
      · exact .inr ⟨name, taken, by simpa [addFunction_eq_ok fits, named] using repeats⟩
    · cases done

theorem addClasses_eq_error {reader : Reader} {records : List ClassRecord}
    (failure : addClasses reader graph records = .error fault) :
    (∃ record ∈ records, ∃ text ∈ reader.documentedClass record,
      Documentation.parse reader.marker text.1 text.2 = .error fault) ∨
    ∃ name, fault = .duplicate .class name ∧
      (graph.classes.map (·.name) ++ records.map (·.name)).Duplicate name := by
  induction records generalizing graph with
  | nil => cases failure
  | cons record rest ih =>
    rcases bind_eq_error.mp failure with failed | ⟨⟨first, own⟩, read, failure⟩
    · exact .inl ⟨record, List.mem_cons_self, exists_parse_of_class_error failed⟩
    have named : first.name = record.name := (readsClass_of_class read).name
    rcases bind_eq_error.mp failure with failed | ⟨grown, fits, failure⟩
    · obtain ⟨rfl, taken⟩ := addClass_eq_error failed
      exact .inr ⟨_, rfl, by simpa [named] using duplicate_of_mem taken (rest.map (·.name))⟩
    rcases bind_eq_error.mp failure with later | ⟨_, _, done⟩
    · rcases ih later with ⟨other, member, failed⟩ | ⟨name, taken, repeats⟩
      · exact .inl ⟨other, List.mem_cons_of_mem _ member, failed⟩
      · exact .inr ⟨name, taken, by simpa [addClass_eq_ok fits, named] using repeats⟩
    · cases done

/-- A graph is not built if a documentation text cannot be taken apart, or if a record has the name of an earlier
one. -/
theorem duplicate_of_ofManifest_error (failure : ofManifest manifest = .error fault) :
    (∃ text ∈ (reader manifest).documented manifest,
      Documentation.parse manifest.settings.marker text.1 text.2 = .error fault) ∨
    (∃ name, fault = .duplicate .function name ∧ (manifest.functions.map (·.name)).Duplicate name) ∨
    ∃ name, fault = .duplicate .class name ∧ (manifest.classes.map (·.name)).Duplicate name := by
  rcases bind_eq_error.mp failure with failed | ⟨⟨module, own⟩, _, failure⟩
  · refine .inl ⟨((reader manifest).moduleSubject manifest.module, manifest.module.doc), ?_,
      parse_of_module_error failed⟩
    simp [documented]
  rcases bind_eq_error.mp failure with failed | ⟨⟨withFunctions, _⟩, added, failure⟩
  · rcases addFunctions_eq_error failed with ⟨record, member, failed⟩ | ⟨name, taken, repeats⟩
    · refine .inl ⟨((reader manifest).functionSubject none record, record.doc), ?_, failed⟩
      simp only [documented, List.cons_append, List.mem_cons, List.mem_append, List.mem_map]
      exact .inr (.inl ⟨record, member, rfl⟩)
    · exact .inr (.inl ⟨name, taken, by simpa using repeats⟩)
  rcases bind_eq_error.mp failure with failed | ⟨_, _, done⟩
  · rcases addClasses_eq_error failed with ⟨record, member, text, listed, failed⟩ | ⟨name, taken, repeats⟩
    · refine .inl ⟨text, ?_, failed⟩
      simp only [documented, List.cons_append, List.mem_cons, List.mem_append, List.mem_flatMap]
      exact .inr (.inr ⟨record, member, listed⟩)
    · obtain ⟨_, functions, rfl, _⟩ := addFunctions_eq_ok added
      exact .inr (.inr ⟨name, taken, by simpa using repeats⟩)
  · cases done

theorem ofManifest_fails (failure : ofManifest manifest = .error fault) :
    (∃ text ∈ (reader manifest).documented manifest,
      Documentation.parse manifest.settings.marker text.1 text.2 = .error fault) ∨
    (∃ kind name, fault = .duplicate kind name) ∧
      ¬ ((manifest.functions.map (·.name)).Nodup ∧ (manifest.classes.map (·.name)).Nodup) := by
  rcases duplicate_of_ofManifest_error failure with failed | ⟨name, taken, repeats⟩ | ⟨name, taken, repeats⟩
  · exact .inl failed
  · exact .inr ⟨⟨_, name, taken⟩, fun distinct => repeats.not_nodup distinct.1⟩
  · exact .inr ⟨⟨_, name, taken⟩, fun distinct => repeats.not_nodup distinct.2⟩

/-- A graph is not built if a documentation text cannot be taken apart, or if a name is taken. -/
theorem ofManifest_eq_error (failure : ofManifest manifest = .error fault) :
    (∃ text ∈ (reader manifest).documented manifest,
      Documentation.parse manifest.settings.marker text.1 text.2 = .error fault) ∨
    ∃ kind name, fault = .duplicate kind name :=
  (ofManifest_fails failure).imp_right And.left

end Graph

end DocWeave
