import DocWeave.Proofs.Pipeline.Phases
import Mathlib.Data.List.Nodup

/-!
# What the lints find

The lints find an error exactly if two functions, two classes or two members of a class have the same name. So a
manifest that passes them can only be refused for its texts.
-/

namespace DocWeave

/-- Names tell the functions and the classes of a manifest apart, and the members of each class. -/
structure Manifest.Distinct (manifest : Manifest) : Prop where
  functions : (manifest.functions.map (·.name)).Nodup
  classes : (manifest.classes.map (·.name)).Nodup
  members : ∀ record ∈ manifest.classes, (record.methods.map (·.name) ++ record.properties.map (·.name)).Nodup

namespace Lint

theorem repeats_eq_nil_iff {names : List String} : repeats names = [] ↔ names.Nodup := by
  have first : repeats names = [] ↔ ∀ index (bound : index < names.length), index ≤ names.idxOf names[index] := by
    simp only [repeats, List.filterMap_eq_nil_iff, Prod.forall, List.mem_zipIdx_iff_getElem?,
      List.getElem?_eq_some_iff]
    constructor
    · intro none index bound
      have kept := none names[index] index ⟨bound, rfl⟩
      by_contra earlier
      rw [if_pos (Nat.lt_of_not_le earlier)] at kept
      cases kept
    · intro kept name index listed
      obtain ⟨bound, same⟩ := listed
      rw [← same]
      exact if_neg (Nat.not_lt.mpr (kept index bound))
  rw [first]
  constructor
  · intro kept
    rw [List.Nodup, List.pairwise_iff_getElem]
    intro i j iBound jBound before same
    have fresh := List.not_of_lt_findIdx (Nat.lt_of_lt_of_le before (kept j jBound))
    simp [same] at fresh
  · intro distinct index bound
    exact Nat.le_of_eq (distinct.idxOf_getElem index bound).symm

/-- No finding is an error. -/
def Clean (diagnostics : List Diagnostic) : Prop :=
  ∀ finding ∈ diagnostics, finding.severity ≠ .error

theorem clean_append {first second : List Diagnostic} : Clean (first ++ second) ↔ Clean first ∧ Clean second :=
  List.forall_mem_append

theorem clean_reportRepeats {kind : String} {qualify : String → String} {names : List String} :
    Clean (reportRepeats kind qualify names) ↔ names.Nodup := by
  rw [← repeats_eq_nil_iff, Clean, reportRepeats]
  cases repeats names <;> simp

theorem reportRepeats_eq_nil {kind : String} {qualify : String → String} {names : List String}
    (distinct : names.Nodup) : reportRepeats kind qualify names = [] := by
  rw [reportRepeats, repeats_eq_nil_iff.mpr distinct, List.map_nil]

theorem clean_emptyFragment (manifest : Manifest) : Clean (emptyFragment.check manifest) := by
  intro finding member
  obtain ⟨_, _, reported⟩ := List.mem_flatMap.mp member
  obtain ⟨_, _, rfl⟩ := List.mem_map.mp reported
  simp [reportEmpty]

theorem clean_duplicateEntity_iff {manifest : Manifest} :
    Clean (duplicateEntity.check manifest) ↔ manifest.Distinct := by
  have members : Clean (manifest.classes.flatMap reportMembers) ↔ ∀ record ∈ manifest.classes,
      (record.methods.map (·.name) ++ record.properties.map (·.name)).Nodup := by
    simp only [Clean, List.mem_flatMap, reportMembers]
    constructor
    · intro clean record listed
      exact clean_reportRepeats.mp fun finding member => clean finding ⟨record, listed, member⟩
    · rintro distinct finding ⟨record, listed, member⟩
      exact clean_reportRepeats.mpr (distinct record listed) finding member
  rw [duplicateEntity, clean_append, clean_append, clean_reportRepeats, clean_reportRepeats, members]
  constructor
  · rintro ⟨⟨functions, classes⟩, members⟩
    exact ⟨functions, classes, members⟩
  · intro distinct
    exact ⟨⟨distinct.functions, distinct.classes⟩, distinct.members⟩

theorem check_duplicateEntity {manifest : Manifest} (distinct : manifest.Distinct) :
    duplicateEntity.check manifest = [] := by
  have members : manifest.classes.flatMap reportMembers = [] :=
    List.flatMap_eq_nil_iff.mpr fun record listed => reportRepeats_eq_nil (distinct.members record listed)
  simp only [duplicateEntity, reportRepeats_eq_nil distinct.functions, reportRepeats_eq_nil distinct.classes, members,
    List.append_nil]

theorem clean_findings_iff {manifest : Manifest} : Clean (findings manifest) ↔ manifest.Distinct := by
  have split : findings manifest = duplicateEntity.check manifest ++ emptyFragment.check manifest := by
    simp [findings, all]
  rw [split, clean_append, clean_duplicateEntity_iff]
  exact and_iff_left (clean_emptyFragment manifest)

end Lint

open Lint

/-! ### Findings of the other phases -/

namespace Entity

namespace Reader

/-- Each finding tells that one of the texts repeats a key. -/
def TellsRepeats (documented : List (Documentation.Subject × String)) (findings : List Diagnostic) : Prop :=
  ∀ finding ∈ findings, ∃ entry ∈ documented, ∃ fragment, finding = repeated entry.1 fragment

theorem TellsRepeats.append {first second : List (Documentation.Subject × String)} {own others : List Diagnostic}
    (left : TellsRepeats first own) (right : TellsRepeats second others) :
    TellsRepeats (first ++ second) (own ++ others) := by
  intro finding member
  rcases List.mem_append.mp member with inside | inside
  · obtain ⟨entry, listed, told⟩ := left finding inside
    exact ⟨entry, List.mem_append_left _ listed, told⟩
  · obtain ⟨entry, listed, told⟩ := right finding inside
    exact ⟨entry, List.mem_append_right _ listed, told⟩

theorem TellsRepeats.clean {documented : List (Documentation.Subject × String)} {findings : List Diagnostic}
    (tells : TellsRepeats documented findings) : Clean findings := by
  intro finding member
  obtain ⟨_, _, _, rfl⟩ := tells finding member
  simp [repeated]

variable {reader : Reader} {warnings : List Diagnostic}

theorem tellsRepeats_of_read {subject : Documentation.Subject} {doc : String} {documentation : Documentation}
    (success : reader.read subject doc = .ok (documentation, warnings)) : TellsRepeats [(subject, doc)] warnings := by
  obtain ⟨_, _, done⟩ := bind_eq_ok.mp success
  cases done
  intro finding member
  obtain ⟨fragment, _, rfl⟩ := List.mem_map.mp member
  exact ⟨_, List.mem_singleton_self _, fragment, rfl⟩

theorem tellsRepeats_of_module {record : Manifest.ModuleRecord} {module : Entity.Module}
    (success : reader.module record = .ok (module, warnings)) :
    TellsRepeats [(reader.moduleSubject record, record.doc)] warnings := by
  obtain ⟨⟨_, _⟩, read, done⟩ := bind_eq_ok.mp success
  cases done
  exact tellsRepeats_of_read read

theorem tellsRepeats_of_function {owner : Option String} {record : Manifest.FunctionRecord}
    {function : Entity.Function} (success : reader.function owner record = .ok (function, warnings)) :
    TellsRepeats [(reader.functionSubject owner record, record.doc)] warnings := by
  obtain ⟨⟨_, _⟩, read, done⟩ := bind_eq_ok.mp success
  cases done
  exact tellsRepeats_of_read read

theorem tellsRepeats_of_property {owner : String} {record : Manifest.PropertyRecord} {property : Entity.Property}
    (success : reader.property owner record = .ok (property, warnings)) :
    TellsRepeats [(reader.propertySubject owner record, record.doc)] warnings := by
  obtain ⟨⟨_, _⟩, read, done⟩ := bind_eq_ok.mp success
  cases done
  exact tellsRepeats_of_read read

/-- The findings of members that are read one by one tell about the texts of these. -/
theorem tellsRepeats_of_mapM {α β : Type} {read : α → Except Fault (β × List Diagnostic)}
    {document : α → Documentation.Subject × String} {records : List α} {members : List (β × List Diagnostic)}
    (each : ∀ record entity found, read record = .ok (entity, found) → TellsRepeats [document record] found)
    (success : records.mapM read = .ok members) :
    TellsRepeats (records.map document) (members.flatMap Prod.snd) := by
  intro finding member
  obtain ⟨⟨entity, found⟩, listed, inside⟩ := List.mem_flatMap.mp member
  obtain ⟨record, recorded, made⟩ := exists_of_forall₂_right (mapM_eq_ok success) listed
  obtain ⟨entry, own, told⟩ := each record entity found made finding inside
  rw [List.mem_singleton.mp own] at told
  exact ⟨_, List.mem_map_of_mem recorded, told⟩

theorem tellsRepeats_of_class {record : Manifest.ClassRecord} {self : Entity.Class}
    (success : reader.class record = .ok (self, warnings)) :
    TellsRepeats (reader.documentedClass record) warnings := by
  obtain ⟨⟨_, own⟩, read, success⟩ := bind_eq_ok.mp success
  obtain ⟨methods, methodsRead, success⟩ := bind_eq_ok.mp success
  obtain ⟨properties, propertiesRead, success⟩ := bind_eq_ok.mp success
  cases success
  have readMethods := tellsRepeats_of_mapM (fun _ _ _ => tellsRepeats_of_function) methodsRead
  have readProperties := tellsRepeats_of_mapM (fun _ _ _ => tellsRepeats_of_property) propertiesRead
  exact ((tellsRepeats_of_read read).append readMethods).append readProperties

end Reader

end Entity

namespace Graph

open Entity Reader

variable {reader : Reader} {graph whole : Graph} {warnings : List Diagnostic}

theorem tellsRepeats_of_addFunctions {records : List Manifest.FunctionRecord}
    (success : addFunctions reader graph records = .ok (whole, warnings)) :
    TellsRepeats (records.map fun record => (reader.functionSubject none record, record.doc)) warnings := by
  induction records generalizing graph whole warnings with
  | nil =>
    cases success
    exact List.forall_mem_nil _
  | cons record rest ih =>
    obtain ⟨⟨first, own⟩, read, success⟩ := bind_eq_ok.mp success
    obtain ⟨grown, _, success⟩ := bind_eq_ok.mp success
    obtain ⟨⟨_, others⟩, further, success⟩ := bind_eq_ok.mp success
    cases success
    exact (tellsRepeats_of_function read).append (ih further)

theorem tellsRepeats_of_addClasses {records : List Manifest.ClassRecord}
    (success : addClasses reader graph records = .ok (whole, warnings)) :
    TellsRepeats (records.flatMap reader.documentedClass) warnings := by
  induction records generalizing graph whole warnings with
  | nil =>
    cases success
    exact List.forall_mem_nil _
  | cons record rest ih =>
    obtain ⟨⟨first, own⟩, read, success⟩ := bind_eq_ok.mp success
    obtain ⟨grown, _, success⟩ := bind_eq_ok.mp success
    obtain ⟨⟨_, others⟩, further, success⟩ := bind_eq_ok.mp success
    cases success
    rw [List.flatMap_cons]
    exact (tellsRepeats_of_class read).append (ih further)

/-- The findings that building a graph leaves are about the texts of its manifest. -/
theorem tellsRepeats_of_ofManifest {manifest : Manifest} (success : ofManifest manifest = .ok (graph, warnings)) :
    TellsRepeats ((Graph.reader manifest).documented manifest) warnings := by
  obtain ⟨⟨module, own⟩, read, success⟩ := bind_eq_ok.mp success
  obtain ⟨⟨withFunctions, _⟩, functionsAdded, success⟩ := bind_eq_ok.mp success
  obtain ⟨⟨whole, _⟩, classesAdded, success⟩ := bind_eq_ok.mp success
  cases success
  exact ((tellsRepeats_of_module read).append (tellsRepeats_of_addFunctions functionsAdded)).append
    (tellsRepeats_of_addClasses classesAdded)

theorem clean_of_ofManifest {manifest : Manifest} (success : ofManifest manifest = .ok (graph, warnings)) :
    Clean warnings :=
  (tellsRepeats_of_ofManifest success).clean

theorem clean_excluded (entity : Entity) : Clean (excluded entity) := by
  unfold excluded
  split <;> simp [Clean]

theorem clean_findings (graph : Graph) : Clean graph.findings := by
  have each (entities : List Entity) : Clean (entities.flatMap excluded) := by
    intro finding member
    obtain ⟨entity, _, inside⟩ := List.mem_flatMap.mp member
    exact clean_excluded entity finding inside
  refine clean_append.mpr ⟨each _, fun finding member => ?_⟩
  obtain ⟨self, _, inside⟩ := List.mem_flatMap.mp member
  refine (clean_append.mpr ⟨clean_append.mpr ⟨clean_excluded _, each _⟩, ?_⟩ : Clean self.findings) finding inside
  split <;> simp [Clean]

end Graph

end DocWeave
