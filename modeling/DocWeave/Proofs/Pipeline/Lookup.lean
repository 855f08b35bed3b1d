import DocWeave.Proofs.Entity.Lookup
import DocWeave.Proofs.Manifest.Accepted
import DocWeave.Proofs.Pipeline.Ending
import DocWeave.Proofs.Pipeline.Members
import DocWeave.Proofs.Text.Words

/-!
# The entities that findings are about

Every finding of a run names the module or an entity, and a check looks the name up for a position. It shows the
position of the entity, unless another entity is found under the name.
-/

namespace DocWeave

open Compilation Entity Lint Text

/-- What the documentation of an entity is about. -/
def Entity.subject (entity : Entity) : Documentation.Subject :=
  ⟨entity.qualifiedName, entity.kind, entity.position⟩

/-! ### Names of an accepted manifest -/

theorem Text.dot_not_mem {name : String} (identifier : isIdentifier name = true) : '.' ∉ name.toList := by
  rw [← String.ofList_toList (s := name)] at identifier
  obtain ⟨_, _, _, _, letters⟩ := isIdentifier_ofList.mp identifier
  intro inside
  have letter := List.all_eq_true.mp letters '.' inside
  revert letter
  decide

namespace Manifest

/-- Functions and classes of an accepted manifest are called by identifiers. -/
theorem isIdentifier_of_parse {fileName text : String} {manifest : Manifest}
    (accepted : parse fileName text = .ok manifest) :
    (∀ record ∈ manifest.functions, isIdentifier record.name = true) ∧
      ∀ record ∈ manifest.classes, isIdentifier record.name = true := by
  have checked := accepted_of_parse accepted
  exact ⟨checked.functions, fun record member => (checked.classes record member).name⟩

end Manifest

theorem Entity.Reader.ReadsClass.qualifiedNames {reader : Reader} {warnings : List Diagnostic}
    {record : Manifest.ClassRecord} {self : Entity.Class} (reads : reader.ReadsClass warnings record self) :
    (∀ method ∈ self.methods, method.qualifiedName = Reader.memberName self.name method.name) ∧
      ∀ property ∈ self.properties, property.qualifiedName = Reader.memberName self.name property.name := by
  constructor
  · intro method declared
    obtain ⟨entry, _, read⟩ := exists_of_forall₂_right reads.methods declared
    rw [read.qualifiedName, reads.name, read.name]
    rfl
  · intro property declared
    obtain ⟨entry, _, read⟩ := exists_of_forall₂_right reads.properties declared
    rw [read.qualifiedName, reads.name, read.name]
    rfl

namespace Graph

section Final

variable {manifest : Manifest} {raw final : Graph} {repeats found : List Diagnostic} {inheriting : Bool}

theorem addressed_of_finalize {fileName text : String} (accepted : Manifest.parse fileName text = .ok manifest)
    (distinct : manifest.Distinct) (built : ofManifest manifest = .ok (raw, repeats))
    (success : raw.finalize inheriting = (final, .ok found)) : final.Addressed := by
  obtain ⟨reads, rawDistinct, _⟩ := reads_of_ofManifest built
  obtain ⟨lineages, _, rfl, _⟩ := finalWith_of_finalize rawDistinct success
  obtain ⟨plainFunctions, plainClasses⟩ := Manifest.isIdentifier_of_parse accepted
  have classes := classes_finalWith raw inheriting lineages
  have functions := functions_finalWith raw inheriting lineages
  constructor
  · constructor
    · simpa [classes, Function.comp_def] using rawDistinct.classes
    · simpa [functions, Function.comp_def, Function.mark] using rawDistinct.functions
  · rw [functions]
    intro function listed
    obtain ⟨old, member, rfl⟩ := List.mem_map.mp listed
    obtain ⟨record, recorded, read⟩ := exists_of_forall₂_right reads.functions member
    have named : (old.mark true).qualifiedName = record.name := read.qualifiedName
    rw [named]
    exact dot_not_mem (plainFunctions record recorded)
  · rw [classes]
    intro self listed
    obtain ⟨old, member, rfl⟩ := List.mem_map.mp listed
    obtain ⟨record, recorded, read⟩ := exists_of_forall₂_right reads.classes member
    rw [final_name, read.name]
    exact dot_not_mem (plainClasses record recorded)
  · rw [classes]
    intro self listed
    obtain ⟨old, member, rfl⟩ := List.mem_map.mp listed
    obtain ⟨_, _, read⟩ := exists_of_forall₂_right reads.classes member
    refine ⟨nodup_methodNames_final raw lineages _ (reads.nodup_memberNames distinct member).of_append_left, ?_⟩
    rw [final_name]
    intro method listed
    obtain ⟨source, own | ⟨_, _, _, _, rfl⟩, rfl⟩ := exists_of_mem_methods_final raw inheriting lineages listed
    · exact read.qualifiedNames.1 source own
    · rfl
  · rw [classes]
    intro self listed
    obtain ⟨old, member, rfl⟩ := List.mem_map.mp listed
    obtain ⟨_, _, read⟩ := exists_of_forall₂_right reads.classes member
    refine ⟨nodup_propertyNames_final raw lineages _ (reads.nodup_memberNames distinct member).of_append_right, ?_⟩
    rw [final_name]
    intro property listed
    obtain ⟨source, own | ⟨_, _, _, _, rfl⟩, rfl⟩ := exists_of_mem_properties_final raw inheriting lineages listed
    · exact read.qualifiedNames.2 source own
    · rfl

/-- Finalizing keeps what an entity is called and where it is. -/
theorem exists_subject_finalWith (inheriting : Bool) (lineages : Hierarchy.Lineages) {entity : Entity}
    (listed : entity ∈ raw.entities) :
    ∃ made ∈ (raw.finalWith inheriting lineages).entities, made.subject = entity.subject := by
  have classes := classes_finalWith raw inheriting lineages
  have functions := functions_finalWith raw inheriting lineages
  rcases mem_entities.mp listed with ⟨function, member, rfl⟩ | ⟨self, member, inside⟩
  · have made : function.mark true ∈ (raw.finalWith inheriting lineages).functions := by
      rw [functions]
      exact List.mem_map_of_mem member
    exact ⟨_, function_mem_entities made, rfl⟩
  have made : raw.final inheriting lineages self ∈ (raw.finalWith inheriting lineages).classes := by
    rw [classes]
    exact List.mem_map_of_mem member
  rcases inside with rfl | ⟨method, declared, rfl⟩ | ⟨property, declared, rfl⟩
  · refine ⟨_, class_mem_entities made, ?_⟩
    simp [subject, kind, qualifiedName, position]
  · exact ⟨_, method_mem_entities made (mark_mem_methods_final raw inheriting lineages declared), rfl⟩
  · exact ⟨_, property_mem_entities made (mark_mem_properties_final raw inheriting lineages declared), rfl⟩

end Final

/-- Every text documents the module or an entity. -/
theorem Reads.exists_subject {manifest : Manifest} {warnings : List Diagnostic} {graph : Graph}
    (reads : graph.Reads manifest warnings) {documented : Documentation.Subject × String}
    (listed : documented ∈ (reader manifest).documented manifest) :
    documented.1 = (reader manifest).moduleSubject manifest.module ∨
      ∃ entity ∈ graph.entities, entity.subject = documented.1 := by
  rcases List.mem_append.mp listed with early | inside
  · rcases List.mem_cons.mp early with rfl | inside
    · exact .inl rfl
    · obtain ⟨record, recorded, rfl⟩ := List.mem_map.mp inside
      obtain ⟨function, member, read⟩ := exists_of_forall₂_left reads.functions recorded
      refine .inr ⟨_, function_mem_entities member, ?_⟩
      rw [subject, kind, qualifiedName, position, read.qualifiedName, read.position]
      rfl
  obtain ⟨record, recorded, inside⟩ := List.mem_flatMap.mp inside
  obtain ⟨self, member, read⟩ := exists_of_forall₂_left reads.classes recorded
  rcases List.mem_append.mp inside with early | ofProperty
  · rcases List.mem_cons.mp early with rfl | ofMethod
    · refine .inr ⟨_, class_mem_entities member, ?_⟩
      rw [subject, kind, qualifiedName, position, read.name, read.position]
      rfl
    · obtain ⟨entry, written, rfl⟩ := List.mem_map.mp ofMethod
      obtain ⟨method, declared, methodRead⟩ := exists_of_forall₂_left read.methods written
      refine .inr ⟨_, method_mem_entities member declared, ?_⟩
      rw [subject, kind, qualifiedName, position, methodRead.qualifiedName, methodRead.position]
      rfl
  · obtain ⟨entry, written, rfl⟩ := List.mem_map.mp ofProperty
    obtain ⟨property, declared, propertyRead⟩ := exists_of_forall₂_left read.properties written
    refine .inr ⟨_, property_mem_entities member declared, ?_⟩
    rw [subject, kind, qualifiedName, position, propertyRead.qualifiedName, propertyRead.position]
    rfl

end Graph

/-! ### Findings -/

/-- The finding names what it is about, by its kind and its qualified name. -/
def Diagnostic.About (diagnostic : Diagnostic) (kind : EntityKind) (name : String) : Prop :=
  diagnostic.location = some name ∧ ∃ rest, diagnostic.message = kind.label ++ " '" ++ name ++ "'" ++ rest

theorem about_reportEmpty (subject : Documentation.Subject) (fragment : Fragment) :
    (reportEmpty subject fragment).About subject.kind subject.name := by
  refine ⟨rfl, " has an empty " ++ fragment.key.label ++ " fragment", ?_⟩
  change _ ++ ("'" ++ " has an empty ") ++ _ ++ _ = _
  simp only [String.append_assoc]

theorem about_repeated (subject : Documentation.Subject) (fragment : Fragment) :
    (Reader.repeated subject fragment).About subject.kind subject.name := by
  refine ⟨rfl, " repeats the " ++ fragment.key.label ++ " fragment, the first one is kept", ?_⟩
  change _ ++ ("'" ++ " repeats the ") ++ _ ++ _ = _
  simp only [String.append_assoc]

theorem about_of_mem_excluded {entity : Entity} {finding : Diagnostic} (member : finding ∈ excluded entity) :
    finding.About entity.kind entity.qualifiedName := by
  unfold excluded at member
  split at member
  · cases member
  · obtain rfl := List.mem_singleton.mp member
    exact ⟨rfl, " is documented but has no fragment, not exported", by simp [String.append_assoc]⟩

namespace Graph

/-- The finding is about an entity that the graph lists. -/
def Mentions (graph : Graph) (finding : Diagnostic) : Prop :=
  ∃ entity ∈ graph.entities, finding.About entity.kind entity.qualifiedName

theorem mentions_of_mem_findings {graph : Graph} {finding : Diagnostic} (member : finding ∈ graph.findings) :
    graph.Mentions finding := by
  rcases List.mem_append.mp member with inside | inside
  · obtain ⟨entity, listed, told⟩ := List.mem_flatMap.mp inside
    obtain ⟨function, known, rfl⟩ := List.mem_map.mp listed
    exact ⟨_, function_mem_entities known, about_of_mem_excluded told⟩
  obtain ⟨self, known, inside⟩ := List.mem_flatMap.mp inside
  rcases List.mem_append.mp inside with inside | orphaned
  · rcases List.mem_append.mp inside with own | ofMember
    · exact ⟨_, class_mem_entities known, about_of_mem_excluded own⟩
    obtain ⟨entity, listed, told⟩ := List.mem_flatMap.mp ofMember
    refine ⟨entity, ?_, about_of_mem_excluded told⟩
    split at listed
    · rcases List.mem_append.mp listed with listed | listed
      · obtain ⟨method, declared, rfl⟩ := List.mem_map.mp listed
        exact method_mem_entities known (List.mem_filter.mp declared).1
      · obtain ⟨property, declared, rfl⟩ := List.mem_map.mp listed
        exact property_mem_entities known (List.mem_filter.mp declared).1
    · cases listed
  · refine ⟨_, class_mem_entities known, ?_⟩
    split at orphaned
    · obtain rfl := List.mem_singleton.mp orphaned
      exact ⟨rfl, " has no fragments, so its annotated members are not exported",
        by simp [kind, EntityKind.label, qualifiedName, String.append_assoc]⟩
    · cases orphaned

/-- Where a check says that a finding is: the entity that the name of its own entity leads to. The module is no entity
that can be looked up. -/
inductive Located (graph : Graph) (finding : Diagnostic) : Prop
  | module (about : finding.About .module graph.module.name)
  | entity {entity answer : Entity} (listed : entity ∈ graph.entities)
      (about : finding.About entity.kind entity.qualifiedName) (answers : graph.Answers entity answer)
      (printed : Report.Check.finding graph finding =
        finding.message ++ "\n  --> " ++ (answer.position.display ++ " (" ++ entity.qualifiedName ++ ")"))

theorem Addressed.located {graph : Graph} (addressed : graph.Addressed) {finding : Diagnostic}
    (mentions : graph.Mentions finding) : graph.Located finding := by
  obtain ⟨entity, listed, about⟩ := mentions
  obtain ⟨answer, answers⟩ : ∃ answer, graph.Answers entity answer := by
    by_cases hidden : ∃ other, graph.Hides other entity
    · obtain ⟨other, hides⟩ := hidden
      exact ⟨other, .inl hides⟩
    · exact ⟨entity, .inr ⟨rfl, not_exists.mp hidden⟩⟩
  refine .entity listed about answers ?_
  simp only [Report.Check.finding, about.1, (addressed.entity?_eq_some_iff listed).mpr answers]

end Graph

/-- Lints that find no error find texts with empty fragments, and nothing else. -/
theorem Lint.exists_of_mem_findings {manifest : Manifest} (distinct : manifest.Distinct) {finding : Diagnostic}
    (member : finding ∈ Lint.findings manifest) : ∃ documented ∈ (Graph.reader manifest).documented manifest,
      ∃ fragment, finding = reportEmpty documented.1 fragment := by
  have split : findings manifest = duplicateEntity.check manifest ++ emptyFragment.check manifest := by
    simp [findings, all]
  have clean : duplicateEntity.check manifest = [] := check_duplicateEntity distinct
  rw [split, clean, List.nil_append] at member
  obtain ⟨documented, listed, inside⟩ := List.mem_flatMap.mp member
  obtain ⟨fragment, _, rfl⟩ := List.mem_map.mp inside
  exact ⟨documented, listed, fragment, rfl⟩

/-- The qualified name of an entity leads to the entity, unless it is a class with the name of a function, or a property
with the name of a method of its class. A check shows a finding at the position of what the name leads to. -/
theorem lookup_finds_entities {fileName text : String} {manifest : Manifest}
    (accepted : Manifest.parse fileName text = .ok manifest) {outputName : Option String} {checked : Compilation}
    (passes : Compilation.validate Lint.all (start manifest outputName) = (.ok (), checked)) {inheriting : Bool}
    {raw final : Graph} {repeats found : List Diagnostic} (built : Graph.ofManifest manifest = .ok (raw, repeats))
    (success : raw.finalize inheriting = (final, .ok found)) :
    (∀ entity ∈ final.entities, ∀ answer,
      final.entity? entity.qualifiedName = some answer ↔ final.Answers entity answer) ∧
    (∀ finding ∈ checked.diagnostics ++ repeats ++ found, final.Located finding) ∧
    ∀ state, inheriting = manifest.settings.inheritMembers →
      (({} : Pipeline Id).compile manifest outputName : Outcome) = (.ok (), state) →
      state.graph = some final ∧ state.diagnostics = checked.diagnostics ++ repeats ++ found := by
  have distinct := clean_findings_iff.mp (clean_of_validate passes)
  have addressed := Graph.addressed_of_finalize accepted distinct built success
  obtain ⟨reads, rawDistinct, _⟩ := Graph.reads_of_ofManifest built
  obtain ⟨lineages, _, rfl, rfl⟩ := Graph.finalWith_of_finalize rawDistinct success
  obtain rfl := validate_eq_ok passes
  -- A text documents the module or an entity, and finalizing keeps what that entity is called.
  have documents : ∀ finding (documented : Documentation.Subject × String),
      documented ∈ (Graph.reader manifest).documented manifest →
      finding.About documented.1.kind documented.1.name → (raw.finalWith inheriting lineages).Located finding := by
    intro finding documented listed about
    rcases reads.exists_subject listed with module | ⟨old, member, same⟩
    · rw [module] at about
      apply Graph.Located.module
      rw [Graph.module_finalWith, reads.module.name]
      exact about
    · obtain ⟨entity, known, kept⟩ := Graph.exists_subject_finalWith inheriting lineages member
      rw [← same, ← kept] at about
      exact addressed.located ⟨entity, known, about⟩
  refine ⟨fun entity listed answer => addressed.entity?_eq_some_iff listed, ?_, ?_⟩
  · intro finding member
    rcases List.mem_append.mp member with early | late
    · rcases List.mem_append.mp early with linted | repeated
      · obtain ⟨documented, listed, fragment, rfl⟩ := exists_of_mem_findings distinct linted
        exact documents _ documented listed (about_reportEmpty _ fragment)
      · obtain ⟨documented, listed, fragment, rfl⟩ := Graph.tellsRepeats_of_ofManifest built finding repeated
        exact documents _ documented listed (about_repeated _ fragment)
    · exact addressed.located (Graph.mentions_of_mem_findings late)
  · rintro state rfl ends
    obtain ⟨_, _, _, _, _, completes⟩ := completes_of_compile ends
    cases completes.built.symm.trans built
    cases completes.finalized.symm.trans success
    exact ⟨completes.graph, completes.diagnostics⟩

/-- A function, and a class of the same name that is only documented. -/
def springsText : String :=
  "[module]
name = \"springs\"
[[functions]]
name = \"spring\"
line = 3
doc = \"_CPP_: return NULL;\"
[[classes]]
name = \"spring\"
line = 7
doc = \"A coil.\""

def springs : Manifest where
  module := { name := "springs" }
  functions := [{ name := "spring", line := some 3, doc := "_CPP_: return NULL;" }]
  classes := [{ name := "spring", line := some 7, doc := "A coil." }]

/-- The text is accepted. Its characters are taken from the literal as a whole, which is faster than decoding them. -/
theorem parse_springs : Manifest.parse "springs.toml" springsText = .ok springs := by
  have characters : springsText.toList = _ := (String.toList_ofList : (String.ofList _).toList = _)
  have read : (Toml.read? springsText).bind Manifest.Decode.manifest = some springs := by
    rw [Toml.read?, characters]
    decide +kernel
  rw [Manifest.parse, read]
  decide +kernel

theorem validate_springs : ∃ checked, Compilation.validate Lint.all (start springs none) = (.ok (), checked) := by
  have distinct : springs.Distinct := ⟨by decide, by decide, by decide⟩
  exact ⟨_, validate_of_clean (clean_findings_iff.mpr distinct)⟩

/-- The class is hidden, and what is found about it is shown at the place of the function. -/
theorem finalize_springs : ∃ raw repeats final found, Graph.ofManifest springs = .ok (raw, repeats) ∧
    raw.finalize true = (final, .ok found) ∧
    ∃ entity ∈ final.entities, entity.position.display = "springs.py:7" ∧
      final.entity? entity.qualifiedName ≠ some entity ∧
      ∃ finding ∈ found, finding.About entity.kind entity.qualifiedName ∧
        Report.Check.finding final finding = finding.message ++ "\n  --> springs.py:3 (spring)" := by
  have evaluated : (Graph.ofManifest springs >>= fun built => (built.1.finalize true).2 >>= fun found =>
      (.ok ((built.1.finalize true).1.entities.any fun entity => entity.position.display = "springs.py:7" ∧
        (built.1.finalize true).1.entity? entity.qualifiedName ≠ some entity ∧
        found = excluded entity ∧ found ≠ [] ∧ found.all fun finding =>
          Report.Check.finding (built.1.finalize true).1 finding =
            finding.message ++ "\n  --> springs.py:3 (spring)") : Except Fault Bool)) = .ok true := by
    decide +kernel
  obtain ⟨⟨raw, repeats⟩, built, evaluated⟩ := bind_eq_ok.mp evaluated
  obtain ⟨found, finalized, evaluated⟩ := bind_eq_ok.mp evaluated
  obtain ⟨entity, listed, holds⟩ := List.any_eq_true.mp (Except.ok.inj evaluated)
  obtain ⟨place, hidden, told, some, shown⟩ := of_decide_eq_true holds
  obtain ⟨finding, member⟩ := List.exists_mem_of_ne_nil found some
  refine ⟨raw, repeats, _, found, built, Prod.ext rfl finalized, entity, listed, place, hidden, finding, member, ?_, ?_⟩
  · exact about_of_mem_excluded (told ▸ member)
  · exact of_decide_eq_true (List.all_eq_true.mp shown finding member)

theorem springs_meet : Manifest.parse "springs.toml" springsText = .ok springs ∧
    (∃ checked, Compilation.validate Lint.all (start springs none) = (.ok (), checked)) ∧
    ∃ raw repeats final found, Graph.ofManifest springs = .ok (raw, repeats) ∧
      raw.finalize true = (final, .ok found) ∧
      ∃ entity ∈ final.entities, entity.position.display = "springs.py:7" ∧
        final.entity? entity.qualifiedName ≠ some entity ∧
        ∃ finding ∈ found, finding.About entity.kind entity.qualifiedName ∧
          Report.Check.finding final finding = finding.message ++ "\n  --> springs.py:3 (spring)" :=
  ⟨parse_springs, validate_springs, finalize_springs⟩

theorem lookup_of_springs : ∃ raw repeats final found, Graph.ofManifest springs = .ok (raw, repeats) ∧
    raw.finalize true = (final, .ok found) ∧ final.entities ≠ [] ∧
    ∀ entity ∈ final.entities, ∀ answer,
      final.entity? entity.qualifiedName = some answer ↔ final.Answers entity answer := by
  obtain ⟨checked, passes⟩ := validate_springs
  obtain ⟨raw, repeats, final, found, built, success, entity, listed, _⟩ := finalize_springs
  exact ⟨raw, repeats, final, found, built, success, List.ne_nil_of_mem listed,
    (lookup_finds_entities parse_springs passes built success).1⟩

end DocWeave
