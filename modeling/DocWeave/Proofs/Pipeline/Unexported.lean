import DocWeave.Proofs.Entity.Insertion
import DocWeave.Proofs.Pipeline.Ending

/-!
# Records that do not show

A manifest may get a function without a marker, or a class without a marker that only has bases without fragments.
A run that succeeded still succeeds, and its texts stay the same.
-/

namespace DocWeave

open Compilation Entity Lint Relation Render

theorem Inserted.nodup {α : Type} {item : α} {old whole : List α} (inserted : Inserted [item] old whole)
    (distinct : old.Nodup) (fresh : item ∉ old) : whole.Nodup := by
  obtain ⟨before, after, rfl, rfl⟩ := inserted
  rw [List.append_assoc, List.singleton_append, List.nodup_middle]
  exact List.nodup_cons.mpr ⟨fresh, distinct⟩

theorem Documentation.parse_of_unmarked {word doc : String} (unmarked : Marker.all word doc.toList = [])
    (subject : Documentation.Subject) :
    ∃ documentation, Documentation.parse word subject doc = .ok documentation ∧ documentation.fragments = [] := by
  unfold parse
  dsimp only
  rw [unmarked]
  exact ⟨_, rfl, rfl⟩

theorem Entity.Reader.Reads.fragments_eq_nil {reader : Reader} {warnings : List Diagnostic}
    {subject : Documentation.Subject} {doc : String} {fragments : List Fragment}
    (reads : reader.Reads warnings subject doc fragments) (unmarked : Marker.all reader.marker doc.toList = []) :
    fragments = [] := by
  obtain ⟨documentation, parsed, rfl, _⟩ := reads
  obtain ⟨empty, success, none⟩ := Documentation.parse_of_unmarked unmarked subject
  rw [success] at parsed
  cases parsed
  exact none

/-- The manifests that have one more record somewhere, of a function without fragments, or of a class that has none and
inherits none. What the class may inherit from is seen in the finalized graph. -/
inductive Manifest.Unexported (manifest : Manifest) (final : Graph) : Manifest → Prop
  | function {record : FunctionRecord} {functions : List FunctionRecord}
      (inserted : Inserted [record] manifest.functions functions)
      (fresh : record.name ∉ manifest.functions.map (·.name))
      (unmarked : Marker.all manifest.settings.marker record.doc.toList = []) :
      Unexported manifest final { manifest with functions }
  | class {record : ClassRecord} {classes : List ClassRecord}
      (inserted : Inserted [record] manifest.classes classes)
      (fresh : record.name ∉ manifest.classes.map (·.name))
      (unmarked : Marker.all manifest.settings.marker record.doc.toList = [])
      (members : (record.methods.map (·.name) ++ record.properties.map (·.name)).Nodup)
      (parses : ∀ text ∈ (Graph.reader manifest).documentedMembers record,
        ∃ documentation, Documentation.parse manifest.settings.marker text.1 text.2 = .ok documentation)
      (bases : ∀ base ∈ record.bases, base = rootClass ∨
        ∃ present ∈ final.classes, present.name = base ∧ final.hasEffective present = false) :
      Unexported manifest final { manifest with classes }

namespace Manifest.Unexported

variable {manifest other : Manifest} {final : Graph} (unexported : manifest.Unexported final other)

include unexported

theorem module_eq : other.module = manifest.module := by
  cases unexported <;> rfl

theorem settings_eq : other.settings = manifest.settings := by
  cases unexported <;> rfl

theorem reader_eq : Graph.reader other = Graph.reader manifest := by
  rw [Graph.reader, Graph.reader, unexported.module_eq, unexported.settings_eq]

theorem distinct (distinct : manifest.Distinct) : other.Distinct := by
  cases unexported with
  | function inserted fresh unmarked =>
    exact { distinct with functions := (inserted.map (·.name)).nodup distinct.functions fresh }
  | «class» inserted fresh unmarked members parses bases =>
    refine { distinct with classes := (inserted.map (·.name)).nodup distinct.classes fresh, members := ?_ }
    intro record listed
    rcases inserted.mem_iff.mp listed with old | new
    · exact distinct.members record old
    · rwa [List.mem_singleton.mp new]

/-- The texts of the new record can be taken apart, like the others. -/
theorem parses {raw : Graph} {repeats : List Diagnostic} (reads : raw.Reads manifest repeats)
    {text : Documentation.Subject × String} (listed : text ∈ (Graph.reader other).documented other) :
    ∃ documentation, Documentation.parse other.settings.marker text.1 text.2 = .ok documentation := by
  have old (known : text ∈ (Graph.reader manifest).documented manifest) := reads.parses known
  simp only [Reader.documented, List.cons_append, List.mem_cons, List.mem_append, List.mem_map,
    List.mem_flatMap] at listed old
  cases unexported with
  | function inserted fresh unmarked =>
    rcases listed with same | ⟨record, member, rfl⟩ | inside
    · exact old (.inl same)
    · rcases inserted.mem_iff.mp member with known | new
      · exact old (.inr (.inl ⟨record, known, rfl⟩))
      · obtain rfl := List.mem_singleton.mp new
        exact (Documentation.parse_of_unmarked unmarked _).imp fun _ => And.left
    · exact old (.inr (.inr inside))
  | «class» inserted fresh unmarked members parses bases =>
    rcases listed with same | inside | ⟨record, member, inside⟩
    · exact old (.inl same)
    · exact old (.inr (.inl inside))
    · rcases inserted.mem_iff.mp member with known | new
      · exact old (.inr (.inr ⟨record, known, inside⟩))
      · obtain rfl := List.mem_singleton.mp new
        rcases List.mem_cons.mp inside with rfl | ofMember
        · exact (Documentation.parse_of_unmarked unmarked _).imp fun _ => And.left
        · exact parses text ofMember

/-- The graph with the new record is built. -/
theorem exists_ofManifest {raw : Graph} {repeats : List Diagnostic} (distinct : manifest.Distinct)
    (reads : raw.Reads manifest repeats) : ∃ whole others, Graph.ofManifest other = .ok (whole, others) := by
  rcases outcome : Graph.ofManifest other with fault | ⟨whole, others⟩
  · rcases Graph.ofManifest_fails outcome with ⟨text, listed, failed⟩ | ⟨_, again⟩
    · obtain ⟨documentation, parsed⟩ := unexported.parses reads listed
      rw [parsed] at failed
      cases failed
    · have names := unexported.distinct distinct
      exact absurd ⟨names.functions, names.classes⟩ again
  · exact ⟨whole, others, rfl⟩

variable {raw whole : Graph} {repeats others findings : List Diagnostic}
  (built : Graph.ofManifest manifest = .ok (raw, repeats))
  (finalized : raw.finalize manifest.settings.inheritMembers = (final, .ok findings))
  (wider : Graph.ofManifest other = .ok (whole, others))

include built finalized wider

/-- Only the entity of the new record is new in the graph. -/
theorem exists_extended : ∃ newFunctions newClasses, raw.Extended newFunctions newClasses whole := by
  have distinct := (Graph.reads_of_ofManifest built).2.1
  obtain ⟨module, functions, classes⟩ := Graph.entities_of_ofManifest built
  obtain ⟨widerModule, widerFunctions, widerClasses⟩ := Graph.entities_of_ofManifest wider
  rw [unexported.reader_eq] at widerModule widerFunctions widerClasses
  rw [unexported.module_eq, module] at widerModule
  have sameModule := (Option.some.inj widerModule).symm
  have widerDistinct := (Graph.reads_of_ofManifest wider).2.1
  cases unexported with
  | function inserted fresh unmarked =>
    have functionsInserted := inserted.filterMap fun record =>
      Graph.entityRead? ((Graph.reader manifest).function none record)
    rw [← functions, ← widerFunctions] at functionsInserted
    have sameClasses : whole.classes = raw.classes := widerClasses.trans classes.symm
    refine ⟨_, [], widerDistinct, sameModule, functionsInserted, sameClasses ▸ Inserted.refl _, ?_, by simp, by simp,
      by simp⟩
    intro function new
    obtain ⟨found, read⟩ := Graph.exists_of_mem_filterMap new
    exact (Reader.readsFunction_of_function read).reads.fragments_eq_nil unmarked
  | @«class» record _ inserted fresh unmarked members parses bases =>
    have classesInserted := inserted.filterMap fun record => Graph.entityRead? ((Graph.reader manifest).class record)
    rw [← classes, ← widerClasses] at classesInserted
    have sameFunctions : whole.functions = raw.functions := widerFunctions.trans functions.symm
    have inherits {self : Entity.Class} {found : List Diagnostic}
        (read : (Graph.reader manifest).class record = .ok (self, found)) {base : String}
        (declared : base ∈ self.declaredBases) : base ∈ raw.classes.map (·.name) ∧
          ∀ ancestor ∈ raw.classes, ReflTransGen raw.Base base ancestor.name → ancestor.fragments = [] := by
      obtain ⟨listed, notRoot⟩ := Graph.mem_declaredBases.mp declared
      rw [Reader.baseNames_of_class read] at listed
      obtain ⟨present, member, rfl, left⟩ := (bases base listed).resolve_left notRoot
      exact Graph.plain_of_hasEffective distinct finalized member left
    refine ⟨[], _, widerDistinct, sameModule, sameFunctions ▸ Inserted.refl _, classesInserted, by simp, ?_, ?_, ?_⟩
    · intro self new
      obtain ⟨found, read⟩ := Graph.exists_of_mem_filterMap new
      exact (Reader.readsClass_of_class read).reads.fragments_eq_nil unmarked
    · intro self new base declared
      obtain ⟨found, read⟩ := Graph.exists_of_mem_filterMap new
      exact (inherits read declared).1
    · intro self new base declared
      obtain ⟨found, read⟩ := Graph.exists_of_mem_filterMap new
      exact (inherits read declared).2

end Manifest.Unexported

variable {manifest other : Manifest} {outputName : Option String} {state : Compilation} {final : Graph}

/-- A run that succeeds also succeeds with one more record that is not exported, and both texts are the same. -/
theorem compile_hides_unexported
    (success : (({} : Pipeline Id).compile manifest outputName : Outcome) = (.ok (), state))
    (finalized : state.graph = some final) (unexported : manifest.Unexported final other) :
    ∃ changed artifacts,
      (({} : Pipeline Id).compile other outputName : Outcome) = (.ok (), changed) ∧
      state.artifacts = some artifacts ∧ changed.artifacts = some artifacts := by
  obtain ⟨raw, _, repeats, found, artifacts, completes⟩ := completes_of_compile success
  cases completes.graph.symm.trans finalized
  have distinct := distinct_of_compile success
  obtain ⟨whole, others, built⟩ := unexported.exists_ofManifest distinct completes.reads
  obtain ⟨_, _, extended⟩ := unexported.exists_extended completes.built completes.finalized built
  obtain ⟨wholeFinal, _, finished, alike⟩ :=
    extended.exists_alike_of_finalize manifest.settings.inheritMembers completes.finalized
  have rendered : wholeFinal.render (Options.ofSettings (outputName.getD manifest.module.name) manifest.settings) =
      .ok artifacts := by
    rw [render_congr _ alike]
    exact completes.rendered
  rw [← unexported.settings_eq] at finished rendered
  rw [← unexported.module_eq] at rendered
  obtain ⟨changed, ends, same⟩ := compile_of_rendered (unexported.distinct distinct) built finished rendered
  exact ⟨changed, artifacts, ends, completes.artifacts, same⟩

/-- A class with a field and a class without code. -/
def plans : Manifest where
  module := { name := "plans" }
  classes := [{ name := "Form", doc := "_CPP_: int size;" }, { name := "Sheet" }]

/-- A class whose method has code. -/
def draft : Manifest.ClassRecord where
  name := "Draft"
  bases := ["object", "Sheet"]
  methods := [{ name := "fold", doc := "_CPP_: return;" }]

def drafts : Manifest :=
  { plans with classes := [{ name := "Form", doc := "_CPP_: int size;" }, draft, { name := "Sheet" }] }

/-- The new class stands between the others, and the code of its method does not show. -/
theorem hidden_of_draft : ∃ state changed artifacts,
    (({} : Pipeline Id).compile plans none : Outcome) = (.ok (), state) ∧
    (({} : Pipeline Id).compile drafts none : Outcome) = (.ok (), changed) ∧
    state.artifacts = some artifacts ∧ changed.artifacts = some artifacts := by
  have evaluated : (({} : Pipeline Id).compile plans none : Outcome).1.toOption = some () ∧
      ((({} : Pipeline Id).compile plans none : Outcome).2.graph.any fun final =>
        final.classes.any fun present => present.name = "Sheet" && !final.hasEffective present) = true := by
    decide +kernel
  have parsed : ((Graph.reader plans).documentedMembers draft).all (fun text =>
      (Documentation.parse plans.settings.marker text.1 text.2).toOption.isSome) = true := by decide +kernel
  rcases success : (({} : Pipeline Id).compile plans none : Outcome) with ⟨fault | ⟨⟩, state⟩
  · rw [success] at evaluated
    cases evaluated.1
  · rw [success] at evaluated
    obtain ⟨final, finalized, sheets⟩ := (Option.any_eq_true _ _).mp evaluated.2
    obtain ⟨present, member, sheet⟩ := List.any_eq_true.mp sheets
    have plain : present.name = "Sheet" ∧ final.hasEffective present = false := by simpa using sheet
    have unexported : plans.Unexported final drafts := by
      have inserted : Inserted [draft] plans.classes drafts.classes := ⟨[_], [_], rfl, rfl⟩
      refine .class inserted (by decide) (by decide +kernel) (by decide) ?_ ?_
      · intro text listed
        have succeeds := List.all_eq_true.mp parsed text listed
        cases outcome : Documentation.parse plans.settings.marker text.1 text.2 with
        | ok documentation => exact ⟨documentation, rfl⟩
        | error fault => simp [outcome, Except.toOption] at succeeds
      · intro base listed
        rcases List.mem_pair.mp listed with rfl | rfl
        · exact .inl rfl
        · exact .inr ⟨present, member, plain⟩
    obtain ⟨changed, artifacts, ends, same⟩ := compile_hides_unexported success finalized unexported
    exact ⟨state, changed, artifacts, rfl, ends, same⟩

end DocWeave
