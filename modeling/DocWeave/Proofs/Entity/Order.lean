import DocWeave.Proofs.Entity.Reading
import DocWeave.Proofs.Entity.Subgraph

/-!
# The order of classes

Classes may be recorded in any order, also a class before its bases. What finalizing makes of a class does not depend
on where the class stands.
-/

namespace DocWeave

open Entity Manifest Relation

namespace Graph

/-! ### Records in another order -/

/-- The warnings of an outcome. -/
def warningsRead {α : Type} (outcome : Except Fault (α × List Diagnostic)) : List Diagnostic :=
  outcome.toOption.elim [] Prod.snd

theorem warnings_addClasses {reader : Reader} {graph whole : Graph} {records : List ClassRecord}
    {warnings : List Diagnostic} (success : addClasses reader graph records = .ok (whole, warnings)) :
    warnings = records.flatMap fun record => warningsRead (reader.class record) := by
  induction records generalizing graph whole warnings with
  | nil =>
    cases success
    rfl
  | cons record rest ih =>
    obtain ⟨⟨first, own⟩, read, success⟩ := bind_eq_ok.mp success
    obtain ⟨grown, _, success⟩ := bind_eq_ok.mp success
    obtain ⟨⟨_, others⟩, further, success⟩ := bind_eq_ok.mp success
    cases success
    rw [List.flatMap_cons, ih further, read]
    rfl

/-- The module and the functions are read as before, so only the warnings about classes change places. -/
theorem warnings_of_perm {manifest : Manifest} {graph other : Graph} {warnings others : List Diagnostic}
    {classes : List ClassRecord} (perm : classes.Perm manifest.classes)
    (built : ofManifest manifest = .ok (graph, warnings))
    (otherBuilt : ofManifest { manifest with classes } = .ok (other, others)) : others.Perm warnings := by
  obtain ⟨⟨module, _⟩, moduleRead, built⟩ := bind_eq_ok.mp built
  obtain ⟨⟨withFunctions, _⟩, functionsAdded, built⟩ := bind_eq_ok.mp built
  obtain ⟨⟨_, _⟩, classesAdded, built⟩ := bind_eq_ok.mp built
  obtain ⟨⟨_, _⟩, otherModuleRead, otherBuilt⟩ := bind_eq_ok.mp otherBuilt
  cases moduleRead.symm.trans otherModuleRead
  obtain ⟨⟨_, _⟩, otherFunctionsAdded, otherBuilt⟩ := bind_eq_ok.mp otherBuilt
  cases functionsAdded.symm.trans otherFunctionsAdded
  obtain ⟨⟨_, _⟩, otherClassesAdded, otherBuilt⟩ := bind_eq_ok.mp otherBuilt
  cases built
  cases otherBuilt
  rw [warnings_addClasses classesAdded, warnings_addClasses otherClassesAdded]
  exact (perm.flatMap_right _).append_left _

/-- A graph is built from the records in any order, and it has the same classes. -/
theorem ofManifest_of_perm {manifest : Manifest} {graph : Graph} {warnings : List Diagnostic}
    (built : ofManifest manifest = .ok (graph, warnings)) {classes : List ClassRecord}
    (perm : classes.Perm manifest.classes) :
    ∃ other others, ofManifest { manifest with classes } = .ok (other, others) ∧ others.Perm warnings ∧
      other.module = graph.module ∧ other.functions = graph.functions ∧ other.classes.Perm graph.classes := by
  obtain ⟨reads, distinct, _⟩ := reads_of_ofManifest built
  rcases outcome : ofManifest { manifest with classes } with fault | ⟨other, others⟩
  · exfalso
    rcases ofManifest_fails outcome with ⟨text, listed, failed⟩ | ⟨_, repeated⟩
    · have known : text ∈ (reader manifest).documented manifest := by
        apply (List.Perm.mem_iff _).mp listed
        exact (perm.flatMap_right _).append_left _
      obtain ⟨documentation, parsed⟩ := reads.parses known
      rw [parsed] at failed
      cases failed
    · apply repeated
      constructor
      · rw [reads.qualifiedNames]
        exact distinct.functions
      · rw [(perm.map _).nodup_iff, reads.classNames]
        exact distinct.classes
  · obtain ⟨module, functions, found⟩ := entities_of_ofManifest built
    obtain ⟨otherModule, otherFunctions, otherFound⟩ := entities_of_ofManifest outcome
    refine ⟨other, others, rfl, ?_, ?_, otherFunctions.trans functions.symm, ?_⟩
    · exact warnings_of_perm perm built outcome
    · exact Option.some.inj (otherModule.symm.trans module)
    · rw [otherFound, found]
      exact perm.filterMap _

/-! ### Graphs with the same classes -/

section Perm

variable {graph other : Graph} (perm : other.classes.Perm graph.classes)

include perm

theorem base_of_perm : other.Base = graph.Base := by
  funext heir base
  apply propext
  constructor
  · rintro ⟨self, member, link⟩
    exact ⟨self, perm.mem_iff.mp member, link⟩
  · rintro ⟨self, member, link⟩
    exact ⟨self, perm.mem_iff.mpr member, link⟩

theorem lacksBase_of_perm : other.LacksBase ↔ graph.LacksBase := by
  rw [lacksBase_iff, lacksBase_iff, base_of_perm perm]
  simp only [(perm.map (·.name)).mem_iff]

variable (distinct : graph.Distinct) (functions : other.functions = graph.functions)

include distinct functions

theorem distinct_of_perm : other.Distinct where
  classes := (perm.map (·.name)).nodup_iff.mpr distinct.classes
  functions := functions ▸ distinct.functions

theorem exists_finalize_of_perm (inheriting : Bool) :
    (∃ final found, other.finalize inheriting = (final, .ok found)) ↔
      ∃ final found, graph.finalize inheriting = (final, .ok found) := by
  rw [exists_finalize_eq_ok_iff (distinct_of_perm perm distinct functions), exists_finalize_eq_ok_iff distinct,
    lacksBase_of_perm perm, base_of_perm perm]

/-- Both graphs make the same of every class. -/
theorem finalize_of_perm (module : other.module = graph.module) {inheriting : Bool} {final otherFinal : Graph}
    {found otherFound : List Diagnostic} (success : graph.finalize inheriting = (final, .ok found))
    (otherSuccess : other.finalize inheriting = (otherFinal, .ok otherFound)) :
    otherFinal = { final with classes := otherFinal.classes } ∧ otherFinal.classes.Perm final.classes ∧
      (∀ name, otherFinal.class? name = final.class? name) ∧
      (∀ self ∈ final.classes, ∀ key, otherFinal.effectiveBody self key = final.effectiveBody self key) ∧
      otherFound.Perm found := by
  have complete := ((exists_finalize_eq_ok_iff distinct inheriting).mp ⟨_, _, success⟩).1
  have otherDistinct := distinct_of_perm perm distinct functions
  have within : graph.Within other := ⟨distinct.classes, otherDistinct.classes, perm.symm.subset, complete⟩
  obtain ⟨lineages, known, rfl, rfl⟩ := finalWith_of_finalize distinct success
  obtain ⟨wider, widerKnown, rfl, rfl⟩ := finalWith_of_finalize otherDistinct otherSuccess
  have classes : (other.finalWith inheriting wider).classes.Perm (graph.finalWith inheriting lineages).classes := by
    rw [classes_finalWith, classes_finalWith]
    apply (perm.map _).trans
    rw [List.map_congr_left fun _ => within.final_eq known widerKnown inheriting]
  have sameFunctions :
      (other.finalWith inheriting wider).functions = (graph.finalWith inheriting lineages).functions := by
    rw [functions_finalWith, functions_finalWith, functions]
  refine ⟨?_, classes, ?_, ?_, ?_⟩
  · apply eq_of_parts
    · rw [module_finalWith, module_finalWith, module]
    · exact sameFunctions
    · rfl
    · rfl
  · intro name
    by_cases old : name ∈ graph.classes.map (·.name)
    · exact within.class?_finalWith known widerKnown inheriting old
    · rw [class?_change (classes_finalWith other inheriting wider) final_name,
        class?_change (classes_finalWith graph inheriting lineages) final_name, class?_eq_none.mpr old,
        class?_eq_none.mpr ((perm.map (·.name)).mem_iff.not.mpr old), Option.map_none, Option.map_none]
  · intro self member key
    rw [effectiveBody, effectiveBody, within.effective_finalWith known widerKnown inheriting member]
  · rw [findings, findings, sameFunctions]
    exact (classes.flatMap_right _).append_left _

end Perm

/-- The order of the classes of a manifest decides neither whether finalizing succeeds nor what it makes of a class. -/
theorem finalize_ignores_class_order {manifest : Manifest} {graph : Graph} {warnings : List Diagnostic}
    (built : ofManifest manifest = .ok (graph, warnings)) {classes : List ClassRecord}
    (perm : classes.Perm manifest.classes) (inheriting : Bool) :
    ∃ other others, ofManifest { manifest with classes } = .ok (other, others) ∧ others.Perm warnings ∧
      ((∃ final found, other.finalize inheriting = (final, .ok found)) ↔
        ∃ final found, graph.finalize inheriting = (final, .ok found)) ∧
      ∀ final found otherFinal otherFound, graph.finalize inheriting = (final, .ok found) →
        other.finalize inheriting = (otherFinal, .ok otherFound) →
        otherFinal = { final with classes := otherFinal.classes } ∧ otherFinal.classes.Perm final.classes ∧
        (∀ name, otherFinal.class? name = final.class? name) ∧
        (∀ self ∈ final.classes, ∀ key, otherFinal.effectiveBody self key = final.effectiveBody self key) ∧
        otherFound.Perm found := by
  have distinct : graph.Distinct := (reads_of_ofManifest built).2.1
  obtain ⟨other, others, otherBuilt, warned, module, functions, same⟩ := ofManifest_of_perm built perm
  refine ⟨other, others, otherBuilt, warned, exists_finalize_of_perm same distinct functions inheriting, ?_⟩
  intro final found otherFinal otherFound success otherSuccess
  exact finalize_of_perm same distinct functions module success otherSuccess

/-- A class that inherits a method. -/
def clasp : ClassRecord where
  name := "Clasp"
  bases := ["Chain"]
  doc := "A clasp. _CPP_: int width;"

/-- A class whose method has code, but which has none itself. -/
def chain : ClassRecord where
  name := "Chain"
  doc := "Links."
  methods := [{ name := "link", doc := "_CPP_: return;", arity := { params := 1 } }]

/-- The class that inherits comes first. -/
def jewelry : Manifest where
  module := { name := "jewelry" }
  classes := [clasp, chain]

theorem order_of_jewelry : ∃ graph warnings other others final found otherFinal otherFound,
    ofManifest jewelry = .ok (graph, warnings) ∧
    ofManifest { jewelry with classes := [chain, clasp] } = .ok (other, others) ∧
    graph.finalize true = (final, .ok found) ∧ other.finalize true = (otherFinal, .ok otherFound) ∧
    otherFinal.class? "Clasp" = final.class? "Clasp" ∧ otherFound.Perm found := by
  have evaluated : (ofManifest jewelry >>= fun built => (built.1.finalize true).2 >>= fun _ =>
      (.ok () : Except Fault Unit)) = .ok () := by decide +kernel
  obtain ⟨⟨graph, warnings⟩, built, evaluated⟩ := bind_eq_ok.mp evaluated
  obtain ⟨found, finalized, _⟩ := bind_eq_ok.mp evaluated
  have success : graph.finalize true = (_, .ok found) := Prod.ext rfl finalized
  obtain ⟨other, others, otherBuilt, _, sound, same⟩ := finalize_ignores_class_order built (.swap clasp chain []) true
  obtain ⟨otherFinal, otherFound, otherSuccess⟩ := sound.mpr ⟨_, found, success⟩
  obtain ⟨_, _, classes, _, findings⟩ := same _ found otherFinal otherFound success otherSuccess
  exact ⟨graph, warnings, other, others, _, found, otherFinal, otherFound, built, otherBuilt, success, otherSuccess,
    classes "Clasp", findings⟩

end Graph

end DocWeave
