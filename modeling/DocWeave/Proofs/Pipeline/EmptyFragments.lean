import DocWeave.Lint
import DocWeave.Proofs.Entity.Reading
import DocWeave.Proofs.Fragment.Keys

/-!
# Empty fragments

The lint for empty fragments takes every documentation text of a manifest apart by itself, and the graph of the
manifest takes the same texts apart when it is built. Text by text they find the same fragments, so the lint reports
those fragments of the graph that hold no code, in the order of the graph.
-/

namespace DocWeave

open Entity Lint Manifest Text

/-! ### The order of the fragments of a text -/

/-- The scan finds markers from left to right. -/
theorem Marker.ordered_scan (c : Char) (cs : List Char) (start : Nat) (text : List Char) :
    (∀ marker ∈ scan c cs start text, start ≤ marker.span.start) ∧
      (scan c cs start text).Pairwise fun earlier later => earlier.span.start < later.span.start := by
  have size := c.utf8Size_pos
  induction start, text using scan.induct c cs with
  | case1 start =>
    rw [scan]
    exact ⟨List.forall_mem_nil _, .nil⟩
  | case2 start first others after stop tail found ih =>
    rw [scan_of_colon found tail]
    have behind : start < stop := by simp only [stop, byteLength_cons]; omega
    refine ⟨List.forall_mem_cons.mpr ⟨Nat.le_refl _, ?_⟩, .cons ?_ ih.2⟩
    · exact fun marker member => Nat.le_trans (Nat.le_of_lt behind) (ih.1 marker member)
    · exact fun marker member => Nat.lt_of_lt_of_le behind (ih.1 marker member)
  | case3 start first others after stop key rest tail keyedStop found ih =>
    rw [scan_of_keyed found tail]
    have behind : start < keyedStop := by simp only [keyedStop, stop, byteLength_cons]; omega
    refine ⟨List.forall_mem_cons.mpr ⟨Nat.le_refl _, ?_⟩, .cons ?_ ih.2⟩
    · exact fun marker member => Nat.le_trans (Nat.le_of_lt behind) (ih.1 marker member)
    · exact fun marker member => Nat.lt_of_lt_of_le behind (ih.1 marker member)
  | case4 start first others after stop tail found ih =>
    rw [scan_of_none found tail]
    exact ⟨fun marker member => Nat.le_trans (Nat.le_add_right _ _) (ih.1 marker member), ih.2⟩
  | case5 start first others absent ih =>
    rw [scan, if_neg absent]
    exact ⟨fun marker member => Nat.le_trans (Nat.le_add_right _ _) (ih.1 marker member), ih.2⟩

theorem Marker.ordered_all (word : String) (text : List Char) :
    (all word text).Pairwise fun earlier later => earlier.span.start < later.span.start := by
  unfold all
  split
  · exact .nil
  · exact (ordered_scan _ _ 0 text).2

theorem Fragment.whereTaken_sublist (taken : Bool) (fragments : List Fragment) :
    (whereTaken taken fragments).Sublist fragments := by
  have kept := (List.filter_sublist (l := fragments.zipIdx) (p := (keyTaken fragments · == taken))).map Prod.fst
  rwa [List.zipIdx_map_fst] at kept

/-- Fragments in the order in which their markers stand in the documentation. -/
def Fragment.InTextOrder (fragments : List Fragment) : Prop :=
  fragments.Pairwise fun earlier later => earlier.marker.start < later.marker.start

/-- The fragments that are kept stand in text order. -/
theorem Documentation.ordered_of_parse {word doc : String} {subject : Subject} {documentation : Documentation}
    (success : parse word subject doc = .ok documentation) : Fragment.InTextOrder documentation.fragments := by
  have outcome := outcome_of_parse word subject doc
  rw [success] at outcome
  cases outcome with
  | @keyed read documentation each keys _ _ _ =>
    have ordered : (read.map Prod.snd).Pairwise fun earlier later => earlier.marker.start < later.marker.start := by
      have markers := each ▸ Marker.ordered_all word doc.toList
      rw [List.pairwise_map] at markers ⊢
      refine markers.imp_of_mem fun {earlier later} first second before => ?_
      rw [keys.marked earlier first, keys.marked later second]
      exact before
    rw [Fragment.InTextOrder, keys.kept]
    exact ordered.sublist (Fragment.whereTaken_sublist _ _)

/-! ### What has fragments in a graph -/

/-- Something documented, by its kind and its qualified name, with the fragments of its documentation. -/
structure Annotated where
  kind : EntityKind
  name : String
  fragments : List Fragment

def Annotated.ofEntity (entity : Entity) : Annotated :=
  ⟨entity.kind, entity.qualifiedName, entity.fragments⟩

namespace Graph

/-- The module, and behind it the entities. -/
def annotated (graph : Graph) : List Annotated :=
  ⟨.module, graph.module.name, graph.module.fragments⟩ :: graph.entities.map .ofEntity

/-- The fragments that hold no code, each with what it belongs to. -/
def emptyFragments (graph : Graph) : List (Annotated × Fragment) :=
  graph.annotated.flatMap fun annotated =>
    (annotated.fragments.filter fun fragment => isBlank fragment.body.toList).map (annotated, ·)

end Graph

namespace Annotated

/-- The documentation text is about this, and it has these fragments. -/
structure ReadFrom (reader : Reader) (documented : Documentation.Subject × String) (annotated : Annotated) : Prop where
  kind : annotated.kind = documented.1.kind
  name : annotated.name = documented.1.name
  parses : ∃ documentation, Documentation.parse reader.marker documented.1 documented.2 = .ok documentation ∧
    annotated.fragments = documentation.fragments

variable {reader : Reader} {warnings : List Diagnostic}

theorem readFrom_of_reads {subject : Documentation.Subject} {doc name : String} {fragments : List Fragment}
    (same : name = subject.name) (reads : reader.Reads warnings subject doc fragments) :
    ReadFrom reader (subject, doc) ⟨subject.kind, name, fragments⟩ := by
  obtain ⟨documentation, parsed, kept, _⟩ := reads
  exact ⟨rfl, same, documentation, parsed, kept⟩

theorem ReadFrom.ordered {documented : Documentation.Subject × String} {annotated : Annotated}
    (read : annotated.ReadFrom reader documented) : Fragment.InTextOrder annotated.fragments := by
  obtain ⟨documentation, parsed, same⟩ := read.parses
  exact same ▸ Documentation.ordered_of_parse parsed

/-- The texts of a class are about the class and its members, in their order. -/
theorem readFrom_withMembers {record : ClassRecord} {self : Entity.Class}
    (reads : reader.ReadsClass warnings record self) :
    List.Forall₂ (ReadFrom reader) (reader.documentedClass record) ((Graph.withMembers self).map ofEntity) := by
  have own : ReadFrom reader (reader.classSubject record, record.doc) (ofEntity (.class self)) :=
    readFrom_of_reads reads.name reads.reads
  have methods : List.Forall₂ (ReadFrom reader)
      (record.methods.map fun method => (reader.functionSubject (some record.name) method, method.doc))
      (self.methods.map fun method => ofEntity (.function method)) := by
    rw [List.forall₂_map_left_iff, List.forall₂_map_right_iff]
    exact reads.methods.imp fun _ _ method => readFrom_of_reads method.qualifiedName method.reads
  have properties : List.Forall₂ (ReadFrom reader)
      (record.properties.map fun property => (reader.propertySubject record.name property, property.doc))
      (self.properties.map fun property => ofEntity (.property property)) := by
    rw [List.forall₂_map_left_iff, List.forall₂_map_right_iff]
    exact reads.properties.imp fun _ _ property => readFrom_of_reads property.qualifiedName property.reads
  have split : (Graph.withMembers self).map ofEntity = ofEntity (.class self) ::
      self.methods.map (fun method => ofEntity (.function method)) ++
        self.properties.map fun property => ofEntity (.property property) := by
    simp [Graph.withMembers, Function.comp_def]
  rw [split]
  exact List.rel_append (.cons own methods) properties

/-- The texts of a manifest are about the module and the entities of its graph, in their order. -/
theorem readFrom_annotated {manifest : Manifest} {graph : Graph} (reads : graph.Reads manifest warnings) :
    List.Forall₂ (ReadFrom (Graph.reader manifest)) ((Graph.reader manifest).documented manifest) graph.annotated := by
  have module : ReadFrom (Graph.reader manifest)
      ((Graph.reader manifest).moduleSubject manifest.module, manifest.module.doc)
      ⟨.module, graph.module.name, graph.module.fragments⟩ :=
    readFrom_of_reads reads.module.name reads.module.reads
  have functions : List.Forall₂ (ReadFrom (Graph.reader manifest))
      (manifest.functions.map fun record => ((Graph.reader manifest).functionSubject none record, record.doc))
      (graph.functions.map fun function => ofEntity (.function function)) := by
    rw [List.forall₂_map_left_iff, List.forall₂_map_right_iff]
    exact reads.functions.imp fun _ _ function => readFrom_of_reads function.qualifiedName function.reads
  have classes := List.rel_flatMap reads.classes fun _ _ self => readFrom_withMembers self
  have split : graph.annotated = ⟨.module, graph.module.name, graph.module.fragments⟩ ::
      graph.functions.map (fun function => ofEntity (.function function)) ++
        graph.classes.flatMap fun self => (Graph.withMembers self).map ofEntity := by
    simp [Graph.annotated, Graph.entities, List.map_flatMap, Function.comp_def]
  rw [split]
  exact List.rel_append (.cons module functions) classes

/-- The warning for a fragment that holds no code. -/
def emptyWarning (annotated : Annotated) (fragment : Fragment) : Diagnostic where
  severity := .warning
  phase := "validate"
  message := annotated.kind.label ++ " '" ++ annotated.name ++ "' has an empty " ++ fragment.key.label ++ " fragment"
  location := some annotated.name

/-- From a text, the lint reports the empty fragments of what the text is about. -/
theorem ReadFrom.reports {documented : Documentation.Subject × String} {annotated : Annotated}
    (read : annotated.ReadFrom reader documented) :
    (Lint.emptyFragments reader documented.1 documented.2).map (reportEmpty documented.1) =
      (annotated.fragments.filter fun fragment => isBlank fragment.body.toList).map annotated.emptyWarning := by
  obtain ⟨documentation, parsed, same⟩ := read.parses
  rw [Lint.emptyFragments, parsed, same]
  refine List.map_congr_left fun fragment _ => ?_
  rw [reportEmpty, emptyWarning, read.kind, read.name]
  rfl

end Annotated

/-- If the graph of a manifest can be built, the lint reports its empty fragments, each by one warning at the qualified
name of what has the fragment, in the order of the graph and of the documentation texts. -/
theorem Graph.emptyFragment_agrees {manifest : Manifest} {graph : Graph} {warnings : List Diagnostic}
    (built : ofManifest manifest = .ok (graph, warnings)) :
    (emptyFragment.check manifest = graph.emptyFragments.map fun empty => empty.1.emptyWarning empty.2) ∧
    ∀ annotated ∈ graph.annotated, Fragment.InTextOrder annotated.fragments := by
  obtain ⟨reads, _, _⟩ := reads_of_ofManifest built
  have read := Annotated.readFrom_annotated reads
  constructor
  · have reported := map_eq_map_of_forall₂ read fun _ _ each => each.reports
    rw [emptyFragments, List.map_flatMap]
    simp only [List.map_map, Function.comp_def]
    exact congrArg List.flatten reported
  · intro annotated listed
    obtain ⟨_, _, each⟩ := exists_of_forall₂_right read listed
    exact each.ordered

/-- A module, a class and a property with markers that nothing follows. -/
def sketches : Manifest where
  module := { name := "sketches", doc := "_CPP_(HEADER):\n\n_CPP_: int lines;" }
  classes := [{
    name := "Pencil", doc := "_CPP_(NEW):\n_CPP_: int grade;\n_CPP_(FREE):  \n"
    properties := [{ name := "grade", doc := "_CPP_: return NULL;\n_CPP_:", setter := true }] }]

theorem warnings_of_sketches : ∃ graph repeats, Graph.ofManifest sketches = .ok (graph, repeats) ∧
    (graph.emptyFragments.map fun empty => (empty.1.name, empty.2.key)) =
      [("sketches", .header), ("Pencil", .new), ("Pencil", .free), ("Pencil.grade", .set)] ∧
    (emptyFragment.check sketches = graph.emptyFragments.map fun empty => empty.1.emptyWarning empty.2) ∧
    ∀ annotated ∈ graph.annotated, Fragment.InTextOrder annotated.fragments := by
  have evaluated : (Graph.ofManifest sketches >>= fun built =>
      (.ok (decide ((built.1.emptyFragments.map fun empty => (empty.1.name, empty.2.key)) =
        [("sketches", .header), ("Pencil", .new), ("Pencil", .free), ("Pencil.grade", .set)])) :
        Except Fault Bool)) = .ok true := by decide +kernel
  obtain ⟨⟨graph, repeats⟩, built, found⟩ := bind_eq_ok.mp evaluated
  exact ⟨graph, repeats, built, of_decide_eq_true (Except.ok.inj found), Graph.emptyFragment_agrees built⟩

end DocWeave
