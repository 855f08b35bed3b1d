import DocWeave.Proofs.Entity.Heirs
import DocWeave.Proofs.Entity.Reading
import DocWeave.Proofs.Fragment.Markers

/-!
# Where the fragments of an entity come from

Every entity, before and after a graph is finalized, has the fragments of one documentation text of the
manifest. A copy of an inherited member keeps the text of the member that it copies.
-/

namespace DocWeave

open Entity Text

/-- The fragments are those of the documentation of a record of this kind. -/
def Manifest.Holds (manifest : Manifest) (kind : EntityKind) (doc : String) (fragments : List Fragment) : Prop :=
  ∃ subject documentation, (subject, doc) ∈ (Graph.reader manifest).documented manifest ∧
    subject.kind = kind ∧ Documentation.parse manifest.settings.marker subject doc = .ok documentation ∧
    fragments = documentation.fragments

namespace Manifest.Holds

variable {manifest : Manifest} {kind : EntityKind} {doc : String} {fragments : List Fragment}
  {fragment : Fragment}

theorem occursAt (holds : manifest.Holds kind doc fragments) (word : isWord manifest.settings.marker = true)
    (member : fragment ∈ fragments) : OccursAt doc.toList fragment.offset fragment.body.toList := by
  obtain ⟨subject, documentation, _, _, parsed, rfl⟩ := holds
  exact Documentation.occursAt_of_parse word parsed fragment (List.mem_append_left _ member)

theorem key_mem (holds : manifest.Holds kind doc fragments) (member : fragment ∈ fragments) :
    fragment.key ∈ kind.keys := by
  obtain ⟨subject, documentation, _, rfl, parsed, rfl⟩ := holds
  exact (Documentation.keyed_of_parse parsed).supported fragment (List.mem_append_left _ member)

theorem find?_eq (holds : manifest.Holds kind doc fragments) (member : fragment ∈ fragments) :
    Fragment.find? fragments fragment.key = some fragment := by
  obtain ⟨subject, documentation, _, _, parsed, rfl⟩ := holds
  exact (Documentation.keyed_of_parse parsed).find?_eq member

end Manifest.Holds

theorem body?_of_mem {manifest : Manifest} {function : Entity.Function} {fragment : Fragment}
    (holds : manifest.Holds .function function.doc function.fragments) (member : fragment ∈ function.fragments) :
    fragment.key = .default ∧ function.body? = some fragment := by
  have key : fragment.key = .default := by simpa [EntityKind.keys] using holds.key_mem member
  have found := holds.find?_eq member
  rw [key] at found
  exact ⟨key, found⟩

theorem accesses_of_mem {manifest : Manifest} {property : Entity.Property} {fragment : Fragment}
    (holds : manifest.Holds .property property.doc property.fragments) (member : fragment ∈ property.fragments) :
    fragment.key = .get ∧ property.getter? = some fragment ∨
      fragment.key = .set ∧ property.setter? = some fragment := by
  have keys : fragment.key = .get ∨ fragment.key = .set := by simpa [EntityKind.keys] using holds.key_mem member
  have found := holds.find?_eq member
  rcases keys with key | key
  · rw [key] at found
    exact .inl ⟨key, found⟩
  · rw [key] at found
    exact .inr ⟨key, found⟩

theorem isSome_body? {manifest : Manifest} {function : Entity.Function}
    (holds : manifest.Holds .function function.doc function.fragments) (coded : function.fragments ≠ []) :
    function.body?.isSome := by
  obtain ⟨fragment, member⟩ := List.exists_mem_of_ne_nil _ coded
  rw [(body?_of_mem holds member).2]
  rfl

/-- A class and its members have the fragments of documentation texts. -/
structure Entity.Class.Sourced (manifest : Manifest) (entity : Entity.Class) : Prop where
  own : manifest.Holds .class entity.doc entity.fragments
  methods : ∀ method ∈ entity.methods, manifest.Holds .function method.doc method.fragments
  properties : ∀ property ∈ entity.properties, manifest.Holds .property property.doc property.fragments

namespace Graph

/-- The module and every entity have the fragments of documentation texts. -/
structure Sourced (manifest : Manifest) (graph : Graph) : Prop where
  module : manifest.Holds .module graph.module.doc graph.module.fragments
  functions : ∀ function ∈ graph.functions, manifest.Holds .function function.doc function.fragments
  classes : ∀ self ∈ graph.classes, self.Sourced manifest

variable {manifest : Manifest} {graph : Graph} {warnings : List Diagnostic}

theorem holds_of_reads {subject : Documentation.Subject} {doc : String} {fragments : List Fragment}
    (documented : (subject, doc) ∈ (reader manifest).documented manifest)
    (reads : (reader manifest).Reads warnings subject doc fragments) :
    manifest.Holds subject.kind doc fragments := by
  obtain ⟨documentation, parsed, same, _⟩ := reads
  exact ⟨subject, documentation, documented, rfl, parsed, same⟩

theorem sourced_of_readsClass {record : Manifest.ClassRecord} (listed : record ∈ manifest.classes)
    {self : Entity.Class} (reads : (reader manifest).ReadsClass warnings record self) :
    self.Sourced manifest := by
  have documented : ∀ text ∈ (reader manifest).documentedClass record,
      text ∈ (reader manifest).documented manifest := by
    intro text member
    simp only [Reader.documented, List.cons_append, List.mem_cons, List.mem_append, List.mem_flatMap]
    exact .inr (.inr ⟨record, listed, member⟩)
  constructor
  · rw [reads.doc]
    exact holds_of_reads (documented _ (by simp [Reader.documentedClass])) reads.reads
  · intro method member
    obtain ⟨source, known, read⟩ := exists_of_forall₂_right reads.methods member
    rw [read.doc]
    refine holds_of_reads (documented _ ?_) read.reads
    simp only [Reader.documentedClass, List.cons_append, List.mem_cons, List.mem_append, List.mem_map]
    exact .inr (.inl ⟨source, known, rfl⟩)
  · intro property member
    obtain ⟨source, known, read⟩ := exists_of_forall₂_right reads.properties member
    rw [read.doc]
    refine holds_of_reads (documented _ ?_) read.reads
    simp only [Reader.documentedClass, List.cons_append, List.mem_cons, List.mem_append, List.mem_map]
    exact .inr (.inr ⟨source, known, rfl⟩)

theorem sourced_of_reads (reads : graph.Reads manifest warnings) : graph.Sourced manifest := by
  constructor
  · rw [reads.module.doc]
    exact holds_of_reads (by simp [Reader.documented]) reads.module.reads
  · intro function member
    obtain ⟨source, known, read⟩ := exists_of_forall₂_right reads.functions member
    rw [read.doc]
    refine holds_of_reads ?_ read.reads
    simp only [Reader.documented, List.cons_append, List.mem_cons, List.mem_append, List.mem_map]
    exact .inr (.inl ⟨source, known, rfl⟩)
  · intro self member
    obtain ⟨source, known, read⟩ := exists_of_forall₂_right reads.classes member
    exact sourced_of_readsClass known read

theorem Sourced.finalWith (sourced : graph.Sourced manifest) (inheriting : Bool)
    (lineages : Hierarchy.Lineages) : (graph.finalWith inheriting lineages).Sourced manifest := by
  constructor
  · rw [module_finalWith]
    exact sourced.module
  · rw [functions_finalWith]
    intro function member
    obtain ⟨old, listed, rfl⟩ := List.mem_map.mp member
    exact sourced.functions old listed
  · rw [classes_finalWith]
    intro self member
    obtain ⟨old, listed, rfl⟩ := List.mem_map.mp member
    refine ⟨?_, ?_, ?_⟩
    · rw [final_doc, final_fragments]
      exact (sourced.classes old listed).own
    · intro marked present
      obtain ⟨method, own | ⟨ancestor, above, source, declared, rfl⟩, rfl⟩ :=
        exists_of_mem_methods_final graph inheriting lineages present
      · exact (sourced.classes old listed).methods method own
      · exact (sourced.classes ancestor above).methods source declared
    · intro marked present
      obtain ⟨property, own | ⟨ancestor, above, source, declared, rfl⟩, rfl⟩ :=
        exists_of_mem_properties_final graph inheriting lineages present
      · exact (sourced.classes old listed).properties property own
      · exact (sourced.classes ancestor above).properties source declared

end Graph

end DocWeave
