import DocWeave.Proofs.Entity.Sources
import DocWeave.Proofs.Manifest.Accepted
import DocWeave.Proofs.Pipeline.Phases
import DocWeave.Proofs.Render.Parts
import DocWeave.Proofs.Tag.Places

/-!
# The places that faults show

A run that fails over a marker or a tag shows its place. The place lies in the documentation of a record, and
selects exactly what is written there.
-/

namespace DocWeave

open Tag Text

namespace Manifest

theorem isWord_of_parse {fileName text : String} {manifest : Manifest}
    (accepted : parse fileName text = .ok manifest) : isWord manifest.settings.marker = true :=
  (accepted_of_parse accepted).settings.marker

end Manifest

/-- The fragment is kept in the documentation of a record, where the origin says. -/
def Manifest.KeepsAt (manifest : Manifest) (origin : Origin) (fragment : Fragment) : Prop :=
  ∃ kind fragments, manifest.Holds kind origin.doc fragments ∧ fragment ∈ fragments ∧
    fragment.key = origin.key

/-- A fault about a marker or a tag shows a place that selects what is written there: the marker with its key
word, or the tag, up to the end of the fragment if it is not closed. Other faults show no such place. -/
def Fault.SelectsSource (manifest : Manifest) (fault : Fault) : Prop :=
  match fault with
  | .unsupportedKey kind word entity position doc span =>
    (⟨entity, kind, position⟩, doc) ∈ (Graph.reader manifest).documented manifest ∧
    ∃ key taken, word = (String.ofList key).map Char.toUpper ∧
      kind.keyOfWord? taken (String.ofList key) = none ∧
      span.Selects doc.toList (manifest.settings.marker.toList ++ '(' :: key ++ [')', ':'])
  | .unknownTag _ origin _ =>
    ∃ fragment, manifest.KeepsAt origin fragment ∧ PointsAt origin fragment fault
  | .unresolved _ _ cause origin _ =>
    cause = .unknownBase ∨ cause = .cyclicBase ∨
    ∃ fragment, manifest.KeepsAt origin fragment ∧ PointsAt origin fragment fault
  | _ => True

namespace Graph

variable {manifest : Manifest} {graph : Graph} {site : Site} {fragment : Fragment}

/-- What rendering expands stands in the documentation of a record. -/
theorem Expands.keepsAt (expands : graph.Expands site fragment) (sourced : graph.Sourced manifest) :
    manifest.KeepsAt site.origin fragment := by
  cases expands with
  | module own => exact ⟨_, _, sourced.module, own, rfl⟩
  | function member own => exact ⟨_, _, sourced.functions _ member, own, rfl⟩
  | method owner member own => exact ⟨_, _, (sourced.classes _ owner).methods _ member, own, rfl⟩
  | property owner member own => exact ⟨_, _, (sourced.classes _ owner).properties _ member, own, rfl⟩
  | ancestor _ above own => exact ⟨_, _, (sourced.classes _ above).own, own, rfl⟩

theorem Sourced.of_finalize {inheriting : Bool} {final : Graph} {found : List Diagnostic}
    (sourced : graph.Sourced manifest) (distinct : graph.Distinct)
    (success : graph.finalize inheriting = (final, .ok found)) : final.Sourced manifest := by
  obtain ⟨lineages, _, rfl, _⟩ := finalWith_of_finalize distinct success
  exact sourced.finalWith inheriting lineages

end Graph

open Compilation

variable {manifest : Manifest} {fault : Fault}

theorem selectsSource_of_parse {text : Documentation.Subject × String}
    (word : isWord manifest.settings.marker = true)
    (documented : text ∈ (Graph.reader manifest).documented manifest)
    (failure : Documentation.parse manifest.settings.marker text.1 text.2 = .error fault) :
    fault.SelectsSource manifest := by
  obtain ⟨key, taken, span, rfl, unsupported, selects⟩ := Documentation.selects_of_parse_error word failure
  exact ⟨documented, key, taken, rfl, unsupported, selects⟩

theorem selectsSource_of_baseFault {self : Entity.Class} {base : String} {cause : Unresolved}
    (inheritance : cause = .unknownBase ∨ cause = .cyclicBase) :
    (self.baseFault base cause).SelectsSource manifest := by
  rcases inheritance with rfl | rfl
  · exact .inl rfl
  · exact .inr (.inl rfl)

theorem selectsSource_of_finalize {graph : Graph} {inheriting : Bool} (distinct : graph.Distinct)
    (failure : (graph.finalize inheriting).2 = .error fault) : fault.SelectsSource manifest := by
  have ending := Graph.finalize_finalized distinct inheriting
  rw [failure] at ending
  generalize (graph.finalize inheriting).1 = left at ending
  cases ending with
  | unknownBase _ _ _ => exact selectsSource_of_baseFault (.inl rfl)
  | cyclicBase _ _ _ => exact selectsSource_of_baseFault (.inr rfl)

theorem selectsSource_of_pointsAt {origin : Origin} {fragment : Fragment}
    (keeps : manifest.KeepsAt origin fragment) (points : PointsAt origin fragment fault) :
    fault.SelectsSource manifest := by
  have shown := points
  cases points with
  | tag causes _ _ _ =>
    cases causes with
    | unknown _ => exact ⟨fragment, keeps, shown⟩
    | refused _ => exact .inr (.inr ⟨fragment, keeps, shown⟩)
  | unclosed _ _ _ _ => exact .inr (.inr ⟨fragment, keeps, shown⟩)

theorem selectsSource_of_render {graph : Graph} {options : Render.Options}
    (word : isWord manifest.settings.marker = true) (sourced : graph.Sourced manifest)
    (failure : graph.render options = .error fault) : fault.SelectsSource manifest := by
  obtain ⟨site, fragment, expands, failed⟩ := Render.render_eq_error failure
  obtain ⟨kind, fragments, holds, own, _⟩ := expands.keepsAt sourced
  exact selectsSource_of_pointsAt (expands.keepsAt sourced)
    (pointsAt_of_expand expands.offset_eq (holds.occursAt word own) failed)

/-- Every run that fails over a marker or a tag shows its place. -/
theorem compile_faults_select_source {fileName text : String} {outputName : Option String}
    {state : Compilation} (accepted : Manifest.parse fileName text = .ok manifest)
    (failure : (({} : Pipeline Id).compile manifest outputName : Outcome) = (.error fault, state)) :
    fault.SelectsSource manifest := by
  have word := Manifest.isWord_of_parse accepted
  rcases compile_eq_error failure with ⟨errors, rfl⟩ | unbuilt | ⟨raw, repeats, built, failed⟩
  · trivial
  · rcases Graph.ofManifest_eq_error unbuilt with ⟨text, documented, failed⟩ | ⟨kind, name, rfl⟩
    · exact selectsSource_of_parse word documented failed
    · trivial
  · obtain ⟨reads, distinct, _⟩ := Graph.reads_of_ofManifest built
    rcases failed with failed | ⟨final, found, finalized, failed⟩
    · exact selectsSource_of_finalize distinct failed
    · exact selectsSource_of_render word ((Graph.sourced_of_reads reads).of_finalize distinct finalized) failed

/-- A square that copies its form as a shape does, before there is a class of forms. -/
def squaresText : String :=
  "[module]\nname = \"shapes\"
[[classes]]\nname = \"Square\"\nbases = [\"Shape\"]
[[classes]]\nname = \"Shape\"
doc = \"\"\"\nEine Größe.\n\n_CPP_(copy):\n    // ä\n    copy->form = $COPY(form, Form);\n\"\"\""

def squares : Manifest where
  module := { name := "shapes" }
  classes := [{ name := "Square", bases := ["Shape"] },
    { name := "Shape", doc := "Eine Größe.\n\n_CPP_(copy):\n    // ä\n    copy->form = $COPY(form, Form);\n" }]

def squaresFault : Fault :=
  .unresolved "Form" "$COPY" .notExported
    ⟨"Square", .copy, ⟨"shapes.py", none⟩,
      "Eine Größe.\n\n_CPP_(copy):\n    // ä\n    copy->form = $COPY(form, Form);\n"⟩
    (some ⟨55, 72⟩)

theorem place_of_inherited_tag :
    Manifest.parse "shapes.toml" squaresText = .ok squares ∧
    (({} : Pipeline Id).compile squares none).1 = .error squaresFault ∧
    squaresFault.SelectsSource squares := by
  have accepted : Manifest.parse "shapes.toml" squaresText = .ok squares := by decide +kernel
  have failure : (({} : Pipeline Id).compile squares none).1 = .error squaresFault := by decide +kernel
  exact ⟨accepted, failure, compile_faults_select_source accepted (Prod.ext failure rfl)⟩

end DocWeave
