import DocWeave.Proofs.Entity.Reading
import DocWeave.Proofs.Manifest.Accepted
import DocWeave.Proofs.Pipeline.Members
import DocWeave.Proofs.Render.Spelling

/-!
# Symbols of an accepted manifest

A manifest is accepted if its names are identifiers. Building a graph and finalizing it makes no other names, so all
symbols of the rendering are spelled in C. Only names that can stand alone must not be keywords.
-/

namespace DocWeave

open Entity Render Text

/-! ### Names from the manifest to the final graph -/

namespace Graph

theorem identified_of_reads {manifest : Manifest} {raw : Graph} {warnings : List Diagnostic}
    (accepted : manifest.Accepted) (reads : raw.Reads manifest warnings) : raw.Identified := by
  have classes : ∀ self ∈ raw.classes, ∃ record ∈ manifest.classes, record.Accepted ∧
      (reader manifest).ReadsClass warnings record self := by
    intro self listed
    obtain ⟨record, recorded, read⟩ := exists_of_forall₂_right reads.classes listed
    exact ⟨record, recorded, accepted.classes record recorded, read⟩
  constructor
  · rw [reads.module.name]
    exact ⟨accepted.name, accepted.free⟩
  · intro function listed
    obtain ⟨record, recorded, read⟩ := exists_of_forall₂_right reads.functions listed
    rw [read.name]
    exact accepted.functions record recorded
  · intro self listed
    obtain ⟨record, _, checked, read⟩ := classes self listed
    rw [read.name]
    exact ⟨checked.name, checked.free⟩
  · intro self listed method own
    obtain ⟨record, _, checked, read⟩ := classes self listed
    obtain ⟨source, recorded, same⟩ := exists_of_forall₂_right read.methods own
    rw [same.name]
    exact (checked.methods source recorded).1
  · intro self listed property own
    obtain ⟨record, _, checked, read⟩ := classes self listed
    obtain ⟨source, recorded, same⟩ := exists_of_forall₂_right read.properties own
    rw [same.name]
    exact checked.properties source recorded

/-- Members that a class inherits keep their names. -/
theorem Identified.finalWith {raw : Graph} (identified : raw.Identified) (inheriting : Bool)
    (lineages : Hierarchy.Lineages) : (raw.finalWith inheriting lineages).Identified := by
  have classes := classes_finalWith raw inheriting lineages
  have functions := functions_finalWith raw inheriting lineages
  constructor
  · rw [module_finalWith]
    exact identified.module
  · rw [functions]
    intro function listed
    obtain ⟨old, member, rfl⟩ := List.mem_map.mp listed
    exact identified.functions old member
  · rw [classes]
    intro self listed
    obtain ⟨old, member, rfl⟩ := List.mem_map.mp listed
    rw [final_name]
    exact identified.classes old member
  · rw [classes]
    intro self listed method own
    obtain ⟨old, member, rfl⟩ := List.mem_map.mp listed
    obtain ⟨source, declared | ⟨owner, known, source, declared, rfl⟩, rfl⟩ :=
      exists_of_mem_methods_final raw inheriting lineages own
    · exact identified.methods old member source declared
    · exact identified.methods owner known source declared
  · rw [classes]
    intro self listed property own
    obtain ⟨old, member, rfl⟩ := List.mem_map.mp listed
    obtain ⟨source, declared | ⟨owner, known, source, declared, rfl⟩, rfl⟩ :=
      exists_of_mem_properties_final raw inheriting lineages own
    · exact identified.properties old member source declared
    · exact identified.properties owner known source declared

end Graph

/-! ### Names that may be keywords -/

namespace Manifest

/-- The manifest in which the stem, the functions and the members have other names. -/
def renameSymbols (manifest : Manifest) (rename : String → String) : Manifest :=
  { manifest with
    settings := { manifest.settings with stem := rename manifest.settings.stem }
    functions := manifest.functions.map fun record => { record with name := rename record.name }
    classes := manifest.classes.map fun record =>
      { record with
        methods := record.methods.map fun method => { method with name := rename method.name }
        properties := record.properties.map fun property => { property with name := rename property.name } } }

theorem Accepted.renameSymbols {manifest : Manifest} (accepted : manifest.Accepted) {rename : String → String}
    (plain : ∀ name, isIdentifier name = true → isIdentifier (rename name) = true) :
    (manifest.renameSymbols rename).Accepted where
  free := accepted.free
  name := accepted.name
  settings := { accepted.settings with stem := plain _ accepted.settings.stem }
  functions := List.forall_mem_map.mpr fun record recorded => plain _ (accepted.functions record recorded)
  classes := by
    refine List.forall_mem_map.mpr fun record recorded => ?_
    have checked := accepted.classes record recorded
    exact { checked with
      methods := List.forall_mem_map.mpr fun method own =>
        ⟨plain _ (checked.methods method own).1, (checked.methods method own).2⟩
      properties := List.forall_mem_map.mpr fun property own => plain _ (checked.properties property own) }

end Manifest

/-- Every symbol that the rendering of an accepted manifest defines or refers to can be the name of something in C, and
so can the guard of the interface, whatever the files are called. The stem and the names of functions and members may be
keywords. -/
theorem accepted_symbols_spelled {fileName text : String} {manifest : Manifest} {raw final : Graph}
    {repeats found : List Diagnostic} {inheriting : Bool} (accepted : Manifest.parse fileName text = .ok manifest)
    (built : Graph.ofManifest manifest = .ok (raw, repeats)) (success : raw.finalize inheriting = (final, .ok found))
    (output : String) :
    (∀ symbol, Uses ⟨final, Options.ofSettings output manifest.settings⟩ symbol → Spelled symbol) ∧
    (∀ item : Item, item.Of final → Spelled (item.name ⟨final, Options.ofSettings output manifest.settings⟩)) ∧
    (∀ rename : String → String, (∀ name, rename name = name ∨ rename name ∈ keywords) → ∀ other,
      (Toml.read? other).bind Manifest.Decode.manifest = some (manifest.renameSymbols rename) →
        Manifest.parse fileName other = .ok (manifest.renameSymbols rename)) ∧
    ∀ name, Spelled (includeGuard name) := by
  have checked := Manifest.accepted_of_parse accepted
  obtain ⟨reads, distinct, _⟩ := Graph.reads_of_ofManifest built
  obtain ⟨lineages, _, rfl, _⟩ := Graph.finalWith_of_finalize distinct success
  have identified := (Graph.identified_of_reads checked reads).finalWith inheriting lineages
  refine ⟨fun symbol uses => uses.spelled identified checked.settings.stem, fun item of => ?_, ?_, spelled_includeGuard⟩
  · exact Item.spelled_symbol checked.settings.stem identified.module.identifier (of.identifiers identified)
  · intro rename renames other read
    refine Manifest.parse_eq_ok_iff.mpr ⟨read, checked.renameSymbols fun name plain => ?_⟩
    rcases renames name with kept | keyword
    · rwa [kept]
    · exact isIdentifier_of_mem_keywords _ keyword

/-- A module in which keywords are the stem and the names of a function, a method and a property. -/
def wordsText : String :=
  "[module]
name = \"words\"
[generator]
prefix = \"new\"
[[functions]]
name = \"class\"
doc = \"_CPP_: return NULL;\"
[[classes]]
name = \"Base\"
doc = \"_CPP_: int size;\"
[[classes.methods]]
name = \"delete\"
params = 1
doc = \"_CPP_: return NULL;\"
[[classes.properties]]
name = \"int\"
doc = \"_CPP_: return NULL;\"
[[classes]]
name = \"Heir\"
bases = [\"Base\"]
doc = \"_CPP_: int more;\""

def words : Manifest where
  module := { name := "words" }
  settings := { stem := "new" }
  functions := [{ name := "class", doc := "_CPP_: return NULL;" }]
  classes := [
    { name := "Base", doc := "_CPP_: int size;",
      methods := [{ name := "delete", doc := "_CPP_: return NULL;", arity := { params := 1 } }],
      properties := [{ name := "int", doc := "_CPP_: return NULL;" }] },
    { name := "Heir", bases := ["Base"], doc := "_CPP_: int more;" }]

/-- The text is accepted. Its characters are taken from the literal as a whole, which is faster than decoding them. -/
theorem parse_words : Manifest.parse "words.toml" wordsText = .ok words := by
  have characters : wordsText.toList = _ := (String.toList_ofList : (String.ofList _).toList = _)
  have read : (Toml.read? wordsText).bind Manifest.Decode.manifest = some words := by
    rw [Toml.read?, characters]
    decide +kernel
  rw [Manifest.parse, read]
  decide +kernel

theorem finalize_words : ∃ raw repeats final found, Graph.ofManifest words = .ok (raw, repeats) ∧
    raw.finalize true = (final, .ok found) ∧
    .member .method "Heir" "delete" ∈ items ⟨final, Options.ofSettings "words" words.settings⟩ := by
  have evaluated : (Graph.ofManifest words >>= fun built => (built.1.finalize true).2 >>= fun _ =>
      (.ok (decide (.member .method "Heir" "delete" ∈
        items ⟨(built.1.finalize true).1, Options.ofSettings "words" words.settings⟩)) : Except Fault Bool)) =
      .ok true := by
    decide +kernel
  obtain ⟨⟨raw, repeats⟩, built, evaluated⟩ := bind_eq_ok.mp evaluated
  obtain ⟨found, finalized, evaluated⟩ := bind_eq_ok.mp evaluated
  exact ⟨raw, repeats, _, found, built, Prod.ext rfl finalized, of_decide_eq_true (Except.ok.inj evaluated)⟩

theorem spelling_of_words : ∃ raw repeats final found, Manifest.parse "words.toml" wordsText = .ok words ∧
    (isKeyword words.settings.stem = true ∧ (∀ record ∈ words.functions, isKeyword record.name = true) ∧
      ∀ record ∈ words.classes, (∀ method ∈ record.methods, isKeyword method.name = true) ∧
        ∀ property ∈ record.properties, isKeyword property.name = true) ∧
    Graph.ofManifest words = .ok (raw, repeats) ∧ raw.finalize true = (final, .ok found) ∧
    Uses ⟨final, Options.ofSettings "words" words.settings⟩ "new_method_Heir_delete" ∧
    Spelled "new_method_Heir_delete" := by
  obtain ⟨raw, repeats, final, found, built, success, listed⟩ := finalize_words
  have uses : Uses ⟨final, Options.ofSettings "words" words.settings⟩ "new_method_Heir_delete" := by
    obtain ⟨part, known, inside⟩ := List.mem_flatMap.mp listed
    obtain ⟨provision, present, same⟩ := List.mem_map.mp inside
    have symbol : (Item.member .method "Heir" "delete").symbol ⟨"new"⟩ "words" = "new_method_Heir_delete" := by decide
    have name : provision.item.name ⟨final, Options.ofSettings "words" words.settings⟩ = "new_method_Heir_delete" := by
      rw [same]
      exact symbol
    exact name ▸ .defines known (List.mem_filter.mp present).1
  exact ⟨raw, repeats, final, found, parse_words, by decide +kernel, built, success, uses,
    (accepted_symbols_spelled parse_words built success "words").1 _ uses⟩

end DocWeave
