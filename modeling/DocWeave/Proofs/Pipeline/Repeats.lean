import DocWeave.Proofs.Entity.Reading
import DocWeave.Proofs.Fragment.Keys
import DocWeave.Proofs.Pipeline.Lints
import Mathlib.Data.List.NodupEquivFin

/-!
# Names that repeat

The lint passes over the names of a list and reports each entry that is in the list before. The graph takes functions
and classes one by one and refuses a name that it has. So a name that the graph refuses is one that the lint reports,
and a manifest for which the lint reports a function or a class gives no graph: a documentation text fails first, or the
name does.
-/

namespace DocWeave

open Entity Manifest

namespace Lint

/-- The name is in the list at this index and not before. -/
def FirstAt (names : List String) (name : String) (index : Nat) : Prop :=
  names[index]? = some name ∧ ∀ earlier < index, names[earlier]? ≠ some name

/-- One repeat for each entry of a list whose name is in the list before, in the order of the list. It has the place of
the entry and the first place of the name. -/
structure RepeatsOf (names : List String) (found : List Repeat) : Prop where
  ordered : found.Pairwise (·.place < ·.place)
  mem_iff : ∀ entry, entry ∈ found ↔ ∃ first index, first < index ∧ FirstAt names entry.name first ∧
    names[index]? = some entry.name ∧ entry.first = first + 1 ∧ entry.place = index + 1

theorem firstAt_idxOf {names : List String} {name : String} (member : name ∈ names) :
    FirstAt names name (names.idxOf name) := by
  refine ⟨List.getElem?_idxOf member, fun earlier before same => ?_⟩
  obtain ⟨bound, here⟩ := List.getElem?_eq_some_iff.mp same
  have fresh := List.not_of_lt_findIdx before
  simp [here] at fresh

theorem FirstAt.eq_idxOf {names : List String} {name : String} {index : Nat} (first : FirstAt names name index) :
    index = names.idxOf name := by
  obtain ⟨here, fresh⟩ := firstAt_idxOf (List.mem_of_getElem? first.1)
  rcases Nat.lt_trichotomy index (names.idxOf name) with before | same | after
  · exact absurd first.1 (fresh _ before)
  · exact same
  · exact absurd here (first.2 _ after)

theorem mem_repeats {names : List String} {entry : Repeat} :
    entry ∈ repeats names ↔ ∃ index, names[index]? = some entry.name ∧ names.idxOf entry.name < index ∧
      entry.first = names.idxOf entry.name + 1 ∧ entry.place = index + 1 := by
  simp only [repeats, List.mem_filterMap, Prod.exists, List.mem_zipIdx_iff_getElem?, Option.ite_none_right_eq_some,
    Option.some.injEq]
  constructor
  · rintro ⟨name, index, listed, early, rfl⟩
    exact ⟨index, listed, early, rfl, rfl⟩
  · rintro ⟨index, listed, early, first, place⟩
    refine ⟨entry.name, index, listed, early, ?_⟩
    rw [← first, ← place]

theorem repeatsOf_repeats (names : List String) : RepeatsOf names (repeats names) where
  ordered := by
    have indices : names.zipIdx.Pairwise (·.2 < ·.2) := by
      rw [← List.pairwise_map (f := Prod.snd), List.zipIdx_map_snd]
      exact List.pairwise_lt_range'
    refine indices.filterMap _ fun left right before one told other toldToo => ?_
    simp only [Option.ite_none_right_eq_some, Option.some.injEq] at told toldToo
    obtain ⟨⟨_, rfl⟩, _, rfl⟩ := And.intro told toldToo
    exact Nat.succ_lt_succ before
  mem_iff entry := by
    rw [mem_repeats]
    constructor
    · rintro ⟨index, listed, early, first, place⟩
      exact ⟨_, index, early, firstAt_idxOf (List.mem_of_getElem? listed), listed, first, place⟩
    · rintro ⟨first, index, early, firstAt, listed, isFirst, place⟩
      obtain rfl := firstAt.eq_idxOf
      exact ⟨index, listed, early, isFirst, place⟩

example : repeats ["gain", "tone", "gain", "tone", "gain"] = [⟨"gain", 3, 1⟩, ⟨"tone", 4, 2⟩, ⟨"gain", 5, 1⟩] := by
  decide

theorem exists_mem_repeats {names : List String} {name : String} (duplicate : names.Duplicate name) :
    ∃ entry ∈ repeats names, entry.name = name := by
  obtain ⟨earlier, index, before, first, second⟩ := List.duplicate_iff_exists_distinct_get.mp duplicate
  have here : names[index.val]? = some name := by simp [second]
  have there : names[earlier.val]? = some name := by simp [first]
  have fresh := (firstAt_idxOf duplicate.mem).2
  have sooner : names.idxOf name < index := (Nat.le_of_not_lt fun less => fresh _ less there).trans_lt before
  exact ⟨⟨name, _, names.idxOf name + 1⟩, mem_repeats.mpr ⟨_, here, sooner, rfl, rfl⟩, rfl⟩

/-- The error for an entry that repeats another one. -/
def repeatError (kind : String) (qualify : String → String) (entry : Repeat) : Diagnostic where
  severity := .error
  phase := "validate"
  message := "duplicate " ++ kind ++ " '" ++ qualify entry.name ++ "' (record " ++ toString entry.place
    ++ " repeats record " ++ toString entry.first ++ ")"
  location := some (qualify entry.name)

/-- The findings are one error for each repeat of a list of names. -/
def Tells (kind : String) (qualify : String → String) (names : List String) (findings : List Diagnostic) : Prop :=
  ∃ found, RepeatsOf names found ∧ findings = found.map (repeatError kind qualify)

theorem tells_reportRepeats (kind : String) (qualify : String → String) (names : List String) :
    Tells kind qualify names (reportRepeats kind qualify names) :=
  ⟨repeats names, repeatsOf_repeats names, rfl⟩

/-- A repeated name is reported. -/
theorem exists_mem_reportRepeats {kind name : String} {qualify : String → String} {names : List String}
    (duplicate : names.Duplicate name) :
    ∃ finding ∈ reportRepeats kind qualify names, finding.location = some (qualify name) := by
  obtain ⟨entry, member, rfl⟩ := exists_mem_repeats duplicate
  exact ⟨_, List.mem_map_of_mem member, rfl⟩

end Lint

namespace Graph

open Lint

variable {manifest : Manifest}

/-- A name that the graph refuses repeats in the list of its kind. -/
theorem duplicate_of_refused {kind : EntityKind} {name : String}
    (failure : ofManifest manifest = .error (.duplicate kind name)) :
    (kind = .function ∧ (manifest.functions.map (·.name)).Duplicate name) ∨
    (kind = .class ∧ (manifest.classes.map (·.name)).Duplicate name) := by
  rcases duplicate_of_ofManifest_error failure with ⟨text, _, failed⟩ | ⟨_, same, twice⟩ | ⟨_, same, twice⟩
  · -- a text only fails for a key word
    have outcome := Documentation.outcome_of_parse manifest.settings.marker text.1 text.2
    rw [failed] at outcome
    cases outcome
  · cases same
    exact .inl ⟨rfl, twice⟩
  · cases same
    exact .inr ⟨rfl, twice⟩

theorem nodup_of_ofManifest {graph : Graph} {warnings : List Diagnostic}
    (success : ofManifest manifest = .ok (graph, warnings)) :
    (manifest.functions.map (·.name)).Nodup ∧ (manifest.classes.map (·.name)).Nodup := by
  obtain ⟨reads, distinct, _⟩ := reads_of_ofManifest success
  exact ⟨reads.qualifiedNames ▸ distinct.functions, reads.classNames ▸ distinct.classes⟩

/-- The lint reports each function, each class and each member of a class whose name is taken. A graph refuses a name
only if the lint reports it, and if the lint reports a function or a class there is no graph. -/
theorem duplicateEntity_agrees (manifest : Manifest) :
    ∃ (functions classes : List Diagnostic) (members : ClassRecord → List Diagnostic),
      duplicateEntity.check manifest = functions ++ classes ++ manifest.classes.flatMap members ∧
      Tells "function" id (manifest.functions.map (·.name)) functions ∧
      Tells "class" id (manifest.classes.map (·.name)) classes ∧
      (∀ record, Tells "member" (fun name => record.name ++ "." ++ name)
        (record.methods.map (·.name) ++ record.properties.map (·.name)) (members record)) ∧
      (∀ kind name, ofManifest manifest = .error (.duplicate kind name) →
        (kind = .function ∧ ∃ finding ∈ functions, finding.location = some name) ∨
        (kind = .class ∧ ∃ finding ∈ classes, finding.location = some name)) ∧
      (functions ≠ [] ∨ classes ≠ [] → ∃ fault, ofManifest manifest = .error fault) := by
  refine ⟨_, _, reportMembers, rfl, tells_reportRepeats _ _ _, tells_reportRepeats _ _ _,
    fun record => tells_reportRepeats _ _ _, fun kind name failure => ?_, fun reported => ?_⟩
  · rcases duplicate_of_refused failure with ⟨entity, twice⟩ | ⟨self, twice⟩
    · exact .inl ⟨entity, exists_mem_reportRepeats twice⟩
    · exact .inr ⟨self, exists_mem_reportRepeats twice⟩
  · cases outcome : ofManifest manifest with
    | error fault => exact ⟨fault, rfl⟩
    | ok result =>
      obtain ⟨functions, classes⟩ := nodup_of_ofManifest outcome
      rcases reported with repeated | repeated
      · exact absurd (reportRepeats_eq_nil functions) repeated
      · exact absurd (reportRepeats_eq_nil classes) repeated

end Graph

end DocWeave
