import DocWeave.Proofs.Render.Structs
import DocWeave.Proofs.Tag.Margins
import DocWeave.Proofs.Text.Trim
import Mathlib.Tactic.Choose

/-!
# The code of a lineage

The struct of a class holds the code of its lineage. Each fragment is moved to column 0, placed in the template of the
struct, and moved again with the struct. It comes out as if it had been moved once, to the column where it stands.
-/

namespace DocWeave

namespace Render

open Code Tag Text

variable {context : Context} {self : Entity.Class} {key : FragmentKey}

/-! ### The code of a lineage -/

/-- The lines of a fragment that a class has, expanded and moved to a column. -/
def PlacedAt (context : Context) (self : Entity.Class) (column : Nat) (entry : Entity.Class × Fragment)
    (ls : List (List Char)) : Prop :=
  ∃ text, context.scope.place (ancestorSite self entry.1 entry.2) context.options.tabWidth column entry.2.body =
    .ok text ∧ ls = lines text.toList

/-- The lines of the code that a class has for a key: those of each fragment that is not blank, base first. Without such
a fragment there is one empty line. -/
def CodeAt (context : Context) (self : Entity.Class) (key : FragmentKey) (column : Nat) (code : List (List Char)) :
    Prop :=
  ∃ parts,
    List.Forall₂ (PlacedAt context self column) ((context.graph.effective self key).filter (!·.2.isEmpty)) parts ∧
      code = if parts = [] then [[]] else parts.flatten

/-- Lines that print begin with spaces and tabs. -/
def HasMargins (fragment : Fragment) : Prop :=
  ∀ line ∈ lines fragment.body.toList, isBlank line = false → IsMargin (line.takeWhile isBlankChar)

instance (fragment : Fragment) : Decidable (HasMargins fragment) :=
  inferInstanceAs (Decidable (∀ line ∈ lines fragment.body.toList, isBlank line = false →
    IsMargin (line.takeWhile isBlankChar)))

/-- What the struct of a class adds stands in the text, behind whole lines, and this code is in its place. -/
structure HoldsStruct (context : Context) (self : Entity.Class) (text : String)
    (code : FragmentKey → List (List Char)) : Prop where
  placed : ∀ key ∈ EntityKind.class.keys,
    CodeAt context self key (context.options.indentWidth + codeOffset key) (code key)
  added : ∃ steps, structDefinition context self = .ok steps ∧ Passage (indentedText context steps).toList text.toList ∧
    (indentedText context steps).toList = (indentedText context [positionLine self.position]).toList
      ++ joinLines (structLines context self code) ++ ['\n', '\n']
  listed : structLines context self code <:+: lines text.toList

theorem reindent_trimBlankEdges_of_blank {cs : List Char} (blank : isBlank cs = true) (tabWidth columns : Nat) :
    reindent tabWidth columns (trimBlankEdges cs) = [] := by
  rw [trimBlankEdges_of_blank blank]
  rfl

section Names

variable (stemBegins : context.options.stem = "" ∨ Begins context.options.stem) (begins : Begins self.name)

include stemBegins begins

theorem framed_of_expand {ancestor : Entity.Class} {fragment : Fragment} {body : String} (margins : HasMargins fragment)
    (filled : fragment.isEmpty = false)
    (expanded : context.scope.expand (ancestorSite self ancestor fragment) fragment.body = .ok body) :
    Framed (block context.options.tabWidth (trimBlankEdges body.toList)) := by
  apply framed_of_margined
  refine margined_of_expand stemBegins ?_ (margined_of_lines filled margins) expanded
  intro own default
  cases default
  exact begins

/-- The texts of fragments are blocks, and each block stands at any column as the fragment would. -/
theorem exists_blocks_of_ancestorTexts {entries : List (Entity.Class × Fragment)} {texts : List String}
    (margins : ∀ entry ∈ entries, HasMargins entry.2) (success : ancestorTexts context self entries = .ok texts) :
    ∃ blocks : List (List (List Char)), (∀ ls ∈ blocks, Framed ls) ∧ texts.map String.toList = blocks.map joinLines ∧
      ∀ column, List.Forall₂ (PlacedAt context self column) (entries.filter (!·.2.isEmpty))
        (blocks.map (·.map (indentLine column))) := by
  induction entries generalizing texts with
  | nil =>
    cases success
    exact ⟨[], by simp, rfl, fun _ => .nil⟩
  | cons entry rest ih =>
    obtain ⟨own, others⟩ := List.forall_mem_cons.mp margins
    obtain ⟨cut, first, success⟩ := bind_eq_ok.mp success
    obtain ⟨later, further, success⟩ := bind_eq_ok.mp success
    obtain ⟨body, expanded, rfl⟩ := map_eq_ok.mp first
    obtain ⟨blocks, framed, joined, placed⟩ := ih others further
    have placedAt : ∀ column, PlacedAt context self column entry
        (lines (reindent context.options.tabWidth column (trimBlankEdges body.toList))) := by
      intro column
      refine ⟨_, map_eq_ok.mpr ⟨body, expanded, rfl⟩, ?_⟩
      rw [toList_onString]
    cases blank : entry.2.isEmpty with
    | true =>
      obtain rfl := expand_of_blank blank expanded
      have nothing : onString (reindent context.options.tabWidth 0) (onString trimBlankEdges entry.2.body) = "" := by
        rw [onString, toList_onString, reindent_trimBlankEdges_of_blank blank]
      rw [if_pos nothing] at success
      cases success
      rw [List.filter_cons_of_neg (by simp [blank])]
      exact ⟨blocks, framed, joined, placed⟩
    | false =>
      have frame := framed_of_expand stemBegins begins own blank expanded
      have text : (onString (reindent context.options.tabWidth 0) (onString trimBlankEdges body)).toList =
          joinLines (block context.options.tabWidth (trimBlankEdges body.toList)) := by
        rw [toList_onString, toList_onString, reindent_zero]
      have filled : onString (reindent context.options.tabWidth 0) (onString trimBlankEdges body) ≠ "" := by
        intro empty
        rw [empty] at text
        exact frame.joinLines_ne_nil text.symm
      rw [if_neg filled] at success
      cases success
      refine ⟨_ :: blocks, List.forall_mem_cons.mpr ⟨frame, framed⟩, ?_, fun column => ?_⟩
      · rw [List.map_cons, List.map_cons, text, joined]
      · rw [List.filter_cons_of_pos (by simp [blank]), List.map_cons]
        refine .cons ?_ (placed column)
        rw [← frame.tidy.lines_indented, ← reindent_eq]
        exact placedAt column

/-- The text of the code that a class has for a key is a block, if it is not empty. -/
theorem exists_block_of_effectiveText {text : String}
    (margins : ∀ entry ∈ context.graph.effective self key, HasMargins entry.2)
    (success : effectiveText context self key = .ok text) :
    ∃ ls, (ls = [] ∨ Framed ls) ∧ text.toList = joinLines ls ∧
      ∀ column, CodeAt context self key column (codeLines column ls) := by
  obtain ⟨texts, made, success⟩ := bind_eq_ok.mp success
  cases success
  obtain ⟨blocks, framed, joined, placed⟩ := exists_blocks_of_ancestorTexts stemBegins begins margins made
  have emptied : blocks.flatten = [] ↔ blocks = [] := by
    rw [List.flatten_eq_nil_iff]
    refine ⟨fun empty => ?_, fun empty => by simp [empty]⟩
    exact List.eq_nil_iff_forall_not_mem.mpr fun ls member => (framed ls member).ne_nil (empty ls member)
  refine ⟨blocks.flatten, ?_, ?_, fun column => ⟨_, placed column, ?_⟩⟩
  · by_cases empty : blocks = []
    · exact .inl (emptied.mpr empty)
    · exact .inr (.flatten empty framed)
  · rw [String.toList_intercalate, joined]
    exact Framed.joinLines_map_joinLines framed
  · simp only [codeLines, emptied, List.map_eq_nil_iff, List.map_flatten]

end Names

/-- The implementation holds the struct of every class, with the code of its lineage in place. -/
theorem holdsStruct_of_nested {steps : List Step}
    (stemBegins : context.options.stem = "" ∨ Begins context.options.stem) (begins : Begins self.name)
    (margins : ∀ key, ∀ entry ∈ context.graph.effective self key, HasMargins entry.2)
    (included : self ∈ context.graph.includedClasses) (nested : Nested context steps) :
    ∃ code, HoldsStruct context self (page context.options steps) code := by
  obtain ⟨own, made, passage⟩ := passage_of_structDefinition nested included
  obtain ⟨value, texts, rfl⟩ := structDefinition_eq_ok made
  have each : ∀ key ∈ EntityKind.class.keys, ∃ ls, (ls = [] ∨ Framed ls) ∧ (value key).toList = joinLines ls ∧
      ∀ column, CodeAt context self key column (codeLines column ls) := fun key known =>
    exists_block_of_effectiveText stemBegins begins (margins key) (texts key known)
  choose! ls frame joined code using each
  exact ⟨_, fun key known => code key known _, ⟨_, made, passage, indentedText_structSteps context self frame joined⟩,
    structLines_infix context self frame joined passage⟩

end Render

open DocWeave.Graph Render Tag Text

/-- The struct of an included class holds the code of its lineage: for each key the fragments that are not blank, bases
first, as if each had been expanded and moved once to where it stands. The names that tags are replaced by must not
begin with white space. -/
theorem structs_hold_lineages {manifest : Manifest} {graph final : Graph} {warnings findings : List Diagnostic}
    {inheriting : Bool} (built : ofManifest manifest = .ok (graph, warnings))
    (success : graph.finalize inheriting = (final, .ok findings))
    (margins : ∀ self ∈ final.classes, ∀ fragment ∈ self.fragments, HasMargins fragment) {options : Render.Options}
    (stemBegins : options.stem = "" ∨ Begins options.stem) {artifacts : Artifacts}
    (rendered : final.render options = .ok artifacts) :
    ∀ self ∈ final.includedClasses,
      final.StoredLineage self ∧ (final.lineageClasses self).map (·.name) = self.lineage ∧
      (Begins self.name → ∃ code, HoldsStruct ⟨final, options⟩ self artifacts.implementation code) := by
  obtain ⟨_, distinct, _⟩ := reads_of_ofManifest built
  obtain ⟨complete, _⟩ := (exists_finalize_eq_ok_iff distinct inheriting).mp ⟨_, _, success⟩
  obtain ⟨lineages, found, rfl, rfl⟩ := finalWith_of_finalize distinct success
  obtain ⟨_, _, steps, _, _, nested, _, rfl⟩ := render_eq_ok rendered
  intro self included
  have member := (List.mem_filter.mp included).1
  have stored := storedLineage_finalWith distinct inheriting found member
  refine ⟨stored, map_name_lineageClasses (mt lacksBase_finalWith.mp complete) member stored, fun begins => ?_⟩
  refine holdsStruct_of_nested stemBegins begins ?_ included nested
  intro key entry listed
  obtain ⟨above, own⟩ := mem_of_mem_effective listed
  exact margins entry.1 (mem_of_mem_lineageClasses above) entry.2 (List.mem_of_find?_eq_some own)

/-- Two bases with a common base. The code of all four has lines of several columns, and one line looks like a field. -/
def lamps : Manifest where
  module := { name := "lamps" }
  classes := [
    { name := "Lamp", doc := "_CPP_:\n    int watts;\n_CPP_(NEW):\n    if (%(new)s)\n      watts = 40;" },
    { name := "Shade", doc := "_CPP_(NEW): tint = $NAME();", bases := ["Lamp"] },
    { name := "Stand", doc := "_CPP_:\n\n  int height;\n\n\n    int feet;", bases := ["Lamp"] },
    { name := "Torch", doc := "_CPP_(FREE): $CAST(self)->dim();", bases := ["Shade", "Stand"] }]

theorem structs_of_lamps : ∃ graph warnings final findings artifacts,
    ofManifest lamps = .ok (graph, warnings) ∧ graph.finalize true = (final, .ok findings) ∧
    final.render (.ofSettings "lamps" lamps.settings) = .ok artifacts ∧
    final.includedClasses.map (·.lineage) =
      [["Lamp"], ["Lamp", "Shade"], ["Lamp", "Stand"], ["Lamp", "Shade", "Stand", "Torch"]] ∧
    ∀ self ∈ final.includedClasses,
      ∃ code, HoldsStruct ⟨final, .ofSettings "lamps" lamps.settings⟩ self artifacts.implementation code := by
  have evaluated : (ofManifest lamps >>= fun built => (built.1.finalize true).2 >>= fun _ =>
      (built.1.finalize true).1.render (.ofSettings "lamps" lamps.settings) >>= fun _ =>
      (.ok (decide ((∀ self ∈ (built.1.finalize true).1.classes, ∀ fragment ∈ self.fragments, HasMargins fragment) ∧
        (built.1.finalize true).1.includedClasses.map (·.lineage) =
          [["Lamp"], ["Lamp", "Shade"], ["Lamp", "Stand"], ["Lamp", "Shade", "Stand", "Torch"]] ∧
        ∀ self ∈ (built.1.finalize true).1.includedClasses, Begins self.name)) :
        Except Fault Bool)) = .ok true := by decide +kernel
  obtain ⟨⟨graph, warnings⟩, built, evaluated⟩ := bind_eq_ok.mp evaluated
  obtain ⟨findings, finalized, evaluated⟩ := bind_eq_ok.mp evaluated
  obtain ⟨artifacts, rendered, evaluated⟩ := bind_eq_ok.mp evaluated
  obtain ⟨margins, lineages, begins⟩ := of_decide_eq_true (Except.ok.inj evaluated)
  have success : graph.finalize true = ((graph.finalize true).1, .ok findings) := Prod.ext rfl finalized
  refine ⟨graph, warnings, _, findings, artifacts, built, success, rendered, lineages, fun self included => ?_⟩
  have structs := structs_hold_lineages built success margins (.inr (by decide)) rendered self included
  exact structs.2.2 (begins self included)

/-- The rows of the struct of a class, without the code that cannot be expanded. -/
def filledRows (context : Context) (self : Entity.Class) : List (List Char) :=
  structRows context self fun key => (effectiveText context self key).toOption.getD ""

/-- A character of the code that no row of the struct has is lost. -/
theorem not_holdsStruct {context : Context} {self : Entity.Class} {entry : Entity.Class × Fragment} {text : String}
    {line : List Char} {c : Char} {implementation : String}
    (only : (context.graph.effective self .new).filter (!·.2.isEmpty) = [entry])
    (placed : context.scope.place (ancestorSite self entry.1 entry.2) context.options.tabWidth
      (context.options.indentWidth + codeOffset .new) entry.2.body = .ok text)
    (member : line ∈ lines text.toList) (inside : c ∈ line)
    (missing : c ∉ joinLines (collapseEmpty ((filledRows context self).flatMap (moved context)))) :
    ¬ ∃ code, HoldsStruct context self implementation code := by
  rintro ⟨code, stands, ⟨steps, made, _, added⟩, _⟩
  obtain ⟨parts, each, whole⟩ := stands .new (by decide)
  rw [only] at each
  obtain ⟨ls, others, ⟨other, known, rfl⟩, nothing, rfl⟩ := List.forall₂_cons_left_iff.mp each
  cases List.forall₂_nil_left_iff.mp nothing
  cases placed.symm.trans known
  rw [if_neg (List.cons_ne_nil _ _), List.flatten_singleton] at whole
  obtain ⟨value, texts, rfl⟩ := structDefinition_eq_ok made
  have rows : structRows context self value = filledRows context self :=
    structRows_congr context self fun key known => by rw [texts key known]; rfl
  rw [indentedText_structRows, rows] at added
  have same := List.append_cancel_left (List.append_cancel_right added)
  have listed : line ∈ structLines context self code := by simp [structLines, hookLines, whole, member]
  refine missing (Code.mem_of_mem_trimLineEnds ?_)
  rw [same]
  exact mem_joinLines listed inside

/-- The code of a manifest has margins and is rendered, but the struct of a class does not hold that of its lineage. -/
def LosesCode (manifest : Manifest) : Prop :=
  ∃ graph warnings final findings artifacts self,
    ofManifest manifest = .ok (graph, warnings) ∧ graph.finalize true = (final, .ok findings) ∧
    (∀ self ∈ final.classes, ∀ fragment ∈ self.fragments, HasMargins fragment) ∧
    final.render (.ofSettings manifest.module.name manifest.settings) = .ok artifacts ∧
    self ∈ final.includedClasses ∧
    ¬ ∃ code, HoldsStruct ⟨final, .ofSettings manifest.module.name manifest.settings⟩ self artifacts.implementation code

/-- Whether the only code of a class for its creation has a character that no row of its struct has. -/
def drops (context : Context) (c : Char) (self : Entity.Class) : Bool :=
  match (context.graph.effective self .new).filter (!·.2.isEmpty) with
  | [entry] =>
    match context.scope.place (ancestorSite self entry.1 entry.2) context.options.tabWidth
      (context.options.indentWidth + codeOffset .new) entry.2.body with
    | .ok text => (lines text.toList).any (·.contains c) &&
      c ∉ joinLines (collapseEmpty ((filledRows context self).flatMap (moved context)))
    | .error _ => false
  | _ => false

theorem not_holdsStruct_of_drops {context : Context} {c : Char} {self : Entity.Class} {implementation : String}
    (lost : drops context c self = true) : ¬ ∃ code, HoldsStruct context self implementation code := by
  unfold drops at lost
  split at lost
  · rename_i entry only
    split at lost
    · rename_i text placed
      obtain ⟨shown, missing⟩ := Bool.and_eq_true_iff.mp lost
      obtain ⟨line, member, inside⟩ := List.any_eq_true.mp shown
      exact not_holdsStruct only placed member (List.contains_iff_mem.mp inside) (of_decide_eq_true missing)
    · cases lost
  · cases lost

theorem losesCode_of_drops {manifest : Manifest} {c : Char}
    (evaluated : (ofManifest manifest >>= fun built => (built.1.finalize true).2 >>= fun _ =>
      (built.1.finalize true).1.render (.ofSettings manifest.module.name manifest.settings) >>= fun _ =>
      (.ok (decide (∀ self ∈ (built.1.finalize true).1.classes, ∀ fragment ∈ self.fragments, HasMargins fragment) &&
        (built.1.finalize true).1.includedClasses.any
          (drops ⟨(built.1.finalize true).1, .ofSettings manifest.module.name manifest.settings⟩ c)) :
        Except Fault Bool)) = .ok true) : LosesCode manifest := by
  obtain ⟨⟨graph, warnings⟩, built, evaluated⟩ := bind_eq_ok.mp evaluated
  obtain ⟨findings, finalized, evaluated⟩ := bind_eq_ok.mp evaluated
  obtain ⟨artifacts, rendered, evaluated⟩ := bind_eq_ok.mp evaluated
  obtain ⟨margins, lost⟩ := Bool.and_eq_true_iff.mp (Except.ok.inj evaluated)
  obtain ⟨self, included, lost⟩ := List.any_eq_true.mp lost
  have success : graph.finalize true = ((graph.finalize true).1, .ok findings) := Prod.ext rfl finalized
  exact ⟨graph, warnings, _, findings, artifacts, self, built, success, of_decide_eq_true margins, rendered,
    included, not_holdsStruct_of_drops lost⟩

/-- A class whose code begins with a tag. -/
def bolts (stem name code : String) : Manifest where
  module := { name := "bolts" }
  settings := { stem := stem }
  classes := [{ name := name, doc := "_CPP_(NEW): " ++ code }]

/-- Names of a manifest that is not validated can begin with white space, and this is cut off where code begins with
them. -/
theorem bolts_lose_space :
    LosesCode (bolts "\u00a0q" "Bolt" "$COPY(spare);") ∧ LosesCode (bolts "q" "\u00a0Bolt" "$NAME();") :=
  ⟨losesCode_of_drops (c := '\u00a0') (by decide +kernel), losesCode_of_drops (c := '\u00a0') (by decide +kernel)⟩

end DocWeave
