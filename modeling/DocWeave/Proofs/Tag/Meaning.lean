import DocWeave.Proofs.Outcome
import DocWeave.Tag.Expansion

/-!
# What tags mean

Once a fragment is expanded, every tag of it is known, and it means the exported class that it names. A tag that names
none means the class of its place.
-/

namespace DocWeave.Tag

open DocWeave.Text

/-- The class that a tag of the kind names, behind its object. -/
def Kind.named? (kind : Kind) (inner : List Char) : Option String :=
  ((arguments inner).map String.ofList)[kind.least]?

/-- The object of a tag. Without arguments it is empty. -/
def objectOf (inner : List Char) : String :=
  ((arguments inner).map String.ofList).head?.getD ""

/-- At the place, a tag that names this class, or none, means `target`. -/
inductive Scope.Means (scope : Scope) (site : Site) : Option String → String → Prop
  | named {target} (exported : scope.exports target = true) : Means scope site (some target) target
  | own {target} (default : site.defaultClass = some target) : Means scope site none target

variable {scope : Scope} {site : Site}

theorem target_eq_ok_iff {kind : Kind} {named : Option String} {span : Span} {target : String} :
    scope.target site kind named span = .ok target ↔ scope.Means site named target := by
  unfold Scope.target
  constructor
  · intro success
    split at success
    · split at success
      · rename_i exported
        cases success
        exact .named exported
      · cases success
    · rename_i default
      cases success
      exact .own default
    · cases success
  · rintro (exported | default)
    · exact if_pos exported
    · rw [default]

/-- A tag that can be replaced is known, and it is replaced by what its kind spells for the class that it means. -/
theorem expandTag_eq_ok {word inner : List Char} {span : Span} {text : String}
    (success : scope.expandTag site word inner span = .ok text) :
    ∃ kind target, Kind.ofWord? (String.ofList word) = some kind ∧ scope.Means site (kind.named? inner) target ∧
      text = kind.expansion (scope.symbols.forClass target) (objectOf inner) := by
  unfold Scope.expandTag at success
  split at success
  · cases success
  · rename_i kind known
    dsimp only at success
    split at success
    · cases success
    · split at success
      · cases success
      · obtain ⟨target, resolved, rfl⟩ := map_eq_ok.mp success
        exact ⟨kind, target, known, target_eq_ok_iff.mp resolved, rfl⟩

theorem expandTokens_cons {token : Token} {found : List Token} {text : List Char} :
    scope.expandTokens site (token :: found) = .ok text ↔
      ∃ written rest, scope.expandToken site token = .ok written ∧ scope.expandTokens site found = .ok rest ∧
        text = written ++ rest := by
  rw [Scope.expandTokens]
  cases replaced : scope.expandToken site token with
  | error fault => simp
  | ok written =>
    dsimp only
    rw [map_eq_ok]
    simp [eq_comm (a := text)]

theorem exists_of_expandTokens_eq_ok {found : List Token} {text : List Char}
    (success : scope.expandTokens site found = .ok text) {token : Token} (member : token ∈ found) :
    ∃ written, scope.expandToken site token = .ok written := by
  induction found generalizing text with
  | nil => cases member
  | cons first rest ih =>
    obtain ⟨written, others, expanded, further, _⟩ := expandTokens_cons.mp success
    rcases List.mem_cons.mp member with rfl | later
    · exact ⟨written, expanded⟩
    · exact ih further later

/-- A fragment that can be expanded can be split into tokens, and all of its tags can be replaced. -/
theorem exists_tokens_of_expand {fragment text : String} (success : scope.expand site fragment = .ok text) :
    ∃ found, tokens fragment.toList = .ok found ∧ ∀ word inner span, .tag word inner span ∈ found →
      ∃ written, scope.expandTag site word inner span = .ok written := by
  unfold Scope.expand at success
  split at success
  · cases success
  · rename_i found read
    refine ⟨found, read, ?_⟩
    intro word inner span member
    obtain ⟨_, expanded, _⟩ := map_eq_ok.mp success
    obtain ⟨_, replaced⟩ := exists_of_expandTokens_eq_ok expanded member
    obtain ⟨written, same, _⟩ := map_eq_ok.mp replaced
    exact ⟨written, same⟩

end DocWeave.Tag
