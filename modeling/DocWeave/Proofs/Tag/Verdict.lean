import DocWeave.Proofs.Tag.Grammar
import DocWeave.Proofs.Tag.Meaning
import DocWeave.Render.Piece

/-!
# Which fragments are expanded

A fragment is expanded if the scan finds a partner for every parenthesis of a tag, and every tag can be replaced. The
parentheses come first: with one that is not closed no tag is looked at. Of the tags the first one that cannot be
replaced counts, and of its defects the first in the order of the checks: its name, the number of its arguments, an
empty one among them, and the class that it refers to.
-/

namespace DocWeave.Tag

open DocWeave.Text

/-! ### Known tags -/

/-- The word is that of the tag, but for upper and lower case. -/
def Spells (word : List Char) (kind : Kind) : Prop :=
  word.map Char.toLower = kind.word.toList.map Char.toLower

theorem map_toUpper_word (kind : Kind) : kind.word.toList.map Char.toUpper = kind.word.toList := by
  cases kind <;> decide

theorem find?_all (kind : Kind) : Kind.all.find? (fun other => other.word = kind.word) = some kind := by
  cases kind <;> decide

theorem spells_iff {word : List Char} {kind : Kind} : Spells word kind ↔ word.map Char.toUpper = kind.word.toList := by
  have upper (cs : List Char) : (cs.map Char.toLower).map Char.toUpper = cs.map Char.toUpper := by
    rw [List.map_map]
    exact List.map_congr_left fun c _ => toUpper_toLower c
  have lower (cs : List Char) : (cs.map Char.toUpper).map Char.toLower = cs.map Char.toLower := by
    rw [List.map_map]
    exact List.map_congr_left fun c _ => toLower_toUpper c
  constructor
  · intro spells
    rw [← upper, spells, upper, map_toUpper_word]
  · intro same
    rw [Spells, ← lower word, same]

theorem ofWord?_eq_some_iff {word : List Char} {kind : Kind} :
    Kind.ofWord? (String.ofList word) = some kind ↔ Spells word kind := by
  rw [spells_iff]
  have shown : ((String.ofList word).map Char.toUpper).toList = word.map Char.toUpper := by simp
  unfold Kind.ofWord?
  constructor
  · intro found
    have same : kind.word = (String.ofList word).map Char.toUpper := by simpa using List.find?_some found
    rw [← shown, same]
  · intro same
    have whole : (String.ofList word).map Char.toUpper = kind.word := String.toList_injective (shown.trans same)
    rw [whole]
    exact find?_all kind

theorem ofWord?_eq_none_iff {word : List Char} :
    Kind.ofWord? (String.ofList word) = none ↔ ∀ kind, ¬ Spells word kind := by
  rw [Option.eq_none_iff_forall_ne_some]
  exact forall_congr' fun kind => not_congr ofWord?_eq_some_iff

/-! ### Tags that can be replaced -/

theorem Arguments.eq {inner : List Char} {args : List (List Char)} (given : Arguments inner args) :
    args = arguments inner := by
  unfold arguments
  cases blank : isBlank inner with
  | true => exact given.blank blank
  | false =>
    obtain ⟨pieces, cut, _, rfl⟩ := given.pieces blank
    rw [cut.eq]
    rfl

/-- The arguments as a fault shows them. -/
def shownArguments (args : List (List Char)) : String :=
  ", ".intercalate (args.map String.ofList)

/-- The tag `$word(inner)` is known, and its kind takes as many arguments. None of them is empty. -/
structure Sound (word inner : List Char) (kind : Kind) (args : List (List Char)) : Prop where
  spells : Spells word kind
  given : Arguments inner args
  enough : kind.least ≤ args.length
  notTooMany : args.length ≤ kind.most
  filled : [] ∉ args

/-- What the tag `$word(inner)` stands for at the place: a sound tag that refers to a class is replaced by what its kind
spells for this class. -/
inductive Scope.StandsFor (scope : Scope) (site : Site) (word inner : List Char) : String → Prop
  | spelled {kind args target} (sound : Sound word inner kind args)
      (means : scope.Means site (args[kind.least]?.map String.ofList) target) :
      StandsFor scope site word inner
        (kind.expansion (scope.symbols.forClass target) (String.ofList (args.head?.getD [])))

/-- The fault of the tag `$word(inner)`: the first check that it does not pass. -/
inductive Scope.Rejects (scope : Scope) (site : Site) (word inner : List Char) (span : Span) : Fault → Prop
  | unknown (unknown : ∀ kind, ¬ Spells word kind) :
      Rejects scope site word inner span (.unknownTag (String.ofList word) site.origin (site.span? span))
  | arity {kind args} (spells : Spells word kind) (given : Arguments inner args)
      (outside : args.length < kind.least ∨ kind.most < args.length) :
      Rejects scope site word inner span
        (site.unresolved (shownArguments args) kind.label (.arity kind.least kind.most args.length) span)
  | empty {kind front back} (spells : Spells word kind) (given : Arguments inner (front ++ [] :: back))
      (enough : kind.least ≤ (front ++ [] :: back).length) (notTooMany : (front ++ [] :: back).length ≤ kind.most)
      (first : [] ∉ front) :
      Rejects scope site word inner span
        (site.unresolved (shownArguments (front ++ [] :: back)) kind.label (.emptyArgument (front.length + 1)) span)
  | notExported {kind args named} (sound : Sound word inner kind args) (given : args[kind.least]? = some named)
      (hidden : scope.exports (String.ofList named) = false) :
      Rejects scope site word inner span (site.unresolved (String.ofList named) kind.label .notExported span)
  | noDefaultClass {kind args} (sound : Sound word inner kind args) (unnamed : args[kind.least]? = none)
      (outside : site.defaultClass = none) :
      Rejects scope site word inner span (site.unresolved "(default class)" kind.label .noDefaultClass span)

section Checks

variable {scope : Scope} {site : Site} {word inner : List Char} {span : Span} {kind : Kind} {args : List (List Char)}

theorem findIdx?_eq_none_of_filled (filled : [] ∉ args) : (args.map String.ofList).findIdx? (· = "") = none := by
  rw [List.findIdx?_eq_none_iff]
  rintro _ member
  obtain ⟨arg, listed, rfl⟩ := List.mem_map.mp member
  have nonempty : arg ≠ [] := fun empty => filled (empty ▸ listed)
  simpa using nonempty

theorem findIdx?_of_first {front back : List (List Char)} (first : [] ∉ front) :
    ((front ++ [] :: back).map String.ofList).findIdx? (· = "") = some front.length := by
  rw [List.map_append, List.findIdx?_append, findIdx?_eq_none_of_filled first]
  simp [List.findIdx?_cons]

theorem expandTag_of_outside (spells : Spells word kind) (given : Arguments inner args)
    (outside : args.length < kind.least ∨ kind.most < args.length) :
    scope.expandTag site word inner span =
      .error (site.unresolved (shownArguments args) kind.label (.arity kind.least kind.most args.length) span) := by
  obtain rfl := given.eq
  rw [Scope.expandTag, ofWord?_eq_some_iff.mpr spells]
  dsimp only
  rw [List.length_map, if_pos outside, shownArguments]

theorem expandTag_of_empty {front back : List (List Char)} (spells : Spells word kind)
    (given : Arguments inner (front ++ [] :: back)) (enough : kind.least ≤ (front ++ [] :: back).length)
    (notTooMany : (front ++ [] :: back).length ≤ kind.most) (first : [] ∉ front) :
    scope.expandTag site word inner span =
      .error (site.unresolved (shownArguments (front ++ [] :: back)) kind.label
        (.emptyArgument (front.length + 1)) span) := by
  rw [Scope.expandTag, ofWord?_eq_some_iff.mpr spells]
  dsimp only
  rw [← given.eq, List.length_map, if_neg (by omega), findIdx?_of_first first, shownArguments]

theorem expandTag_of_sound (sound : Sound word inner kind args) :
    scope.expandTag site word inner span =
      (scope.target site kind (args[kind.least]?.map String.ofList) span).map fun target =>
        kind.expansion (scope.symbols.forClass target) (String.ofList (args.head?.getD [])) := by
  have object : (args.map String.ofList).head?.getD "" = String.ofList (args.head?.getD []) := by
    cases args <;> rfl
  have inside : ¬ (args.length < kind.least ∨ kind.most < args.length) := by
    have enough := sound.enough
    have notTooMany := sound.notTooMany
    omega
  rw [Scope.expandTag, ofWord?_eq_some_iff.mpr sound.spells]
  dsimp only
  rw [← sound.given.eq, List.length_map, if_neg inside, findIdx?_eq_none_of_filled sound.filled, List.getElem?_map,
    object]

theorem Scope.StandsFor.expandTag_eq {text : String} (stands : scope.StandsFor site word inner text) :
    scope.expandTag site word inner span = .ok text := by
  cases stands with
  | spelled sound means =>
    rw [expandTag_of_sound sound, target_eq_ok_iff.mpr means]
    rfl

theorem Scope.Rejects.expandTag_eq {fault : Fault} (rejects : scope.Rejects site word inner span fault) :
    scope.expandTag site word inner span = .error fault := by
  cases rejects with
  | unknown unknown => rw [Scope.expandTag, ofWord?_eq_none_iff.mpr unknown]
  | arity spells given outside => exact expandTag_of_outside spells given outside
  | empty spells given enough notTooMany first => exact expandTag_of_empty spells given enough notTooMany first
  | notExported sound given hidden =>
    rw [expandTag_of_sound sound, given]
    simp [Scope.target, hidden, Except.map]
  | noDefaultClass sound unnamed none =>
    rw [expandTag_of_sound sound, unnamed]
    simp [Scope.target, none, Except.map]

/-- A tag whose parentheses are balanced stands for a text, or is rejected. -/
theorem standsFor_or_rejects (scope : Scope) (site : Site) (word : List Char) (balanced : Balanced inner)
    (span : Span) :
    (∃ text, scope.StandsFor site word inner text) ∨ ∃ fault, scope.Rejects site word inner span fault := by
  have given := arguments_of_balanced balanced
  -- The cases come in the order of the checks.
  by_cases known : ∃ kind, Spells word kind
  · obtain ⟨kind, spells⟩ := known
    by_cases outside : (arguments inner).length < kind.least ∨ kind.most < (arguments inner).length
    · exact .inr ⟨_, .arity spells given outside⟩
    · obtain ⟨enough, notTooMany⟩ := not_or.mp outside
      by_cases filled : [] ∈ arguments inner
      · obtain ⟨front, back, split, first⟩ := List.eq_append_cons_of_mem filled
        rw [split] at given enough notTooMany
        exact .inr ⟨_, .empty spells given (by omega) (by omega) first⟩
      · have sound : Sound word inner kind (arguments inner) :=
          ⟨spells, given, by omega, by omega, filled⟩
        cases named : (arguments inner)[kind.least]? with
        | none =>
          cases default : site.defaultClass with
          | none => exact .inr ⟨_, .noDefaultClass sound named default⟩
          | some own => exact .inl ⟨_, .spelled sound (by rw [named]; exact .own default)⟩
        | some name =>
          cases exported : scope.exports (String.ofList name) with
          | false => exact .inr ⟨_, .notExported sound named exported⟩
          | true => exact .inl ⟨_, .spelled sound (by rw [named]; exact .named exported)⟩
  · exact .inr ⟨_, .unknown (not_exists.mp known)⟩

theorem expandTag_eq_ok_iff (balanced : Balanced inner) {text : String} :
    scope.expandTag site word inner span = .ok text ↔ scope.StandsFor site word inner text := by
  refine ⟨fun success => ?_, Scope.StandsFor.expandTag_eq⟩
  rcases standsFor_or_rejects scope site word balanced span with ⟨other, stands⟩ | ⟨fault, rejects⟩
  · cases success.symm.trans stands.expandTag_eq
    exact stands
  · cases success.symm.trans rejects.expandTag_eq

theorem expandTag_eq_error_iff (balanced : Balanced inner) {fault : Fault} :
    scope.expandTag site word inner span = .error fault ↔ scope.Rejects site word inner span fault := by
  refine ⟨fun failure => ?_, Scope.Rejects.expandTag_eq⟩
  rcases standsFor_or_rejects scope site word balanced span with ⟨text, stands⟩ | ⟨other, rejects⟩
  · cases failure.symm.trans stands.expandTag_eq
  · cases failure.symm.trans rejects.expandTag_eq
    exact rejects

end Checks

/-! ### Whole fragments -/

section Fragments

variable {scope : Scope} {site : Site}

/-- Tokens fail at the first one that cannot be replaced. -/
theorem expandTokens_eq_error_iff {found : List Token} {fault : Fault} :
    scope.expandTokens site found = .error fault ↔
      ∃ before token after, found = before ++ token :: after ∧
        (∀ other ∈ before, ∃ written, scope.expandToken site other = .ok written) ∧
        scope.expandToken site token = .error fault := by
  induction found with
  | nil => simp [Scope.expandTokens]
  | cons first rest ih =>
    rw [Scope.expandTokens]
    cases replaced : scope.expandToken site first with
    | error other =>
      dsimp only
      constructor
      · intro failure
        cases failure
        exact ⟨[], first, rest, rfl, by simp, replaced⟩
      · rintro ⟨before, token, after, split, expanded, failed⟩
        cases before with
        | nil =>
          cases split
          exact replaced.symm.trans failed
        | cons head before =>
          cases split
          obtain ⟨written, success⟩ := expanded first List.mem_cons_self
          cases replaced.symm.trans success
    | ok text =>
      dsimp only
      rw [map_eq_error, ih]
      constructor
      · rintro ⟨before, token, after, rfl, expanded, failed⟩
        exact ⟨first :: before, token, after, rfl, List.forall_mem_cons.mpr ⟨⟨text, replaced⟩, expanded⟩, failed⟩
      · rintro ⟨before, token, after, split, expanded, failed⟩
        cases before with
        | nil =>
          cases split
          cases replaced.symm.trans failed
        | cons head before =>
          cases split
          exact ⟨before, token, after, rfl, (List.forall_mem_cons.mp expanded).2, failed⟩

/-- The fragment with every tag replaced by what it stands for. -/
inductive Scope.Replaces (scope : Scope) (site : Site) : List Char → List Char → Prop
  | done : Replaces scope site [] []
  | char {c rest out} (plain : Plain c rest) (further : Replaces scope site rest out) :
      Replaces scope site (c :: rest) (c :: out)
  | dollar {rest out} (further : Replaces scope site rest out) :
      Replaces scope site ('$' :: '$' :: rest) ('$' :: out)
  | tag {word inner rest text out} (identifier : isIdentifier (String.ofList word) = true) (balanced : Balanced inner)
      (stands : scope.StandsFor site word inner text) (further : Replaces scope site rest out) :
      Replaces scope site (spelling word inner ++ rest) (text.toList ++ out)

/-- Every opening that the scan gets to has a parenthesis that closes it. -/
def Closed (text : List Char) : Prop :=
  ∀ found word rest, Lexes 0 text found (opening word rest) → isIdentifier (String.ofList word) = true →
    ∃ inner after, rest = inner ++ ')' :: after ∧ Balanced inner

/-- Every tag of the text can be replaced. -/
def Scope.Understands (scope : Scope) (site : Site) (text : List Char) : Prop :=
  ∀ found, Lexes 0 text found [] → ∀ word inner span, .tag word inner span ∈ found →
    ∃ out, scope.StandsFor site word inner out

/-- The fault of a fragment: an opening that is not closed, and otherwise the first tag that is rejected. -/
inductive Scope.Fails (scope : Scope) (site : Site) (text : List Char) : Fault → Prop
  | unclosed {unclosed} (stuck : Stuck 0 text unclosed) :
      Fails scope site text (site.unresolved (String.ofList unclosed.name) ("$" ++ String.ofList unclosed.name)
        .unclosed unclosed.span)
  | tag {before word inner span after fault} (lexes : Lexes 0 text (before ++ .tag word inner span :: after) [])
      (earlier : ∀ word inner span, .tag word inner span ∈ before → ∃ out, scope.StandsFor site word inner out)
      (rejects : scope.Rejects site word inner span fault) : Fails scope site text fault

theorem closed_iff {text : List Char} : Closed text ↔ ∃ found, Lexes 0 text found [] := by
  constructor
  · intro closed
    obtain ⟨found, left, lexes, rfl | ⟨word, rest, rfl, identifier, never⟩⟩ := exists_lexes 0 text
    · exact ⟨found, lexes⟩
    · obtain ⟨inner, after, split, balanced⟩ := closed found word rest lexes identifier
      exact absurd balanced (closing?_eq_none_iff_balanced.mp never inner after split)
  · rintro ⟨found, lexes⟩ prefixFound word rest partway identifier
    by_contra unclosed
    have never : closing? 0 rest = none := by
      rw [closing?_eq_none_iff_balanced]
      intro inner after split balanced
      exact unclosed ⟨inner, after, split, balanced⟩
    obtain ⟨read, _, whole⟩ := partway.scan_eq
    rw [scan_of_unclosed (lead_eq (.unclosed identifier never)), scan_eq_ok_iff.mpr lexes] at whole
    cases whole

theorem Scope.Replaces.exists_tokens {text out : List Char} (replaces : scope.Replaces site text out) (start : Nat) :
    ∃ found, Lexes start text found [] ∧ scope.expandTokens site found = .ok out := by
  induction replaces generalizing start with
  | done => exact ⟨[], .done, rfl⟩
  | @char c rest out plain further ih =>
    obtain ⟨found, lexes, expanded⟩ := ih (start + c.utf8Size)
    exact ⟨_, .char plain lexes, expandTokens_cons.mpr ⟨[c], out, rfl, expanded, rfl⟩⟩
  | @dollar rest out further ih =>
    obtain ⟨found, lexes, expanded⟩ := ih (start + 2)
    exact ⟨_, .dollar lexes, expandTokens_cons.mpr ⟨['$'], out, rfl, expanded, rfl⟩⟩
  | @tag word inner rest text out identifier balanced stands further ih =>
    obtain ⟨found, lexes, expanded⟩ := ih (start + byteLength (spelling word inner))
    have replaced : scope.expandToken site
        (.tag word inner ⟨start, start + byteLength (spelling word inner)⟩) = .ok text.toList :=
      map_eq_ok.mpr ⟨text, stands.expandTag_eq, rfl⟩
    exact ⟨_, .tag identifier balanced lexes, expandTokens_cons.mpr ⟨text.toList, out, replaced, expanded, rfl⟩⟩

theorem Lexes.replaces {start : Nat} {text left out : List Char} {found : List Token}
    (lexes : Lexes start text found left) (whole : left = []) (expanded : scope.expandTokens site found = .ok out) :
    scope.Replaces site text out := by
  induction lexes generalizing out with
  | done =>
    cases whole
    cases expanded
    exact .done
  | char plain further ih =>
    obtain ⟨_, rest, replaced, others, rfl⟩ := expandTokens_cons.mp expanded
    cases replaced
    exact .char plain (ih whole others)
  | dollar further ih =>
    obtain ⟨_, rest, replaced, others, rfl⟩ := expandTokens_cons.mp expanded
    cases replaced
    exact .dollar (ih whole others)
  | tag identifier balanced further ih =>
    obtain ⟨_, rest, replaced, others, rfl⟩ := expandTokens_cons.mp expanded
    obtain ⟨text, success, rfl⟩ := map_eq_ok.mp replaced
    exact .tag identifier balanced ((expandTag_eq_ok_iff balanced).mp success) (ih whole others)

theorem expand_eq_ok_iff_tokens {fragment text : String} :
    scope.expand site fragment = .ok text ↔
      ∃ found, Lexes 0 fragment.toList found [] ∧ scope.expandTokens site found = .ok text.toList := by
  unfold Scope.expand
  constructor
  · intro success
    split at success
    · cases success
    · rename_i found read
      obtain ⟨out, expanded, rfl⟩ := map_eq_ok.mp success
      exact ⟨found, scan_eq_ok_iff.mp read, by simpa using expanded⟩
  · rintro ⟨found, lexes, expanded⟩
    have read : tokens fragment.toList = .ok found := scan_eq_ok_iff.mpr lexes
    rw [read]
    exact map_eq_ok.mpr ⟨text.toList, expanded, String.ofList_toList⟩

theorem expand_eq_ok_iff {fragment text : String} :
    scope.expand site fragment = .ok text ↔ scope.Replaces site fragment.toList text.toList := by
  rw [expand_eq_ok_iff_tokens]
  constructor
  · rintro ⟨found, lexes, expanded⟩
    exact lexes.replaces rfl expanded
  · intro replaces
    exact replaces.exists_tokens 0

theorem expand_eq_error_iff {fragment : String} {fault : Fault} :
    scope.expand site fragment = .error fault ↔ scope.Fails site fragment.toList fault := by
  constructor
  · intro failure
    unfold Scope.expand at failure
    split at failure
    · rename_i unclosed read
      cases failure
      exact .unclosed (scan_eq_error_iff.mp read)
    · rename_i found read
      have lexes := scan_eq_ok_iff.mp read
      obtain ⟨before, token, after, rfl, expanded, failed⟩ := expandTokens_eq_error_iff.mp (map_eq_error.mp failure)
      cases token with
      | char c => cases failed
      | dollar => cases failed
      | tag word inner span =>
        have balanced : Balanced inner := lexes.balanced (List.mem_append_right _ List.mem_cons_self)
        have rejects := (expandTag_eq_error_iff balanced).mp (map_eq_error.mp failed)
        refine .tag lexes (fun word inner span member => ?_) rejects
        obtain ⟨_, replaced⟩ := expanded _ member
        obtain ⟨out, success, _⟩ := map_eq_ok.mp replaced
        exact ⟨out, (expandTag_eq_ok_iff (lexes.balanced (List.mem_append_left _ member))).mp success⟩
  · rintro (⟨stuck⟩ | ⟨lexes, earlier, rejects⟩)
    · rename_i unclosed
      have read : tokens fragment.toList = .error unclosed := scan_eq_error_iff.mpr stuck
      rw [Scope.expand, read]
    · rename_i before word inner span after
      have read : tokens fragment.toList = .ok (before ++ .tag word inner span :: after) := scan_eq_ok_iff.mpr lexes
      rw [Scope.expand, read]
      refine map_eq_error.mpr (expandTokens_eq_error_iff.mpr ⟨before, _, after, rfl, fun other member => ?_, ?_⟩)
      · cases other with
        | char c => exact ⟨[c], rfl⟩
        | dollar => exact ⟨['$'], rfl⟩
        | tag word inner span =>
          obtain ⟨out, stands⟩ := earlier word inner span member
          exact ⟨out.toList, map_eq_ok.mpr ⟨out, stands.expandTag_eq, rfl⟩⟩
      · exact map_eq_error.mpr rejects.expandTag_eq

theorem exists_expand_eq_ok_iff {fragment : String} :
    (∃ text, scope.expand site fragment = .ok text) ↔
      Closed fragment.toList ∧ scope.Understands site fragment.toList := by
  constructor
  · rintro ⟨text, success⟩
    obtain ⟨found, lexes, expanded⟩ := expand_eq_ok_iff_tokens.mp success
    refine ⟨closed_iff.mpr ⟨found, lexes⟩, fun other same word inner span member => ?_⟩
    cases (scan_eq_ok_iff.mpr lexes).symm.trans (scan_eq_ok_iff.mpr same)
    obtain ⟨_, replaced⟩ := exists_of_expandTokens_eq_ok expanded member
    obtain ⟨out, own, _⟩ := map_eq_ok.mp replaced
    exact ⟨out, (expandTag_eq_ok_iff (lexes.balanced member)).mp own⟩
  · rintro ⟨closed, understands⟩
    obtain ⟨found, lexes⟩ := closed_iff.mp closed
    cases outcome : scope.expand site fragment with
    | ok text => exact ⟨text, rfl⟩
    | error fault =>
      -- Neither fault is left: the fragment was read to its end, and no tag of it is rejected.
      have fails := expand_eq_error_iff.mp outcome
      cases fails with
      | unclosed stuck => cases (scan_eq_ok_iff.mpr lexes).symm.trans (scan_eq_error_iff.mpr stuck)
      | tag same earlier rejects =>
        rename_i before word inner span after
        obtain ⟨out, stands⟩ := understands _ same word inner span (by simp)
        have success : scope.expandTag site word inner span = .ok out := stands.expandTag_eq
        cases success.symm.trans rejects.expandTag_eq

end Fragments

/-- A fragment is expanded exactly if every opening that the scan gets to is closed and every tag stands for something,
and then all of its tags are replaced and nothing else. Otherwise the fault is that of the opening that is not closed,
and if there is none that of the first tag that is rejected. -/
theorem expand_decides (context : Render.Context) (site : Site) (fragment : String) :
    (∀ name, context.scope.exports name = true ↔
      ∃ self, context.graph.class? name = some self ∧ self.included = true) ∧
    ((∃ text, context.scope.expand site fragment = .ok text) ↔
      Closed fragment.toList ∧ context.scope.Understands site fragment.toList) ∧
    (∀ text, context.scope.expand site fragment = .ok text ↔
      context.scope.Replaces site fragment.toList text.toList) ∧
    ∀ fault, context.scope.expand site fragment = .error fault ↔
      context.scope.Fails site fragment.toList fault := by
  refine ⟨fun name => ?_, exists_expand_eq_ok_iff, fun text => expand_eq_ok_iff, fun fault => expand_eq_error_iff⟩
  exact Option.any_eq_true ..

end DocWeave.Tag
