import DocWeave.Proofs.Tag.Grammar

/-!
# Escaped texts

In a text with every dollar sign doubled no tag begins, and nothing of it is left over for what stands behind it. So it
is expanded to the text that it escapes, and the rest is expanded like a fragment that begins there.
-/

namespace DocWeave.Tag

open DocWeave.Text

/-- The text with every dollar sign doubled. -/
def escape (cs : List Char) : List Char :=
  cs.flatMap fun c => if c = '$' then ['$', '$'] else [c]

/-- What an escaped character is read as. -/
def escapedToken (c : Char) : Token :=
  if c = '$' then .dollar else .char c

theorem escape_dollar (cs : List Char) : escape ('$' :: cs) = '$' :: '$' :: escape cs := by
  simp [escape]

theorem escape_of_ne {c : Char} (other : c ≠ '$') (cs : List Char) : escape (c :: cs) = c :: escape cs := by
  simp [escape, other]

/-- Whatever stands behind it, an escaped text is read to its end. -/
theorem lexes_escape (start : Nat) (cs rest : List Char) :
    Lexes start (escape cs ++ rest) (cs.map escapedToken) rest := by
  induction cs generalizing start with
  | nil => exact .done
  | cons c cs ih =>
    rw [List.map_cons]
    by_cases sign : c = '$'
    · rw [sign, escape_dollar]
      exact .dollar (ih _)
    · rw [escape_of_ne sign, escapedToken, if_neg sign]
      exact .char (fun same => absurd same sign) (ih _)

theorem scan_escape_append (start : Nat) (cs rest : List Char) :
    scan start (escape cs ++ rest) =
      (scan (start + byteLength (escape cs)) rest).map (cs.map escapedToken ++ ·) := by
  obtain ⟨read, split, whole⟩ := (lexes_escape start cs rest).scan_eq
  cases List.append_cancel_right split
  exact whole

example : tokens (escape "a$".toList ++ "$NAME()".toList) =
    .ok [.char 'a', .dollar, .tag "NAME".toList [] ⟨3, 10⟩] := by
  decide +kernel

variable (scope : Scope) (site : Site)

theorem expandTokens_escaped (cs : List Char) (found : List Token) :
    scope.expandTokens site (cs.map escapedToken ++ found) = (scope.expandTokens site found).map (cs ++ ·) := by
  induction cs with
  | nil =>
    rw [List.map_nil, List.nil_append]
    cases scope.expandTokens site found <;> rfl
  | cons c cs ih =>
    have own : scope.expandToken site (escapedToken c) = .ok [c] := by
      unfold escapedToken
      split
      · rename_i sign
        rw [sign]
        rfl
      · rfl
    rw [List.map_cons, List.cons_append, Scope.expandTokens, own, ih]
    cases scope.expandTokens site found <;> rfl

/-! ### Fragments that begin further back -/

/-- The token of a text that begins `offset` bytes further back. -/
def Token.shift (offset : Nat) : Token → Token
  | .tag name inner span => .tag name inner (span.shift offset)
  | token => token

def Unclosed.shift (offset : Nat) (unclosed : Unclosed) : Unclosed :=
  { unclosed with span := unclosed.span.shift offset }

/-- The place of a fragment that begins `offset` bytes further back in the same documentation. -/
def Site.behind (site : Site) (offset : Nat) : Site :=
  { site with offset := site.offset + offset }

theorem scan_add (offset start : Nat) (text : List Char) :
    scan (offset + start) text =
      ((scan start text).map (List.map (Token.shift offset))).mapError (Unclosed.shift offset) := by
  induction start, text using scan.induct with
  | case1 start text first =>
    rw [scan_of_done first, scan_of_done first]
    rfl
  | case2 start text c rest first ih =>
    rw [scan_of_plain first, scan_of_plain first, Nat.add_assoc, ih]
    cases scan (start + c.utf8Size) rest <;> rfl
  | case3 start text rest first ih =>
    rw [scan_of_dollar first, scan_of_dollar first, Nat.add_assoc, ih]
    cases scan (start + 2) rest <;> rfl
  | case4 start text name inner rest first stop =>
    rename_i ih
    have place : offset + start + 3 + byteLength name + byteLength inner =
        offset + (start + 3 + byteLength name + byteLength inner) := by
      omega
    rw [scan_of_tag first, scan_of_tag first, place, ih]
    cases scan (start + 3 + byteLength name + byteLength inner) rest <;> rfl
  | case5 start text name first =>
    rw [scan_of_unclosed first, scan_of_unclosed first, Nat.add_assoc]
    rfl

theorem span?_shift (offset : Nat) (span : Span) :
    site.span? (span.shift offset) = (site.behind offset).span? span := by
  have same : (span.shift offset).shift site.offset = span.shift (site.offset + offset) := by
    simp [Span.shift, Nat.add_assoc]
  rw [Site.span?, same]
  rfl

theorem expandTag_shift (offset : Nat) (name inner : List Char) (span : Span) :
    scope.expandTag site name inner (span.shift offset) =
      scope.expandTag (site.behind offset) name inner span := by
  simp only [Scope.expandTag, Scope.target, Site.unresolved, span?_shift]
  rfl

theorem expandTokens_shift (offset : Nat) (found : List Token) :
    scope.expandTokens site (found.map (Token.shift offset)) = scope.expandTokens (site.behind offset) found := by
  induction found with
  | nil => rfl
  | cons token rest ih =>
    have own : scope.expandToken site (token.shift offset) = scope.expandToken (site.behind offset) token := by
      cases token with
      | char c => rfl
      | dollar => rfl
      | tag name inner span => exact congrArg (·.map String.toList) (expandTag_shift scope site offset name inner span)
    rw [List.map_cons, Scope.expandTokens, Scope.expandTokens, own, ih]

/-- Behind an escaped text a fragment is expanded as if it began there. -/
theorem expand_behind_escape (s t : String) :
    scope.expand site (onString escape s ++ t) =
      (scope.expand (site.behind (byteLength (escape s.toList))) t).map (s ++ ·) := by
  have read : tokens (onString escape s ++ t).toList =
      (((tokens t.toList).map (List.map (Token.shift (byteLength (escape s.toList))))).mapError
        (Unclosed.shift (byteLength (escape s.toList)))).map (s.toList.map escapedToken ++ ·) := by
    rw [String.toList_append, toList_onString, tokens, scan_escape_append, Nat.zero_add, tokens,
      ← scan_add, Nat.add_zero]
  generalize byteLength (escape s.toList) = offset at read ⊢
  rw [Scope.expand, Scope.expand, read]
  cases tokens t.toList with
  | error unclosed =>
    dsimp only [Except.map, Except.mapError]
    rw [Site.unresolved, Unclosed.shift, span?_shift]
    rfl
  | ok found =>
    dsimp only [Except.map, Except.mapError]
    rw [expandTokens_escaped, expandTokens_shift]
    cases scope.expandTokens (site.behind offset) found with
    | error fault => rfl
    | ok text => simp [Except.map]

/-! ### Places of faults -/

/-- The outcomes are the same, but a fault about a tag may have another place. -/
inductive SameButPlace {α : Type} : Except Fault α → Except Fault α → Prop
  | ok (value : α) : SameButPlace (.ok value) (.ok value)
  | unknownTag {tag origin place other} :
      SameButPlace (.error (.unknownTag tag origin place)) (.error (.unknownTag tag origin other))
  | unresolved {name tag cause origin place other} :
      SameButPlace (.error (.unresolved name tag cause origin place)) (.error (.unresolved name tag cause origin other))

theorem SameButPlace.map {α β : Type} {outcome other : Except Fault α} (same : SameButPlace outcome other)
    (f : α → β) : SameButPlace (outcome.map f) (other.map f) := by
  cases same with
  | ok value => exact .ok (f value)
  | unknownTag => exact .unknownTag
  | unresolved => exact .unresolved

theorem sameButPlace_target (offset : Nat) (kind : Kind) (named : Option String) (span : Span) :
    SameButPlace (scope.target (site.behind offset) kind named span) (scope.target site kind named span) := by
  have default : (site.behind offset).defaultClass = site.defaultClass := rfl
  unfold Scope.target
  rw [default]
  cases named with
  | some name =>
    dsimp only
    split
    · exact .ok name
    · exact .unresolved
  | none =>
    cases site.defaultClass with
    | some name => exact .ok name
    | none => exact .unresolved

theorem sameButPlace_expandTag (offset : Nat) (name inner : List Char) (span : Span) :
    SameButPlace (scope.expandTag (site.behind offset) name inner span) (scope.expandTag site name inner span) := by
  unfold Scope.expandTag
  split
  · exact .unknownTag
  · dsimp only
    split
    · exact .unresolved
    · split
      · exact .unresolved
      · exact (sameButPlace_target scope site offset _ _ span).map _

theorem sameButPlace_expandTokens (offset : Nat) (found : List Token) :
    SameButPlace (scope.expandTokens (site.behind offset) found) (scope.expandTokens site found) := by
  induction found with
  | nil => exact .ok []
  | cons token rest ih =>
    have own : SameButPlace (scope.expandToken (site.behind offset) token) (scope.expandToken site token) := by
      cases token with
      | char c => exact .ok [c]
      | dollar => exact .ok ['$']
      | tag name inner span => exact (sameButPlace_expandTag scope site offset name inner span).map _
    unfold Scope.expandTokens
    generalize scope.expandToken (site.behind offset) token = first, scope.expandToken site token = other at own ⊢
    cases own with
    | ok text => exact ih.map _
    | unknownTag => exact .unknownTag
    | unresolved => exact .unresolved

theorem sameButPlace_expand (offset : Nat) (t : String) :
    SameButPlace (scope.expand (site.behind offset) t) (scope.expand site t) := by
  unfold Scope.expand
  cases tokens t.toList with
  | error unclosed => exact .unresolved
  | ok found => exact (sameButPlace_expandTokens scope site offset found).map _

/-- An escaped text is expanded to the text, and what stands behind it as if it stood alone. Only the place of a fault
about a tag moves along with the tag. -/
theorem expand_escape_append (s t : String) :
    SameButPlace (scope.expand site (onString escape s ++ t)) ((scope.expand site t).map (s ++ ·)) ∧
    scope.expand site (onString escape s ++ t) =
      (scope.expand (site.behind (byteLength (escape s.toList))) t).map (s ++ ·) ∧
    scope.expand site (onString escape s) = .ok s := by
  have behind := expand_behind_escape scope site s
  refine ⟨?_, behind t, ?_⟩
  · rw [behind t]
    exact (sameButPlace_expand scope site _ t).map _
  · have alone := behind ""
    rw [String.append_empty] at alone
    rw [alone, Scope.expand, String.toList_empty, tokens, scan_nil]
    simp [Except.map, Scope.expandTokens]

end DocWeave.Tag
