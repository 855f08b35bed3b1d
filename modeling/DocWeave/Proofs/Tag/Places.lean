import DocWeave.Fragment.Documentation
import DocWeave.Proofs.Outcome
import DocWeave.Proofs.Tag.Parentheses
import DocWeave.Proofs.Text.Places
import DocWeave.Tag.Expansion

/-!
# Places of tags

The span of a tag covers the tag in its fragment, and, moved by the offset of the fragment, in the
documentation. So a fault about a tag points at the tag.
-/

namespace DocWeave.Tag

open DocWeave.Text

/-- A tag as it is written. -/
def spelling (name inner : List Char) : List Char :=
  '$' :: name ++ '(' :: inner ++ [')']

/-- The beginning of a tag whose parenthesis is not closed. -/
def opening (name rest : List Char) : List Char :=
  '$' :: name ++ '(' :: rest

theorem size_dollar : '$'.utf8Size = 1 := by decide

theorem byteLength_spelling (name inner : List Char) :
    byteLength (spelling name inner) = 3 + byteLength name + byteLength inner := by
  have sizes : '('.utf8Size = 1 ∧ ')'.utf8Size = 1 := by decide
  simp only [spelling, List.cons_append, byteLength_cons, byteLength_append, byteLength_nil, size_dollar, sizes]
  omega

theorem eq_of_lead_unclosed {text name : List Char} (first : lead text = .unclosed name) :
    ∃ rest, text = opening name rest ∧ closing? 0 rest = none := by
  unfold lead at first
  repeat' split at first
  all_goals cases first
  rename_i dollar _ _ _ _ _ never opened
  exact ⟨_, by rw [dollar, eq_of_opening? opened]; simp [opening], never⟩

theorem closing?_of_lead_tag {text name inner rest : List Char} (first : lead text = .tag name inner rest) :
    closing? 0 (inner ++ [')']) = some (inner, []) := by
  unfold lead at first
  repeat' split at first
  all_goals cases first
  rename_i closed
  exact closing?_eq_some_iff.mpr ⟨rfl, (closing?_eq_some_iff.mp closed).2⟩

section Step

variable {start : Nat} {text : List Char}

theorem scan_of_done (first : lead text = .done) : scan start text = .ok [] := by
  rw [scan]
  split <;> simp_all

theorem scan_of_plain {c : Char} {rest : List Char} (first : lead text = .plain c rest) :
    scan start text = (scan (start + c.utf8Size) rest).map (Token.char c :: ·) := by
  rw [scan]
  split <;> simp_all

theorem scan_of_dollar {rest : List Char} (first : lead text = .dollar rest) :
    scan start text = (scan (start + 2) rest).map (Token.dollar :: ·) := by
  rw [scan]
  split <;> simp_all

theorem scan_of_tag {name inner rest : List Char} (first : lead text = .tag name inner rest) :
    scan start text =
      (scan (start + 3 + byteLength name + byteLength inner) rest).map
        (Token.tag name inner ⟨start, start + 3 + byteLength name + byteLength inner⟩ :: ·) := by
  rw [scan]
  split <;> simp_all

theorem scan_of_unclosed {name : List Char} (first : lead text = .unclosed name) :
    scan start text = .error ⟨name, ⟨start, start + byteLength text⟩⟩ := by
  rw [scan]
  split <;> simp_all

end Step

/-- Every tag that is found is covered by its span. -/
theorem covers_of_scan (before : List Char) {whole text : List Char} {found : List Token} {name inner : List Char}
    {span : Span} (split : whole = before ++ text) (success : scan (byteLength before) text = .ok found)
    (member : .tag name inner span ∈ found) :
    span.Covers whole (spelling name inner) ∧ closing? 0 (inner ++ [')']) = some (inner, []) := by
  -- What is read moves from the text to what is before it, so that places stay those of the whole.
  generalize size : byteLength before = start at success
  induction start, text using scan.induct generalizing before found with
  | case1 start text first =>
    rw [scan_of_done first] at success
    cases success
    cases member
  | case2 start text c rest first ih =>
    rw [scan_of_plain first, map_eq_ok] at success
    obtain ⟨others, further, rfl⟩ := success
    have later : .tag name inner span ∈ others := by simpa using member
    refine ih (before ++ [c]) ?_ later (by simp [size]) further
    simp [split, eq_of_lead_plain first]
  | case3 start text rest first ih =>
    rw [scan_of_dollar first, map_eq_ok] at success
    obtain ⟨others, further, rfl⟩ := success
    have later : .tag name inner span ∈ others := by simpa using member
    refine ih (before ++ ['$', '$']) ?_ later (by simp [size, size_dollar]) further
    simp [split, eq_of_lead_dollar first]
  | case4 start text word args rest first stop =>
    rename_i ih
    rw [scan_of_tag first, map_eq_ok] at success
    obtain ⟨others, further, rfl⟩ := success
    have written : text = spelling word args ++ rest := by
      simp [eq_of_lead_tag first, spelling]
    rcases List.mem_cons.mp member with this | later
    · cases this
      refine ⟨⟨⟨before, rest, by simp [split, written], size⟩, ?_⟩, closing?_of_lead_tag first⟩
      simp only [byteLength_spelling, Nat.add_assoc]
    · refine ih (before ++ spelling word args) ?_ later ?_ further
      · simp [split, written]
      · rw [byteLength_append, byteLength_spelling]
        omega
  | case5 start text word first =>
    rw [scan_of_unclosed first] at success
    cases success

/-- A tag that is not closed is covered up to the end of the text. -/
theorem covers_of_scan_error (before : List Char) {whole text : List Char} {unclosed : Unclosed}
    (split : whole = before ++ text) (failure : scan (byteLength before) text = .error unclosed) :
    ∃ rest, unclosed.span.Covers whole (opening unclosed.name rest) ∧ closing? 0 rest = none ∧
      unclosed.span.stop = byteLength whole := by
  generalize size : byteLength before = start at failure
  induction start, text using scan.induct generalizing before with
  | case1 start text first =>
    rw [scan_of_done first] at failure
    cases failure
  | case2 start text c rest first ih =>
    rw [scan_of_plain first, map_eq_error] at failure
    refine ih (before ++ [c]) ?_ (by simp [size]) failure
    simp [split, eq_of_lead_plain first]
  | case3 start text rest first ih =>
    rw [scan_of_dollar first, map_eq_error] at failure
    refine ih (before ++ ['$', '$']) ?_ (by simp [size, size_dollar]) failure
    simp [split, eq_of_lead_dollar first]
  | case4 start text word args rest first stop =>
    rename_i ih
    rw [scan_of_tag first, map_eq_error] at failure
    have written : text = spelling word args ++ rest := by
      simp [eq_of_lead_tag first, spelling]
    refine ih (before ++ spelling word args) ?_ ?_ failure
    · simp [split, written]
    · rw [byteLength_append, byteLength_spelling]
      omega
  | case5 start text word first =>
    rw [scan_of_unclosed first] at failure
    cases failure
    obtain ⟨rest, written, never⟩ := eq_of_lead_unclosed first
    refine ⟨rest, ⟨⟨before, [], by simp [split, written], size⟩, by simp [written]⟩, never, ?_⟩
    simp [split, size]

/-! ### Faults about tags -/

/-- The tag `$word(inner)` is known, and refused for this cause. The fault shows `shown` and `label`. -/
inductive Refuses (word inner : List Char) : (shown label : String) → Unresolved → Prop
  | arity {kind} (known : Kind.ofWord? (String.ofList word) = some kind)
      (bounds : (arguments inner).length < kind.least ∨ kind.most < (arguments inner).length) :
      Refuses word inner (", ".intercalate ((arguments inner).map String.ofList)) kind.label
        (.arity kind.least kind.most (arguments inner).length)
  | emptyArgument {kind index} (known : Kind.ofWord? (String.ofList word) = some kind)
      (empty : (arguments inner)[index]? = some []) :
      Refuses word inner (", ".intercalate ((arguments inner).map String.ofList)) kind.label
        (.emptyArgument (index + 1))
  | notExported {kind named} (known : Kind.ofWord? (String.ofList word) = some kind)
      (given : (arguments inner)[kind.least]? = some named) :
      Refuses word inner (String.ofList named) kind.label .notExported
  | noDefaultClass {kind} (known : Kind.ofWord? (String.ofList word) = some kind)
      (missing : (arguments inner)[kind.least]? = none) :
      Refuses word inner "(default class)" kind.label .noDefaultClass

/-- The tag `$word(inner)` causes this fault, which shows the place `place?`. -/
inductive Causes (origin : Origin) (word inner : List Char) (place? : Option Span) : Fault → Prop
  | unknown (unknown : Kind.ofWord? (String.ofList word) = none) :
      Causes origin word inner place? (.unknownTag (String.ofList word) origin place?)
  | refused {shown label cause} (refused : Refuses word inner shown label cause) :
      Causes origin word inner place? (.unresolved shown label cause origin place?)

variable {scope : Scope} {site : Site} {fault : Fault}

theorem causes_of_expandTag {name inner : List Char} {span : Span}
    (failure : scope.expandTag site name inner span = .error fault) :
    Causes site.origin name inner (site.span? span) fault := by
  unfold Scope.expandTag at failure
  split at failure
  · rename_i unknown
    cases failure
    exact .unknown unknown
  · rename_i kind known
    dsimp only at failure
    rw [List.length_map] at failure
    split at failure
    · rename_i bounds
      cases failure
      exact .refused (.arity known bounds)
    · split at failure
      · rename_i index empty
        cases failure
        obtain ⟨bound, isEmpty, _⟩ := List.findIdx?_eq_some_iff_getElem.mp empty
        refine .refused (.emptyArgument known ?_)
        simpa [List.getElem?_eq_some_iff] using ⟨by simpa using bound, by simpa using isEmpty⟩
      · rw [map_eq_error] at failure
        unfold Scope.target at failure
        split at failure
        · rename_i shown _ given
          split at failure
          · cases failure
          · cases failure
            rw [List.getElem?_map, Option.map_eq_some_iff] at given
            obtain ⟨named, given, rfl⟩ := given
            exact .refused (.notExported known given)
        · cases failure
        · rename_i missing _
          cases failure
          exact .refused (.noDefaultClass known (by simpa using missing))

theorem exists_tag_of_expandTokens {found : List Token}
    (failure : scope.expandTokens site found = .error fault) :
    ∃ name inner span, .tag name inner span ∈ found ∧
      Causes site.origin name inner (site.span? span) fault := by
  induction found with
  | nil => cases failure
  | cons token rest ih =>
    unfold Scope.expandTokens at failure
    split at failure
    · rename_i refused
      cases failure
      cases token with
      | char c => cases refused
      | dollar => cases refused
      | tag name inner span =>
        exact ⟨name, inner, span, List.mem_cons_self, causes_of_expandTag (map_eq_error.mp refused)⟩
    · obtain ⟨name, inner, span, member, causes⟩ := ih (map_eq_error.mp failure)
      exact ⟨name, inner, span, List.mem_cons_of_mem _ member, causes⟩

/-- The place lies in the body of a fragment. -/
structure Encloses (fragment : Fragment) (place : Span) : Prop where
  begins : fragment.offset ≤ place.start
  ends : place.stop ≤ fragment.offset + byteLength fragment.body.toList

/-- The fault points at the tag of the fragment that causes it. The tag ends with the parenthesis that closes
its own, and otherwise with the fragment. -/
inductive PointsAt (origin : Origin) (fragment : Fragment) : Fault → Prop
  | tag {word inner place fault} (causes : Causes origin word inner (some place) fault)
      (closes : closing? 0 (inner ++ [')']) = some (inner, [])) (inside : Encloses fragment place)
      (selects : place.Selects origin.doc.toList (spelling word inner)) : PointsAt origin fragment fault
  | unclosed {word rest place} (never : closing? 0 rest = none) (inside : Encloses fragment place)
      (atEnd : place.stop = fragment.offset + byteLength fragment.body.toList)
      (selects : place.Selects origin.doc.toList (opening word rest)) :
      PointsAt origin fragment
        (.unresolved (String.ofList word) ("$" ++ String.ofList word) .unclosed origin (some place))

theorem span?_of_covers {span : Span} {body part : List Char}
    (place : OccursAt site.origin.doc.toList site.offset body) (covers : span.Covers body part) :
    site.span? span = some (span.shift site.offset) :=
  if_pos (covers.shift place).selects.inside

theorem encloses_of_covers {span : Span} {fragment : Fragment} {part : List Char}
    (covers : span.Covers fragment.body.toList part) : Encloses fragment (span.shift fragment.offset) := by
  constructor
  · exact Nat.le_add_right _ _
  · exact Nat.add_le_add_left covers.selects.inside _

/-- A fault of a fragment that stands in its documentation points at a tag. -/
theorem pointsAt_of_expand {fragment : Fragment} (offset : site.offset = fragment.offset)
    (place : OccursAt site.origin.doc.toList fragment.offset fragment.body.toList)
    (failure : scope.expand site fragment.body = .error fault) : PointsAt site.origin fragment fault := by
  rw [← offset] at place
  unfold Scope.expand at failure
  split at failure
  · rename_i unclosed unfinished
    cases failure
    obtain ⟨rest, covers, never, atEnd⟩ := covers_of_scan_error [] rfl unfinished
    rw [Site.unresolved, span?_of_covers place covers]
    refine .unclosed never ?_ ?_ ?_
    · rw [offset]
      exact encloses_of_covers covers
    · simp [Span.shift, atEnd, offset]
    · simpa using (covers.shift place).selects
  · rename_i found read
    obtain ⟨name, inner, span, member, causes⟩ := exists_tag_of_expandTokens (map_eq_error.mp failure)
    obtain ⟨covers, closes⟩ := covers_of_scan [] rfl read member
    rw [span?_of_covers place covers] at causes
    refine .tag causes closes ?_ (covers.shift place).selects
    rw [offset]
    exact encloses_of_covers covers

end DocWeave.Tag
