import DocWeave.Proofs.Tag.Places
import DocWeave.Proofs.Text.Words

/-!
# The grammar of fragments

A fragment is `$$`, tags and plain characters, and a `$` is plain only if it begins neither of the other two. The
tokens of a fragment are found exactly if it can be read like this, and they show all of it. Otherwise the scan stops
at a parenthesis that has no partner.
-/

namespace DocWeave.Tag

open DocWeave.Text

/-- What stands behind a `$` makes it begin neither `$$` nor a tag. -/
def Plain (c : Char) (rest : List Char) : Prop :=
  c = '$' → rest.head? ≠ some '$' ∧
    ∀ name after, rest = name ++ '(' :: after → isIdentifier (String.ofList name) = false

/-- From byte `start` on a text begins with these tokens, in front of the text `left`. -/
inductive Lexes : (start : Nat) → (text : List Char) → List Token → (left : List Char) → Prop
  | done {start left} : Lexes start left [] left
  | char {start c rest found left} (plain : Plain c rest) (further : Lexes (start + c.utf8Size) rest found left) :
      Lexes start (c :: rest) (.char c :: found) left
  | dollar {start rest found left} (further : Lexes (start + 2) rest found left) :
      Lexes start ('$' :: '$' :: rest) (.dollar :: found) left
  | tag {start name inner rest found left} (identifier : isIdentifier (String.ofList name) = true)
      (balanced : Balanced inner) (further : Lexes (start + byteLength (spelling name inner)) rest found left) :
      Lexes start (spelling name inner ++ rest)
        (.tag name inner ⟨start, start + byteLength (spelling name inner)⟩ :: found) left

/-! ### The first token -/

theorem opening?_eq_some_iff {cs name rest : List Char} :
    opening? cs = some (name, rest) ↔ cs = name ++ '(' :: rest ∧ isIdentifier (String.ofList name) = true := by
  rw [isIdentifier_ofList]
  constructor
  · intro found
    refine ⟨eq_of_opening? found, ?_⟩
    have letters : (cs.takeWhile isWordChar).all isWordChar = true := List.all_takeWhile
    unfold opening? at found
    split at found
    · rename_i c word _ taken _
      split at found
      · rename_i begins
        cases found
        exact ⟨c, word, rfl, begins, taken ▸ letters⟩
      · cases found
    · cases found
  · rintro ⟨rfl, c, cs, rfl, begins, letters⟩
    unfold opening?
    rw [takeWhile_word letters (by decide), dropWhile_word letters (by decide)]
    exact if_pos begins

theorem opening?_eq_none_iff {cs : List Char} :
    opening? cs = none ↔ ∀ name rest, cs = name ++ '(' :: rest → isIdentifier (String.ofList name) = false := by
  constructor
  · intro missing name rest split
    rw [← Bool.not_eq_true]
    intro identifier
    cases missing.symm.trans (opening?_eq_some_iff.mpr ⟨split, identifier⟩)
  · intro never
    cases found : opening? cs with
    | none => rfl
    | some opened =>
      obtain ⟨split, identifier⟩ := opening?_eq_some_iff.mp found
      simp [never _ _ split] at identifier

/-- What a text begins with, as the grammar says it. -/
inductive Leads : List Char → Lead → Prop
  | done : Leads [] .done
  | plain {c rest} (plain : Plain c rest) : Leads (c :: rest) (.plain c rest)
  | dollar {rest} : Leads ('$' :: '$' :: rest) (.dollar rest)
  | tag {name inner rest} (identifier : isIdentifier (String.ofList name) = true) (balanced : Balanced inner) :
      Leads (spelling name inner ++ rest) (.tag name inner rest)
  | unclosed {name rest} (identifier : isIdentifier (String.ofList name) = true)
      (never : closing? 0 rest = none) : Leads (opening name rest) (.unclosed name)

theorem lead_double (rest : List Char) : lead ('$' :: '$' :: rest) = .dollar rest := by
  simp [lead]

/-- Behind a dollar sign that does not begin `$$`, an opening decides. -/
theorem lead_lone {cs : List Char} (lone : cs.head? ≠ some '$') :
    lead ('$' :: cs) =
      match opening? cs with
      | none => .plain '$' cs
      | some (name, after) =>
        match closing? 0 after with
        | none => .unclosed name
        | some (inner, rest) => .tag name inner rest := by
  unfold lead
  dsimp only
  rw [if_pos rfl]
  split
  · exact absurd rfl lone
  · rfl

theorem head?_ne_dollar {name rest : List Char} (identifier : isIdentifier (String.ofList name) = true) :
    (name ++ rest).head? ≠ some '$' := by
  obtain ⟨c, cs, rfl, begins, _⟩ := isIdentifier_ofList.mp identifier
  intro same
  cases Option.some.inj same
  exact absurd begins (by decide)

theorem leads (text : List Char) : Leads text (lead text) := by
  cases text with
  | nil => exact .done
  | cons c cs =>
    by_cases sign : c = '$'
    · subst sign
      by_cases double : cs.head? = some '$'
      · obtain ⟨rest, rfl⟩ := List.head?_eq_some_iff.mp double
        rw [lead_double]
        exact .dollar
      · rw [lead_lone double]
        cases opened : opening? cs with
        | none => exact .plain fun _ => ⟨double, opening?_eq_none_iff.mp opened⟩
        | some found =>
          obtain ⟨name, after⟩ := found
          obtain ⟨rfl, identifier⟩ := opening?_eq_some_iff.mp opened
          dsimp only
          cases closed : closing? 0 after with
          | none => exact .unclosed identifier closed
          | some found =>
            obtain ⟨inner, rest⟩ := found
            obtain ⟨rfl, level⟩ := closing?_eq_some_iff.mp closed
            have whole : '$' :: (name ++ '(' :: (inner ++ ')' :: rest)) = spelling name inner ++ rest := by
              simp [spelling]
            rw [whole]
            exact .tag identifier (balanced_of_height? level)
    · have first : lead (c :: cs) = .plain c cs := if_neg sign
      rw [first]
      exact .plain fun same => absurd same sign

theorem lead_eq {text : List Char} {first : Lead} (view : Leads text first) : lead text = first := by
  cases view with
  | done => rfl
  | @plain c rest plain =>
    by_cases sign : c = '$'
    · obtain ⟨lone, never⟩ := plain sign
      rw [sign, lead_lone lone, opening?_eq_none_iff.mpr never]
    · exact if_neg sign
  | dollar => exact lead_double _
  | @tag name inner rest identifier balanced =>
    have opened : opening? (name ++ '(' :: (inner ++ ')' :: rest)) = some (name, inner ++ ')' :: rest) :=
      opening?_eq_some_iff.mpr ⟨rfl, identifier⟩
    have whole : spelling name inner ++ rest = '$' :: (name ++ '(' :: (inner ++ ')' :: rest)) := by
      simp [spelling]
    rw [whole, lead_lone (head?_ne_dollar identifier), opened]
    dsimp only
    rw [closing?_of_height? (balanced.level 0)]
  | @unclosed name rest identifier never =>
    have opened : opening? (name ++ '(' :: rest) = some (name, rest) :=
      opening?_eq_some_iff.mpr ⟨rfl, identifier⟩
    have whole : opening name rest = '$' :: (name ++ '(' :: rest) := rfl
    rw [whole, lead_lone (head?_ne_dollar identifier), opened]
    dsimp only
    rw [never]

/-! ### The scan -/

section Step

variable (start : Nat) {name inner rest : List Char}

theorem scan_nil : scan start [] = .ok [] := scan_of_done rfl

theorem scan_tag (identifier : isIdentifier (String.ofList name) = true) (balanced : Balanced inner) :
    scan start (spelling name inner ++ rest) =
      (scan (start + byteLength (spelling name inner)) rest).map
        (Token.tag name inner ⟨start, start + byteLength (spelling name inner)⟩ :: ·) := by
  rw [scan_of_tag (lead_eq (.tag identifier balanced)), byteLength_spelling]
  simp only [Nat.add_assoc]

end Step

/-- The scan goes on behind what it has read. -/
theorem Lexes.scan_eq {start : Nat} {text left : List Char} {found : List Token} (lexes : Lexes start text found left) :
    ∃ read, text = read ++ left ∧
      scan start text = (scan (start + byteLength read) left).map (found ++ ·) := by
  induction lexes with
  | @done start left =>
    refine ⟨[], rfl, ?_⟩
    rw [byteLength_nil, Nat.add_zero]
    cases scan start left <;> rfl
  | @char start c rest found left plain further ih =>
    obtain ⟨read, rfl, step⟩ := ih
    refine ⟨c :: read, rfl, ?_⟩
    rw [scan_of_plain (lead_eq (.plain plain)), step, byteLength_cons, ← Nat.add_assoc]
    cases scan (start + c.utf8Size + byteLength read) left <;> rfl
  | @dollar start rest found left further ih =>
    obtain ⟨read, rfl, step⟩ := ih
    refine ⟨'$' :: '$' :: read, rfl, ?_⟩
    have size : start + byteLength ('$' :: '$' :: read) = start + 2 + byteLength read := by
      simp only [byteLength_cons, size_dollar]
      omega
    rw [scan_of_dollar (lead_eq .dollar), step, size]
    cases scan (start + 2 + byteLength read) left <;> rfl
  | @tag start name inner rest found left identifier balanced further ih =>
    obtain ⟨read, rfl, step⟩ := ih
    refine ⟨spelling name inner ++ read, by simp, ?_⟩
    rw [scan_tag start identifier balanced, step, byteLength_append, ← Nat.add_assoc]
    cases scan (start + byteLength (spelling name inner) + byteLength read) left <;> rfl

/-- A text can be read to its end, or to an opening whose parenthesis has no partner. -/
theorem exists_lexes (start : Nat) (text : List Char) :
    ∃ found left, Lexes start text found left ∧
      (left = [] ∨ ∃ name rest, left = opening name rest ∧ isIdentifier (String.ofList name) = true ∧
        closing? 0 rest = none) := by
  induction start, text using scan.induct with
  | case1 start text first =>
    have view := first ▸ leads text
    cases view
    exact ⟨[], [], .done, .inl rfl⟩
  | case2 start text c rest first ih =>
    have view := first ▸ leads text
    obtain ⟨found, left, further, ends⟩ := ih
    cases view with
    | plain plain => exact ⟨_, left, .char plain further, ends⟩
  | case3 start text rest first ih =>
    have view := first ▸ leads text
    obtain ⟨found, left, further, ends⟩ := ih
    cases view
    exact ⟨_, left, .dollar further, ends⟩
  | case4 start text name inner rest first stop =>
    rename_i ih
    have view := first ▸ leads text
    obtain ⟨found, left, further, ends⟩ := ih
    have size : stop = start + byteLength (spelling name inner) := by
      rw [byteLength_spelling]
      omega
    rw [size] at further
    cases view with
    | tag identifier balanced => exact ⟨_, left, .tag identifier balanced further, ends⟩
  | case5 start text name first =>
    have view := first ▸ leads text
    cases view with
    | @unclosed name rest identifier never =>
      exact ⟨[], _, .done, .inr ⟨name, rest, rfl, identifier, never⟩⟩

theorem scan_eq_ok_iff {start : Nat} {text : List Char} {found : List Token} :
    scan start text = .ok found ↔ Lexes start text found [] := by
  constructor
  · intro success
    obtain ⟨read, left, lexes, rfl | ⟨name, rest, rfl, identifier, never⟩⟩ := exists_lexes start text
    · obtain ⟨_, _, whole⟩ := lexes.scan_eq
      rw [scan_nil, success] at whole
      cases whole
      simpa using lexes
    · obtain ⟨_, _, whole⟩ := lexes.scan_eq
      rw [scan_of_unclosed (lead_eq (.unclosed identifier never)), success] at whole
      cases whole
  · intro lexes
    obtain ⟨_, _, whole⟩ := lexes.scan_eq
    rw [whole, scan_nil]
    simp [Except.map]

/-- The text begins with tokens in front of an identifier with a parenthesis that has no partner. -/
def Stuck (start : Nat) (text : List Char) (unclosed : Unclosed) : Prop :=
  ∃ read found rest, text = read ++ opening unclosed.name rest ∧
    Lexes start text found (opening unclosed.name rest) ∧
    isIdentifier (String.ofList unclosed.name) = true ∧
    (∀ inner after, rest = inner ++ ')' :: after → ¬ Balanced inner) ∧
    unclosed.span = ⟨start + byteLength read, start + byteLength text⟩

theorem closing?_eq_none_iff_balanced {rest : List Char} :
    closing? 0 rest = none ↔ ∀ inner after, rest = inner ++ ')' :: after → ¬ Balanced inner := by
  constructor
  · rintro never inner after rfl balanced
    rw [closing?_of_height? (balanced.level 0)] at never
    cases never
  · intro never
    cases found : closing? 0 rest with
    | none => rfl
    | some partner =>
      obtain ⟨split, level⟩ := closing?_eq_some_iff.mp found
      exact absurd (balanced_of_height? level) (never _ _ split)

theorem scan_eq_error_iff {start : Nat} {text : List Char} {unclosed : Unclosed} :
    scan start text = .error unclosed ↔ Stuck start text unclosed := by
  constructor
  · intro failure
    obtain ⟨found, left, lexes, rfl | ⟨name, rest, rfl, identifier, never⟩⟩ := exists_lexes start text
    · obtain ⟨_, _, whole⟩ := lexes.scan_eq
      rw [scan_nil, failure] at whole
      cases whole
    · obtain ⟨read, split, whole⟩ := lexes.scan_eq
      rw [scan_of_unclosed (lead_eq (.unclosed identifier never)), failure] at whole
      cases whole
      refine ⟨read, found, rest, split, lexes, identifier, closing?_eq_none_iff_balanced.mp never, ?_⟩
      rw [split, byteLength_append, Nat.add_assoc]
  · rintro ⟨read, found, rest, split, lexes, identifier, never, span⟩
    obtain ⟨same, splitSame, whole⟩ := lexes.scan_eq
    have : same = read := List.append_cancel_right (splitSame.symm.trans split)
    subst this
    rw [whole, scan_of_unclosed (lead_eq (.unclosed identifier (closing?_eq_none_iff_balanced.mpr never))),
      Nat.add_assoc, ← byteLength_append, ← split, ← span]
    rfl

/-! ### Tags and the text between them -/

/-- Two dollar signs stand for one. -/
def collapse : List Char → List Char
  | '$' :: '$' :: cs => '$' :: collapse cs
  | c :: cs => c :: collapse cs
  | [] => []

/-- The text that a token stands for if it is no tag. -/
def Token.literal : Token → List Char
  | .char c => [c]
  | .dollar => ['$']
  | .tag .. => []

def Token.span? : Token → Option Span
  | .tag _ _ span => some span
  | _ => none

/-- From byte `start` on a text is tags with other text between them, and the other tokens stand for this text. -/
inductive Alternates : Nat → List Char → List Token → Prop
  | last {start text run} (noTag : ∀ token ∈ run, token.span? = none)
      (literal : run.flatMap Token.literal = collapse text) : Alternates start text run
  | tag {start front run name inner rest found} (noTag : ∀ token ∈ run, token.span? = none)
      (literal : run.flatMap Token.literal = collapse front)
      (further : Alternates (start + byteLength (front ++ spelling name inner)) rest found) :
      Alternates start (front ++ spelling name inner ++ rest)
        (run ++ .tag name inner
          ⟨start + byteLength front, start + byteLength (front ++ spelling name inner)⟩ :: found)

theorem collapse_cons {c : Char} {cs : List Char} (lone : c = '$' → cs.head? ≠ some '$') :
    collapse (c :: cs) = c :: collapse cs := by
  rw [collapse.eq_2]
  rintro rest rfl rfl
  exact lone rfl rfl

/-- A token that is no tag belongs to the text in front of the next tag. -/
theorem Alternates.prepend {start : Nat} (written : List Char) {text : List Char} {token : Token} {found : List Token}
    (noTag : token.span? = none)
    (merge : ∀ front rest, text = front ++ rest → collapse (written ++ front) = token.literal ++ collapse front)
    (alternates : Alternates (start + byteLength written) text found) :
    Alternates start (written ++ text) (token :: found) := by
  have noTagIn {run : List Token} (bare : ∀ other ∈ run, other.span? = none) :
      ∀ other ∈ token :: run, other.span? = .none := by
    simpa [noTag] using bare
  cases alternates with
  | last others literal =>
    apply Alternates.last (noTagIn others)
    rw [List.flatMap_cons, literal, merge text [] (by simp)]
  | @tag _ front run name inner rest found others literal further =>
    have literal : (token :: run).flatMap Token.literal = collapse (written ++ front) := by
      rw [List.flatMap_cons, literal, merge front (spelling name inner ++ rest) (by simp)]
    have place : start + byteLength (written ++ front ++ spelling name inner) =
        start + byteLength written + byteLength (front ++ spelling name inner) := by
      simp [Nat.add_assoc]
    have step : Alternates start _ _ := .tag (noTagIn others) literal (place ▸ further)
    rw [place, byteLength_append written, ← Nat.add_assoc] at step
    simpa using step

theorem Lexes.alternates {start : Nat} {text left : List Char} {found : List Token}
    (lexes : Lexes start text found left) (whole : left = []) : Alternates start text found := by
  induction lexes with
  | done => exact .last (by simp) (by simp [whole, collapse])
  | @char start c rest found left plain further ih =>
    apply Alternates.prepend [c] rfl ?_ (by simpa using ih whole)
    rintro front after rfl
    apply collapse_cons
    intro sign head
    apply (plain sign).1
    have head : front.head? = some '$' := head
    rw [List.head?_append, head]
    rfl
  | @dollar start rest found left further ih =>
    exact .prepend ['$', '$'] rfl (fun _ _ _ => rfl) (by simpa [size_dollar] using ih whole)
  | @tag start name inner rest found left identifier balanced further ih =>
    have noTag : ∀ token ∈ ([] : List Token), token.span? = none := by simp
    have literal : ([] : List Token).flatMap Token.literal = collapse [] := rfl
    exact Alternates.tag noTag literal (ih whole)

theorem Lexes.start_le {start : Nat} {text left : List Char} {found : List Token}
    (lexes : Lexes start text found left) : ∀ span ∈ found.filterMap Token.span?, start ≤ span.start := by
  induction lexes with
  | done => simp
  | char plain further ih =>
    intro span member
    exact Nat.le_trans (Nat.le_add_right _ _) (ih span (by simpa [Token.span?] using member))
  | dollar further ih =>
    intro span member
    exact Nat.le_trans (Nat.le_add_right _ _) (ih span (by simpa [Token.span?] using member))
  | tag identifier balanced further ih =>
    intro span member
    rcases List.mem_cons.mp member with rfl | later
    · exact Nat.le_refl _
    · exact Nat.le_trans (Nat.le_add_right _ _) (ih span later)

theorem Lexes.pairwise {start : Nat} {text left : List Char} {found : List Token}
    (lexes : Lexes start text found left) :
    (found.filterMap Token.span?).Pairwise fun earlier later => earlier.stop ≤ later.start := by
  induction lexes with
  | done => exact .nil
  | char plain further ih => exact ih
  | dollar further ih => exact ih
  | tag identifier balanced further ih => exact .cons further.start_le ih

theorem Lexes.balanced {start : Nat} {text left : List Char} {found : List Token}
    (lexes : Lexes start text found left) {word inner : List Char} {span : Span}
    (member : .tag word inner span ∈ found) : Balanced inner := by
  induction lexes with
  | done => cases member
  | char plain further ih => exact ih (by simpa using member)
  | dollar further ih => exact ih (by simpa using member)
  | tag identifier balanced further ih =>
    rcases List.mem_cons.mp member with same | later
    · cases same
      exact balanced
    · exact ih later

/-- The tokens show the whole text. -/
structure Shows (text : List Char) (found : List Token) : Prop where
  /-- The tags are apart from each other, and come one after the other. -/
  apart : (found.filterMap Token.span?).Pairwise fun earlier later => earlier.stop ≤ later.start
  /-- The text between the tags is what the other tokens stand for. -/
  between : Alternates 0 text found
  selects : ∀ name inner span, .tag name inner span ∈ found → span.Selects text (spelling name inner)
  arguments : ∀ name inner span, .tag name inner span ∈ found → Arguments inner (arguments inner)
  /-- The splitter closes no parenthesis that is not open. -/
  counted : ∀ name inner span, .tag name inner span ∈ found →
    countedPieces? 0 inner = some (commaPieces 0 inner)

theorem shows_of_scan {text : List Char} {found : List Token} (success : scan 0 text = .ok found) :
    Shows text found := by
  have lexes := scan_eq_ok_iff.mp success
  constructor
  · exact lexes.pairwise
  · exact lexes.alternates rfl
  · intro name inner span member
    exact (covers_of_scan [] rfl success member).1.selects
  · intro name inner span member
    exact arguments_of_balanced (lexes.balanced member)
  · intro name inner span member
    exact countedPieces?_eq ((lexes.balanced member).level 0)

/-- The lexer finds the tokens of a text exactly if the grammar has it, and otherwise the parenthesis without a
partner. -/
theorem tokens_follow_grammar (text : List Char) :
    (∀ found, tokens text = .ok found ↔ Lexes 0 text found []) ∧
    (∀ found other, Lexes 0 text found [] → Lexes 0 text other [] → found = other) ∧
    (∀ found, Lexes 0 text found [] → Shows text found) ∧
    (∀ unclosed, tokens text = .error unclosed ↔ Stuck 0 text unclosed) ∧
    ((¬ ∃ found, Lexes 0 text found []) → ∃ unclosed, tokens text = .error unclosed) ∧
    ∀ rest, countedClosing? 0 ('(' :: rest) = some ((closing? 0 rest).map fun found => ('(' :: found.1, found.2)) := by
  refine ⟨fun found => scan_eq_ok_iff, ?_, ?_, fun unclosed => scan_eq_error_iff, ?_, ?_⟩
  · intro found other first second
    cases (scan_eq_ok_iff.mpr first).symm.trans (scan_eq_ok_iff.mpr second)
    rfl
  · intro found lexes
    exact shows_of_scan (scan_eq_ok_iff.mpr lexes)
  · intro never
    cases outcome : tokens text with
    | ok found => exact absurd ⟨found, scan_eq_ok_iff.mp outcome⟩ never
    | error unclosed => exact ⟨unclosed, rfl⟩
  · intro rest
    simp [countedClosing?, countedClosing?_eq]

/-- A text with an escaped sign, a tag with nested parentheses and a sign that stands for itself. -/
def cast : List Char := "$$ $CAST(f(a, b), $X) $".toList

theorem grammar_of_cast :
    tokens cast = .ok [.dollar, .char ' ', .tag "CAST".toList "f(a, b), $X".toList ⟨3, 21⟩, .char ' ', .char '$'] ∧
    Shows cast [.dollar, .char ' ', .tag "CAST".toList "f(a, b), $X".toList ⟨3, 21⟩, .char ' ', .char '$'] := by
  obtain ⟨success, _, complete, _⟩ := tokens_follow_grammar cast
  have lexed : tokens cast =
      .ok [.dollar, .char ' ', .tag "CAST".toList "f(a, b), $X".toList ⟨3, 21⟩, .char ' ', .char '$'] := by
    decide +kernel
  exact ⟨lexed, complete _ ((success _).mp lexed)⟩

end DocWeave.Tag
