import DocWeave.Text.Blank
import DocWeave.Text.Span
import DocWeave.Text.Word

/-!
The tokens of a fragment.

A tag is written `$NAME(arguments)` with balanced parentheses inside, and `$$` stands for a literal `$`. Any
other `$` is plain.
-/

namespace DocWeave.Tag

open DocWeave.Text

/-- A token of a fragment. -/
inductive Token where
  /-- A character that stands for itself. -/
  | char (c : Char)
  /-- `$$` -/
  | dollar
  /-- `$name(inner)` -/
  | tag (name inner : List Char) (span : Span)
  deriving DecidableEq, Repr

/-- A tag whose parenthesis is not closed. -/
structure Unclosed where
  name : List Char
  /-- From the `$` to the end of the text. -/
  span : Span
  deriving DecidableEq, Repr

/-- An identifier and the text behind the parenthesis that follows it. -/
def opening? (cs : List Char) : Option (List Char × List Char) :=
  match cs.takeWhile isWordChar, cs.dropWhile isWordChar with
  | c :: name, '(' :: rest => if isWordStart c then some (c :: name, rest) else none
  | _, _ => none

theorem eq_of_opening? {cs name rest : List Char} (found : opening? cs = some (name, rest)) :
    cs = name ++ '(' :: rest := by
  have whole := List.takeWhile_append_dropWhile (p := isWordChar) (l := cs)
  unfold opening? at found
  split at found
  · rename_i word tail
    split at found
    · cases found
      rw [← whole, word, tail]
    · cases found
  · cases found

/-- The text up to the parenthesis that closes `depth + 1` open ones, and the text behind it. -/
def closing? : (depth : Nat) → List Char → Option (List Char × List Char)
  | _, [] => none
  | depth, c :: cs =>
    if c = '(' then
      (closing? (depth + 1) cs).map fun found => (c :: found.1, found.2)
    else if c = ')' then
      match depth with
      | 0 => some ([], cs)
      | depth + 1 => (closing? depth cs).map fun found => (c :: found.1, found.2)
    else
      (closing? depth cs).map fun found => (c :: found.1, found.2)

theorem eq_of_closing? {depth : Nat} {cs inner rest : List Char}
    (found : closing? depth cs = some (inner, rest)) : cs = inner ++ ')' :: rest := by
  induction cs generalizing depth inner with
  | nil => simp [closing?] at found
  | cons c cs ih =>
    unfold closing? at found
    split at found
    · obtain ⟨⟨tail, rest⟩, step, same⟩ := Option.map_eq_some_iff.mp found
      cases same
      exact congrArg (c :: ·) (ih step)
    · split at found
      · rename_i closed
        split at found
        · cases found
          rw [closed]
          rfl
        · obtain ⟨⟨tail, rest⟩, step, same⟩ := Option.map_eq_some_iff.mp found
          cases same
          exact congrArg (c :: ·) (ih step)
      · obtain ⟨⟨tail, rest⟩, step, same⟩ := Option.map_eq_some_iff.mp found
        cases same
        exact congrArg (c :: ·) (ih step)

/-- What a text begins with. -/
inductive Lead where
  | done
  | plain (c : Char) (rest : List Char)
  | dollar (rest : List Char)
  | tag (name inner rest : List Char)
  | unclosed (name : List Char)
  deriving DecidableEq, Repr

/-- Read the first token of a text. -/
def lead : List Char → Lead
  | [] => .done
  | c :: cs =>
    if c = '$' then
      match cs with
      | '$' :: rest => .dollar rest
      | _ =>
        match opening? cs with
        | none => .plain c cs
        | some (name, after) =>
          match closing? 0 after with
          | none => .unclosed name
          | some (inner, rest) => .tag name inner rest
    else
      .plain c cs

theorem eq_of_lead_plain {cs : List Char} {c : Char} {rest : List Char}
    (first : lead cs = .plain c rest) : cs = c :: rest := by
  unfold lead at first
  repeat' split at first
  all_goals cases first
  all_goals rfl

theorem eq_of_lead_dollar {cs rest : List Char} (first : lead cs = .dollar rest) :
    cs = '$' :: '$' :: rest := by
  unfold lead at first
  repeat' split at first
  all_goals cases first
  simp_all

theorem eq_of_lead_tag {cs name inner rest : List Char} (first : lead cs = .tag name inner rest) :
    cs = '$' :: name ++ '(' :: inner ++ ')' :: rest := by
  unfold lead at first
  repeat' split at first
  all_goals cases first
  rename_i dollar _ _ _ _ _ opened closed
  rw [dollar, eq_of_opening? opened, eq_of_closing? closed]
  simp

/-- The tokens of a text that begins at byte `start`. -/
def scan (start : Nat) (text : List Char) : Except Unclosed (List Token) :=
  match _first : lead text with
  | .done => .ok []
  | .plain c rest => (scan (start + c.utf8Size) rest).map (Token.char c :: ·)
  | .dollar rest => (scan (start + 2) rest).map (Token.dollar :: ·)
  | .tag name inner rest =>
    let stop := start + 3 + byteLength name + byteLength inner
    (scan stop rest).map (Token.tag name inner ⟨start, stop⟩ :: ·)
  | .unclosed name => .error ⟨name, ⟨start, start + byteLength text⟩⟩
  termination_by text.length
  decreasing_by
    · rw [eq_of_lead_plain _first]; simp
    · rw [eq_of_lead_dollar _first]; simp only [List.length_cons]; omega
    · rw [eq_of_lead_tag _first]; simp; omega

/-- The tokens of a fragment. -/
def tokens (text : List Char) : Except Unclosed (List Token) :=
  scan 0 text

/-- The pieces between the commas outside parentheses, where `depth` parentheses are open. -/
def commaPieces : (depth : Nat) → List Char → List (List Char)
  | _, [] => [[]]
  | depth, c :: cs =>
    if c = ',' && depth = 0 then
      [] :: commaPieces depth cs
    else
      let deeper := if c = '(' then depth + 1 else if c = ')' then depth - 1 else depth
      match commaPieces deeper cs with
      | [] => [[c]]
      | piece :: rest => (c :: piece) :: rest

/-- The arguments of a tag. Blank parentheses hold none. -/
def arguments (inner : List Char) : List (List Char) :=
  if isBlank inner then [] else (commaPieces 0 inner).map trim

end DocWeave.Tag
