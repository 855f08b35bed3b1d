import DocWeave.Fault
import DocWeave.Text.Block
import DocWeave.Text.Word

/-!
Documentation texts and the fragments in them.

A marker is a marker word followed by `:` or by a key word in parentheses and `:`. The text in front of the
first marker describes the entity. The text between a marker and the next one is the body of a fragment.
-/

namespace DocWeave

open DocWeave.Text

/-- A piece of code in a documentation text. -/
structure Fragment where
  key : FragmentKey
  /-- The code without blank edges, indented as in the documentation. -/
  body : String
  /-- The byte position of the body in the documentation. -/
  offset : Nat
  /-- The marker that introduces the fragment. -/
  marker : Span
  deriving DecidableEq, Repr

def Fragment.isEmpty (fragment : Fragment) : Bool :=
  isBlank fragment.body.toList

/-- The first fragment with a key. -/
def Fragment.find? (fragments : List Fragment) (key : FragmentKey) : Option Fragment :=
  List.find? (·.key = key) fragments

/-- A marker in a text. The key word of a bare marker is empty. -/
structure Marker where
  span : Span
  word : List Char
  deriving DecidableEq, Repr

/-- What stands behind a marker word. -/
inductive Marker.Tail where
  | colon
  /-- A key word in parentheses and a colon, in front of `rest`. -/
  | keyed (word rest : List Char)
  | none

/-- Read what stands behind a marker word. -/
def Marker.Tail.of : List Char → Marker.Tail
  | ':' :: _ => .colon
  | '(' :: inner =>
    match inner.dropWhile isWordChar with
    | ')' :: ':' :: rest => .keyed (inner.takeWhile isWordChar) rest
    | _ => .none
  | _ => .none

theorem Marker.Tail.eq_of_keyed {cs word rest : List Char} (tail : Marker.Tail.of cs = .keyed word rest) :
    cs = '(' :: word ++ ')' :: ':' :: rest := by
  unfold Marker.Tail.of at tail
  split at tail
  · cases tail
  · rename_i inner
    have whole := List.takeWhile_append_dropWhile (p := isWordChar) (l := inner)
    split at tail
    · rename_i dropped
      cases tail
      rw [List.cons_append, ← dropped, whole]
    · cases tail
  · cases tail

/-- The markers of a text that begins at byte `start`, where the marker word is `c :: cs`.

The search goes on behind a keyed marker, and otherwise behind the marker word. -/
def Marker.scan (c : Char) (cs : List Char) (start : Nat) (text : List Char) : List Marker :=
  match text with
  | [] => []
  | first :: others =>
    if (c :: cs).isPrefixOf text then
      let after := others.drop cs.length
      let stop := start + byteLength (c :: cs)
      match _tail : Tail.of after with
      | .colon => ⟨⟨start, stop + 1⟩, []⟩ :: scan c cs stop after
      | .keyed word rest =>
        let keyedStop := stop + byteLength word + 3
        ⟨⟨start, keyedStop⟩, word⟩ :: scan c cs keyedStop rest
      | .none => scan c cs stop after
    else
      scan c cs (start + first.utf8Size) others
  termination_by text.length
  decreasing_by
    all_goals simp only [List.length_cons]
    · simp only [List.length_drop]; omega
    · have size := congrArg List.length (Tail.eq_of_keyed _tail)
      simp only [after, List.length_drop, List.length_append, List.length_cons] at size
      omega
    · simp only [List.length_drop]; omega
    · omega

/-- The markers of a text. The empty marker word has none. -/
def Marker.all (word : String) (text : List Char) : List Marker :=
  match word.toList with
  | [] => []
  | c :: cs => scan c cs 0 text

/-- Cut a body out of the text behind its marker.

Code on the line of the marker begins with its first character that is not blank. -/
def Fragment.bodyText (raw : List Char) : List Char :=
  if isBlank (raw.takeWhile (· ≠ '\n')) then dropBlankLines raw else dropBlankLines (trimStart raw)

/-- The fragment behind a marker, where `raw` is the text up to the next marker. -/
def Fragment.ofRaw (key : FragmentKey) (marker : Span) (raw : List Char) : Fragment where
  key := key
  body := String.ofList (trimEnd (bodyText raw))
  offset := marker.stop + (byteLength raw - byteLength (bodyText raw))
  marker := marker

/-- A documentation text, taken apart. -/
structure Documentation where
  /-- The text in front of the first marker, without white space around it. -/
  description : String
  /-- The first fragment of each key, in text order. -/
  fragments : List Fragment := []
  /-- The fragments whose key was taken before them. -/
  repeats : List Fragment := []
  deriving DecidableEq, Repr

namespace Documentation

/-- Put a fragment to the others, or aside if its key is taken. -/
def add (documentation : Documentation) (fragment : Fragment) : Documentation :=
  if (documentation.fragments.map Fragment.key).contains fragment.key then
    { documentation with repeats := documentation.repeats ++ [fragment] }
  else
    { documentation with fragments := documentation.fragments ++ [fragment] }

/-- The entity to which a documentation text belongs. -/
structure Subject where
  /-- The qualified name. -/
  name : String
  kind : EntityKind
  position : Position
  deriving DecidableEq, Repr

/-- Add the fragments behind markers. -/
def addAll (subject : Subject) (doc : String) (documentation : Documentation) :
    List Marker → Except Fault Documentation
  | [] => .ok documentation
  | marker :: rest =>
    let word := String.ofList marker.word
    match subject.kind.keyOfWord? (documentation.fragments.map Fragment.key) word with
    | none =>
      .error (.unsupportedKey subject.kind (word.map Char.toUpper) subject.name subject.position doc
        marker.span)
    | some key =>
      let text := doc.toList
      let stop := (rest.head?.map (·.span.start)).getD (byteLength text)
      let raw := Span.sub ⟨marker.span.stop, stop⟩ text
      addAll subject doc (documentation.add (Fragment.ofRaw key marker.span raw)) rest

/-- Take the documentation of an entity apart.

The first fragment of a key is kept. A key word that the kind of the entity does not support is a fault. -/
def parse (markerWord : String) (subject : Subject) (doc : String) : Except Fault Documentation :=
  let text := doc.toList
  let markers := Marker.all markerWord text
  let stop := (markers.head?.map (·.span.start)).getD (byteLength text)
  let description := String.ofList (trim (takeBytes stop text))
  addAll subject doc { description } markers

end Documentation

end DocWeave
