/-!
White space and the functions that trim it.

Texts are handled as lists of characters; `onString` lifts a function on characters to strings.
-/

namespace DocWeave.Text

/-- The inclusive code point ranges of the Unicode property White_Space. -/
def blankRanges : List (Nat × Nat) :=
  [(0x09, 0x0D), (0x20, 0x20), (0x85, 0x85), (0xA0, 0xA0), (0x1680, 0x1680), (0x2000, 0x200A),
    (0x2028, 0x2029), (0x202F, 0x202F), (0x205F, 0x205F), (0x3000, 0x3000)]

/-- A character is blank if it has the property White_Space. -/
def isBlankChar (c : Char) : Bool :=
  blankRanges.any fun range => range.1 ≤ c.toNat && c.toNat ≤ range.2

/-- A text is blank if it has no character that prints. -/
def isBlank (cs : List Char) : Bool :=
  cs.all isBlankChar

/-- Remove blank characters at the front. -/
def trimStart (cs : List Char) : List Char :=
  cs.dropWhile isBlankChar

/-- Remove blank characters at the end. -/
def trimEnd (cs : List Char) : List Char :=
  (cs.reverse.dropWhile isBlankChar).reverse

/-- Remove blank characters at both ends. -/
def trim (cs : List Char) : List Char :=
  trimEnd (trimStart cs)

/-- Apply a function on characters to a string. -/
def onString (f : List Char → List Char) (s : String) : String :=
  String.ofList (f s.toList)

@[simp]
theorem toList_onString (f : List Char → List Char) (s : String) :
    (onString f s).toList = f s.toList := by
  simp [onString]

end DocWeave.Text
