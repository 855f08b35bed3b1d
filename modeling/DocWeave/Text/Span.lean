/-!
Byte positions in a text.

Positions, lengths and spans count the bytes of the UTF-8 form. A position that is the byte length of
a leading part of the text is a character boundary; `sub_append` says that a span between two such
positions selects the characters between them.
-/

namespace DocWeave.Text

/-- The number of bytes of the UTF-8 form. -/
def byteLength : List Char → Nat
  | [] => 0
  | c :: cs => c.utf8Size + byteLength cs

@[simp]
theorem byteLength_nil : byteLength [] = 0 := rfl

@[simp]
theorem byteLength_cons (c : Char) (cs : List Char) :
    byteLength (c :: cs) = c.utf8Size + byteLength cs := rfl

@[simp]
theorem byteLength_append (cs ds : List Char) :
    byteLength (cs ++ ds) = byteLength cs + byteLength ds := by
  induction cs with
  | nil => simp
  | cons c cs ih => simp [ih, Nat.add_assoc]

/-- A half-open range of byte positions. -/
structure Span where
  start : Nat
  stop : Nat
  deriving DecidableEq, Repr

/-- The number of bytes in a span. -/
def Span.length (span : Span) : Nat :=
  span.stop - span.start

/-- The same range, counted from a position that lies `offset` bytes earlier. -/
def Span.shift (span : Span) (offset : Nat) : Span :=
  ⟨offset + span.start, offset + span.stop⟩

/-- Leave out the characters that begin before byte `n`. -/
def dropBytes : Nat → List Char → List Char
  | 0, cs => cs
  | _, [] => []
  | n + 1, c :: cs => dropBytes (n + 1 - c.utf8Size) cs
  termination_by structural _ cs => cs

/-- The characters from byte `n` on, if one begins there or the text ends there. -/
def fromByte? : Nat → List Char → Option (List Char)
  | 0, cs => some cs
  | _, [] => none
  | n + 1, c :: cs => if c.utf8Size ≤ n + 1 then fromByte? (n + 1 - c.utf8Size) cs else none
  termination_by structural _ cs => cs

/-- Keep the characters that end at or before byte `n`. -/
def takeBytes : Nat → List Char → List Char
  | _, [] => []
  | n, c :: cs => if c.utf8Size ≤ n then c :: takeBytes (n - c.utf8Size) cs else []

/-- The characters of a text in a span. -/
def Span.sub (span : Span) (cs : List Char) : List Char :=
  takeBytes span.length (dropBytes span.start cs)

@[simp]
theorem dropBytes_append (cs ds : List Char) : dropBytes (byteLength cs) (cs ++ ds) = ds := by
  induction cs with
  | nil => simp [dropBytes]
  | cons c cs ih =>
    have positive := c.utf8Size_pos
    obtain ⟨n, size⟩ : ∃ n, byteLength (c :: cs) = n + 1 :=
      ⟨byteLength (c :: cs) - 1, by simp only [byteLength_cons]; omega⟩
    have rest : n + 1 - c.utf8Size = byteLength cs := by
      rw [← size, byteLength_cons]; omega
    rw [size, List.cons_append, dropBytes, rest, ih]

@[simp]
theorem fromByte?_append (cs ds : List Char) : fromByte? (byteLength cs) (cs ++ ds) = some ds := by
  induction cs with
  | nil => simp [fromByte?]
  | cons c cs ih =>
    have positive := c.utf8Size_pos
    obtain ⟨n, size⟩ : ∃ n, byteLength (c :: cs) = n + 1 :=
      ⟨byteLength (c :: cs) - 1, by simp only [byteLength_cons]; omega⟩
    have inside : c.utf8Size ≤ n + 1 := by rw [← size, byteLength_cons]; omega
    have rest : n + 1 - c.utf8Size = byteLength cs := by rw [← size, byteLength_cons]; omega
    rw [size, List.cons_append, fromByte?, if_pos inside, rest, ih]

@[simp]
theorem takeBytes_append (cs ds : List Char) : takeBytes (byteLength cs) (cs ++ ds) = cs := by
  induction cs with
  | nil =>
    cases ds with
    | nil => rfl
    | cons d ds =>
      have positive := d.utf8Size_pos
      simp [takeBytes]
      omega
  | cons c cs ih => simp [takeBytes, ih]

theorem Span.sub_append (before inside after : List Char) :
    Span.sub ⟨byteLength before, byteLength before + byteLength inside⟩ (before ++ inside ++ after) =
      inside := by
  simp [Span.sub, Span.length, List.append_assoc]

end DocWeave.Text
