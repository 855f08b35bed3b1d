import DocWeave.Toml.Scalar

/-!
Strings in quotes, on one line or on several, with escapes or without.
-/

namespace DocWeave.Toml

namespace Quoted

/-- Characters that must not stand in a string or in a comment. -/
def isControl (c : Char) : Bool :=
  (c.toNat < 0x20 && c ≠ '\t') || c.toNat = 0x7F

/-- The character that `n` hexadecimal digits number. Surrogates are no characters. -/
def codePoint? (n : Nat) (cs : List Char) : Option (Char × List Char) :=
  let digits := cs.take n
  let code := Scalar.spelled 16 digits
  if digits.length = n && digits.all Scalar.isHexDigit && code.isValidChar then
    some (Char.ofNat code, cs.drop n)
  else
    none

/-- The character of an escape, behind the backslash. -/
def escape? : List Char → Option (Char × List Char)
  | 'b' :: cs => some ('\x08', cs)
  | 't' :: cs => some ('\t', cs)
  | 'n' :: cs => some ('\n', cs)
  | 'f' :: cs => some ('\x0c', cs)
  | 'r' :: cs => some ('\r', cs)
  | 'e' :: cs => some ('\x1b', cs)
  | '"' :: cs => some ('"', cs)
  | '\\' :: cs => some ('\\', cs)
  | 'x' :: cs => codePoint? 2 cs
  | 'u' :: cs => codePoint? 4 cs
  | 'U' :: cs => codePoint? 8 cs
  | _ => none

/-- Read a string with escapes up to its closing quote. -/
def basic? : (fuel : Nat) → List Char → Option (List Char × List Char)
  | 0, _ => none
  | _, [] => none
  | fuel + 1, c :: cs =>
    if c = '"' then some ([], cs)
    else if c = '\\' then do
      let (escaped, rest) ← escape? cs
      let (body, rest) ← basic? fuel rest
      return (escaped :: body, rest)
    else if isControl c then none
    else do
      let (body, rest) ← basic? fuel cs
      return (c :: body, rest)

/-- Read a string without escapes up to its closing quote. -/
def literal? : List Char → Option (List Char × List Char)
  | [] => none
  | c :: cs =>
    if c = '\'' then some ([], cs)
    else if isControl c then none
    else (literal? cs).map fun (body, rest) => (c :: body, rest)

/-- The quotes that end a string of several lines. Up to two of them belong to the string. -/
def closing? (quote : Char) (cs : List Char) : Option (List Char × List Char) :=
  let count := min 5 (cs.takeWhile (· = quote)).length
  if 3 ≤ count then some (List.replicate (count - 3) quote, cs.drop count) else none

def dropLineEnd : List Char → List Char
  | '\n' :: cs => cs
  | '\r' :: '\n' :: cs => cs
  | cs => cs

/-- Leave out white space and line ends. -/
def dropBlank : List Char → List Char
  | '\n' :: cs => dropBlank cs
  | '\r' :: '\n' :: cs => dropBlank cs
  | c :: cs => if isSpace c then dropBlank cs else c :: cs
  | [] => []

/-- Leave out what is blank from a backslash at the end of a line on. -/
def continued? (cs : List Char) : Option (List Char) :=
  match cs.dropWhile isSpace with
  | '\n' :: rest => some (dropBlank rest)
  | '\r' :: '\n' :: rest => some (dropBlank rest)
  | _ => none

/-- Read a string of several lines up to its closing quotes. -/
def multiline? (quote : Char) (escapes : Bool) :
    (fuel : Nat) → List Char → Option (List Char × List Char)
  | 0, _ => none
  | _, [] => none
  | fuel + 1, c :: cs =>
    match closing? quote (c :: cs) with
    | some found => some found
    | none =>
      if c = '\\' && escapes then
        match continued? cs with
        | some rest => multiline? quote escapes fuel rest
        | none => do
          let (escaped, rest) ← escape? cs
          let (body, rest) ← multiline? quote escapes fuel rest
          return (escaped :: body, rest)
      else if isControl c && c ≠ '\n' && !(c = '\r' && cs.head? = some '\n') then none
      else do
        let (body, rest) ← multiline? quote escapes fuel cs
        return (c :: body, rest)

def line? : List Char → Option (String × List Char)
  | '"' :: cs => (basic? (cs.length + 1) cs).map fun (body, rest) => (String.ofList body, rest)
  | '\'' :: cs => (literal? cs).map fun (body, rest) => (String.ofList body, rest)
  | _ => none

def string? : List Char → Option (String × List Char)
  | '"' :: '"' :: '"' :: cs =>
    (multiline? '"' true (cs.length + 1) (dropLineEnd cs)).map fun (body, rest) =>
      (String.ofList body, rest)
  | '\'' :: '\'' :: '\'' :: cs =>
    (multiline? '\'' false (cs.length + 1) (dropLineEnd cs)).map fun (body, rest) =>
      (String.ofList body, rest)
  | cs => line? cs

end Quoted

end DocWeave.Toml
