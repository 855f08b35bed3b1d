import DocWeave.Toml.Value

/-!
Scalars without quotes: booleans, integers, floats, dates and times.

Each form is decided on the whole text of the scalar. A text that has the place of a number without being one is
malformed if it is too great, or if it has only the underscores of a number right.
-/

namespace DocWeave.Toml

def isSpace (c : Char) : Bool :=
  c = ' ' || c = '\t'

namespace Scalar

/-- Characters that end a scalar without quotes. -/
def isDelimiter (c : Char) : Bool :=
  isSpace c || c = '\n' || c = '\r' || c = '#' || c = ',' || c = '=' || c = '[' || c = ']' || c = '\x7b' || c = '\x7d'

def digitValue (c : Char) : Nat :=
  if c.isDigit then c.toNat - '0'.toNat else c.toLower.toNat - 'a'.toNat + 10

def isHexDigit (c : Char) : Bool :=
  c.isDigit || ('a'.toNat ≤ c.toLower.toNat && c.toLower.toNat ≤ 'f'.toNat)

def spelled (base : Nat) (digits : List Char) : Nat :=
  digits.foldl (fun n c => n * base + digitValue c) 0

/-- Digits in which single underscores may stand between two digits. -/
def groupedDigits? (isDigit : Char → Bool) (cs : List Char) : Option (List Char) :=
  let groups := cs.splitOn '_'
  if groups.all fun group => !group.isEmpty && group.all isDigit then some groups.flatten else none

/-- The sign of a number, and the rest. -/
def signed : List Char → Bool × List Char
  | '+' :: cs => (false, cs)
  | '-' :: cs => (true, cs)
  | cs => (false, cs)

/-- Decimal digits without a needless leading zero. -/
def wholeDigits? (cs : List Char) : Option (List Char) :=
  (groupedDigits? Char.isDigit cs).filter fun digits => digits.length = 1 || digits.head? ≠ some '0'

/-- An integer fits into 128 bits, with a sign if it is negative. -/
def inRange (n : Int) : Bool :=
  -(Nat.pow 2 127 : Int) ≤ n && n < (Nat.pow 2 128 : Int)

def integer? : List Char → Option Int
  | '0' :: 'x' :: cs => (groupedDigits? isHexDigit cs).map fun digits => (spelled 16 digits : Int)
  | '0' :: 'o' :: cs =>
    (groupedDigits? (fun c => '0' ≤ c && c ≤ '7') cs).map fun digits => (spelled 8 digits : Int)
  | '0' :: 'b' :: cs =>
    (groupedDigits? (fun c => c = '0' || c = '1') cs).map fun digits => (spelled 2 digits : Int)
  | cs =>
    let (negative, digits) := signed cs
    (wholeDigits? digits).map fun digits =>
      if negative then -(spelled 10 digits : Int) else (spelled 10 digits : Int)

/-- The digits of an exponent, and whether it is negative. -/
def exponent? : List Char → Option (Bool × List Char)
  | c :: cs =>
    if c = 'e' || c = 'E' then
      let (negative, digits) := signed cs
      (groupedDigits? Char.isDigit digits).map (negative, ·)
    else
      none
  | [] => none

/-- The digits of a float, and the power of ten of the last one. -/
def float? (cs : List Char) : Option (List Char × Int) :=
  let unsigned := (signed cs).2
  let isMantissa := fun c => c ≠ 'e' && c ≠ 'E'
  let mantissa := unsigned.takeWhile isMantissa
  let tail := unsigned.dropWhile isMantissa
  let whole := mantissa.takeWhile (· ≠ '.')
  let behind := mantissa.dropWhile (· ≠ '.')
  let power := if tail.isEmpty then some 0 else
    (exponent? tail).map fun (negative, digits) =>
      if negative then -(spelled 10 digits : Int) else (spelled 10 digits : Int)
  match behind, tail with
  | [], [] => none
  | [], _ => do return (← wholeDigits? whole, ← power)
  | _ :: fraction, _ => do
    let whole ← wholeDigits? whole
    let fraction ← groupedDigits? Char.isDigit fraction
    return (whole ++ fraction, (← power) - fraction.length)

/-- Whether a text is infinity or not a number. -/
def isSpecial (cs : List Char) : Bool :=
  let unsigned := (signed cs).2
  unsigned = ['i', 'n', 'f'] || unsigned = ['n', 'a', 'n']

/-- Half a unit above the greatest finite number of 64 bits. What reaches it is too great. -/
def overflowBound : Nat :=
  (Nat.pow 2 54 - 1) * Nat.pow 2 970

/-- Whether `digits` times ten to the power `power` is below the bound. -/
def isFinite (digits : List Char) (power : Int) : Bool :=
  let significant := digits.dropWhile (· = '0')
  if significant.isEmpty then true
  else
    let magnitude := (significant.length : Int) + power
    if magnitude < 300 then true
    else if 320 < magnitude then false
    else if 0 ≤ power then spelled 10 significant * Nat.pow 10 power.toNat < overflowBound
    else spelled 10 significant < overflowBound * Nat.pow 10 (-power).toNat

/-- The number that `n` digits spell, and the rest. -/
def fixedDigits? (n : Nat) (cs : List Char) : Option (Nat × List Char) :=
  let digits := cs.take n
  if digits.length = n && digits.all Char.isDigit then some (spelled 10 digits, cs.drop n) else none

def daysIn (year month : Nat) : Nat :=
  let leap := year % 4 = 0 && (year % 100 ≠ 0 || year % 400 = 0)
  if month = 2 then (if leap then 29 else 28)
  else if [4, 6, 9, 11].contains month then 30
  else 31

def date? (cs : List Char) : Option (List Char) :=
  match fixedDigits? 4 cs with
  | some (year, '-' :: cs) =>
    match fixedDigits? 2 cs with
    | some (month, '-' :: cs) =>
      match fixedDigits? 2 cs with
      | some (day, cs) =>
        if 1 ≤ month && month ≤ 12 && 1 ≤ day && day ≤ daysIn year month then some cs else none
      | none => none
    | _ => none
  | _ => none

/-- Read the fraction of a second, if there is one. -/
def fraction? : List Char → Option (List Char)
  | '.' :: cs => if (cs.takeWhile Char.isDigit).isEmpty then none else some (cs.dropWhile Char.isDigit)
  | cs => some cs

/-- Read a time of day, and return the rest. Seconds may be left out. -/
def time? (cs : List Char) : Option (List Char) :=
  match fixedDigits? 2 cs with
  | some (hour, ':' :: cs) =>
    match fixedDigits? 2 cs with
    | some (minute, cs) =>
      if hour ≤ 23 && minute ≤ 59 then
        match cs with
        | ':' :: cs =>
          match fixedDigits? 2 cs with
          | some (second, cs) => if second ≤ 60 then fraction? cs else none
          | none => none
        | cs => some cs
      else
        none
    | none => none
  | _ => none

/-- Whether a text is empty or an offset from universal time. -/
def isOffset : List Char → Bool
  | [] => true
  | ['Z'] => true
  | ['z'] => true
  | c :: cs =>
    (c = '+' || c = '-') &&
      match fixedDigits? 2 cs with
      | some (hour, ':' :: cs) =>
        match fixedDigits? 2 cs with
        | some (minute, []) => hour ≤ 23 && minute ≤ 59
        | _ => false
      | _ => false

def isDatetime (cs : List Char) : Bool :=
  match date? cs with
  | some [] => true
  | some (c :: rest) => (c = 'T' || c = 't' || c = ' ') && (time? rest).any isOffset
  | none => (time? cs).any List.isEmpty

/-- Whether parts of a number may stand behind underscores: each has a digit next to every underscore. Digits are
hexadecimal here, and a part may hold anything else. -/
def areJoined : List (List Char) → Bool
  | [] => false
  | [last] => last.head?.any isHexDigit
  | part :: parts => part.head?.any isHexDigit && part.getLast?.any isHexDigit && areJoined parts

/-- Whether a text can pass for an integer without being one: it is the mark of a base alone, or a decimal number in
parts of which the first has digits only. -/
def isPlaceholder (cs : List Char) : Bool :=
  if cs = ['0', 'x'] || cs = ['0', 'o'] || cs = ['0', 'b'] then true
  else if cs.any fun c => c = ' ' || c = '.' || c = 'e' || c = 'E' then false
  else
    match (signed cs).2.splitOn '_' with
    | first :: parts => (wholeDigits? first).isSome && first ≠ ['0'] && areJoined parts
    | [] => false

def value? (cs : List Char) : Option Value :=
  let text := String.ofList cs
  if cs = ['t', 'r', 'u', 'e'] then some (.boolean true)
  else if cs = ['f', 'a', 'l', 's', 'e'] then some (.boolean false)
  else if isSpecial cs then some (.float text)
  else
    match integer? cs, float? cs with
    | some n, _ => some (if inRange n then .integer n else .malformed text)
    | none, some (digits, power) => some (if isFinite digits power then .float text else .malformed text)
    | none, none =>
      if isDatetime cs then some (.datetime text)
      else if isPlaceholder cs then some (.malformed text)
      else none

/-- Whether a scalar goes on behind white space. -/
def goesOn (cs : List Char) : Bool :=
  (cs.dropWhile isSpace).head?.any fun c => !isDelimiter c && c ≠ '.' && c ≠ '"' && c ≠ '\''

/-- Take the text of a scalar from the front of a text. White space inside belongs to it. -/
def span : List Char → List Char × List Char
  | [] => ([], [])
  | c :: cs =>
    if isDelimiter c && !(isSpace c && goesOn cs) then ([], c :: cs)
    else
      let (text, rest) := span cs
      (c :: text, rest)

end Scalar

end DocWeave.Toml
