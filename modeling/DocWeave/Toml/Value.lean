/-!
Values of TOML.
-/

namespace DocWeave.Toml

/-- A value. Floats and date-times keep their text. -/
inductive Value where
  | string (s : String)
  | integer (n : Int)
  | float (text : String)
  | boolean (b : Bool)
  | datetime (text : String)
  /-- Text in the place of a number that is too great or no number. It can be passed over, but not used. -/
  | malformed (text : String)
  | array (items : List Value)
  | table (entries : List (String × Value))

namespace Value

mutual

/-- Whether nothing in a value is malformed. -/
def isWellFormed : Value → Bool
  | .malformed _ => false
  | .array items => areWellFormed items
  | .table entries => entriesAreWellFormed entries
  | _ => true

def areWellFormed : List Value → Bool
  | [] => true
  | item :: items => isWellFormed item && areWellFormed items

def entriesAreWellFormed : List (String × Value) → Bool
  | [] => true
  | (_, v) :: entries => isWellFormed v && entriesAreWellFormed entries

end

end Value

end DocWeave.Toml
