/-!
What a report says, item by item, and how each item looks on a terminal.
-/

namespace DocWeave.Report

inductive Item where
  | heading (title : String)
  | entry (key value : String)
  | bullet (text : String)
  | addition (text : String)
  | warning (message : String)
  | divider (label : String)
  /-- Text as it is. -/
  | block (text : String)
  | blank
  deriving DecidableEq, Repr

namespace Item

/-- Whether an item goes to the error stream. -/
def isWarning : Item → Bool
  | .warning _ => true
  | _ => false

/-- The line of an item on a terminal. -/
def line : Item → String
  | .heading title => title ++ ":"
  | .entry key value => key ++ ": " ++ value
  | .bullet text => "  - " ++ text
  | .addition text => "  + " ++ text
  | .warning message => message
  | .divider label => "── " ++ label ++ " ──"
  | .block text => text
  | .blank => ""

end Item

def text (items : List Item) : String :=
  String.join (items.map (·.line ++ "\n"))

/-- The text of a report on the output stream. -/
def outputText (items : List Item) : String :=
  text (items.filter (!·.isWarning))

/-- The text of a report on the error stream. -/
def errorText (items : List Item) : String :=
  text (items.filter (·.isWarning))

end DocWeave.Report
