import DocWeave.Text.Blank

/-!
The text of a generated file.
-/

namespace DocWeave.Code

open DocWeave.Text

/-- The comment in front of every generated file. -/
def generatedHeader : String :=
  "/* Generated by quill. Do not edit. */"

/-- Put a header line in front of the content, if there is a header. -/
def withHeader (header : Option String) (content : String) : String :=
  match header with
  | some header => onString trimEnd header ++ "\n" ++ content
  | none => content

end DocWeave.Code
