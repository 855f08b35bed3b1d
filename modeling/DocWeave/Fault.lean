import DocWeave.Diagnostic
import DocWeave.Fragment.Key
import DocWeave.Text.Span

/-!
The reasons for which a run stops, and how they are told.

A fault keeps its cause. `message`, `code?`, `help?`, `label?` and `sourceName?` give the wording.
-/

namespace DocWeave

open DocWeave.Text

structure Position where
  file : String
  line : Option Nat := none
  deriving DecidableEq, Repr

def Position.display (position : Position) : String :=
  match position.line with
  | some line => position.file ++ ":" ++ toString line
  | none => position.file

/-- The fragment that a fault is about. -/
structure Origin where
  /-- The qualified name of the entity for which the fragment is used. -/
  entity : String
  key : FragmentKey
  position : Position
  /-- The documentation text that holds the fragment. -/
  doc : String
  deriving DecidableEq, Repr

inductive Unresolved where
  | unclosed
  | arity (least most count : Nat)
  | emptyArgument (number : Nat)
  | notExported
  | noDefaultClass
  | unknownBase
  | cyclicBase
  deriving DecidableEq, Repr

def Unresolved.reason : Unresolved → String
  | .unclosed => "unterminated argument list"
  | .arity least most count =>
    if least = most then
      "expected " ++ toString least ++ " argument(s), got " ++ toString count
    else
      "expected " ++ toString least ++ " to " ++ toString most ++ " arguments, got " ++ toString count
  | .emptyArgument number => "argument " ++ toString number ++ " is empty"
  | .notExported => "no exported class with this name"
  | .noDefaultClass => "the fragment does not belong to a class, name one explicitly"
  | .unknownBase => "no class with this name was discovered"
  | .cyclicBase => "cyclic inheritance"

inductive Fault where
  /-- A marker has a key word that its entity does not support. -/
  | unsupportedKey (kind : EntityKind) (word : String) (entity : String) (position : Position)
      (doc : String) (span : Span)
  | unknownTag (tag : String) (origin : Origin) (span : Option Span)
  /-- What `tag` refers to as `name` has no target. -/
  | unresolved (name tag : String) (cause : Unresolved) (origin : Origin) (span : Option Span)
  | unbalancedIndent
  /-- Lints found errors. -/
  | invalid (errors : List Diagnostic)
  | duplicate (kind : EntityKind) (name : String)
  | phaseOrder (phase needs : String)
  | unwritable (path : String)
  deriving DecidableEq, Repr

namespace Fault

def message : Fault → String
  | .unsupportedKey kind word entity _ _ _ =>
    kind.label ++ " '" ++ entity ++ "' does not support fragment key '" ++ word ++ "'"
  | .unknownTag tag origin _ =>
    "unknown tag '$" ++ tag ++ "' in " ++ origin.entity ++ " (" ++ origin.key.label ++ ")"
  | .unresolved name tag cause origin _ =>
    "cannot resolve '" ++ name ++ "' in " ++ tag ++ " of " ++ origin.entity ++ " (" ++ origin.key.label
      ++ "): " ++ cause.reason
  | .unbalancedIndent => "indentation pop without a matching push"
  | .invalid errors => "validation failed with " ++ toString errors.length ++ " error(s)"
  | .duplicate kind name => "duplicate " ++ kind.label ++ " '" ++ name ++ "'"
  | .phaseOrder phase needs => "phase '" ++ phase ++ "' requires phase '" ++ needs ++ "' to run first"
  | .unwritable path => "failed to write '" ++ path ++ "'"

def code? : Fault → Option String
  | .unsupportedKey .. => some "quill::configuration"
  | .unknownTag .. => some "quill::unknown_tag"
  | .unresolved .. => some "quill::unresolved_reference"
  | .unbalancedIndent => some "quill::indentation_balance"
  | .invalid .. => some "quill::validation_failed"
  | .duplicate .. => some "quill::duplicate_entity"
  | .phaseOrder .. => some "quill::phase_order"
  | .unwritable .. => none

/-- The findings behind a fault, one a line. -/
def details (errors : List Diagnostic) : String :=
  "\n".intercalate (errors.map Diagnostic.display)

def help? : Fault → Option String
  | .unsupportedKey kind .. => some (kind.label ++ " fragments may use: " ++ kind.keyList)
  | .unknownTag .. =>
    some ("known tags are $NAME, $STRUCT, $TYPE_STRUCT, $NEW, $COPY, $IS_INSTANCE and $CAST; "
      ++ "write '$$' for a literal '$'")
  | .unbalancedIndent => some "every indent push must be paired with exactly one pop"
  | .invalid errors => some (details errors)
  | _ => none

/-- The marked place in the source text and the words beside it. -/
def label? : Fault → Option (String × Span)
  | .unsupportedKey _ _ _ _ _ span => some ("declared here", span)
  | .unknownTag _ _ span => span.map ("unknown tag", ·)
  | .unresolved _ _ cause _ span => span.map (cause.reason, ·)
  | _ => none

/-- The name under which the documentation of an entity is shown. -/
def docName (position : Position) (entity : String) : String :=
  position.display ++ " (" ++ entity ++ ")"

/-- The name of the source text, where there is one. -/
def sourceName? : Fault → Option String
  | .unsupportedKey _ _ entity position _ _ => some (docName position entity)
  | .unknownTag _ origin _ => some (docName origin.position origin.entity)
  | .unresolved _ _ _ origin _ => some (docName origin.position origin.entity)
  | _ => none

end Fault

end DocWeave
