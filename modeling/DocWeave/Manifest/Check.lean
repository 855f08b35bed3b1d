import DocWeave.Manifest.Decode
import DocWeave.Manifest.Locate
import DocWeave.Text.Word
import DocWeave.Toml.Read

/-!
Checking the records of a manifest.

The first record that cannot be exported under its name is reported, with the place of the name if an entry
of it is found.
-/

namespace DocWeave.Manifest

open DocWeave.Text

/-- Why a manifest is refused. -/
inductive Cause where
  | emptyModuleName
  | keyword (name kind : String)
  | notIdentifier (name kind : String)
  | marker (word : String)
  | stem (word : String)
  | width (setting : String) (value : Nat)
  | selfBase (className : String)
  | noReceiver (className method : String)
  /-- A message of the caller. -/
  | other (message : String)
  deriving DecidableEq, Repr

/-- The least and the greatest width. -/
def widthLimits : Nat × Nat := (1, 16)

def Cause.message : Cause → String
  | .emptyModuleName => "module name must not be empty"
  | .keyword name _ => "'" ++ name ++ "' is a C/C++ reserved keyword"
  | .notIdentifier name kind => "invalid " ++ kind ++ " name '" ++ name ++ "'"
  | .marker word =>
    "generator.marker '" ++ word ++ "' must be a non-empty word of letters, digits and underscores"
  | .stem word => "generator.prefix '" ++ word ++ "' is not a valid C identifier"
  | .width setting value =>
    "generator." ++ setting ++ " must be between " ++ toString widthLimits.1 ++ " and "
      ++ toString widthLimits.2 ++ ", got " ++ toString value
  | .selfBase className => "class '" ++ className ++ "' lists itself as a base"
  | .noReceiver className method =>
    "method '" ++ className ++ "." ++ method ++ "' takes no parameters, expected at least 'self'"
  | .other message => message

/-- A manifest is refused. -/
inductive Refusal where
  /-- The text is no manifest. -/
  | unreadable
  | invalid (cause : Cause) (fileName : String) (span : Option Span)
  deriving DecidableEq, Repr

namespace Refusal

def message : Refusal → String
  | .unreadable => "failed to parse discovery manifest"
  | .invalid cause _ _ => cause.message

def code : Refusal → String
  | .unreadable => "quill::parse_error"
  | .invalid (.keyword _ _) _ _ => "quill::reserved_keyword"
  | .invalid (.notIdentifier _ _) _ _ => "quill::invalid_identifier"
  | .invalid _ _ _ => "quill::validation_error"

def help? : Refusal → Option String
  | .invalid (.keyword name kind) _ _ =>
    some ("generated symbols are derived from " ++ kind ++ " names; rename '" ++ name ++ "'")
  | .invalid (.notIdentifier _ _) _ _ =>
    some "use only letters, numbers, and underscores, starting with a letter or underscore"
  | _ => none

/-- The marked place in the manifest and the words beside it. -/
def label? : Refusal → Option (String × Span)
  | .unreadable => none
  | .invalid cause _ span =>
    let words := match cause with
      | .keyword _ _ => "reserved keyword used here"
      | .notIdentifier _ _ => "invalid identifier"
      | other => other.message
    span.map (words, ·)

def sourceName? : Refusal → Option String
  | .unreadable => none
  | .invalid _ fileName _ => some fileName

end Refusal

namespace Context

/-- Refuse the manifest without a place. -/
def refuse (context : Context) (cause : Cause) : Refusal :=
  .invalid cause context.fileName none

/-- Refuse the manifest for the record of a name. -/
def refuseAt (context : Context) (name : String) (cause : Cause) : Refusal :=
  .invalid cause context.fileName (context.find? name)

/-- A name that only stands inside generated names must be an identifier. -/
def checkSymbol (context : Context) (kind name : String) : Except Refusal Unit :=
  if isIdentifier name then .ok ()
  else .error (context.refuseAt name (.notIdentifier name (context.describe kind)))

/-- A name that may stand alone in generated code must not be a keyword either. -/
def checkName (context : Context) (kind name : String) : Except Refusal Unit :=
  if isKeyword name then
    .error (context.refuseAt name (.keyword name (context.describe kind)))
  else
    context.checkSymbol kind name

/-- A width must be within its limits. -/
def checkWidth (context : Context) (setting : String) (value : Nat) : Except Refusal Unit :=
  if widthLimits.1 ≤ value && value ≤ widthLimits.2 then .ok ()
  else .error (context.refuse (.width setting value))

def checkSettings (context : Context) (settings : Settings) : Except Refusal Unit := do
  if !isWord settings.marker then throw (context.refuse (.marker settings.marker))
  if !isIdentifier settings.stem then throw (context.refuse (.stem settings.stem))
  context.checkWidth "indent_width" settings.indentWidth
  context.checkWidth "tab_width" settings.tabWidth

/-- Check the base of a class. -/
def checkBase (context : Context) (className base : String) : Except Refusal Unit :=
  if base = className then .error (context.refuseAt className (.selfBase className))
  else if isIdentifier base then .ok ()
  else .error (context.refuse (.notIdentifier base (context.describe "base class")))

/-- Check a method of a class. -/
def checkMethod (context : Context) (className : String) (method : FunctionRecord) :
    Except Refusal Unit := do
  context.checkSymbol "method" method.name
  if method.arity.params = 0 && !method.arity.varargs then
    throw (context.refuseAt method.name (.noReceiver className method.name))

def checkClass (context : Context) (record : ClassRecord) : Except Refusal Unit := do
  context.checkName "class" record.name
  let inside := context.enter record.name
  record.bases.forM (inside.checkBase record.name)
  record.methods.forM (inside.checkMethod record.name)
  record.properties.forM fun property => inside.checkSymbol "property" property.name

def checkManifest (context : Context) (manifest : Manifest) : Except Refusal Unit := do
  if manifest.module.name = "" then throw (context.refuse .emptyModuleName)
  context.checkName "module" manifest.module.name
  context.checkSettings manifest.settings
  manifest.functions.forM fun function => context.checkSymbol "function" function.name
  manifest.classes.forM context.checkClass

end Context

/-- Read and check a manifest. -/
def parse (fileName text : String) : Except Refusal Manifest := do
  match (Toml.read? text).bind Decode.manifest with
  | none => throw .unreadable
  | some manifest =>
    Context.checkManifest { text, fileName } manifest
    return manifest

end DocWeave.Manifest
