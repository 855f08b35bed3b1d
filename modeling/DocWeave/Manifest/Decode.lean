import DocWeave.Manifest.Record
import DocWeave.Toml.Value

/-!
Manifest records in TOML values.

A record is a table with named fields, or an array that gives the fields in their order. Unknown names are
ignored, except among the settings, but what they name must be well formed. In an array the fields without a
default value must be there, and what follows the last field is not looked at.
-/

namespace DocWeave.Manifest

open DocWeave.Toml DocWeave.Extension

namespace Decode

/-- The fields of a record. -/
structure Fields where
  get? : String → Option Value
  /-- Whether the fields are given by their order. -/
  ordered : Bool

/-- The fields of a value, where `names` is their order. -/
def Fields.of? (names : List String) : Value → Option Fields
  | .table entries =>
    if entries.all fun entry => names.contains entry.1 || entry.2.isWellFormed then
      some ⟨fun name => entries.lookup name, false⟩
    else
      none
  | .array items => some ⟨fun name => (names.zip items).lookup name, true⟩
  | _ => none

/-- A field that must be there. -/
def Fields.required {α : Type} (fields : Fields) (decode : Value → Option α) (name : String) :
    Option α :=
  (fields.get? name).bind decode

/-- A field with a default value. -/
def Fields.withDefault {α : Type} (fields : Fields) (decode : Value → Option α) (name : String)
    (default : α) : Option α :=
  match fields.get? name with
  | some v => decode v
  | none => some default

/-- A field that a table may leave out. -/
def Fields.optional {α : Type} (fields : Fields) (decode : Value → Option α) (name : String) :
    Option (Option α) :=
  match fields.get? name with
  | some v => (decode v).map some
  | none => if fields.ordered then none else some none

def string : Value → Option String
  | .string s => some s
  | _ => none

def boolean : Value → Option Bool
  | .boolean b => some b
  | _ => none

/-- A natural number of at most `bits` bits. -/
def natural (bits : Nat) : Value → Option Nat
  | .integer n => if 0 ≤ n && n < (Nat.pow 2 bits : Int) then some n.toNat else none
  | _ => none

def list {α : Type} (decode : Value → Option α) : Value → Option (List α)
  | .array items => items.mapM decode
  | _ => none

def module (v : Value) : Option ModuleRecord := do
  let fields ← Fields.of? ["name", "file", "doc"] v
  return { name := ← fields.required string "name"
           file := ← fields.optional string "file"
           doc := ← fields.withDefault string "doc" "" }

def function (v : Value) : Option FunctionRecord := do
  let fields ← Fields.of? ["name", "doc", "line", "params", "varargs", "kwargs"] v
  return { name := ← fields.required string "name"
           doc := ← fields.withDefault string "doc" ""
           line := ← fields.optional (natural 32) "line"
           arity := { params := ← fields.withDefault (natural 64) "params" 0
                      varargs := ← fields.withDefault boolean "varargs" false
                      kwargs := ← fields.withDefault boolean "kwargs" false } }

def property (v : Value) : Option PropertyRecord := do
  let fields ← Fields.of? ["name", "doc", "line", "setter"] v
  return { name := ← fields.required string "name"
           doc := ← fields.withDefault string "doc" ""
           line := ← fields.optional (natural 32) "line"
           setter := ← fields.withDefault boolean "setter" false }

def «class» (v : Value) : Option ClassRecord := do
  let fields ← Fields.of? ["name", "doc", "line", "bases", "methods", "properties"] v
  return { name := ← fields.required string "name"
           doc := ← fields.withDefault string "doc" ""
           line := ← fields.optional (natural 32) "line"
           bases := ← fields.withDefault (list string) "bases" []
           methods := ← fields.withDefault (list function) "methods" []
           properties := ← fields.withDefault (list property) "properties" [] }

/-- The names of the settings. -/
def settingNames : List String :=
  ["marker", "prefix", "indent_width", "tab_width", "inherit_members", "python_header"]

def settings (v : Value) : Option Settings := do
  let fields ← Fields.of? settingNames v
  let known := match v with
    | .table entries => entries.all fun entry => settingNames.contains entry.1
    | _ => true
  if known then
    let base : Settings := {}
    return { marker := ← fields.withDefault string "marker" base.marker
             stem := ← fields.withDefault string "prefix" base.stem
             indentWidth := ← fields.withDefault (natural 8) "indent_width" base.indentWidth
             tabWidth := ← fields.withDefault (natural 8) "tab_width" base.tabWidth
             inheritMembers := ← fields.withDefault boolean "inherit_members" base.inheritMembers
             header := ← fields.withDefault string "python_header" base.header }
  else
    none

def manifest (v : Value) : Option Manifest := do
  let fields ← Fields.of? ["module", "generator", "functions", "classes"] v
  return { module := ← fields.required module "module"
           settings := ← fields.withDefault settings "generator" {}
           functions := ← fields.withDefault (list function) "functions" []
           classes := ← fields.withDefault (list «class») "classes" [] }

end Decode

end DocWeave.Manifest
