import DocWeave.Extension.Dispatch

/-!
The records of a manifest: a module with its functions and classes, and the settings of the generator.
-/

namespace DocWeave.Manifest

open DocWeave.Extension

structure ModuleRecord where
  name : String
  /-- The file in which the records were found. -/
  file : Option String := none
  doc : String := ""
  deriving DecidableEq, Repr

/-- The file name in positions. -/
def ModuleRecord.fileName (record : ModuleRecord) : String :=
  record.file.getD (record.name ++ ".py")

/-- A function or a method. -/
structure FunctionRecord where
  name : String
  doc : String := ""
  line : Option Nat := none
  arity : Arity := {}
  deriving DecidableEq, Repr

structure PropertyRecord where
  name : String
  doc : String := ""
  line : Option Nat := none
  setter : Bool := false
  deriving DecidableEq, Repr

structure ClassRecord where
  name : String
  doc : String := ""
  line : Option Nat := none
  bases : List String := []
  methods : List FunctionRecord := []
  properties : List PropertyRecord := []
  deriving DecidableEq, Repr

/-- The settings of the generator. -/
structure Settings where
  /-- The word that introduces a fragment. -/
  marker : String := "_CPP_"
  /-- The leading word of generated names. -/
  stem : String := "quill"
  indentWidth : Nat := 4
  tabWidth : Nat := 4
  inheritMembers : Bool := true
  /-- The header that the interface file includes. -/
  header : String := "Python.h"
  deriving DecidableEq, Repr

end Manifest

structure Manifest where
  module : Manifest.ModuleRecord
  settings : Manifest.Settings := {}
  functions : List Manifest.FunctionRecord := []
  classes : List Manifest.ClassRecord := []
  deriving DecidableEq, Repr

/-- The number of records besides the module. -/
def Manifest.recordCount (manifest : Manifest) : Nat :=
  let size (record : Manifest.ClassRecord) := 1 + record.methods.length + record.properties.length
  manifest.classes.foldl (fun count record => count + size record) manifest.functions.length

end DocWeave
