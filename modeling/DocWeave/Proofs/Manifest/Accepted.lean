import DocWeave.Manifest.Check
import DocWeave.Proofs.Outcome

/-!
# Accepted manifests

What the checks of a manifest ask for does not depend on the text in which the names are looked for.
-/

namespace DocWeave.Manifest

open Text

/-- The settings can be used: the words can stand in generated code, and the widths are within their limits. -/
structure Settings.Accepted (settings : Settings) : Prop where
  marker : isWord settings.marker = true
  stem : isIdentifier settings.stem = true
  indentWidth : widthLimits.1 ≤ settings.indentWidth ∧ settings.indentWidth ≤ widthLimits.2
  tabWidth : widthLimits.1 ≤ settings.tabWidth ∧ settings.tabWidth ≤ widthLimits.2

/-- The name of the class can stand alone in generated code, its bases are other classes by their names, and its
members have names that can stand in generated names. A method takes its object. -/
structure ClassRecord.Accepted (record : ClassRecord) : Prop where
  free : isKeyword record.name = false
  name : isIdentifier record.name = true
  bases : ∀ base ∈ record.bases, base ≠ record.name ∧ isIdentifier base = true
  methods : ∀ method ∈ record.methods, isIdentifier method.name = true ∧
    ¬ (method.arity.params = 0 ∧ method.arity.varargs = false)
  properties : ∀ property ∈ record.properties, isIdentifier property.name = true

/-- The names of the module and of the classes can stand alone in generated code. All others can stand in generated
names. -/
structure Accepted (manifest : Manifest) : Prop where
  free : isKeyword manifest.module.name = false
  name : isIdentifier manifest.module.name = true
  settings : manifest.settings.Accepted
  functions : ∀ record ∈ manifest.functions, isIdentifier record.name = true
  classes : ∀ record ∈ manifest.classes, record.Accepted

namespace Context

variable {context : Context} {kind name : String}

theorem checkSymbol_eq_ok : context.checkSymbol kind name = .ok () ↔ isIdentifier name = true := by
  rw [checkSymbol]
  split <;> simp_all

theorem checkName_eq_ok :
    context.checkName kind name = .ok () ↔ isKeyword name = false ∧ isIdentifier name = true := by
  rw [checkName]
  split
  · simp_all
  · rw [checkSymbol_eq_ok]
    simp_all

theorem checkWidth_eq_ok {setting : String} {value : Nat} :
    context.checkWidth setting value = .ok () ↔ widthLimits.1 ≤ value ∧ value ≤ widthLimits.2 := by
  rw [checkWidth]
  split <;> simp_all

theorem checkSettings_eq_ok {settings : Settings} : context.checkSettings settings = .ok () ↔ settings.Accepted := by
  have widths : context.checkWidth "indent_width" settings.indentWidth = .ok () ∧
      context.checkWidth "tab_width" settings.tabWidth = .ok () ↔
      (widthLimits.1 ≤ settings.indentWidth ∧ settings.indentWidth ≤ widthLimits.2) ∧
        widthLimits.1 ≤ settings.tabWidth ∧ settings.tabWidth ≤ widthLimits.2 :=
    and_congr checkWidth_eq_ok checkWidth_eq_ok
  unfold checkSettings
  cases marker : isWord settings.marker with
  | false => exact iff_of_false nofun fun accepted => by simp [accepted.marker] at marker
  | true =>
    cases stem : isIdentifier settings.stem with
    | false => exact iff_of_false nofun fun accepted => by simp [accepted.stem] at stem
    | true =>
      refine (unit_bind_eq_ok.trans widths).trans ⟨?_, ?_⟩
      · rintro ⟨indentWidth, tabWidth⟩
        exact ⟨marker, stem, indentWidth, tabWidth⟩
      · intro accepted
        exact ⟨accepted.indentWidth, accepted.tabWidth⟩

theorem checkBase_eq_ok {className base : String} :
    context.checkBase className base = .ok () ↔ base ≠ className ∧ isIdentifier base = true := by
  rw [checkBase]
  split
  · simp_all
  · split <;> simp_all

theorem checkMethod_eq_ok {className : String} {method : FunctionRecord} :
    context.checkMethod className method = .ok () ↔ isIdentifier method.name = true ∧
      ¬ (method.arity.params = 0 ∧ method.arity.varargs = false) := by
  rw [checkMethod, unit_bind_eq_ok, checkSymbol_eq_ok]
  apply and_congr_right
  intro _
  split <;> simp_all [pure, Except.pure, throw, throwThe, MonadExceptOf.throw]

theorem checkClass_eq_ok {record : ClassRecord} : context.checkClass record = .ok () ↔ record.Accepted := by
  simp only [checkClass, unit_bind_eq_ok, forM_eq_ok_iff, checkName_eq_ok, checkBase_eq_ok, checkMethod_eq_ok,
    checkSymbol_eq_ok]
  constructor
  · rintro ⟨⟨free, name⟩, bases, methods, properties⟩
    exact ⟨free, name, bases, methods, properties⟩
  · rintro ⟨free, name, bases, methods, properties⟩
    exact ⟨⟨free, name⟩, bases, methods, properties⟩

/-- A manifest passes in every text alike. -/
theorem checkManifest_eq_ok {manifest : Manifest} : context.checkManifest manifest = .ok () ↔ manifest.Accepted := by
  unfold checkManifest
  split
  · rename_i empty
    refine iff_of_false nofun fun accepted => ?_
    have name := accepted.name
    rw [empty] at name
    revert name
    decide
  · simp only [unit_bind_eq_ok, forM_eq_ok_iff, checkName_eq_ok, checkSettings_eq_ok, checkSymbol_eq_ok,
      checkClass_eq_ok]
    constructor
    · rintro ⟨⟨free, name⟩, settings, functions, classes⟩
      exact ⟨free, name, settings, functions, classes⟩
    · rintro ⟨free, name, settings, functions, classes⟩
      exact ⟨⟨free, name⟩, settings, functions, classes⟩

end Context

theorem parse_eq_ok_iff {fileName text : String} {manifest : Manifest} : parse fileName text = .ok manifest ↔
    (Toml.read? text).bind Decode.manifest = some manifest ∧ manifest.Accepted := by
  unfold parse
  constructor
  · intro parsed
    split at parsed
    · cases parsed
    rename_i read found
    obtain ⟨_, checked, same⟩ := bind_eq_ok.mp parsed
    cases same
    exact ⟨found, Context.checkManifest_eq_ok.mp checked⟩
  · rintro ⟨read, accepted⟩
    rw [read]
    exact bind_eq_ok.mpr ⟨(), Context.checkManifest_eq_ok.mpr accepted, rfl⟩

theorem accepted_of_parse {fileName text : String} {manifest : Manifest}
    (accepted : parse fileName text = .ok manifest) : manifest.Accepted :=
  (parse_eq_ok_iff.mp accepted).2

end DocWeave.Manifest
