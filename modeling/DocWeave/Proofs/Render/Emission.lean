import DocWeave.Proofs.Code.Gist
import DocWeave.Proofs.Entity.Sources
import DocWeave.Proofs.Render.Parts
import DocWeave.Proofs.Template

/-!
# Fragments in the texts of a module

Once rendering succeeds, the fragments of everything that is included have been expanded, and the results are
among the steps of the texts.
-/

namespace DocWeave.Render

open Code Tag Text

/-- Steps add a text that holds the lines of the given one, up to white space. -/
def Shows (steps : List Step) (text : String) : Prop :=
  ∃ added, Step.Adds steps added ∧ gist text.toList <:+: gist added.toList

theorem Shows.mono {steps more : List Step} {text : String} (shown : Shows steps text) (sub : steps ⊆ more) :
    Shows more text := by
  obtain ⟨added, adds, inside⟩ := shown
  exact ⟨added, adds.mono sub, inside⟩

theorem Shows.indented {body steps : List Step} {text : String} (shown : Shows body text)
    (member : .indented body ∈ steps) : Shows steps text := by
  obtain ⟨added, adds, inside⟩ := shown
  exact ⟨added, .indented member adds, inside⟩

theorem Shows.emits {steps : List Step} {text : String} (shown : Shows steps text) (options : Options) :
    Emits (page options steps).toList text.toList := by
  obtain ⟨added, adds, inside⟩ := shown
  rw [emits_iff]
  exact inside.trans (emits_iff.mp (adds.emits options.tabWidth { width := options.indentWidth }))

variable {context : Context} {steps : List Step}

/-- The fragment is expanded at the place, and steps show the result. -/
def ShowsFragment (context : Context) (steps : List Step) (site : Site) (fragment : Fragment) : Prop :=
  ∃ body, context.scope.expand site fragment.body = .ok body ∧ Shows steps body

theorem ShowsFragment.mono {more : List Step} {site : Site} {fragment : Fragment}
    (shown : ShowsFragment context steps site fragment) (sub : steps ⊆ more) :
    ShowsFragment context more site fragment := by
  obtain ⟨body, expanded, inside⟩ := shown
  exact ⟨body, expanded, inside.mono sub⟩

theorem ShowsFragment.indented {more : List Step} {site : Site} {fragment : Fragment}
    (shown : ShowsFragment context steps site fragment) (member : .indented steps ∈ more) :
    ShowsFragment context more site fragment := by
  obtain ⟨body, expanded, inside⟩ := shown
  exact ⟨body, expanded, inside.indented member⟩

/-- The edges that are cut off an expanded fragment do not count. -/
theorem exists_body_of_expand {site : Site} {fragment : Fragment} {text : String}
    (success : context.expand site fragment = .ok text) :
    ∃ body, context.scope.expand site fragment.body = .ok body ∧ gist body.toList = gist text.toList := by
  obtain ⟨body, expanded, rfl⟩ := map_eq_ok.mp success
  exact ⟨body, expanded, by rw [toList_onString, gist_trimBlankEdges]⟩

theorem showsFragment_of_expand {site : Site} {fragment : Fragment} {text added : String}
    (success : context.expand site fragment = .ok text) (adds : Step.Adds steps added)
    (inside : gist text.toList <:+: gist added.toList) : ShowsFragment context steps site fragment := by
  obtain ⟨body, expanded, same⟩ := exists_body_of_expand success
  exact ⟨body, expanded, added, adds, same ▸ inside⟩

theorem exists_of_concat_ok {α : Type} {part : α → Except Fault (List Step)} {items : List α}
    (success : concat part items = .ok steps) {item : α} (member : item ∈ items) :
    ∃ own, part item = .ok own ∧ own ⊆ steps := by
  obtain ⟨parts, related, rfl⟩ := concat_eq_ok success
  obtain ⟨own, listed, made⟩ := exists_of_forall₂_left related member
  refine ⟨own, made, ?_⟩
  intro step inside
  exact List.mem_flatten_of_mem listed inside

/-! ### Functions and members -/

theorem shows_code {head : String} {site : Fragment → Site} {fragment : Fragment}
    (code : CodeOf context head site (some fragment) steps) : ShowsFragment context steps (site fragment) fragment := by
  cases code with
  | given expanded =>
    exact showsFragment_of_expand expanded (.block List.mem_cons_self (.text List.mem_cons_self)) List.infix_rfl

theorem code_subset_documented (position : Position) (symbol description : String) (code : List Step) :
    code ⊆ documented position symbol description code := by
  intro step member
  simp [documented, member]

theorem shows_moduleFragment {key : FragmentKey} {fragment : Fragment}
    (found : Fragment.find? context.graph.module.fragments key = some fragment)
    (success : moduleFragment context key = .ok steps) :
    ShowsFragment context steps (moduleSite context.graph.module fragment) fragment := by
  rcases moduleFragment_eq_ok success with ⟨missing, _⟩ | ⟨other, text, present, expanded, rfl⟩
  · rw [found] at missing
    cases missing
  · rw [found] at present
    cases present
    exact showsFragment_of_expand expanded (.text List.mem_cons_self) List.infix_rfl

theorem shows_functionDefinition {function : Entity.Function} {fragment : Fragment}
    (body : function.body? = some fragment) (success : functionDefinition context function = .ok steps) :
    ShowsFragment context steps (functionSite function fragment) fragment := by
  obtain ⟨code, made, rfl⟩ := functionDefinition_eq_ok success
  rw [body] at made
  exact (shows_code made).mono (code_subset_documented ..)

theorem shows_methodDefinition {self : Entity.Class} {method : Entity.Function} {fragment : Fragment}
    (body : method.body? = some fragment) (success : methodDefinition context self method = .ok steps) :
    ShowsFragment context steps (functionSite method fragment) fragment := by
  obtain ⟨code, made, rfl⟩ := methodDefinition_eq_ok success
  rw [body] at made
  exact (shows_code made).mono (code_subset_documented ..)

theorem shows_propertyDefinition {self : Entity.Class} {property : Entity.Property} {fragment : Fragment}
    (accesses : property.getter? = some fragment ∨ property.setter? = some fragment)
    (success : propertyDefinition context self property = .ok steps) :
    ShowsFragment context steps (propertySite property fragment) fragment := by
  obtain ⟨getter, setter, getterMade, setterMade, rfl⟩ := propertyDefinition_eq_ok success
  refine ShowsFragment.mono ?_ (code_subset_documented ..)
  rcases accesses with found | found
  · rw [found] at getterMade
    exact (shows_code getterMade).mono fun _ member => List.mem_append_left _ member
  · rw [found] at setterMade
    exact (shows_code setterMade).mono fun _ member => List.mem_append_right _ member

theorem shows_method {self : Entity.Class} {method : Entity.Function} {fragment : Fragment}
    (member : method ∈ self.includedMethods) (body : method.body? = some fragment)
    (success : classBodies context self = .ok steps) :
    ShowsFragment context steps (functionSite method fragment) fragment := by
  obtain ⟨methods, methodsMade, success⟩ := bind_eq_ok.mp success
  obtain ⟨properties, _, success⟩ := bind_eq_ok.mp success
  cases success
  obtain ⟨own, made, sub⟩ := exists_of_concat_ok methodsMade member
  apply (shows_methodDefinition body made).mono
  intro step inside
  simp [sub inside]

theorem shows_property {self : Entity.Class} {property : Entity.Property} {fragment : Fragment}
    (member : property ∈ self.includedProperties)
    (accesses : property.getter? = some fragment ∨ property.setter? = some fragment)
    (success : classBodies context self = .ok steps) :
    ShowsFragment context steps (propertySite property fragment) fragment := by
  obtain ⟨methods, _, success⟩ := bind_eq_ok.mp success
  obtain ⟨properties, propertiesMade, success⟩ := bind_eq_ok.mp success
  cases success
  obtain ⟨own, made, sub⟩ := exists_of_concat_ok propertiesMade member
  apply (shows_propertyDefinition accesses made).mono
  intro step inside
  simp [sub inside]

/-! ### The struct of a class -/

theorem gist_joinTexts (texts : List (List Char)) : gist (joinLines texts) = texts.flatMap gist := by
  induction texts with
  | nil => rfl
  | cons text rest ih =>
    by_cases empty : rest = []
    · simp [empty]
    · rw [joinLines_cons text empty, gist_append_newline, ih, List.flatMap_cons]

theorem gist_infix_intercalate {text : String} {texts : List String} (member : text ∈ texts) :
    gist text.toList <:+: gist ("\n".intercalate texts).toList := by
  have joined : ("\n".intercalate texts).toList = joinLines (texts.map String.toList) := by
    rw [String.toList_intercalate]
    rfl
  rw [joined, gist_joinTexts, List.flatMap_def]
  exact List.infix_of_mem_flatten (List.mem_map_of_mem (List.mem_map_of_mem member))

theorem exists_of_effectiveText {self ancestor : Entity.Class} {key : FragmentKey} {fragment : Fragment}
    {text : String} (member : (ancestor, fragment) ∈ context.graph.effective self key)
    (success : effectiveText context self key = .ok text) :
    ∃ body, context.expand (ancestorSite self ancestor fragment) fragment = .ok body ∧
      gist body.toList <:+: gist text.toList := by
  obtain ⟨texts, made, success⟩ := bind_eq_ok.mp success
  cases success
  obtain ⟨bodies, related, rfl⟩ := ancestorTexts_eq_ok made
  obtain ⟨body, listed, expanded⟩ := exists_of_forall₂_left related member
  refine ⟨body, expanded, ?_⟩
  have moved := gist_reindent context.options.tabWidth 0 body.toList
  rw [← toList_onString (reindent context.options.tabWidth 0)] at moved
  rw [← moved]
  by_cases empty : onString (reindent context.options.tabWidth 0) body = ""
  · rw [empty]
    exact List.nil_infix
  · refine gist_infix_intercalate (List.mem_filter.mpr ⟨List.mem_map_of_mem listed, ?_⟩)
    simpa using empty

/-- The field of the struct template that holds the code of a key. -/
def structField : FragmentKey → String
  | .new => "new"
  | .free => "free"
  | .copy => "copy"
  | _ => "fields"

def structSegments : List Template.Segment :=
  [.text "struct ", .field "struct", .text "\n\x7b\n    PyObject_HEAD", .text "\n    ", .field "fields", .text "\n",
    .text "\n    void ", .field "on_new", .text "()\n    \x7b", .text "\n        ", .field "new", .text "\n",
    .text "    \x7d\n\n    void ", .field "on_free", .text "()\n    \x7b", .text "\n        ", .field "free",
    .text "\n", .text "    \x7d\n\n    void ", .field "on_copy", .text "(", .field "struct",
    .text "* copy)\n    \x7b", .text "\n        ", .field "copy", .text "\n", .text "    \x7d\n\x7d;"]

set_option maxRecDepth 2000 in
theorem pieces_structTemplate :
    Template.pieces structTemplate.toList = structSegments.flatMap Template.Segment.pieces :=
  Template.pieces_segments (by rfl) (by decide +kernel)

theorem standsAlone_structField (key : FragmentKey) :
    Template.StandsAlone (structField key).toList structTemplate.toList := by
  cases key
  case new => exact Template.standsAlone_of_segments 8 pieces_structTemplate (by decide +kernel)
  case free => exact Template.standsAlone_of_segments 8 pieces_structTemplate (by decide +kernel)
  case copy => exact Template.standsAlone_of_segments 8 pieces_structTemplate (by decide +kernel)
  all_goals exact Template.standsAlone_of_segments 4 pieces_structTemplate (by decide +kernel)

/-- The values of the struct template, given the code of each key. -/
def structValues (symbols : Extension.ClassSymbols) (code : FragmentKey → String) : Template.Values :=
  [("struct", symbols.instanceStruct), ("fields", code .default), ("on_new", symbols.onNew), ("new", code .new),
    ("on_free", symbols.onFree), ("free", code .free), ("on_copy", symbols.onCopy), ("copy", code .copy)]

theorem find?_structValues {key : FragmentKey} (supported : key ∈ EntityKind.class.keys)
    (symbols : Extension.ClassSymbols) (code : FragmentKey → String) :
    (structValues symbols code).find? (structField key).toList = some (code key).toList := by
  simp only [EntityKind.keys, List.mem_cons, List.not_mem_nil, or_false] at supported
  rcases supported with rfl | rfl | rfl | rfl <;> rfl

theorem structDefinition_eq_ok {self : Entity.Class} (success : structDefinition context self = .ok steps) :
    ∃ code, (∀ key ∈ EntityKind.class.keys, effectiveText context self key = .ok (code key)) ∧
      steps = [positionLine self.position,
        .text (context.fill structTemplate (structValues (classSymbols context self) code)), .blank] := by
  obtain ⟨fields, fieldsMade, success⟩ := bind_eq_ok.mp success
  obtain ⟨new, newMade, success⟩ := bind_eq_ok.mp success
  obtain ⟨free, freeMade, success⟩ := bind_eq_ok.mp success
  obtain ⟨copy, copyMade, success⟩ := bind_eq_ok.mp success
  cases success
  refine ⟨fun | .new => new | .free => free | .copy => copy | _ => fields, ?_, rfl⟩
  intro key supported
  simp only [EntityKind.keys, List.mem_cons, List.not_mem_nil, or_false] at supported
  rcases supported with rfl | rfl | rfl | rfl <;> assumption

theorem shows_structDefinition {self ancestor : Entity.Class} {key : FragmentKey} {fragment : Fragment}
    (supported : key ∈ EntityKind.class.keys)
    (member : (ancestor, fragment) ∈ context.graph.effective self key)
    (success : structDefinition context self = .ok steps) :
    ShowsFragment context steps (ancestorSite self ancestor fragment) fragment := by
  obtain ⟨code, made, rfl⟩ := structDefinition_eq_ok success
  obtain ⟨body, expanded, inside⟩ := exists_of_effectiveText member (made key supported)
  have filled := Template.gist_fill_of_standsAlone context.options.tabWidth _ (standsAlone_structField key)
    (find?_structValues supported (classSymbols context self) code)
  rw [← toList_onString (Template.fill context.options.tabWidth _)] at filled
  exact showsFragment_of_expand expanded (.text (by simp [Context.fill])) (inside.trans filled)

/-! ### The whole module -/

/-- What is exported under its own name, with its fragments and the place of each. A copy of an inherited member
counts with the member that it copies. -/
inductive Exports (graph : Graph) : Documentation.Subject → String → List Fragment → (Fragment → Site) → Prop
  | module : Exports graph ⟨graph.module.name, .module, graph.module.position⟩ graph.module.doc
      graph.module.fragments (moduleSite graph.module)
  | function {function} (member : function ∈ graph.includedFunctions) :
      Exports graph ⟨function.qualifiedName, .function, function.position⟩ function.doc function.fragments
        (functionSite function)
  | class {self} (member : self ∈ graph.includedClasses) :
      Exports graph ⟨self.name, .class, self.position⟩ self.doc self.fragments (ancestorSite self self)
  | method {self method} (member : self ∈ graph.includedClasses) (own : method ∈ self.includedMethods) :
      Exports graph ⟨method.qualifiedName, .function, method.position⟩ method.doc method.fragments
        (functionSite method)
  | property {self property} (member : self ∈ graph.includedClasses) (own : property ∈ self.includedProperties) :
      Exports graph ⟨property.qualifiedName, .property, property.position⟩ property.doc property.fragments
        (propertySite property)

/-- The text that holds the fragments of a key. -/
def Artifacts.buffer (artifacts : Artifacts) (key : FragmentKey) : String :=
  if key = .header then artifacts.interface else artifacts.implementation

theorem mem_effective_self {graph : Graph} (distinct : (graph.classes.map (·.name)).Nodup)
    {self : Entity.Class} (member : self ∈ graph.classes) (last : self.name ∈ self.ancestry) {key : FragmentKey}
    {fragment : Fragment} (found : Fragment.find? self.fragments key = some fragment) :
    (self, fragment) ∈ graph.effective self key := by
  have own : self ∈ graph.lineageClasses self :=
    List.mem_filterMap.mpr ⟨self.name, last, Graph.class?_of_mem distinct member⟩
  exact List.mem_filterMap.mpr ⟨self, own, by simp [found]⟩

section Implementation

variable {subject : Documentation.Subject} {doc : String} {fragments : List Fragment} {site : Fragment → Site}
  {fragment : Fragment} {manifest : Manifest}

/-- The implementation shows every fragment that is exported, but for the header of the module. -/
theorem shows_nested (sourced : context.graph.Sourced manifest)
    (distinct : (context.graph.classes.map (·.name)).Nodup)
    (last : ∀ self ∈ context.graph.classes, self.name ∈ self.ancestry)
    (exported : Exports context.graph subject doc fragments site) (member : fragment ∈ fragments)
    (inner : fragment.key ≠ .header) (nested : Nested context steps) :
    ShowsFragment context steps (site fragment) fragment := by
  obtain ⟨preamble, structs, functions, bodies, preambleMade, structsMade, functionsMade, bodiesMade, whole⟩ := nested
  have indented : .indented (body context structs functions bodies) ∈ steps := by simp [whole, around]
  have inside : ∀ part ⊆ body context structs functions bodies,
      ShowsFragment context part (site fragment) fragment → ShowsFragment context steps (site fragment) fragment :=
    fun part sub shown => (shown.mono sub).indented indented
  cases exported with
  | module =>
    have keys : fragment.key = .default := by
      have either : fragment.key = .default ∨ fragment.key = .header := by
        simpa [EntityKind.keys] using sourced.module.key_mem member
      exact either.resolve_right inner
    have found := sourced.module.find?_eq member
    rw [keys] at found
    apply (shows_moduleFragment found preambleMade).mono
    intro step listed
    simp [whole, around, listed]
  | @function function listed =>
    obtain ⟨known, _⟩ := List.mem_filter.mp listed
    obtain ⟨own, made, sub⟩ := exists_of_concat_ok functionsMade listed
    have code := (body?_of_mem (sourced.functions function known) member).2
    refine inside own ?_ (shows_functionDefinition code made)
    intro step present
    simp [body, sub present]
  | @«class» self listed =>
    obtain ⟨known, _⟩ := List.mem_filter.mp listed
    obtain ⟨own, made, sub⟩ := exists_of_concat_ok structsMade listed
    have holds := (sourced.classes self known).own
    -- The struct joins the code of the whole lineage, and the class is on its own lineage.
    have effective := mem_effective_self distinct known (last self known) (holds.find?_eq member)
    refine inside own ?_ (shows_structDefinition (holds.key_mem member) effective made)
    intro step present
    simp [body, sub present]
  | @method self method listed declared =>
    obtain ⟨known, _⟩ := List.mem_filter.mp listed
    obtain ⟨own, made, sub⟩ := exists_of_concat_ok bodiesMade listed
    have holds := (sourced.classes self known).methods method (List.mem_filter.mp declared).1
    refine inside own ?_ (shows_method declared (body?_of_mem holds member).2 made)
    intro step present
    simp [body, sub present]
  | @property self property listed declared =>
    obtain ⟨known, _⟩ := List.mem_filter.mp listed
    obtain ⟨own, made, sub⟩ := exists_of_concat_ok bodiesMade listed
    have holds := (sourced.classes self known).properties property (List.mem_filter.mp declared).1
    have accesses := (accesses_of_mem holds member).imp And.right And.right
    refine inside own ?_ (shows_property declared accesses made)
    intro step present
    simp [body, sub present]

/-- The interface shows the header of the module. -/
theorem shows_interfaceSteps (found : Fragment.find? context.graph.module.fragments .header = some fragment)
    (success : interfaceSteps context = .ok steps) :
    ShowsFragment context steps (moduleSite context.graph.module fragment) fragment := by
  obtain ⟨header, made, success⟩ := bind_eq_ok.mp success
  cases success
  apply (shows_moduleFragment found made).mono
  intro step listed
  simp [listed]

/-- Only the module has a header. -/
theorem eq_module_of_header {graph : Graph} (sourced : graph.Sourced manifest)
    (exported : Exports graph subject doc fragments site) (member : fragment ∈ fragments)
    (header : fragment.key = .header) :
    site fragment = moduleSite graph.module fragment ∧
      Fragment.find? graph.module.fragments .header = some fragment := by
  cases exported with
  | module =>
    have found := sourced.module.find?_eq member
    rw [header] at found
    exact ⟨rfl, found⟩
  | @function function listed =>
    have keys := (sourced.functions function (List.mem_filter.mp listed).1).key_mem member
    simp [header, EntityKind.keys] at keys
  | @«class» self listed =>
    have keys := (sourced.classes self (List.mem_filter.mp listed).1).own.key_mem member
    simp [header, EntityKind.keys] at keys
  | @method self method listed declared =>
    have keys := ((sourced.classes self (List.mem_filter.mp listed).1).methods method
      (List.mem_filter.mp declared).1).key_mem member
    simp [header, EntityKind.keys] at keys
  | @property self property listed declared =>
    have keys := ((sourced.classes self (List.mem_filter.mp listed).1).properties property
      (List.mem_filter.mp declared).1).key_mem member
    simp [header, EntityKind.keys] at keys

end Implementation

/-- Every exported fragment is expanded, and its text holds the result. -/
theorem emits_of_render {graph : Graph} {options : Options} {artifacts : Artifacts} {manifest : Manifest}
    {subject : Documentation.Subject} {doc : String} {fragments : List Fragment} {site : Fragment → Site}
    {fragment : Fragment} (sourced : graph.Sourced manifest) (distinct : (graph.classes.map (·.name)).Nodup)
    (last : ∀ self ∈ graph.classes, self.name ∈ self.ancestry) (success : graph.render options = .ok artifacts)
    (exported : Exports graph subject doc fragments site) (member : fragment ∈ fragments) :
    ∃ body, ({ graph, options } : Context).scope.expand (site fragment) fragment.body = .ok body ∧
      Emits (artifacts.buffer fragment.key).toList body.toList := by
  obtain ⟨interface, _, steps, interfaceMade, _, nested, _, rfl⟩ := render_eq_ok success
  unfold Artifacts.buffer
  by_cases header : fragment.key = .header
  · obtain ⟨same, found⟩ := eq_module_of_header sourced exported member header
    obtain ⟨body, expanded, shown⟩ := shows_interfaceSteps found interfaceMade
    rw [if_pos header, same]
    exact ⟨body, expanded, shown.emits options⟩
  · obtain ⟨body, expanded, shown⟩ :=
      shows_nested sourced distinct last exported member header nested
    rw [if_neg header]
    exact ⟨body, expanded, shown.emits options⟩

end DocWeave.Render
