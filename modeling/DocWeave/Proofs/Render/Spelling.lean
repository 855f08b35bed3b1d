import DocWeave.Proofs.Render.Items
import DocWeave.Proofs.Render.Tags
import DocWeave.Proofs.Text.Identifiers

/-!
# The spelling of symbols

Symbols are made of a stem and of the names of the module and its entities. If these are identifiers, every symbol that
rendering defines or refers to is an identifier, and none is a keyword.
-/

namespace DocWeave

open Extension Text

/-- The names in the graph are identifiers, and those that can stand alone are no keywords. -/
structure Graph.Identified (graph : Graph) : Prop where
  module : Spelled graph.module.name
  functions : ∀ function ∈ graph.functions, isIdentifier function.name = true
  classes : ∀ self ∈ graph.classes, Spelled self.name
  methods : ∀ self ∈ graph.classes, ∀ method ∈ self.methods, isIdentifier method.name = true
  properties : ∀ self ∈ graph.classes, ∀ property ∈ self.properties, isIdentifier property.name = true

namespace Render

/-! ### Symbols of items -/

namespace Item

/-- The names that the symbol of an item is made of, besides the name of the module. -/
def namedFor : Item → List String
  | instanceStruct self | typeObject self | ofClass _ self | registerClass self => [self]
  | member _ self name | memberDoc _ self name => [self, name]
  | function name | functionDoc name => [name]
  | ofModule _ | creation | registerModule => []

variable {symbols : Symbols} {module : String} {item : Item} {spelling : Spelling}

theorem letters_text (word : Word) : Letters word.text := by
  have each : ∀ word ∈ Word.all, Letters word.text := by decide +kernel
  exact each word (Word.mem_all word)

theorem letters_rest (plain : isIdentifier module = true) (named : ∀ name ∈ item.namedFor, isIdentifier name = true)
    (spelled : item.spelling? symbols module = some spelling) : Letters spelling.rest := by
  have module := letters_of_isIdentifier plain
  have names : ∀ name ∈ item.namedFor, Letters name := fun name member => letters_of_isIdentifier (named name member)
  have doc : Letters "doc" := by decide
  cases item with
  | instanceStruct | typeObject => cases spelled
  | ofClass | registerClass | function =>
    cases spelled
    exact names _ List.mem_cons_self
  | member role self name =>
    cases spelled
    exact (names self (by simp [Item.namedFor])).joined (names name (by simp [Item.namedFor]))
  | memberDoc role self name =>
    cases spelled
    exact ((names self (by simp [Item.namedFor])).joined (names name (by simp [Item.namedFor]))).joined doc
  | functionDoc name =>
    cases spelled
    exact (names name (by simp [Item.namedFor])).joined doc
  | ofModule role =>
    cases spelled
    cases role with
    | definition => exact module
    | methods => exact Letters.joined (by decide) module
    | doc => exact doc.joined module
  | creation =>
    cases spelled
    exact Letters.joined (by decide) module
  | registerModule =>
    cases spelled
    exact module

/-- A symbol that is made of identifiers is spelled in C. -/
theorem spelled_symbol (stem : isIdentifier symbols.stem = true) (plain : isIdentifier module = true)
    (named : ∀ name ∈ item.namedFor, isIdentifier name = true) : Spelled (item.symbol symbols module) := by
  cases spelled : item.spelling? symbols module with
  | none =>
    obtain ⟨self, rfl | rfl⟩ := spelling?_eq_none spelled
    · rw [symbol_instanceStruct]
      exact spelled_joined_struct (named self List.mem_cons_self)
    · rw [symbol_typeObject, ← joined_assoc]
      exact spelled_joined_struct (isIdentifier_joined (named self List.mem_cons_self) (by decide))
  | some spelling =>
    have lead : isIdentifier spelling.lead = true := by
      rw [lead_eq spelled]
      split
      · decide
      · exact stem
    rw [symbol_eq spelled, Spelling.front]
    exact spelled_joined_joined lead (letters_text _) (letters_rest plain named spelled)

/-- The item is for the module, or for a function, a class or a member of a class of the graph. -/
def Of (graph : Graph) : Item → Prop
  | instanceStruct self | typeObject self | ofClass _ self | registerClass self =>
    ∃ owner ∈ graph.classes, owner.name = self
  | member .method self name | memberDoc .method self name =>
    ∃ owner ∈ graph.classes, owner.name = self ∧ name ∈ owner.methods.map (·.name)
  | member _ self name | memberDoc _ self name =>
    ∃ owner ∈ graph.classes, owner.name = self ∧ name ∈ owner.properties.map (·.name)
  | function name | functionDoc name => name ∈ graph.functions.map (·.name)
  | ofModule _ | creation | registerModule => True

theorem Of.identifiers {graph : Graph} (of : item.Of graph) (identified : graph.Identified) :
    ∀ name ∈ item.namedFor, isIdentifier name = true := by
  have classes : ∀ self, (∃ owner ∈ graph.classes, owner.name = self) → isIdentifier self = true := by
    rintro _ ⟨owner, listed, rfl⟩
    exact (identified.classes owner listed).identifier
  have methods : ∀ self name, (∃ owner ∈ graph.classes, owner.name = self ∧ name ∈ owner.methods.map (·.name)) →
      ∀ part ∈ [self, name], isIdentifier part = true := by
    rintro _ name ⟨owner, listed, rfl, own⟩
    obtain ⟨method, declared, rfl⟩ := List.mem_map.mp own
    simpa using ⟨(identified.classes owner listed).identifier, identified.methods owner listed method declared⟩
  have properties : ∀ self name,
      (∃ owner ∈ graph.classes, owner.name = self ∧ name ∈ owner.properties.map (·.name)) →
      ∀ part ∈ [self, name], isIdentifier part = true := by
    rintro _ name ⟨owner, listed, rfl, own⟩
    obtain ⟨property, declared, rfl⟩ := List.mem_map.mp own
    simpa using ⟨(identified.classes owner listed).identifier, identified.properties owner listed property declared⟩
  cases item with
  | instanceStruct self | typeObject self | ofClass role self | registerClass self =>
    simpa [namedFor] using classes self of
  | member role self name | memberDoc role self name =>
    cases role with
    | method => exact methods self name of
    | getter | setter => exact properties self name of
  | function name | functionDoc name =>
    obtain ⟨function, listed, rfl⟩ := List.mem_map.mp of
    simpa [namedFor] using identified.functions function listed
  | ofModule | creation | registerModule => exact List.forall_mem_nil _

end Item

/-! ### Symbols of parts -/

/-- The function that a class calls for a fragment of its own. -/
inductive Hook where
  | new
  | free
  | copy

def Hook.symbol (symbols : ClassSymbols) : Hook → String
  | new => symbols.onNew
  | free => symbols.onFree
  | copy => symbols.onCopy

def Hook.word : Hook → String
  | new => "new"
  | free => "free"
  | copy => "copy"

theorem Hook.symbol_eq (symbols : ClassSymbols) (hook : Hook) :
    hook.symbol symbols = joined (joined symbols.stem "on") hook.word := by
  apply String.toList_inj.mp
  cases hook <;>
    simp [symbol, word, ClassSymbols.onNew, ClassSymbols.onFree, ClassSymbols.onCopy, toList_joined]

theorem Hook.spelled_symbol {symbols : ClassSymbols} (stem : isIdentifier symbols.stem = true) (hook : Hook) :
    Spelled (hook.symbol symbols) := by
  have letters : Letters hook.word := by cases hook <;> decide
  rw [symbol_eq]
  exact spelled_joined_joined stem (by decide) letters

namespace Part

/-- The parts that define what a part refers to. -/
def refersTo (graph : Graph) : Part → List Part
  | .forward self => [.struct self, .typeObject self, .lifecycle self]
  | .method self _ | .property self _ => [.struct self]
  | .comparison self => .struct self :: self.includedMethods.map (.method self)
  | .lifecycle self => [.struct self, .typeObject self]
  | .methodTable self | .numberTable self | .sequenceTable self => self.includedMethods.map (.method self)
  | .accessorTable self => self.includedProperties.map (.property self)
  | .typeObject self =>
    [.struct self, .lifecycle self, .classDoc self, .methodTable self, .accessorTable self, .numberTable self,
      .sequenceTable self, .comparison self] ++ self.includedMethods.map (.method self)
  | .functionTable => graph.includedFunctions.map .function
  | .moduleDef => [.moduleDoc, .functionTable]
  | .registration self => [.typeObject self]
  | .creation => .moduleDef :: graph.includedClasses.map .registration
  | .entryPoint => [.creation]
  | .opening | .struct _ | .moduleDoc | .function _ | .classDoc _ | .closing => []

/-- The part is about the module, or about a function, a class or a member of a class of the graph. -/
def Of (graph : Graph) : Part → Prop
  | .function entity => entity ∈ graph.functions
  | .method self member => self ∈ graph.classes ∧ member ∈ self.methods
  | .property self member => self ∈ graph.classes ∧ member ∈ self.properties
  | .forward self | .struct self | .classDoc self | .comparison self | .lifecycle self | .methodTable self
  | .accessorTable self | .numberTable self | .sequenceTable self | .typeObject self | .registration self =>
    self ∈ graph.classes
  | .opening | .moduleDoc | .functionTable | .moduleDef | .closing | .creation | .entryPoint => True

variable {graph : Graph} {part other : Part} {item : Item}

theorem of_mem_parts (listed : part ∈ parts graph) : part.Of graph := by
  have included : ∀ self ∈ graph.includedClasses, self ∈ graph.classes := fun _ member => (List.mem_filter.mp member).1
  have known := included_of_mem_parts listed
  cases part with
  | function entity => exact (List.mem_filter.mp known).1
  | method self member => exact ⟨included self known.1, (List.mem_filter.mp known.2).1⟩
  | property self member => exact ⟨included self known.1, (List.mem_filter.mp known.2).1⟩
  | opening | moduleDoc | functionTable | moduleDef | closing | creation | entryPoint => trivial
  | _ self => exact included self (by simpa [parts, innerParts, outerParts, bodyParts, tableParts] using listed)

theorem Of.refersTo (of : part.Of graph) (refers : other ∈ part.refersTo graph) : other.Of graph := by
  have members : ∀ self ∈ graph.classes, other ∈ self.includedMethods.map (.method self) → other.Of graph := by
    intro self listed refers
    obtain ⟨member, own, rfl⟩ := List.mem_map.mp refers
    exact ⟨listed, (List.mem_filter.mp own).1⟩
  cases part with
  | opening | struct | moduleDoc | function | classDoc | closing => cases refers
  | forward self =>
    simp only [Part.refersTo, List.mem_cons, List.not_mem_nil, or_false] at refers
    rcases refers with rfl | rfl | rfl <;> exact of
  | method self | property self =>
    cases List.mem_singleton.mp refers
    exact of.1
  | comparison self =>
    rcases List.mem_cons.mp refers with rfl | listed
    · exact of
    · exact members self of listed
  | lifecycle self => rcases List.mem_pair.mp refers with rfl | rfl <;> exact of
  | methodTable self | numberTable self | sequenceTable self => exact members self of refers
  | accessorTable self =>
    obtain ⟨member, own, rfl⟩ := List.mem_map.mp refers
    exact ⟨of, (List.mem_filter.mp own).1⟩
  | typeObject self =>
    rcases List.mem_append.mp refers with fixed | listed
    · simp only [List.mem_cons, List.not_mem_nil, or_false] at fixed
      rcases fixed with rfl | rfl | rfl | rfl | rfl | rfl | rfl | rfl <;> exact of
    · exact members self of listed
  | functionTable =>
    obtain ⟨entity, listed, rfl⟩ := List.mem_map.mp refers
    exact (List.mem_filter.mp listed).1
  | moduleDef => rcases List.mem_pair.mp refers with rfl | rfl <;> trivial
  | registration self =>
    cases List.mem_singleton.mp refers
    exact of
  | creation =>
    rcases List.mem_cons.mp refers with rfl | listed
    · trivial
    · obtain ⟨self, included, rfl⟩ := List.mem_map.mp listed
      exact (List.mem_filter.mp included).1
  | entryPoint =>
    cases List.mem_singleton.mp refers
    trivial

theorem Of.of_mem_items (of : part.Of graph) (listed : item ∈ part.items) : item.Of graph := by
  cases part with
  | opening | forward | closing => cases listed
  | function entity =>
    rcases List.mem_pair.mp listed with rfl | rfl <;> exact List.mem_map_of_mem of
  | method self member =>
    rcases List.mem_pair.mp listed with rfl | rfl <;> exact ⟨self, of.1, rfl, List.mem_map_of_mem of.2⟩
  | property self member =>
    simp only [Part.items, List.mem_cons, List.not_mem_nil, or_false] at listed
    rcases listed with rfl | rfl | rfl <;> exact ⟨self, of.1, rfl, List.mem_map_of_mem of.2⟩
  | lifecycle self =>
    simp only [Part.items, List.mem_cons, List.not_mem_nil, or_false] at listed
    rcases listed with rfl | rfl | rfl <;> exact ⟨self, of, rfl⟩
  | moduleDoc | functionTable | moduleDef | creation | entryPoint =>
    cases List.mem_singleton.mp listed
    trivial
  | _ self =>
    cases List.mem_singleton.mp listed
    exact ⟨self, of, rfl⟩

end Part

/-- A symbol that rendering defines or refers to. -/
inductive Uses (context : Context) : String → Prop
  | defines {part provision} (listed : part ∈ parts context.graph) (member : provision ∈ part.provisions context) :
      Uses context (provision.item.name context)
  | refers {part other provision} (listed : part ∈ parts context.graph)
      (refers : other ∈ part.refersTo context.graph) (member : provision ∈ other.provisions context) :
      Uses context (provision.item.name context)
  | hook {self} (hook : Hook) (listed : self ∈ context.graph.includedClasses) :
      Uses context (hook.symbol (classSymbols context self))
  /-- The interface declares the function that makes the module known. -/
  | interface : Uses context (Item.registerModule.name context)
  | tag {self kind object item} (listed : self ∈ context.graph.includedClasses)
      (mentioned : .symbol item ∈ mentions kind self.name object) : Uses context (item.name context)
  /-- A tag can stand for the bare name of a class. -/
  | name {self} (listed : self ∈ context.graph.includedClasses) : Uses context self.name

theorem Uses.spelled {context : Context} {symbol : String} (uses : Uses context symbol)
    (identified : context.graph.Identified) (stem : isIdentifier context.options.stem = true) : Spelled symbol := by
  have items : ∀ item : Item, item.Of context.graph → Spelled (item.name context) := fun item of =>
    Item.spelled_symbol stem identified.module.identifier (of.identifiers identified)
  have included : ∀ self ∈ context.graph.includedClasses, self ∈ context.graph.classes :=
    fun self listed => (List.mem_filter.mp listed).1
  have provisions : ∀ part : Part, part.Of context.graph → ∀ provision ∈ part.provisions context,
      Spelled (provision.item.name context) := by
    intro part of provision member
    have listed : provision.item ∈ part.items := map_item_provisions context part ▸ List.mem_map_of_mem member
    exact items _ (of.of_mem_items listed)
  cases uses with
  | defines listed member => exact provisions _ (Part.of_mem_parts listed) _ member
  | refers listed refers member => exact provisions _ ((Part.of_mem_parts listed).refersTo refers) _ member
  | hook hook => exact hook.spelled_symbol stem
  | interface => exact items _ trivial
  | @tag self kind object item listed mentioned =>
    have offered := @item_mem_handles context kind self object item mentioned
    change item ∈ [.instanceStruct self.name, .typeObject self.name, .ofClass .new self.name,
      .ofClass .copy self.name] at offered
    simp only [List.mem_cons, List.not_mem_nil, or_false] at offered
    rcases offered with rfl | rfl | rfl | rfl <;> exact items _ ⟨self, included self listed, rfl⟩
  | name listed => exact identified.classes _ (included _ listed)

/-- Whatever the name of the files is, the macro that guards the interface is spelled in C. -/
theorem spelled_includeGuard (name : String) : Spelled (includeGuard name) := by
  have letters : Letters (name.map fun c => if c.isAlphanum then c.toUpper else '_') := by
    rw [Letters, String.toList_map, List.all_map, List.all_eq_true]
    intro c _
    dsimp only [Function.comp]
    split
    · exact isWordChar_toUpper ‹_›
    · decide
  have whole : includeGuard name =
      joined (joined "QUILL" (name.map fun c => if c.isAlphanum then c.toUpper else '_')) "H" := by
    apply String.toList_inj.mp
    simp [includeGuard, toList_joined]
  rw [whole]
  exact spelled_joined_joined (by decide) letters (by decide)

end Render

end DocWeave
