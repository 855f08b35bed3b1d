import DocWeave.Extension.Symbols
import DocWeave.Proofs.Text.Underscores
import Mathlib.Data.List.Nodup

/-!
# Symbols that clash

A symbol is joined of a leading word, a role and the names of what it stands for. Names may have underscores and may
spell roles, so symbols of different things can be equal. This happens in a few ways only.
-/

namespace DocWeave.Render

open Extension

/-! ### What has a symbol -/

/-- What a class has once, besides its struct and its type object. -/
inductive ClassRole where
  | new
  | dealloc
  | copy
  | comparison
  | methods
  | accessors
  | numbers
  | sequence
  | doc
  deriving DecidableEq

/-- What a class has for a member. -/
inductive MemberRole where
  | method
  | getter
  | setter
  deriving DecidableEq

/-- What describes the module. -/
inductive ModuleRole where
  | definition
  | methods
  | doc
  deriving DecidableEq

/-- The word behind the lead of a symbol. -/
inductive Word where
  | ofClass (role : ClassRole)
  | member (role : MemberRole)
  | function
  | module
  | creation
  | registration
  deriving DecidableEq

def Word.text : Word → String
  | ofClass .new => "new"
  | ofClass .dealloc => "dealloc"
  | ofClass .copy => "copy"
  | ofClass .comparison => "richcompare"
  | ofClass .methods => "methods"
  | ofClass .accessors => "getset"
  | ofClass .numbers => "number"
  | ofClass .sequence => "sequence"
  | ofClass .doc => "doc"
  | member .method => "method"
  | member .getter => "get"
  | member .setter => "set"
  | function => "function"
  | module => "module"
  | creation => "create"
  | registration => "class"

/-- Every word. -/
def Word.all : List Word :=
  [ofClass .new, ofClass .dealloc, ofClass .copy, ofClass .comparison, ofClass .methods, ofClass .accessors,
    ofClass .numbers, ofClass .sequence, ofClass .doc, member .method, member .getter, member .setter, function,
    module, creation, registration]

theorem Word.mem_all (word : Word) : word ∈ all := by
  rcases word with role | role | _ | _ | _ | _ <;> try cases role
  all_goals decide

theorem Word.text_injective : Function.Injective Word.text := by
  have distinct : (all.map text).Nodup := by decide +kernel
  intro word other same
  exact List.inj_on_of_nodup_map distinct (mem_all word) (mem_all other) same

theorem Word.single_text (word : Word) : Single word.text := by
  have single : ∀ word ∈ all, Single word.text := by decide +kernel
  exact single word (mem_all word)

theorem Word.text_ne_type (word : Word) : word.text ≠ "type" := by
  have other : ∀ word ∈ all, word.text ≠ "type" := by decide +kernel
  exact other word (mem_all word)

/-- What an implementation may define: for a class, a member, a function or the module. -/
inductive Item where
  | instanceStruct (self : String)
  | typeObject (self : String)
  | ofClass (role : ClassRole) (self : String)
  | member (role : MemberRole) (self name : String)
  | memberDoc (role : MemberRole) (self name : String)
  | function (name : String)
  | functionDoc (name : String)
  | ofModule (role : ModuleRole)
  | creation
  | registerClass (self : String)
  | registerModule
  deriving DecidableEq

def ClassRole.symbol (symbols : ClassSymbols) : ClassRole → String
  | new => symbols.newFunction
  | dealloc => symbols.deallocFunction
  | copy => symbols.copyFunction
  | comparison => symbols.compareFunction
  | methods => symbols.methodTable
  | accessors => symbols.accessorTable
  | numbers => symbols.numberTable
  | sequence => symbols.sequenceTable
  | doc => symbols.doc

def MemberRole.symbol (symbols : ClassSymbols) (name : String) : MemberRole → String
  | method => symbols.method name
  | getter => symbols.getter name
  | setter => symbols.setter name

def ModuleRole.symbol (symbols : Symbols) (module : String) : ModuleRole → String
  | definition => symbols.moduleDef module
  | methods => symbols.moduleMethods module
  | doc => symbols.moduleDoc module

/-- What stands behind the word. -/
def ModuleRole.rest (module : String) : ModuleRole → String
  | definition => module
  | methods => joined "methods" module
  | doc => joined "doc" module

theorem ClassRole.symbol_eq (symbols : ClassSymbols) (role : ClassRole) :
    role.symbol symbols = symbols.role (Word.ofClass role).text := by
  cases role <;> rfl

theorem MemberRole.symbol_eq (symbols : ClassSymbols) (name : String) (role : MemberRole) :
    role.symbol symbols name = joined (symbols.role (Word.member role).text) name := by
  cases role <;> rfl

theorem ModuleRole.symbol_eq (symbols : Symbols) (module : String) (role : ModuleRole) :
    role.symbol symbols module = joined (joined symbols.stem Word.module.text) (role.rest module) := by
  apply String.toList_inj.mp
  cases role <;> simp [symbol, rest, Word.text, Symbols.moduleDef, Symbols.moduleMethods, Symbols.moduleDoc,
    toList_joined]

theorem ModuleRole.rest_inj {module : String} {role other : ModuleRole} :
    role.rest module = other.rest module ↔ role = other := by
  have methods := ne_joined_right "methods" module
  have doc := ne_joined_right "doc" module
  cases role <;> cases other <;>
    simp [rest, joined_right_inj, methods, methods.symm, doc, doc.symm]

/-- A symbol in three parts. -/
structure Spelling where
  lead : String
  word : Word
  rest : String

def Spelling.front (spelling : Spelling) : String :=
  joined spelling.lead spelling.word.text

namespace Item

variable (symbols : Symbols) (module : String)

def symbol : Item → String
  | instanceStruct self => (symbols.forClass self).instanceStruct
  | typeObject self => (symbols.forClass self).typeStruct
  | ofClass role self => role.symbol (symbols.forClass self)
  | member role self name => role.symbol (symbols.forClass self) name
  | memberDoc role self name => Symbols.docOf (role.symbol (symbols.forClass self) name)
  | function name => symbols.function name
  | functionDoc name => Symbols.docOf (symbols.function name)
  | ofModule role => role.symbol symbols module
  | creation => symbols.createModule module
  | registerClass self => (symbols.forClass self).registerFunction
  | registerModule => Symbols.registerModule module

/-- The parts of a symbol. The structs of a class begin with its name, so they have none. -/
def spelling? : Item → Option Spelling
  | instanceStruct _ | typeObject _ => none
  | ofClass role self => some ⟨symbols.stem, .ofClass role, self⟩
  | member role self name => some ⟨symbols.stem, .member role, joined self name⟩
  | memberDoc role self name => some ⟨symbols.stem, .member role, joined (joined self name) "doc"⟩
  | function name => some ⟨symbols.stem, .function, name⟩
  | functionDoc name => some ⟨symbols.stem, .function, joined name "doc"⟩
  | ofModule role => some ⟨symbols.stem, .module, role.rest module⟩
  | creation => some ⟨symbols.stem, .creation, joined "module" module⟩
  | registerClass self => some ⟨"initialize", .registration, self⟩
  | registerModule => some ⟨"initialize", .module, module⟩

/-- Whether the function registers a class or the module. The symbols of these do not begin with the stem. -/
def registers : Item → Bool
  | registerClass _ | registerModule => true
  | _ => false

variable {symbols module} {item : Item} {spelling : Spelling}

theorem symbol_instanceStruct (self : String) : (instanceStruct self).symbol symbols module = joined self "struct" := by
  apply String.toList_inj.mp
  simp [symbol, ClassSymbols.instanceStruct, Symbols.forClass, toList_joined]

theorem symbol_typeObject (self : String) :
    (typeObject self).symbol symbols module = joined self (joined "type" "struct") := by
  apply String.toList_inj.mp
  simp [symbol, ClassSymbols.typeStruct, Symbols.forClass, toList_joined]

theorem role_forClass (what self : String) :
    (symbols.forClass self).role what = joined (joined symbols.stem what) self := rfl

theorem docOf_eq (name : String) : Symbols.docOf name = joined name "doc" := by
  apply String.toList_inj.mp
  simp [Symbols.docOf, toList_joined]

theorem function_eq (name : String) : symbols.function name = joined (joined symbols.stem "function") name := by
  apply String.toList_inj.mp
  simp [Symbols.function, toList_joined]

theorem creation_eq : symbols.createModule module = joined (joined symbols.stem "create") (joined "module" module) := by
  apply String.toList_inj.mp
  simp [Symbols.createModule, toList_joined]

theorem registerFunction_eq (self : String) :
    (symbols.forClass self).registerFunction = joined (joined "initialize" "class") self := by
  have front : "initialize_class_" = joined "initialize" "class" ++ "_" := by decide
  exact congrArg (· ++ self) front

theorem registerModule_eq : Symbols.registerModule module = joined (joined "initialize" "module") module := by
  have front : "initialize_module_" = joined "initialize" "module" ++ "_" := by decide
  exact congrArg (· ++ module) front

theorem symbol_eq (spelled : item.spelling? symbols module = some spelling) :
    item.symbol symbols module = joined spelling.front spelling.rest := by
  cases item with
  | instanceStruct self => cases spelled
  | typeObject self => cases spelled
  | ofClass role self =>
    cases spelled
    rw [symbol, ClassRole.symbol_eq, role_forClass, Spelling.front]
  | member role self name =>
    cases spelled
    rw [symbol, MemberRole.symbol_eq, role_forClass, Spelling.front, joined_assoc _ self]
  | memberDoc role self name =>
    cases spelled
    rw [symbol, docOf_eq, MemberRole.symbol_eq, role_forClass, Spelling.front, joined_assoc _ self, joined_assoc]
  | ofModule role =>
    cases spelled
    rw [symbol, ModuleRole.symbol_eq, Spelling.front]
  | function name =>
    cases spelled
    rw [symbol, function_eq, Spelling.front]
    rfl
  | functionDoc name =>
    cases spelled
    rw [symbol, docOf_eq, function_eq, Spelling.front, joined_assoc]
    rfl
  | creation =>
    cases spelled
    rw [symbol, creation_eq, Spelling.front]
    rfl
  | registerClass self =>
    cases spelled
    rw [symbol, registerFunction_eq, Spelling.front]
    rfl
  | registerModule =>
    cases spelled
    rw [symbol, registerModule_eq, Spelling.front]
    rfl

theorem lead_eq (spelled : item.spelling? symbols module = some spelling) :
    spelling.lead = if item.registers then "initialize" else symbols.stem := by
  cases item <;> cases spelled <;> rfl

/-- Only the structs of a class have no parts. -/
theorem spelling?_eq_none (missing : item.spelling? symbols module = none) :
    ∃ self, item = instanceStruct self ∨ item = typeObject self := by
  cases item with
  | instanceStruct self => exact ⟨self, .inl rfl⟩
  | typeObject self => exact ⟨self, .inr rfl⟩
  | _ => cases missing

end Item

/-! ### Clashes -/

/-- The name of a class begins with the front of a symbol, and its further names are the rest, up to the ending. -/
def Covers (name : String) (spelling : Spelling) (ending : String) : Prop :=
  (name = spelling.front ∧ spelling.rest = ending) ∨
    ∃ middle, name = joined spelling.front middle ∧ spelling.rest = joined middle ending

/-- The ways in which two items get one symbol. -/
inductive Clash (symbols : Symbols) (module : String) : Item → Item → Prop
  /-- A class is named for the type of another. -/
  | structs {other} : Clash symbols module (.instanceStruct (joined other "type")) (.typeObject other)
  /-- The names of a class and its member join to the same as those of others. -/
  | members {role self name other further} (different : self ≠ other)
      (same : joined self name = joined other further) :
      Clash symbols module (.member role self name) (.member role other further)
  | memberDocs {role self name other further} (different : self ≠ other)
      (same : joined self name = joined other further) :
      Clash symbols module (.memberDoc role self name) (.memberDoc role other further)
  /-- A member is named for the description of another. -/
  | memberDoc {role self name other further} (same : joined self name = joined (joined other further) "doc") :
      Clash symbols module (.member role self name) (.memberDoc role other further)
  | functionDoc {name} : Clash symbols module (.function (joined name "doc")) (.functionDoc name)
  /-- A class is named for something else, the name of which ends like that of a struct. -/
  | instanceStruct {self item spelling} (spelled : item.spelling? symbols module = some spelling)
      (covers : Covers self spelling "struct") : Clash symbols module (.instanceStruct self) item
  | typeObject {self item spelling} (spelled : item.spelling? symbols module = some spelling)
      (covers : Covers self spelling (joined "type" "struct")) : Clash symbols module (.typeObject self) item
  /-- The stem is the lead of the symbols without a stem. -/
  | modules (stem : symbols.stem = "initialize") :
      Clash symbols module (.ofModule .definition) .registerModule
  /-- What begins with the stem and a role goes on from a symbol without a stem. -/
  | registers {item other spelling behind middle} (stem : item.registers = false) (bare : other.registers = true)
      (spelled : item.spelling? symbols module = some spelling)
      (second : other.spelling? symbols module = some behind)
      (front : spelling.front = joined behind.front middle) (rest : behind.rest = joined middle spelling.rest) :
      Clash symbols module item other

variable {symbols : Symbols} {module : String} {item other : Item} {spelling behind : Spelling}

theorem Covers.joined_eq {name ending : String} (covers : Covers name spelling ending) :
    joined name ending = joined spelling.front spelling.rest := by
  rcases covers with ⟨rfl, same⟩ | ⟨middle, rfl, same⟩
  · rw [same]
  · rw [same, joined_assoc]

theorem Clash.symbol_eq (clash : Clash symbols module item other) :
    item.symbol symbols module = other.symbol symbols module := by
  cases clash with
  | structs => rw [Item.symbol_instanceStruct, Item.symbol_typeObject, joined_assoc]
  | members _ same => rw [Item.symbol_eq rfl, Item.symbol_eq rfl, same]
  | memberDocs _ same => rw [Item.symbol_eq rfl, Item.symbol_eq rfl, same]
  | memberDoc same => rw [Item.symbol_eq rfl, Item.symbol_eq rfl, same]
  | functionDoc => rw [Item.symbol_eq rfl, Item.symbol_eq rfl]
  | instanceStruct spelled covers => rw [Item.symbol_instanceStruct, Item.symbol_eq spelled, covers.joined_eq]
  | typeObject spelled covers => rw [Item.symbol_typeObject, Item.symbol_eq spelled, covers.joined_eq]
  | modules stem => rw [Item.symbol_eq rfl, Item.symbol_eq rfl, Spelling.front, stem]; rfl
  | registers _ _ spelled other front rest =>
    rw [Item.symbol_eq spelled, Item.symbol_eq other, front, rest, joined_assoc]

/-- Behind the same front, only the names can join to the same. -/
theorem clash_of_word_eq (spelled : item.spelling? symbols module = some spelling)
    (second : other.spelling? symbols module = some behind) (registers : item.registers = other.registers)
    (word : spelling.word = behind.word) (rest : spelling.rest = behind.rest) :
    item = other ∨ Clash symbols module item other ∨ Clash symbols module other item := by
  cases item <;> cases other <;> cases spelled <;> cases second <;> cases word
  case ofClass.ofClass =>
    cases rest
    exact .inl rfl
  case member.member role self name other further =>
    by_cases same : self = other
    · subst same
      cases joined_left_inj.mp rest
      exact .inl rfl
    · exact .inr (.inl (.members same rest))
  case member.memberDoc => exact .inr (.inl (.memberDoc rest))
  case memberDoc.member => exact .inr (.inr (.memberDoc rest.symm))
  case memberDoc.memberDoc role self name other further =>
    have names := joined_right_inj.mp rest
    by_cases same : self = other
    · subst same
      cases joined_left_inj.mp names
      exact .inl rfl
    · exact .inr (.inl (.memberDocs same names))
  case function.function =>
    cases rest
    exact .inl rfl
  case function.functionDoc =>
    cases rest
    exact .inr (.inl .functionDoc)
  case functionDoc.function =>
    cases rest
    exact .inr (.inr .functionDoc)
  case functionDoc.functionDoc =>
    cases joined_right_inj.mp rest
    exact .inl rfl
  case ofModule.ofModule =>
    cases ModuleRole.rest_inj.mp rest
    exact .inl rfl
  case ofModule.registerModule => cases registers
  case registerModule.ofModule => cases registers
  case creation.creation => exact .inl rfl
  case registerClass.registerClass =>
    cases rest
    exact .inl rfl
  case registerModule.registerModule => exact .inl rfl

/-- A front ends in a word, so it can be compared word by word. -/
theorem front_eq_front_iff :
    spelling.front = behind.front ↔ spelling.lead = behind.lead ∧ spelling.word = behind.word := by
  constructor
  · intro same
    rcases (joined_eq_joined_of_single_right (Word.single_text _)).mp same with ⟨lead, word⟩ | ⟨middle, _, word⟩
    · exact ⟨lead, Word.text_injective word.symm⟩
    · exact absurd (word ▸ Word.single_text behind.word) (not_single_joined _ _)
  · rintro ⟨lead, word⟩
    rw [Spelling.front, Spelling.front, lead, word]

/-- The only symbol of the module with the word of a registration is its definition. -/
theorem eq_modules (spelled : item.spelling? symbols module = some spelling)
    (second : other.spelling? symbols module = some behind) (stem : item.registers = false)
    (bare : other.registers = true) (word : spelling.word = behind.word) (rest : spelling.rest = behind.rest) :
    item = .ofModule .definition ∧ other = .registerModule := by
  cases other with
  | registerClass self =>
    cases second
    cases item with
    | registerClass => cases stem
    | _ => cases spelled <;> cases word
  | registerModule =>
    cases second
    cases item with
    | ofModule role =>
      cases spelled
      have definition : role.rest module = ModuleRole.definition.rest module := rest
      cases ModuleRole.rest_inj.mp definition
      exact ⟨rfl, rfl⟩
    | registerModule => cases stem
    | _ => cases spelled <;> cases word
  | _ => cases bare

theorem clash_of_registers (spelled : item.spelling? symbols module = some spelling)
    (second : other.spelling? symbols module = some behind) (stem : item.registers = false)
    (bare : other.registers = true)
    (same : joined spelling.front spelling.rest = joined behind.front behind.rest) :
    Clash symbols module item other := by
  have lead := Item.lead_eq second
  rw [bare, if_pos rfl] at lead
  rcases joined_eq_joined_iff.mp same with ⟨fronts, rests⟩ | ⟨middle, longer, rests⟩ | ⟨middle, shorter, _⟩
  · obtain ⟨leads, words⟩ := front_eq_front_iff.mp fronts
    obtain ⟨rfl, rfl⟩ := eq_modules spelled second stem bare words rests
    have own := Item.lead_eq spelled
    exact .modules (own.symm.trans (leads.trans lead))
  · exact .registers stem bare spelled second longer rests
  · -- The front of a registration has two words, so nothing can stand between the stem and them.
    rw [Spelling.front, Spelling.front, lead, joined_assoc] at shorter
    have single : Single "initialize" := by decide
    rcases joined_eq_joined_iff.mp shorter with ⟨_, word⟩ | ⟨_, longer, _⟩ | ⟨_, _, word⟩
    · exact absurd (word ▸ Word.single_text behind.word) (not_single_joined _ _)
    · exact absurd (longer ▸ single) (not_single_joined _ _)
    · exact absurd (word ▸ Word.single_text behind.word) (not_single_joined _ _)

theorem clash_of_spelled (spelled : item.spelling? symbols module = some spelling)
    (second : other.spelling? symbols module = some behind)
    (same : joined spelling.front spelling.rest = joined behind.front behind.rest) :
    item = other ∨ Clash symbols module item other ∨ Clash symbols module other item := by
  cases own : item.registers <;> cases others : other.registers
  case false.true => exact .inr (.inl (clash_of_registers spelled second own others same))
  case true.false => exact .inr (.inr (clash_of_registers second spelled others own same.symm))
  all_goals
    have leads : spelling.lead = behind.lead := by
      rw [Item.lead_eq spelled, Item.lead_eq second, own, others]
    rw [Spelling.front, Spelling.front, leads, joined_assoc, joined_assoc, joined_left_inj,
      joined_eq_joined_of_single (Word.single_text _) (Word.single_text _)] at same
    exact clash_of_word_eq spelled second (own.trans others.symm) (Word.text_injective same.1) same.2

theorem covers_struct {name : String} (same : joined name "struct" = joined spelling.front spelling.rest) :
    Covers name spelling "struct" :=
  (joined_eq_joined_of_single_right (by decide)).mp same

theorem covers_type {name : String}
    (same : joined name (joined "type" "struct") = joined spelling.front spelling.rest) :
    Covers name spelling (joined "type" "struct") := by
  rcases joined_eq_joined_iff.mp same with ⟨whole, rest⟩ | nested | ⟨middle, front, rest⟩
  · exact .inl ⟨whole, rest.symm⟩
  · exact .inr nested
  · -- The ending has two words, so the first one would be the word at the end of the front.
    have struct : Single "struct" := by decide
    have type : Single "type" := by decide
    rcases (joined_eq_joined_of_single_right struct).mp rest with ⟨rfl, _⟩ | ⟨_, twice, _⟩
    · rcases (joined_eq_joined_of_single_right type).mp front.symm with ⟨_, word⟩ | ⟨_, _, word⟩
      · exact absurd word (Word.text_ne_type _)
      · exact absurd (word ▸ Word.single_text spelling.word) (not_single_joined _ _)
    · exact absurd (twice ▸ type) (not_single_joined _ _)

theorem clash_of_struct {self : String}
    (same : (Item.instanceStruct self).symbol symbols module = item.symbol symbols module) :
    .instanceStruct self = item ∨ Clash symbols module (.instanceStruct self) item := by
  cases parts : item.spelling? symbols module with
  | some spelling =>
    rw [Item.symbol_instanceStruct, Item.symbol_eq parts] at same
    exact .inr (.instanceStruct parts (covers_struct same))
  | none =>
    obtain ⟨other, rfl | rfl⟩ := Item.spelling?_eq_none parts
    · rw [Item.symbol_instanceStruct, Item.symbol_instanceStruct, joined_right_inj] at same
      exact .inl (congrArg Item.instanceStruct same)
    · rw [Item.symbol_instanceStruct, Item.symbol_typeObject, ← joined_assoc, joined_right_inj] at same
      subst same
      exact .inr .structs

theorem clash_of_typeObject {self : String}
    (same : (Item.typeObject self).symbol symbols module = item.symbol symbols module) :
    .typeObject self = item ∨ Clash symbols module (.typeObject self) item ∨
      Clash symbols module item (.typeObject self) := by
  cases parts : item.spelling? symbols module with
  | some spelling =>
    rw [Item.symbol_typeObject, Item.symbol_eq parts] at same
    exact .inr (.inl (.typeObject parts (covers_type same)))
  | none =>
    obtain ⟨other, rfl | rfl⟩ := Item.spelling?_eq_none parts
    · rcases clash_of_struct same.symm with equal | clash
      · cases equal
      · exact .inr (.inr clash)
    · rw [Item.symbol_typeObject, Item.symbol_typeObject, joined_right_inj] at same
      exact .inl (congrArg Item.typeObject same)

/-- Two items have the same symbol only if they are the same, or clash. -/
theorem symbol_eq_symbol_iff : item.symbol symbols module = other.symbol symbols module ↔
    item = other ∨ Clash symbols module item other ∨ Clash symbols module other item := by
  constructor
  · intro same
    cases parts : item.spelling? symbols module with
    | none =>
      obtain ⟨self, rfl | rfl⟩ := Item.spelling?_eq_none parts
      · exact (clash_of_struct same).imp_right .inl
      · exact clash_of_typeObject same
    | some spelling =>
      cases others : other.spelling? symbols module with
      | none =>
        obtain ⟨self, rfl | rfl⟩ := Item.spelling?_eq_none others
        · exact (clash_of_struct same.symm).imp Eq.symm .inr
        · exact (clash_of_typeObject same.symm).imp Eq.symm Or.symm
      | some behind =>
        rw [Item.symbol_eq parts, Item.symbol_eq others] at same
        exact clash_of_spelled parts others same
  · rintro (rfl | clash | clash)
    · rfl
    · exact clash.symbol_eq
    · exact clash.symbol_eq.symm

/-! ### Names without underscores -/

/-- The names that the symbol of an item is joined of. -/
def Item.names (module : String) : Item → List String
  | instanceStruct self | typeObject self | ofClass _ self | registerClass self => [self]
  | member _ self name | memberDoc _ self name => [self, name]
  | function name | functionDoc name => [name]
  | ofModule _ | creation | registerModule => [module]

theorem not_covers_of_single {name ending : String} (single : Single name) : ¬ Covers name spelling ending := by
  rintro (⟨rfl, _⟩ | ⟨middle, rfl, _⟩) <;> exact not_single_joined _ _ single

/-- Names without underscores only clash if the stem is the lead of a registration. -/
theorem not_clash_of_single (stem : symbols.stem ≠ "initialize") (own : ∀ name ∈ item.names module, Single name)
    (others : ∀ name ∈ other.names module, Single name) : ¬ Clash symbols module item other := by
  intro clash
  cases clash with
  | structs => exact not_single_joined _ _ (own _ List.mem_cons_self)
  | members different same | memberDocs different same =>
    have first := own _ List.mem_cons_self
    have second := others _ List.mem_cons_self
    exact different ((joined_eq_joined_of_single first second).mp same).1
  | memberDoc same =>
    have first := own _ List.mem_cons_self
    have second := others _ List.mem_cons_self
    have name := own _ (List.mem_cons_of_mem _ List.mem_cons_self)
    rw [joined_assoc, joined_eq_joined_of_single first second] at same
    exact not_single_joined _ _ (same.2 ▸ name)
  | functionDoc => exact not_single_joined _ _ (own _ List.mem_cons_self)
  | instanceStruct _ covers | typeObject _ covers => exact not_covers_of_single (own _ List.mem_cons_self) covers
  | modules same => exact stem same
  | registers _ registers _ spelled _ rest =>
    cases other with
    | registerClass self =>
      cases spelled
      have single : Single self := others _ List.mem_cons_self
      have whole : self = joined _ _ := rest
      exact not_single_joined _ _ (whole ▸ single)
    | registerModule =>
      cases spelled
      have single : Single module := others _ List.mem_cons_self
      have whole : module = joined _ _ := rest
      exact not_single_joined _ _ (whole ▸ single)
    | _ => cases registers

/-- Items with such names have different symbols. -/
theorem eq_of_symbol_eq (stem : symbols.stem ≠ "initialize") (own : ∀ name ∈ item.names module, Single name)
    (others : ∀ name ∈ other.names module, Single name)
    (same : item.symbol symbols module = other.symbol symbols module) : item = other := by
  rcases symbol_eq_symbol_iff.mp same with equal | clash | clash
  · exact equal
  · exact absurd clash (not_clash_of_single stem own others)
  · exact absurd clash (not_clash_of_single stem others own)

end DocWeave.Render
