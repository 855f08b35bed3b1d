import DocWeave.Proofs.Render.Handles
import DocWeave.Proofs.Tag.Meaning

/-!
# Tags in rendered code

A tag means an included class, and it is replaced by text in which every symbol is one that the implementation offers
for this class.
-/

namespace DocWeave

open Code Entity Extension Render Tag Text

/-- Members know the class that has them, and functions of the module have none. -/
structure Graph.Owned (graph : Graph) : Prop where
  functions : ∀ function ∈ graph.functions, function.owner = none
  methods : ∀ self ∈ graph.classes, ∀ method ∈ self.methods, method.owner = some self.name
  properties : ∀ self ∈ graph.classes, ∀ property ∈ self.properties, property.owner = self.name

section Renders

variable {graph : Graph} {owner? : Option Entity.Class} {site : Site} {fragment : Fragment}

theorem Graph.Renders.mem_of_eq_some {self : Entity.Class} (renders : graph.Renders owner? site fragment)
    (own : owner? = some self) : self ∈ graph.includedClasses := by
  cases renders with
  | module | function => cases own
  | ancestor listed | method listed | property listed =>
    cases own
    exact listed

/-- The place of a fragment tells the class whose code is written. -/
theorem Graph.Renders.defaultClass_eq (owned : graph.Owned) (renders : graph.Renders owner? site fragment) :
    site.defaultClass = owner?.map (·.name) := by
  cases renders with
  | module => rfl
  | function listed => exact owned.functions _ (List.mem_filter.mp listed).1
  | ancestor => rfl
  | method listed own => exact owned.methods _ (List.mem_filter.mp listed).1 _ (List.mem_filter.mp own).1
  | property listed own =>
    exact congrArg some (owned.properties _ (List.mem_filter.mp listed).1 _ (List.mem_filter.mp own).1)

theorem Render.ShowsFragment.exists_expanded {context : Context} {steps : List Step}
    (shown : ShowsFragment context steps site fragment) :
    ∃ text, context.scope.expand site fragment.body = .ok text := by
  obtain ⟨text, expanded, _⟩ := shown
  exact ⟨text, expanded⟩

/-- A fragment that is written has been expanded. -/
theorem Graph.Renders.exists_expanded {options : Options} {artifacts : Artifacts}
    (renders : graph.Renders owner? site fragment) (success : graph.render options = .ok artifacts) :
    ∃ text, (⟨graph, options⟩ : Context).scope.expand site fragment.body = .ok text := by
  obtain ⟨interface, _, _, interfaceMade, _, nested, _, _⟩ := render_eq_ok success
  obtain ⟨preamble, structs, functions, bodies, preambleMade, structsMade, functionsMade, bodiesMade, _⟩ := nested
  cases renders with
  | module supported found =>
    rcases List.mem_pair.mp supported with rfl | rfl
    · exact (shows_moduleFragment found preambleMade).exists_expanded
    · exact (shows_interfaceSteps found interfaceMade).exists_expanded
  | function listed found =>
    obtain ⟨_, made, _⟩ := exists_of_concat_ok functionsMade listed
    exact (shows_functionDefinition found made).exists_expanded
  | ancestor listed supported effective =>
    obtain ⟨_, made, _⟩ := exists_of_concat_ok structsMade listed
    exact (shows_structDefinition supported effective made).exists_expanded
  | method listed own found =>
    obtain ⟨_, made, _⟩ := exists_of_concat_ok bodiesMade listed
    exact (shows_method own found made).exists_expanded
  | property listed own found =>
    obtain ⟨_, made, _⟩ := exists_of_concat_ok bodiesMade listed
    exact (shows_property own found made).exists_expanded

/-- Rendering succeeds exactly if every fragment that it writes can be expanded. -/
theorem exists_render_eq_ok_iff {options : Options} : (∃ artifacts, graph.render options = .ok artifacts) ↔
    ∀ owner? site fragment, graph.Renders owner? site fragment →
      ∃ text, (⟨graph, options⟩ : Context).scope.expand site fragment.body = .ok text := by
  constructor
  · rintro ⟨artifacts, success⟩ owner? site fragment renders
    exact renders.exists_expanded success
  · intro each
    cases outcome : graph.render options with
    | ok artifacts => exact ⟨artifacts, rfl⟩
    | error fault =>
      obtain ⟨owner?, site, fragment, renders, failure⟩ := fails_of_render outcome
      obtain ⟨text, expanded⟩ := each owner? site fragment renders
      cases failure.symm.trans expanded

end Renders

namespace Render

/-! ### What a tag is replaced by -/

/-- A stretch of the text that a tag is replaced by. -/
inductive Mention where
  | text (s : String)
  | symbol (item : Item)

def Mention.written (context : Context) : Mention → String
  | text s => s
  | symbol item => item.name context

def spell (context : Context) (mentions : List Mention) : String :=
  String.join (mentions.map (·.written context))

/-- What is mentioned to see an object as an instance of a class. -/
def castMentions (self : String) (object : List Mention) : List Mention :=
  [.text "reinterpret_cast<", .symbol (.instanceStruct self), .text "*>("] ++ object ++ [.text ")"]

/-- What a tag mentions, given the names of its class and its object. -/
def mentions (kind : Kind) (self object : String) : List Mention :=
  match kind with
  | .name => [.text self]
  | .struct => [.symbol (.instanceStruct self)]
  | .typeStruct => [.symbol (.typeObject self)]
  | .new =>
    castMentions self [.symbol (.ofClass .new self), .text "(&", .symbol (.typeObject self), .text ", NULL, NULL)"]
  | .copy => [.symbol (.ofClass .copy self), .text "("] ++ castMentions self [.text object] ++ [.text ")"]
  | .isInstance =>
    [.text "PyObject_TypeCheck(reinterpret_cast<PyObject*>(", .text object, .text "), &", .symbol (.typeObject self),
      .text ")"]
  | .cast => castMentions self [.text object]

theorem spell_append (context : Context) (first second : List Mention) :
    spell context (first ++ second) = spell context first ++ spell context second := by
  simp [spell]

@[simp]
theorem spell_singleton (context : Context) (mention : Mention) :
    spell context [mention] = mention.written context := by
  simp [spell]

theorem spell_castMentions (context : Context) (self : String) (object : List Mention) :
    spell context (castMentions self object) = (context.symbols.forClass self).castExpr (spell context object) := by
  change _ = "reinterpret_cast<" ++ (Item.instanceStruct self).name context ++ "*>(" ++ spell context object ++ ")"
  simp [castMentions, spell, Mention.written, String.append_assoc]

/-- A tag is replaced by what it mentions. -/
theorem expansion_eq_spell (context : Context) (kind : Kind) (self object : String) :
    kind.expansion (context.symbols.forClass self) object = spell context (mentions kind self object) := by
  cases kind with
  | name | struct | typeStruct =>
    rw [mentions, spell_singleton]
    rfl
  | new =>
    have call : spell context [.symbol (.ofClass .new self), .text "(&", .symbol (.typeObject self),
        .text ", NULL, NULL)"] = (Item.ofClass .new self).name context ++ "(&" ++ (Item.typeObject self).name context
        ++ ", NULL, NULL)" := by
      simp [spell, Mention.written, String.append_assoc]
    rw [mentions, spell_castMentions, call]
    rfl
  | copy =>
    have call : spell context [.symbol (.ofClass .copy self), .text "("] =
        (Item.ofClass .copy self).name context ++ "(" := by
      simp [spell, Mention.written]
    rw [mentions, spell_append, spell_append, call, spell_castMentions, spell_singleton, spell_singleton]
    rfl
  | isInstance =>
    change "PyObject_TypeCheck(reinterpret_cast<PyObject*>(" ++ object ++ "), &"
      ++ (Item.typeObject self).name context ++ ")" = _
    simp [spell, mentions, Mention.written, String.append_assoc]
  | cast =>
    rw [mentions, spell_castMentions, spell_singleton]
    rfl

/-- Whatever a tag mentions is offered for its class. -/
theorem item_mem_handles {context : Context} {kind : Kind} {self : Entity.Class} {object : String} {item : Item}
    (member : .symbol item ∈ mentions kind self.name object) : item ∈ (handles context self).map (·.item) := by
  change item ∈ [.instanceStruct self.name, .typeObject self.name, .ofClass .new self.name, .ofClass .copy self.name]
  cases kind <;> simp [mentions, castMentions] at member
  all_goals rcases member with rfl | rfl | rfl <;> simp

/-! ### Tags of a fragment -/

/-- In the code of a class, a tag means the class that it names, or else the class that has the code. -/
inductive MeansClass (owner? : Option Entity.Class) : Option String → Entity.Class → Prop
  | named {self} : MeansClass owner? (some self.name) self
  | own {self} (has : owner? = some self) : MeansClass owner? none self

/-- The tag means an included class, and the text offers everything that it mentions. -/
structure TagAgrees (context : Context) (owner? : Option Entity.Class) (site : Site) (word inner : List Char)
    (span : Span) (kind : Kind) (self : Entity.Class) (text : String) : Prop where
  known : Kind.ofWord? (String.ofList word) = some kind
  included : self ∈ context.graph.includedClasses
  means : MeansClass owner? (kind.named? inner) self
  replaced : context.scope.expandTag site word inner span =
    .ok (spell context (mentions kind self.name (objectOf inner)))
  mentioned : ∀ item, .symbol item ∈ mentions kind self.name (objectOf inner) →
    item ∈ (handles context self).map (·.item)
  offered : ∀ handle ∈ handles context self, handle.Holds context self text

/-- The fragment can be split into tokens, and every tag among them agrees with the text. -/
def TagsAgree (context : Context) (owner? : Option Entity.Class) (site : Site) (fragment : Fragment) (text : String) :
    Prop :=
  ∃ found, tokens fragment.body.toList = .ok found ∧ ∀ word inner span, .tag word inner span ∈ found →
    ∃ kind self, TagAgrees context owner? site word inner span kind self text

theorem exists_class_of_means {context : Context} {owner? : Option Entity.Class} {site : Site} {fragment : Fragment}
    {named : Option String} {target : String} (owned : context.graph.Owned)
    (renders : context.graph.Renders owner? site fragment) (means : context.scope.Means site named target) :
    ∃ self ∈ context.graph.includedClasses, self.name = target ∧ MeansClass owner? named self := by
  cases means with
  | named exported =>
    obtain ⟨self, found, included⟩ := (Option.any_eq_true _ _).mp exported
    obtain ⟨member, rfl⟩ := Graph.mem_of_class? found
    exact ⟨self, List.mem_filter.mpr ⟨member, included⟩, rfl, .named⟩
  | own default =>
    rw [renders.defaultClass_eq owned] at default
    obtain ⟨self, has, rfl⟩ := Option.map_eq_some_iff.mp default
    exact ⟨self, renders.mem_of_eq_some has, rfl, .own has⟩

theorem tagsAgree_of_renders {graph : Graph} {options : Options} {artifacts : Artifacts}
    {owner? : Option Entity.Class} {site : Site} {fragment : Fragment} (owned : graph.Owned) (coded : Coded graph)
    (success : graph.render options = .ok artifacts) (renders : graph.Renders owner? site fragment) :
    TagsAgree ⟨graph, options⟩ owner? site fragment artifacts.implementation := by
  obtain ⟨whole, succeeds⟩ := implementation_eq_parts success
  obtain ⟨text, expanded⟩ := renders.exists_expanded success
  obtain ⟨found, read, replaced⟩ := exists_tokens_of_expand expanded
  refine ⟨found, read, ?_⟩
  intro word inner span member
  obtain ⟨written, replaced⟩ := replaced word inner span member
  obtain ⟨kind, target, known, means, rfl⟩ := expandTag_eq_ok replaced
  obtain ⟨self, included, rfl, meansClass⟩ := exists_class_of_means owned renders means
  refine ⟨kind, self, known, included, meansClass, ?_, fun _ => item_mem_handles, ?_⟩
  · rw [replaced]
    exact congrArg Except.ok (expansion_eq_spell ⟨graph, options⟩ kind self.name (objectOf inner))
  · intro handle listed
    exact holds_of_mem_handles coded whole succeeds included listed

end Render

end DocWeave
