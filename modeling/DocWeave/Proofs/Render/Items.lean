import DocWeave.Proofs.Render.Provisions
import Mathlib.Data.List.Flatten

/-!
# The items of an implementation

If names tell the included entities apart, no item is defined twice.
-/

namespace DocWeave.Render

/-- Names tell the included entities apart. -/
structure Apart (graph : Graph) : Prop where
  functions : (graph.includedFunctions.map (·.name)).Nodup
  classes : (graph.includedClasses.map (·.name)).Nodup
  methods : ∀ self ∈ graph.includedClasses, (self.includedMethods.map (·.name)).Nodup
  properties : ∀ self ∈ graph.includedClasses, (self.includedProperties.map (·.name)).Nodup

/-- What an implementation defines, in the order of its parts. -/
def items (context : Context) : List Item :=
  (parts context.graph).flatMap fun part => ((part.provisions context).filter (·.present)).map (·.item)

/-- What a part may define. -/
def Part.items : Part → List Item
  | .opening | .forward _ | .closing => []
  | .struct self => [.instanceStruct self.name]
  | .moduleDoc => [.ofModule .doc]
  | .function entity => [.function entity.name, .functionDoc entity.name]
  | .classDoc self => [.ofClass .doc self.name]
  | .method self member => [.member .method self.name member.name, .memberDoc .method self.name member.name]
  | .property self member =>
    [.member .getter self.name member.name, .member .setter self.name member.name,
      .memberDoc .getter self.name member.name]
  | .comparison self => [.ofClass .comparison self.name]
  | .lifecycle self => [.ofClass .new self.name, .ofClass .dealloc self.name, .ofClass .copy self.name]
  | .methodTable self => [.ofClass .methods self.name]
  | .accessorTable self => [.ofClass .accessors self.name]
  | .numberTable self => [.ofClass .numbers self.name]
  | .sequenceTable self => [.ofClass .sequence self.name]
  | .typeObject self => [.typeObject self.name]
  | .functionTable => [.ofModule .methods]
  | .moduleDef => [.ofModule .definition]
  | .registration self => [.registerClass self.name]
  | .creation => [.creation]
  | .entryPoint => [.registerModule]

theorem map_item_provisions (context : Context) (part : Part) :
    (part.provisions context).map (·.item) = part.items := by
  cases part <;> rfl

theorem items_sublist (context : Context) : (items context).Sublist ((parts context.graph).flatMap Part.items) := by
  apply List.Sublist.flatMap_right
  intro part _
  rw [← map_item_provisions context part]
  exact List.filter_sublist.map _

/-! ### Sections -/

section Sections

variable {α β γ : Type}

/-- Lists without repetition make up one if the place of an element tells which list it is from. -/
theorem nodup_flatten_of_place {lists : List (List β)} (place : β → Nat) (each : ∀ list ∈ lists, list.Nodup)
    (placed : ∀ numbered ∈ lists.zipIdx, ∀ b ∈ numbered.1, place b = numbered.2) : lists.flatten.Nodup := by
  refine List.nodup_flatten.mpr ⟨each, ?_⟩
  rw [List.pairwise_iff_getElem]
  intro i j iBound jBound before b first second
  have here := placed (lists[i], i) (List.mem_zipIdx_iff_getElem?.mpr (List.getElem?_eq_getElem iBound)) b first
  have there := placed (lists[j], j) (List.mem_zipIdx_iff_getElem?.mpr (List.getElem?_eq_getElem jBound)) b second
  omega

/-- Lists of elements that know their owners make up one without repetition if the owners are different. -/
theorem nodup_flatMap_of_owner {owners : List α} {f : α → List β} (key : α → γ) (owner : β → γ)
    (distinct : (owners.map key).Nodup) (each : ∀ a ∈ owners, (f a).Nodup)
    (owned : ∀ a ∈ owners, ∀ b ∈ f a, owner b = key a) : (owners.flatMap f).Nodup := by
  refine List.nodup_flatMap.mpr ⟨each, ?_⟩
  have apart := List.pairwise_map.mp distinct
  apply apart.imp_of_mem
  intro a other aListed otherListed different b first second
  exact different ((owned a aListed b first).symm.trans (owned other otherListed b second))

end Sections

namespace Item

/-- The class or function that an item is for. -/
def owner : Item → String
  | instanceStruct self | typeObject self | ofClass _ self | member _ self _ | memberDoc _ self _
  | registerClass self => self
  | function name | functionDoc name => name
  | ofModule _ | creation | registerModule => ""

/-- The member that an item is for. -/
def ofMember : Item → String
  | member _ _ name | memberDoc _ _ name => name
  | _ => ""

/-- The section of a class that defines an item: its description, its methods, its properties, or the functions that
every class has. -/
def bodySection : Item → Nat
  | ofClass .doc _ => 0
  | member .method _ _ | memberDoc .method _ _ => 1
  | member .getter _ _ | member .setter _ _ | memberDoc .getter _ _ => 2
  | _ => 3

/-- The section of the implementation that defines an item. -/
def wholeSection : Item → Nat
  | instanceStruct _ => 0
  | ofModule .doc => 1
  | function _ | functionDoc _ => 2
  | ofClass .doc _ | ofClass .comparison _ | ofClass .new _ | ofClass .dealloc _ | ofClass .copy _ | member _ _ _
  | memberDoc _ _ _ => 3
  | ofClass _ _ | typeObject _ => 4
  | ofModule _ => 5
  | registerClass _ => 6
  | creation | registerModule => 7

end Item

variable {graph : Graph} {self : Entity.Class}

/-- The parts of a class body, by section. -/
theorem bodyItems_eq (self : Entity.Class) : (bodyParts self).flatMap Part.items =
    [Part.items (.classDoc self), (self.includedMethods.map (.method self)).flatMap Part.items,
      (self.includedProperties.map (.property self)).flatMap Part.items,
      Part.items (.comparison self) ++ Part.items (.lifecycle self)].flatten := by
  simp [bodyParts]

theorem nodup_bodyItems (methods : (self.includedMethods.map (·.name)).Nodup)
    (properties : (self.includedProperties.map (·.name)).Nodup) : ((bodyParts self).flatMap Part.items).Nodup := by
  rw [bodyItems_eq]
  apply nodup_flatten_of_place Item.bodySection
  · simp only [List.forall_mem_cons, List.not_mem_nil, false_imp_iff, implies_true, and_true, List.flatMap_map]
    refine ⟨by simp [Part.items], ?_, ?_, by simp [Part.items]⟩
    · apply nodup_flatMap_of_owner (·.name) Item.ofMember methods <;> simp [Part.items, Item.ofMember]
    · apply nodup_flatMap_of_owner (·.name) Item.ofMember properties <;> simp [Part.items, Item.ofMember]
  · simp only [List.zipIdx_cons, List.zipIdx_nil, List.forall_mem_cons, List.forall_mem_append, List.forall_mem_flatMap,
      List.forall_mem_map, Part.items, List.not_mem_nil, false_imp_iff, implies_true, and_true]
    simp [Item.bodySection]

theorem owner_of_mem_bodyItems {item : Item} (member : item ∈ (bodyParts self).flatMap Part.items) :
    item.owner = self.name := by
  revert item
  simp only [bodyParts, List.forall_mem_flatMap, List.forall_mem_cons, List.forall_mem_append, List.forall_mem_map,
    Part.items]
  simp [Item.owner]

/-- The items of an implementation, by section. -/
theorem flatMap_items_eq (graph : Graph) : (parts graph).flatMap Part.items =
    [(graph.includedClasses.map .struct).flatMap Part.items, Part.items .moduleDoc,
      (graph.includedFunctions.map .function).flatMap Part.items,
      graph.includedClasses.flatMap fun self => (bodyParts self).flatMap Part.items,
      graph.includedClasses.flatMap fun self => (tableParts self).flatMap Part.items,
      Part.items .functionTable ++ Part.items .moduleDef,
      (graph.includedClasses.map .registration).flatMap Part.items,
      Part.items .creation ++ Part.items .entryPoint].flatten := by
  simp [parts, innerParts, outerParts, Part.items, List.flatMap_assoc, List.flatMap_map]

theorem nodup_flatMap_items (apart : Apart graph) : ((parts graph).flatMap Part.items).Nodup := by
  rw [flatMap_items_eq]
  apply nodup_flatten_of_place Item.wholeSection
  · simp only [List.forall_mem_cons, List.not_mem_nil, false_imp_iff, implies_true, and_true, List.flatMap_map]
    refine ⟨?_, by simp [Part.items], ?_, ?_, ?_, by simp [Part.items], ?_, by simp [Part.items]⟩
    · apply nodup_flatMap_of_owner (·.name) Item.owner apart.classes <;> simp [Part.items, Item.owner]
    · apply nodup_flatMap_of_owner (·.name) Item.owner apart.functions <;> simp [Part.items, Item.owner]
    · apply nodup_flatMap_of_owner (·.name) Item.owner apart.classes
      · intro self listed
        exact nodup_bodyItems (apart.methods self listed) (apart.properties self listed)
      · intro self _ item
        exact owner_of_mem_bodyItems
    · apply nodup_flatMap_of_owner (·.name) Item.owner apart.classes <;> simp [tableParts, Part.items, Item.owner]
    · apply nodup_flatMap_of_owner (·.name) Item.owner apart.classes <;> simp [Part.items, Item.owner]
  · simp only [List.zipIdx_cons, List.zipIdx_nil, List.forall_mem_cons, List.forall_mem_append, List.forall_mem_flatMap,
      List.forall_mem_map, bodyParts, tableParts, Part.items, List.not_mem_nil, false_imp_iff, implies_true, and_true]
    simp [Item.wholeSection]

/-- No item is defined twice. -/
theorem nodup_items {context : Context} (apart : Apart context.graph) : (items context).Nodup :=
  (items_sublist context).nodup (nodup_flatMap_items apart)

/-- The parts of an implementation define its items, each once, and only clashing items share a symbol. -/
structure DefinesItems (context : Context) (implementation : String) : Prop where
  text : implementation.toList = (parts context.graph).flatMap fun part => (part.text context).toList
  provided : ∀ part ∈ parts context.graph, ∀ provision ∈ part.provisions context,
    provision.definition.Names (provision.item.name context) ∧
    (provision.definition.StandsIn (part.written context) ↔ provision.present = true) ∧
    (provision.present = true → Prints (part.text context) provision.definition.opening)
  once : (items context).Nodup
  clashes : ∀ item ∈ items context, ∀ other ∈ items context, item ≠ other →
    (item.name context = other.name context ↔
      Clash context.symbols context.graph.module.name item other ∨
        Clash context.symbols context.graph.module.name other item)

theorem definesItems_of_render {graph : Graph} {options : Options} {artifacts : Artifacts} (coded : Coded graph)
    (apart : Apart graph) (success : graph.render options = .ok artifacts) :
    DefinesItems { graph, options } artifacts.implementation := by
  obtain ⟨whole, succeeds⟩ := implementation_eq_parts success
  constructor
  · exact whole
  · intro part listed provision member
    have stands := standsIn_iff_present coded listed (succeeds part listed) member
    exact ⟨names_of_mem member, stands, fun present => (stands.mpr present).prints _ _⟩
  · exact nodup_items apart
  · intro item _ other _ different
    exact symbol_eq_symbol_iff.trans (or_iff_right different)

end DocWeave.Render
