import DocWeave.Proofs.Render.Heads
import DocWeave.Proofs.Render.Layouts

/-!
# Tables agree with definitions

The definitions of all entities come first, then the tables of the classes, and behind them what registers the classes
and the module. So what an entry refers to is among the parts before it.
-/

namespace DocWeave.Render

open Code Definition Extension Step StructTable Template Text

variable {context : Context}

/-! ### Parts before a part -/

/-- The parts before all tables. -/
def definitionParts (graph : Graph) : List Part :=
  .opening :: (graph.includedClasses.map .forward ++ graph.includedClasses.map .struct ++ [.moduleDoc]
    ++ graph.includedFunctions.map .function ++ graph.includedClasses.flatMap bodyParts)

theorem parts_eq (graph : Graph) : parts graph = definitionParts graph ++
    (graph.includedClasses.flatMap tableParts ++ .functionTable :: .moduleDef :: outerParts graph) := by
  simp [parts, innerParts, definitionParts]

theorem exists_split_flatMap {α β : Type} {items : List α} {f : α → List β} {a : α} (member : a ∈ items)
    {front back : List β} {b : β} (own : f a = front ++ b :: back) :
    ∃ before after, items.flatMap f = before ++ b :: after ∧ front ⊆ before := by
  obtain ⟨earlier, later, rfl⟩ := List.append_of_mem member
  refine ⟨earlier.flatMap f ++ front, back ++ later.flatMap f, ?_, List.subset_append_right _ _⟩
  simp [own]

section Order

variable {self : Entity.Class} {part : Part} (front back : List Part) {holds : List Part → String → Prop}

theorem displays_body (listed : self ∈ context.graph.includedClasses) (own : bodyParts self = front ++ part :: back)
    (proof : ∀ before, front ⊆ before → holds before (part.text context)) : Displays context part holds := by
  obtain ⟨before, after, split, inside⟩ := exists_split_flatMap listed own
  refine ⟨.opening :: (context.graph.includedClasses.map .forward ++ context.graph.includedClasses.map .struct
    ++ [.moduleDoc] ++ context.graph.includedFunctions.map .function ++ before), after
    ++ (context.graph.includedClasses.flatMap tableParts ++ .functionTable :: .moduleDef :: outerParts context.graph),
    ?_, ?_⟩
  · rw [parts_eq, definitionParts, split]
    simp
  · apply proof _
    intro other member
    simp [inside member]

theorem displays_table (listed : self ∈ context.graph.includedClasses) (own : tableParts self = front ++ part :: back)
    (proof : ∀ before, definitionParts context.graph ⊆ before → front ⊆ before → holds before (part.text context)) :
    Displays context part holds := by
  obtain ⟨before, after, split, inside⟩ := exists_split_flatMap listed own
  refine ⟨definitionParts context.graph ++ before, after ++ .functionTable :: .moduleDef :: outerParts context.graph,
    ?_, ?_⟩
  · rw [parts_eq, split]
    simp
  · exact proof _ (List.subset_append_left _ _) fun _ member => List.mem_append_right _ (inside member)

theorem displays_registration (listed : self ∈ context.graph.includedClasses)
    (proof : ∀ before, innerParts context.graph ⊆ before → holds before ((Part.registration self).text context)) :
    Displays context (.registration self) holds := by
  obtain ⟨earlier, later, split⟩ := List.append_of_mem listed
  refine ⟨.opening :: innerParts context.graph ++ .closing :: earlier.map .registration,
    later.map .registration ++ [.creation, .entryPoint], ?_, ?_⟩
  · rw [parts, outerParts, split]
    simp
  · apply proof _
    intro other member
    simp [member]

end Order

theorem method_mem_bodyParts {self : Entity.Class} {method : Entity.Function} (listed : method ∈ self.includedMethods) :
    .method self method ∈ bodyParts self := by
  simp [bodyParts, listed]

theorem property_mem_bodyParts {self : Entity.Class} {property : Entity.Property}
    (listed : property ∈ self.includedProperties) : .property self property ∈ bodyParts self := by
  simp [bodyParts, listed]

theorem mem_definitionParts_of_body {self : Entity.Class} {part : Part}
    (listed : self ∈ context.graph.includedClasses) (member : part ∈ bodyParts self) :
    part ∈ definitionParts context.graph := by
  have inside : part ∈ context.graph.includedClasses.flatMap bodyParts := List.mem_flatMap.mpr ⟨self, listed, member⟩
  simp only [definitionParts, List.mem_cons, List.mem_append, inside, or_true]

theorem function_mem_definitionParts {entity : Entity.Function} (listed : entity ∈ context.graph.includedFunctions) :
    .function entity ∈ definitionParts context.graph := by
  simp [definitionParts, listed]

theorem mem_parts_of_definition {part : Part} (member : part ∈ definitionParts context.graph) :
    part ∈ parts context.graph := by
  rw [parts_eq]
  exact List.mem_append_left _ member

/-! ### Entries -/

theorem defined_of_standsIn {before : List Part} {part : Part} {definition : Definition} {symbol : String}
    (earlier : part ∈ before) (names : definition.Names symbol) (stands : definition.StandsIn (part.written context)) :
    Defined context before part definition symbol :=
  ⟨earlier, names, stands, stands.prints _ _⟩

theorem ne_null {s : String} (mark : '_' ∈ s.toList) : s ≠ "NULL" := by
  rintro rfl
  simp at mark

theorem entry_ite {before : List Part} {part : Part} {definition : Definition} {symbol reference : String}
    {given : Prop} [Decidable given] (names : definition.Names symbol)
    (stands : definition.StandsIn (part.written context) ↔ given) (earlier : part ∈ before)
    (other : reference ≠ "NULL") :
    Entry context before part definition symbol reference (if given then reference else "NULL") := by
  by_cases present : given
  · rw [if_pos present]
    exact .reference (defined_of_standsIn earlier names (stands.mpr present)) other
  · rw [if_neg present]
    exact .null fun defined => present (stands.mp defined)

theorem docReference_eq (symbol description : String) :
    docReference symbol description = if description ≠ "" then symbol else "NULL" := by
  rw [docReference, ite_not]

theorem functionRow_of_part {before : List Part} {part : Part} {head name symbol description : String}
    {convention : Convention} (defined : Defined context before part (.function head) symbol)
    (described : (constant (Symbols.docOf symbol)).StandsIn (part.written context) ↔ description ≠ "") :
    FunctionRow context before part head name symbol convention (methodRow name symbol convention description) := by
  refine ⟨defined, docReference (Symbols.docOf symbol) description, ?_, rfl⟩
  rw [docReference_eq]
  refine entry_ite .constant described defined.earlier (ne_null ?_)
  simp [Symbols.docOf]

theorem forall₂_map {α β : Type} {R : α → β → Prop} {f : α → β} {items : List α}
    (each : ∀ item ∈ items, R item (f item)) : List.Forall₂ R items (items.map f) := by
  rw [List.forall₂_map_right_iff, List.forall₂_same]
  exact each

/-! ### The fields of a type -/

/-- The values of the reserved fields of a type. -/
def reservedValues (context : Context) (self : Entity.Class) : List (String × String) :=
  let symbols := classSymbols context self
  [("tp_name", "\"" ++ context.graph.module.name ++ "." ++ self.name ++ "\""),
    ("tp_basicsize", "sizeof(" ++ symbols.instanceStruct ++ ")"),
    ("tp_dealloc", symbols.deallocFunction),
    ("tp_flags", "Py_TPFLAGS_DEFAULT | Py_TPFLAGS_BASETYPE"),
    ("tp_doc", docReference symbols.doc self.description),
    ("tp_methods", symbols.methodTable),
    ("tp_getset", symbols.accessorTable),
    ("tp_new", symbols.newFunction)]
  ++ (slotReference "tp_as_number" symbols.numberTable (slotValues symbols self .number)
    ++ slotReference "tp_as_sequence" symbols.sequenceTable (slotValues symbols self .sequence)
    ++ if (compareMethods self).isEmpty then [] else [("tp_richcompare", symbols.compareFunction)])

theorem mem_slotReference {field symbol : String} {values : List (String × String)} {entry : String × String} :
    entry ∈ slotReference field symbol values ↔ values ≠ [] ∧ entry = (field, "&" ++ symbol) := by
  unfold slotReference
  by_cases empty : values = []
  · simp [empty]
  · simp [empty]

theorem mem_compareReference {self : Entity.Class} {symbol : String} {entry : String × String} :
    (entry ∈ if (compareMethods self).isEmpty then [] else [("tp_richcompare", symbol)]) ↔
      compareMethods self ≠ [] ∧ entry = ("tp_richcompare", symbol) := by
  by_cases empty : compareMethods self = []
  · simp [empty]
  · simp [empty]

theorem mem_reservedValues {self : Entity.Class} {name value : String} :
    (name, value) ∈ reservedValues context self ↔
      let symbols := classSymbols context self
      name = "tp_name" ∧ value = "\"" ++ context.graph.module.name ++ "." ++ self.name ++ "\"" ∨
      name = "tp_basicsize" ∧ value = "sizeof(" ++ symbols.instanceStruct ++ ")" ∨
      name = "tp_dealloc" ∧ value = symbols.deallocFunction ∨
      name = "tp_flags" ∧ value = "Py_TPFLAGS_DEFAULT | Py_TPFLAGS_BASETYPE" ∨
      name = "tp_doc" ∧ value = docReference symbols.doc self.description ∨
      name = "tp_methods" ∧ value = symbols.methodTable ∨
      name = "tp_getset" ∧ value = symbols.accessorTable ∨
      name = "tp_new" ∧ value = symbols.newFunction ∨
      slotValues symbols self .number ≠ [] ∧ name = "tp_as_number" ∧ value = "&" ++ symbols.numberTable ∨
      slotValues symbols self .sequence ≠ [] ∧ name = "tp_as_sequence" ∧ value = "&" ++ symbols.sequenceTable ∨
      compareMethods self ≠ [] ∧ name = "tp_richcompare" ∧ value = symbols.compareFunction := by
  simp only [reservedValues, List.mem_append, List.mem_cons, List.not_mem_nil, or_false, mem_slotReference,
    mem_compareReference, Prod.mk.injEq, or_assoc]

theorem reserved_of_mem {self : Entity.Class} {entry : String × String}
    (member : entry ∈ reservedValues context self) : entry.1 ∈ reservedFields := by
  obtain ⟨name, value⟩ := entry
  rcases mem_reservedValues.mp member with ⟨rfl, _⟩ | ⟨rfl, _⟩ | ⟨rfl, _⟩ | ⟨rfl, _⟩ | ⟨rfl, _⟩ | ⟨rfl, _⟩ | ⟨rfl, _⟩ |
    ⟨rfl, _⟩ | ⟨_, rfl, _⟩ | ⟨_, rfl, _⟩ | ⟨_, rfl, _⟩ <;> simp [reservedFields]

theorem reserved_mem_layout : ∀ name ∈ reservedFields, name ∈ Layout.typeObject.map (·.name) := by
  decide +kernel

theorem not_reserved_of_mem {self : Entity.Class} {symbols : ClassSymbols} {slots : SlotTable} {name value : String}
    (member : (name, value) ∈ slotValues symbols self slots) : name ∉ reservedFields := by
  rw [slotValues_eq] at member
  obtain ⟨entry, present, same⟩ := List.mem_map.mp member
  obtain ⟨rfl, _⟩ := Prod.mk.inj same
  exact field_not_reserved _ (slot_of_dispatch (mem_slotMethods.mp present).2.1).1

/-- The type of a class before its fields have values. -/
def emptyType (symbols : ClassSymbols) : StructTable :=
  { type := "PyTypeObject", name := symbols.typeStruct, fields := Layout.typeObject, storage := none,
    head := some "PyVarObject_HEAD_INIT(NULL, 0)" }

theorem exists_typeValues (context : Context) (self : Entity.Class) : ∃ values,
    typeObject context self = (emptyType (classSymbols context self)).setAll values ∧
    ∀ entry, entry ∈ values ↔
      entry ∈ slotValues (classSymbols context self) self .type ∨ entry ∈ reservedValues context self := by
  refine ⟨_, rfl, ?_⟩
  intro entry
  rw [reservedValues]
  simp only [List.mem_append, or_assoc, or_left_comm]

theorem mayHold_of_iff {before : List Part} {reference : Reference} {rows : List (Field × String)} {given : Prop}
    [Decidable given] (names : reference.definition.Names reference.symbol)
    (stands : reference.definition.StandsIn (reference.part.written context) ↔ given)
    (earlier : reference.part ∈ before) (other : reference.value ≠ "NULL")
    (set : given → Gives rows reference.field reference.value)
    (unset : ¬ given → Gives rows reference.field "NULL") : reference.MayHold context before rows := by
  refine ⟨_, entry_ite names stands earlier other, ?_⟩
  split
  · exact set ‹_›
  · exact unset ‹_›

section Reserved

variable {self : Entity.Class} {values : List (String × String)}
  (given : ∀ entry, entry ∈ values ↔
    entry ∈ slotValues (classSymbols context self) self .type ∨ entry ∈ reservedValues context self)
  {name value : String}

include given

theorem gives_reserved (present : (name, value) ∈ reservedValues context self)
    (agree : ∀ other, (name, other) ∈ reservedValues context self → other = value) :
    Gives ((emptyType (classSymbols context self)).setAll values).rows name value := by
  have reserved := reserved_of_mem present
  apply gives_setAll rfl (reserved_mem_layout name reserved) ((given _).mpr (.inr present))
  intro other assigned
  rcases (given _).mp assigned with slot | own
  · exact absurd reserved (not_reserved_of_mem slot)
  · exact agree other own

theorem gives_null_reserved (field : Field)
    (pointer : field ∈ Layout.typeObject ∧ field.name ∈ reservedFields ∧ field.zero = "NULL")
    (free : ∀ other, (field.name, other) ∉ reservedValues context self) :
    Gives ((emptyType (classSymbols context self)).setAll values).rows field.name "NULL" := by
  obtain ⟨known, reserved, zero⟩ := pointer
  apply gives_null rfl known zero
  intro other assigned
  rcases (given _).mp assigned with slot | own
  · exact not_reserved_of_mem slot reserved
  · exact free other own

theorem typeReferences_hold {before : List Part} (definitions : .lifecycle self ∈ before)
    (methods : .methodTable self ∈ before) (accessors : .accessorTable self ∈ before) :
    ∀ reference ∈ typeReferences (classSymbols context self) self,
      reference.Holds context before ((emptyType (classSymbols context self)).setAll values).rows := by
  simp only [typeReferences, List.forall_mem_cons, List.not_mem_nil, false_imp_iff, implies_true, and_true]
  refine ⟨⟨defined_of_standsIn definitions (names_dealloc _) (dealloc_defined self), gives_reserved given ?_ ?_⟩,
    ⟨defined_of_standsIn definitions (names_new _) (new_defined self), gives_reserved given ?_ ?_⟩,
    ⟨defined_of_standsIn methods .array (array_standsIn_arrayTable ..), gives_reserved given ?_ ?_⟩,
    ⟨defined_of_standsIn accessors .array (array_standsIn_arrayTable ..), gives_reserved given ?_ ?_⟩⟩ <;>
  simp [mem_reservedValues]

theorem typeOptions_hold {before : List Part} (doc : .classDoc self ∈ before) (number : .numberTable self ∈ before)
    (sequence : .sequenceTable self ∈ before) (comparison : .comparison self ∈ before) :
    ∀ reference ∈ typeOptions (classSymbols context self) self,
      reference.MayHold context before ((emptyType (classSymbols context self)).setAll values).rows := by
  simp only [typeOptions, List.forall_mem_cons, List.not_mem_nil, false_imp_iff, implies_true, and_true]
  refine ⟨
    mayHold_of_iff .constant constant_standsIn_docLine_iff doc (ne_null ?_) (fun described => ?_) (fun empty => ?_),
    mayHold_of_iff .struct struct_standsIn_slotStruct number (ne_null ?_) (fun filled => ?_) (fun empty => ?_),
    mayHold_of_iff .struct struct_standsIn_slotStruct sequence (ne_null ?_) (fun filled => ?_) (fun empty => ?_),
    mayHold_of_iff (names_compare _) (comparison_defined self) comparison (ne_null ?_) (fun filled => ?_)
      (fun empty => ?_)⟩
  · simp [ClassSymbols.doc, ClassSymbols.role]
  · refine gives_reserved given ?_ ?_ <;> simp [mem_reservedValues, docReference_eq, described]
  · refine gives_reserved given ?_ ?_ <;> simp [mem_reservedValues, docReference_eq, empty]
  · simp [ClassSymbols.numberTable, ClassSymbols.role]
  · refine gives_reserved given ?_ ?_ <;> simp [mem_reservedValues, filled]
  · refine gives_null_reserved given ⟨"tp_as_number", "PyNumberMethods*"⟩ (by decide +kernel) ?_
    simp [mem_reservedValues, not_not.mp empty]
  · simp [ClassSymbols.sequenceTable, ClassSymbols.role]
  · refine gives_reserved given ?_ ?_ <;> simp [mem_reservedValues, filled]
  · refine gives_null_reserved given ⟨"tp_as_sequence", "PySequenceMethods*"⟩ (by decide +kernel) ?_
    simp [mem_reservedValues, not_not.mp empty]
  · simp [ClassSymbols.compareFunction, ClassSymbols.role]
  · refine gives_reserved given ?_ ?_ <;> simp [mem_reservedValues, filled]
  · refine gives_null_reserved given ⟨"tp_richcompare", "richcmpfunc"⟩ (by decide +kernel) ?_
    simp [mem_reservedValues, not_not.mp empty]

end Reserved

/-! ### The tables of a class -/

/-- Every function and method that is included has code. -/
structure Coded (graph : Graph) : Prop where
  functions : ∀ entity ∈ graph.includedFunctions, entity.body?.isSome
  methods : ∀ self ∈ graph.includedClasses, ∀ method ∈ self.includedMethods, method.body?.isSome

section Classes

variable (coded : Coded context.graph) (succeeds : ∀ part ∈ parts context.graph, part.Succeeds context)
  {self : Entity.Class} (listed : self ∈ context.graph.includedClasses) {before : List Part}

include coded succeeds listed

theorem defined_method {method : Entity.Function} (included : method ∈ self.includedMethods)
    (earlier : .method self method ∈ before) :
    Defined context before (.method self method) (.function (methodHead context self method))
      ((classSymbols context self).method method.name) := by
  have known := mem_definitionParts_of_body listed (method_mem_bodyParts included)
  exact defined_of_standsIn earlier (names_dispatch _ _ _) (method_defined (coded.methods self listed method included)
    (succeeds _ (mem_parts_of_definition known))).1

theorem methodRow_of_mem {entry : Convention × Entity.Function} (member : entry ∈ plainMethods self)
    (earlier : .method self entry.2 ∈ before) :
    MethodRow context self before entry (methodRow entry.2.name ((classSymbols context self).method entry.2.name)
      entry.1 entry.2.description) := by
  obtain ⟨included, dispatch⟩ := mem_plainMethods.mp member
  have known := mem_definitionParts_of_body listed (method_mem_bodyParts included)
  have described := (method_defined (coded.methods self listed entry.2 included)
    (succeeds _ (mem_parts_of_definition known))).2
  rw [constantDescription, dispatch] at described
  exact functionRow_of_part (defined_method coded succeeds listed included earlier) described

theorem methodTable_agrees : Displays context (.methodTable self) (MethodEntries context self) := by
  apply displays_table [] _ listed rfl
  intro before definitions _
  refine ⟨methodRows (classSymbols context self) self, ?_, lists_of_written rfl rfl ?_ (by decide)⟩
  · rw [methodRows_eq]
    refine forall₂_map fun entry member => ?_
    have included := (mem_plainMethods.mp member).1
    exact methodRow_of_mem coded succeeds listed member
      (definitions (mem_definitionParts_of_body listed (method_mem_bodyParts included)))
  · rw [methodRows_eq]
    exact List.forall_mem_map.mpr fun entry _ => methodRow_ne_empty

theorem comparison_agrees : Displays context (.comparison self) (Compares context self) := by
  refine displays_body (.classDoc self :: self.includedMethods.map (.method self)
    ++ self.includedProperties.map (.property self)) [.lifecycle self] listed (by simp [bodyParts]) ?_
  intro before definitions
  by_cases empty : compareMethods self = []
  · exact .inl ⟨empty, text_comparison_of_nil empty⟩
  · refine .inr ⟨empty, _, ?_, toList_text_comparison empty⟩
    refine forall₂_map fun entry member => ?_
    obtain ⟨included, dispatch⟩ := mem_compareMethods.mp member
    refine ⟨comparison?_of_dispatch dispatch, defined_method coded succeeds listed included (definitions ?_), rfl⟩
    simp [included]

omit coded in
theorem accessorTable_agrees : Displays context (.accessorTable self) (PropertyEntries context self) := by
  apply displays_table [.methodTable self] _ listed rfl
  intro before definitions _
  refine ⟨self.includedProperties.map (accessorRow (classSymbols context self)),
    forall₂_map fun property included => ?_,
    lists_of_written rfl rfl (List.forall_mem_map.mpr fun property _ => accessorRow_ne_empty) (by decide)⟩
  have known := mem_definitionParts_of_body listed (property_mem_bodyParts included)
  obtain ⟨getter, setter, doc⟩ := property_defined (succeeds _ (mem_parts_of_definition known))
  refine ⟨_, _, _, entry_ite (names_getter _ _) getter (definitions known) (ne_null ?_),
    entry_ite (names_setter _ _) setter (definitions known) (ne_null ?_),
    entry_ite .constant doc (definitions known) (ne_null ?_), ?_⟩
  · simp [ClassSymbols.getter]
  · simp [ClassSymbols.setter]
  · simp [Symbols.docOf]
  · dsimp only [accessorRow]
    rw [docReference_eq]

/-- Values for the slots of a table, and apart from them for reserved fields, give every method its field. -/
theorem fillsSlots {slots : SlotTable} {reserved : List String} {table : StructTable}
    {values : List (String × String)} (others : List (String × String)) (fresh : table.assigned = [])
    (layout : table.fields = slots.layout) (apart : ∀ slot ∈ Slot.all, slot.field ∉ reserved)
    (known : ∀ entry ∈ others, entry.1 ∈ reserved)
    (given : ∀ entry, entry ∈ values ↔ entry ∈ slotValues (classSymbols context self) self slots ∨ entry ∈ others)
    (definitions : definitionParts context.graph ⊆ before) :
    FillsSlots context self slots reserved before (table.setAll values).rows := by
  rw [slotValues_eq] at given
  constructor
  · intro entry member
    obtain ⟨included, dispatch, same⟩ := mem_slotMethods.mp member
    obtain ⟨slot, _⟩ := slot_of_dispatch dispatch
    have body := mem_definitionParts_of_body listed (method_mem_bodyParts included)
    refine ⟨?_, defined_method coded succeeds listed included (definitions body)⟩
    refine gives_setAll fresh ?_ ((given _).mpr (.inl (List.mem_map_of_mem member))) ?_
    · rw [layout, ← same]
      exact field_mem_layout _ slot
    · intro other assigned
      -- A method that competes for the field has the same name, so it would set the same value.
      rcases (given _).mp assigned with own | outside
      · obtain ⟨second, present, equal⟩ := List.mem_map.mp own
        obtain ⟨field, rfl⟩ := Prod.mk.inj equal
        rw [name_eq_of_field_eq present member field]
      · exact absurd (known _ outside) (apart _ slot)
  · rintro ⟨field, value⟩ member free unused
    obtain ⟨_, rfl⟩ := mem_rows.mp member
    rw [value_setAll_of_free fresh]
    · exact unset_zero field
    · intro value assigned
      rcases (given _).mp assigned with own | outside
      · obtain ⟨entry, present, equal⟩ := List.mem_map.mp own
        exact unused entry present (Prod.mk.inj equal).1
      · exact free (known _ outside)

theorem slotEntries_of_written {part : Part} {slots : SlotTable} {type symbol : String}
    (written : part.written context =
      slotStruct type symbol slots.layout (slotValues (classSymbols context self) self slots))
    (definitions : definitionParts context.graph ⊆ before) :
    SlotEntries context self slots type symbol before (part.text context) := by
  unfold slotStruct at written
  by_cases empty : slotMethods self slots = []
  · rw [slotValues_eq, empty] at written
    exact .inl ⟨empty, by rw [Part.text, written]; rfl⟩
  · rw [if_neg (by simpa [slotValues_eq] using empty)] at written
    refine .inr ⟨empty, _, initializes_setAll _ written (by simp) (distinct_layout slots), ?_⟩
    exact fillsSlots coded succeeds listed [] rfl rfl (by simp) (by simp) (by simp) definitions

theorem numberTable_agrees : Displays context (.numberTable self)
    (SlotEntries context self .number "PyNumberMethods" (classSymbols context self).numberTable) := by
  apply displays_table [.methodTable self, .accessorTable self] _ listed rfl
  intro before definitions _
  exact slotEntries_of_written coded succeeds listed rfl definitions

theorem sequenceTable_agrees : Displays context (.sequenceTable self)
    (SlotEntries context self .sequence "PySequenceMethods" (classSymbols context self).sequenceTable) := by
  apply displays_table [.methodTable self, .accessorTable self, .numberTable self] _ listed rfl
  intro before definitions _
  exact slotEntries_of_written coded succeeds listed rfl definitions

theorem typeObject_agrees : Displays context (.typeObject self) (TypeEntries context self) := by
  apply displays_table [.methodTable self, .accessorTable self, .numberTable self, .sequenceTable self] [] listed rfl
  intro before definitions tables
  obtain ⟨values, same, given⟩ := exists_typeValues context self
  have body : ∀ part ∈ bodyParts self, part ∈ before :=
    fun part member => definitions (mem_definitionParts_of_body listed member)
  have written : (Part.typeObject self).written context =
      [.text ((emptyType (classSymbols context self)).setAll values).render, .blank] := by
    rw [← same]
    rfl
  refine ⟨_, initializes_setAll _ written (by simp [emptyType]) (distinct_layout .type), ?_, ?_, ?_⟩
  · exact fillsSlots coded succeeds listed _ rfl rfl field_not_reserved (fun _ => reserved_of_mem) given definitions
  · refine typeReferences_hold given (body _ ?_) (tables ?_) (tables ?_) <;> simp [bodyParts]
  · refine typeOptions_hold given (body _ ?_) (tables ?_) (tables ?_) (body _ ?_) <;> simp [bodyParts]

omit coded succeeds in
theorem registration_agrees : Displays context (.registration self) (Registers context self) := by
  apply displays_registration listed
  intro before inner
  have table : .typeObject self ∈ innerParts context.graph := by
    have inside : .typeObject self ∈ context.graph.includedClasses.flatMap tableParts :=
      List.mem_flatMap.mpr ⟨self, listed, by simp [tableParts]⟩
    simp only [innerParts, List.mem_append, inside, true_or, or_true]
  refine ⟨defined_of_standsIn (inner table) .struct (typeObject_defined self), (prints_fill
    [.text "PyType_Ready(&", .field "type_struct", .text ")"] pieces_registrationTemplate
    ⟨registrationSegments.take 5, _, rfl⟩ ?_).trans (prints_text _ _ List.mem_cons_self)⟩
  simp only [String.toList_append, ink_append, List.append_assoc, List.flatMap_cons, List.flatMap_nil,
    List.append_nil, Segment.value, List.lookup_cons, String.reduceBEq, beq_self_eq_true, Option.getD_some]

theorem classAgrees : ClassAgrees context self where
  dispatched _ := existsUnique_place
  competing _ _ one _ other := name_eq_of_field_eq one other
  methods := methodTable_agrees coded succeeds listed
  comparison := comparison_agrees coded succeeds listed
  number := numberTable_agrees coded succeeds listed
  sequence := sequenceTable_agrees coded succeeds listed
  type := typeObject_agrees coded succeeds listed
  properties := accessorTable_agrees succeeds listed
  registration := registration_agrees listed

end Classes

/-! ### The tables of the module -/

theorem functionTable_agrees (coded : Coded context.graph)
    (succeeds : ∀ part ∈ parts context.graph, part.Succeeds context) :
    Displays context .functionTable (FunctionEntries context) := by
  refine ⟨definitionParts context.graph ++ context.graph.includedClasses.flatMap tableParts,
    .moduleDef :: outerParts context.graph, ?_, context.graph.includedFunctions.map (functionRow context), ?_,
    lists_of_written rfl rfl (List.forall_mem_map.mpr fun entity _ => methodRow_ne_empty) (by decide)⟩
  · rw [parts_eq]
    simp
  · refine forall₂_map fun entity included => ?_
    have known := function_mem_definitionParts included
    obtain ⟨defined, described⟩ := function_defined (coded.functions entity included)
      (succeeds _ (mem_parts_of_definition known))
    exact functionRow_of_part
      (defined_of_standsIn (List.mem_append_left _ known) (names_convention _ _ _) defined) described

theorem moduleDef_agrees : Displays context .moduleDef (ModuleEntries context) := by
  refine ⟨definitionParts context.graph ++ context.graph.includedClasses.flatMap tableParts ++ [.functionTable],
    outerParts context.graph, ?_, _, initializes_setAll
      { type := "PyModuleDef", name := context.symbols.moduleDef context.graph.module.name, fields := Layout.moduleDef,
        head := some "PyModuleDef_HEAD_INIT," } rfl (by simp) distinct_moduleDef,
    ⟨defined_of_standsIn ?_ .array (array_standsIn_arrayTable ..), ?_⟩,
    mayHold_of_iff .constant constant_standsIn_docLine_iff ?_ (ne_null ?_) (fun described => ?_) (fun plain => ?_)⟩
  · rw [parts_eq]
    simp
  · simp
  · refine gives_setAll rfl ?_ ?_ ?_ <;> simp [Layout.moduleDef]
  · simp [definitionParts]
  · simp [Symbols.moduleDoc]
  · refine gives_setAll rfl ?_ ?_ ?_ <;> simp [Layout.moduleDef, docReference_eq, described]
  · refine gives_setAll rfl ?_ ?_ ?_ <;> simp [Layout.moduleDef, docReference_eq, plain]

theorem creation_agrees : Displays context .creation (Creates context) := by
  refine ⟨.opening :: innerParts context.graph ++ .closing :: context.graph.includedClasses.map .registration,
    [.entryPoint], ?_, defined_of_standsIn ?_ .struct moduleDef_defined, ?_, ?_⟩
  · simp [parts, outerParts]
  · simp [innerParts]
  · intro self listed
    refine defined_of_standsIn ?_ (names_register _) (register_defined self)
    simp [listed]
  · exact (ink_outputAll_text _ _ _).trans ink_creationText

theorem entryPoint_agrees : Displays context .entryPoint (Announces context) := by
  refine ⟨.opening :: innerParts context.graph ++ .closing :: context.graph.includedClasses.map .registration
    ++ [.creation], [], ?_, defined_of_standsIn ?_ (names_create _) create_defined, (prints_fill
    [.text "PyImport_AppendInittab(\"", .field "module", .text "\", &", .field "create_fn", .text ")"]
    pieces_registerTemplate ⟨registerSegments.take 4, _, rfl⟩ ?_).trans (prints_text _ _ List.mem_cons_self)⟩
  · simp [parts, outerParts]
  · simp
  · simp only [String.toList_append, ink_append, List.append_assoc, List.flatMap_cons, List.flatMap_nil,
      List.append_nil, Segment.value, List.lookup_cons, String.reduceBEq, beq_self_eq_true, Option.getD_some]

theorem agrees_of_coded (coded : Coded context.graph)
    (succeeds : ∀ part ∈ parts context.graph, part.Succeeds context) : Agrees context where
  classes _ listed := classAgrees coded succeeds listed
  functions := functionTable_agrees coded succeeds
  module := moduleDef_agrees
  creation := creation_agrees
  entryPoint := entryPoint_agrees
  referenced part member _ defined := referenced_of_mem member (succeeds part member) defined

end DocWeave.Render
