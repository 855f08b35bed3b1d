import DocWeave.Render.Class
import Mathlib.Data.List.Forall2
import Mathlib.Logic.ExistsUnique

/-!
# Where the methods of a class are reached

Every method is reached at one place. The name of a method decides the field of its slot, and the field of a slot
decides the name.
-/

namespace DocWeave

open Extension

namespace Extension

theorem mem_all_of_ofMethod? {name : String} {slot : Slot} (found : Slot.ofMethod? name = some slot) :
    slot ∈ Slot.all ∧ slot.method = name :=
  ⟨List.mem_of_find?_eq_some found, by simpa using List.find?_some found⟩

theorem method_eq_of_field_eq : ∀ first ∈ Slot.all, ∀ second ∈ Slot.all,
    first.field = second.field → first.method = second.method := by
  decide +kernel

/-- The layout of the struct that holds the slots of a table. -/
def SlotTable.layout : SlotTable → List Code.Field
  | .type => Layout.typeObject
  | .number => Layout.numberMethods
  | .sequence => Layout.sequenceMethods

/-- The fields of a type that are not slots of methods. -/
def reservedFields : List String :=
  ["tp_name", "tp_basicsize", "tp_dealloc", "tp_flags", "tp_doc", "tp_methods", "tp_getset", "tp_new", "tp_as_number",
    "tp_as_sequence", "tp_richcompare"]

theorem field_mem_layout : ∀ slot ∈ Slot.all, slot.field ∈ slot.table.layout.map (·.name) := by
  decide +kernel

theorem field_not_reserved : ∀ slot ∈ Slot.all, slot.field ∉ reservedFields := by
  decide +kernel

theorem slot_of_dispatch {name : String} {arity : Arity} {slot : Slot}
    (dispatch : Dispatch.ofMethod name arity = .slot slot) : slot ∈ Slot.all ∧ slot.method = name := by
  unfold Dispatch.ofMethod at dispatch
  split at dispatch
  · cases dispatch
  · split at dispatch
    · rename_i found
      cases dispatch
      exact mem_all_of_ofMethod? found
    · cases dispatch

theorem comparison?_of_dispatch {name operation : String} {arity : Arity}
    (dispatch : Dispatch.ofMethod name arity = .compare operation) : comparison? name = some operation := by
  unfold Dispatch.ofMethod at dispatch
  split at dispatch
  · rename_i found
    cases dispatch
    exact found
  · split at dispatch <;> cases dispatch

end Extension

namespace Render

/-- The places at which the methods of a class are reached. -/
inductive Place where
  | methodTable
  | comparison
  | slots (table : SlotTable)

/-- The methods that are reached by name, with their conventions. -/
def plainMethods (self : Entity.Class) : List (Convention × Entity.Function) :=
  self.includedMethods.filterMap fun method =>
    match dispatchOf method with
    | .plain convention => some (convention, method)
    | _ => none

/-- The methods that are reached through the slots of a table. -/
def slotMethods (self : Entity.Class) (table : SlotTable) : List (Slot × Entity.Function) :=
  self.includedMethods.filterMap fun method =>
    match dispatchOf method with
    | .slot slot => if slot.table = table then some (slot, method) else none
    | _ => none

/-- The methods that are reached at a place. -/
def methodsAt (self : Entity.Class) : Place → List Entity.Function
  | .methodTable => (plainMethods self).map Prod.snd
  | .comparison => (compareMethods self).map Prod.snd
  | .slots table => (slotMethods self table).map Prod.snd

variable {self : Entity.Class} {method : Entity.Function}

theorem mem_plainMethods {convention : Convention} :
    (convention, method) ∈ plainMethods self ↔
      method ∈ self.includedMethods ∧ dispatchOf method = .plain convention := by
  unfold plainMethods
  rw [List.mem_filterMap]
  constructor
  · rintro ⟨other, listed, found⟩
    split at found <;> cases found
    exact ⟨listed, ‹_›⟩
  · rintro ⟨listed, dispatch⟩
    exact ⟨method, listed, by rw [dispatch]⟩

theorem mem_compareMethods {operation : String} :
    (operation, method) ∈ compareMethods self ↔
      method ∈ self.includedMethods ∧ dispatchOf method = .compare operation := by
  unfold compareMethods
  rw [List.mem_filterMap]
  constructor
  · rintro ⟨other, listed, found⟩
    split at found <;> cases found
    exact ⟨listed, ‹_›⟩
  · rintro ⟨listed, dispatch⟩
    exact ⟨method, listed, by rw [dispatch]⟩

theorem mem_slotMethods {table : SlotTable} {slot : Slot} :
    (slot, method) ∈ slotMethods self table ↔
      method ∈ self.includedMethods ∧ dispatchOf method = .slot slot ∧ slot.table = table := by
  unfold slotMethods
  rw [List.mem_filterMap]
  constructor
  · rintro ⟨other, listed, found⟩
    split at found
    · split at found <;> cases found
      exact ⟨listed, ‹_›, ‹_›⟩
    · cases found
  · rintro ⟨listed, dispatch, rfl⟩
    exact ⟨method, listed, by simp [dispatch]⟩

/-- The place at which a dispatch leads. -/
def placeOf : Dispatch → Place
  | .plain _ => .methodTable
  | .compare _ => .comparison
  | .slot slot => .slots slot.table

theorem mem_methodsAt {place : Place} :
    method ∈ methodsAt self place ↔ method ∈ self.includedMethods ∧ placeOf (dispatchOf method) = place := by
  cases place with
  | methodTable =>
    simp only [methodsAt, List.mem_map, Prod.exists, exists_eq_right, mem_plainMethods, exists_and_left]
    cases dispatchOf method <;> simp [placeOf]
  | comparison =>
    simp only [methodsAt, List.mem_map, Prod.exists, exists_eq_right, mem_compareMethods, exists_and_left]
    cases dispatchOf method <;> simp [placeOf]
  | slots table =>
    simp only [methodsAt, List.mem_map, Prod.exists, exists_eq_right, mem_slotMethods, exists_and_left]
    cases dispatchOf method <;> simp [placeOf]

theorem existsUnique_place (listed : method ∈ self.includedMethods) : ∃! place, method ∈ methodsAt self place := by
  refine ⟨placeOf (dispatchOf method), mem_methodsAt.mpr ⟨listed, rfl⟩, ?_⟩
  intro place present
  exact (mem_methodsAt.mp present).2.symm

/-- Methods that fill one field have one name. -/
theorem name_eq_of_field_eq {table : SlotTable} {first second : Slot × Entity.Function}
    (one : first ∈ slotMethods self table) (other : second ∈ slotMethods self table)
    (same : first.1.field = second.1.field) : first.2.name = second.2.name := by
  obtain ⟨_, firstDispatch, _⟩ := mem_slotMethods.mp one
  obtain ⟨_, secondDispatch, _⟩ := mem_slotMethods.mp other
  obtain ⟨firstListed, firstName⟩ := slot_of_dispatch firstDispatch
  obtain ⟨secondListed, secondName⟩ := slot_of_dispatch secondDispatch
  rw [← firstName, ← secondName]
  exact method_eq_of_field_eq _ firstListed _ secondListed same

/-! ### The entries of the tables -/

theorem methodRows_eq (symbols : ClassSymbols) : methodRows symbols self =
    (plainMethods self).map fun entry =>
      methodRow entry.2.name (symbols.method entry.2.name) entry.1 entry.2.description := by
  unfold methodRows plainMethods
  rw [List.map_filterMap]
  congr 1
  funext method
  cases dispatchOf method <;> rfl

theorem slotValues_eq (symbols : ClassSymbols) (table : SlotTable) : slotValues symbols self table =
    (slotMethods self table).map fun entry => (entry.1.field, symbols.method entry.2.name) := by
  unfold slotValues slotMethods
  rw [List.map_filterMap]
  congr 1
  funext method
  cases dispatchOf method with
  | slot slot =>
    dsimp only
    split <;> rfl
  | _ => rfl

end Render

end DocWeave
