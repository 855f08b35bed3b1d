import DocWeave.Proofs.Entity.Bases
import DocWeave.Entity.OfManifest

/-!
# Looking up entities

A name without a dot leads to a function of the module, or else to a class. A name with a dot leads to a method of the
class before the dot, or else to a property. So two kinds of entities can be hidden: a class by a function, and a
property by a method of its class.
-/

namespace DocWeave.Graph

open Entity

/-- A member is named after its class, and no other name has a dot. Names tell the entities of one kind apart. -/
structure Addressed (graph : Graph) : Prop where
  distinct : graph.Distinct
  functions : ∀ function ∈ graph.functions, '.' ∉ function.qualifiedName.toList
  classes : ∀ self ∈ graph.classes, '.' ∉ self.name.toList
  methods : ∀ self ∈ graph.classes, (self.methods.map (·.name)).Nodup ∧
    ∀ method ∈ self.methods, method.qualifiedName = Reader.memberName self.name method.name
  properties : ∀ self ∈ graph.classes, (self.properties.map (·.name)).Nodup ∧
    ∀ property ∈ self.properties, property.qualifiedName = Reader.memberName self.name property.name

/-- `Hides hider hidden` if the two have one name, and the first is found under it. -/
inductive Hides (graph : Graph) : Entity → Entity → Prop
  | class {function self} (listed : function ∈ graph.functions) (member : self ∈ graph.classes)
      (same : function.qualifiedName = self.name) : Hides graph (.function function) (.class self)
  | property {self method property} (member : self ∈ graph.classes) (declared : method ∈ self.methods)
      (listed : property ∈ self.properties) (same : method.name = property.name) :
      Hides graph (.function method) (.property property)

/-- `answer` is what the name of an entity leads to. -/
def Answers (graph : Graph) (entity answer : Entity) : Prop :=
  graph.Hides answer entity ∨ answer = entity ∧ ∀ other, ¬ graph.Hides other entity

theorem mem_entities {graph : Graph} {entity : Entity} :
    entity ∈ graph.entities ↔ (∃ function ∈ graph.functions, entity = .function function) ∨
      ∃ self ∈ graph.classes, entity = .class self ∨ (∃ method ∈ self.methods, entity = .function method) ∨
        ∃ property ∈ self.properties, entity = .property property := by
  simp [entities, withMembers, eq_comm]

section Entities

variable {graph : Graph} {self : Entity.Class}

theorem function_mem_entities {function : Entity.Function} (member : function ∈ graph.functions) :
    .function function ∈ graph.entities :=
  mem_entities.mpr (.inl ⟨function, member, rfl⟩)

theorem class_mem_entities (member : self ∈ graph.classes) : .class self ∈ graph.entities :=
  mem_entities.mpr (.inr ⟨self, member, .inl rfl⟩)

theorem method_mem_entities (member : self ∈ graph.classes) {method : Entity.Function}
    (declared : method ∈ self.methods) : .function method ∈ graph.entities :=
  mem_entities.mpr (.inr ⟨self, member, .inr (.inl ⟨method, declared, rfl⟩)⟩)

theorem property_mem_entities (member : self ∈ graph.classes) {property : Entity.Property}
    (declared : property ∈ self.properties) : .property property ∈ graph.entities :=
  mem_entities.mpr (.inr ⟨self, member, .inr (.inr ⟨property, declared, rfl⟩)⟩)

end Entities

theorem splitMember_memberName {owner : String} (plain : '.' ∉ owner.toList) (name : String) :
    splitMember (Reader.memberName owner name) = some (owner, name) := by
  have letters : ∀ c ∈ owner.toList, decide (c ≠ '.') = true := by
    intro c member
    exact decide_eq_true fun same => plain (same ▸ member)
  have text : (Reader.memberName owner name).toList = owner.toList ++ '.' :: name.toList := by
    simp [Reader.memberName, String.toList_append]
  simp only [splitMember, text, List.dropWhile_append_of_pos letters, List.takeWhile_append_of_pos letters]
  simp

theorem dot_mem_memberName (owner name : String) : '.' ∈ (Reader.memberName owner name).toList := by
  simp [Reader.memberName, String.toList_append]

section Addressed

variable {graph : Graph} (addressed : graph.Addressed)

include addressed

theorem Addressed.function?_of_mem {function : Entity.Function} (member : function ∈ graph.functions) :
    graph.function? function.qualifiedName = some function :=
  find?_name_of_mem addressed.distinct.functions member

/-- The members of a class are found in the class. -/
theorem Addressed.entity?_memberName {self : Entity.Class} (member : self ∈ graph.classes) (name : String) :
    graph.entity? (Reader.memberName self.name name) =
      match self.methods.find? (·.name = name) with
      | some method => some (.function method)
      | none => (self.properties.find? (·.name = name)).map .property := by
  have noFunction : graph.function? (Reader.memberName self.name name) = none := by
    apply List.find?_eq_none.mpr
    intro function listed same
    have dotted := dot_mem_memberName self.name name
    rw [← of_decide_eq_true same] at dotted
    exact addressed.functions function listed dotted
  have noClass : graph.class? (Reader.memberName self.name name) = none := by
    apply List.find?_eq_none.mpr
    intro other listed same
    have dotted := dot_mem_memberName self.name name
    rw [← of_decide_eq_true same] at dotted
    exact addressed.classes other listed dotted
  simp only [entity?, noFunction, noClass, splitMember_memberName (addressed.classes self member), Option.bind_eq_bind,
    Option.bind_some]
  exact congrArg (Option.bind · _) (class?_of_mem addressed.distinct.classes member)

theorem Addressed.entity?_of_hides {hider hidden : Entity} (hides : graph.Hides hider hidden) :
    graph.entity? hidden.qualifiedName = some hider := by
  cases hides with
  | «class» listed member same =>
    have found := addressed.function?_of_mem listed
    rw [same] at found
    simp only [qualifiedName, entity?, found]
  | @property self method property member declared listed same =>
    have found := find?_name_of_mem (addressed.methods self member).1 declared
    rw [same] at found
    rw [qualifiedName, (addressed.properties self member).2 property listed, addressed.entity?_memberName member,
      found]

theorem Addressed.entity?_of_not_hides {entity : Entity} (listed : entity ∈ graph.entities)
    (alone : ∀ other, ¬ graph.Hides other entity) : graph.entity? entity.qualifiedName = some entity := by
  rcases mem_entities.mp listed with ⟨function, member, rfl⟩ | ⟨self, member, inside⟩
  · simp only [qualifiedName, entity?, addressed.function?_of_mem member]
  rcases inside with rfl | ⟨method, declared, rfl⟩ | ⟨property, declared, rfl⟩
  · have free : graph.function? self.name = none := by
      apply List.find?_eq_none.mpr
      intro function known same
      exact alone _ (.class known member (of_decide_eq_true same))
    simp only [qualifiedName, entity?, free, class?_of_mem addressed.distinct.classes member]
  · rw [qualifiedName, (addressed.methods self member).2 method declared, addressed.entity?_memberName member,
      find?_name_of_mem (addressed.methods self member).1 declared]
  · have free : self.methods.find? (·.name = property.name) = none := by
      apply List.find?_eq_none.mpr
      intro method known same
      exact alone _ (.property member known declared (of_decide_eq_true same))
    rw [qualifiedName, (addressed.properties self member).2 property declared, addressed.entity?_memberName member,
      free, find?_name_of_mem (addressed.properties self member).1 declared]
    rfl

/-- The name of an entity leads to the one that hides it, or else to the entity. -/
theorem Addressed.entity?_eq_some_iff {entity : Entity} (listed : entity ∈ graph.entities) {answer : Entity} :
    graph.entity? entity.qualifiedName = some answer ↔ graph.Answers entity answer := by
  constructor
  · intro found
    by_cases hidden : ∃ other, graph.Hides other entity
    · obtain ⟨other, hides⟩ := hidden
      rw [addressed.entity?_of_hides hides] at found
      exact .inl (Option.some.inj found ▸ hides)
    · have alone := not_exists.mp hidden
      rw [addressed.entity?_of_not_hides listed alone] at found
      exact .inr ⟨(Option.some.inj found).symm, alone⟩
  · rintro (hides | ⟨rfl, alone⟩)
    · exact addressed.entity?_of_hides hides
    · exact addressed.entity?_of_not_hides listed alone

end Addressed

end DocWeave.Graph
