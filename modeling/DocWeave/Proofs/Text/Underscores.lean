import Mathlib.Data.String.Basic

/-!
# Names that are joined by an underscore

A name that is joined of two others can be taken apart in several ways if the others have underscores themselves. With
a word that has none it can be taken apart in one way only.
-/

namespace DocWeave

/-- Two names with an underscore between them. -/
def joined (front back : String) : String :=
  front ++ "_" ++ back

/-- A name without an underscore. -/
def Single (word : String) : Prop :=
  '_' ∉ word.toList

instance (word : String) : Decidable (Single word) :=
  inferInstanceAs (Decidable ('_' ∉ word.toList))

theorem joined_assoc (front middle back : String) :
    joined (joined front middle) back = joined front (joined middle back) := by
  simp only [joined, String.append_assoc]

theorem toList_joined (front back : String) : (joined front back).toList = front.toList ++ '_' :: back.toList := by
  simp [joined]

theorem not_single_joined (front back : String) : ¬ Single (joined front back) := by
  simp [Single, toList_joined]

theorem ne_joined_right (front back : String) : back ≠ joined front back := by
  intro same
  have size := congrArg (fun name => name.toList.length) same
  simp only [toList_joined, List.length_append, List.length_cons] at size
  omega

theorem joined_left_inj {front back other : String} : joined front back = joined front other ↔ back = other := by
  simp [joined]

theorem joined_right_inj {front other back : String} : joined front back = joined other back ↔ front = other := by
  simp [joined]

/-- Joined names are equal if their parts are, or if one of the fronts goes on in the other name. -/
theorem joined_eq_joined_iff {front back other behind : String} : joined front back = joined other behind ↔
    (front = other ∧ back = behind) ∨ (∃ middle, front = joined other middle ∧ behind = joined middle back) ∨
      ∃ middle, other = joined front middle ∧ back = joined middle behind := by
  constructor
  · intro same
    have lists := congrArg String.toList same
    rw [toList_joined, toList_joined, List.append_eq_append_iff] at lists
    rcases lists with ⟨rest, longer, shorter⟩ | ⟨rest, longer, shorter⟩
    · cases rest with
      | nil =>
        simp only [List.append_nil, List.nil_append, List.cons.injEq, true_and] at longer shorter
        exact .inl ⟨String.toList_inj.mp longer.symm, String.toList_inj.mp shorter⟩
      | cons first middle =>
        rw [List.cons_append, List.cons.injEq] at shorter
        obtain ⟨rfl, shorter⟩ := shorter
        refine .inr (.inr ⟨String.ofList middle, ?_, ?_⟩)
        · apply String.toList_inj.mp
          rw [longer, toList_joined, String.toList_ofList]
        · apply String.toList_inj.mp
          rw [shorter, toList_joined, String.toList_ofList]
    · cases rest with
      | nil =>
        simp only [List.append_nil, List.nil_append, List.cons.injEq, true_and] at longer shorter
        exact .inl ⟨String.toList_inj.mp longer, String.toList_inj.mp shorter.symm⟩
      | cons first middle =>
        rw [List.cons_append, List.cons.injEq] at shorter
        obtain ⟨rfl, shorter⟩ := shorter
        refine .inr (.inl ⟨String.ofList middle, ?_, ?_⟩)
        · apply String.toList_inj.mp
          rw [longer, toList_joined, String.toList_ofList]
        · apply String.toList_inj.mp
          rw [shorter, toList_joined, String.toList_ofList]
  · rintro (⟨rfl, rfl⟩ | ⟨middle, rfl, rfl⟩ | ⟨middle, rfl, rfl⟩)
    · rfl
    · exact joined_assoc _ _ _
    · exact (joined_assoc _ _ _).symm

/-- Words in front are read off a joined name. -/
theorem joined_eq_joined_of_single {word back other behind : String} (first : Single word) (second : Single other) :
    joined word back = joined other behind ↔ word = other ∧ back = behind := by
  rw [joined_eq_joined_iff]
  constructor
  · rintro (same | ⟨middle, rfl, _⟩ | ⟨middle, rfl, _⟩)
    · exact same
    · exact absurd first (not_single_joined _ _)
    · exact absurd second (not_single_joined _ _)
  · exact .inl

/-- A word at the end is read off a joined name. -/
theorem joined_eq_joined_of_single_right {front word other behind : String} (single : Single word) :
    joined front word = joined other behind ↔
      (front = other ∧ behind = word) ∨ ∃ middle, front = joined other middle ∧ behind = joined middle word := by
  rw [joined_eq_joined_iff]
  constructor
  · rintro (⟨rfl, rfl⟩ | nested | ⟨middle, _, rfl⟩)
    · exact .inl ⟨rfl, rfl⟩
    · exact .inr nested
    · exact absurd single (not_single_joined _ _)
  · rintro (⟨rfl, rfl⟩ | nested)
    · exact .inl ⟨rfl, rfl⟩
    · exact .inr (.inl nested)

end DocWeave
