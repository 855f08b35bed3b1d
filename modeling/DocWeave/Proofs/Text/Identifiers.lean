import DocWeave.Proofs.Text.Underscores
import DocWeave.Proofs.Text.Words

/-!
# Symbols for C

A name that is joined of an identifier and other words is an identifier. A keyword has at most one underscore and does
not end like the name of a struct, so a symbol of three parts and the name of a struct are no keywords.
-/

namespace DocWeave.Text

/-- The name is made of letters, digits and underscores. -/
def Letters (name : String) : Prop :=
  name.toList.all isWordChar = true

instance (name : String) : Decidable (Letters name) :=
  inferInstanceAs (Decidable (name.toList.all isWordChar = true))

/-- The symbol can be the name of something in C. -/
structure Spelled (symbol : String) : Prop where
  identifier : isIdentifier symbol = true
  free : isKeyword symbol = false

variable {name front back lead word rest : String}

theorem isIdentifier_iff :
    isIdentifier name = true ↔ (∃ c cs, name.toList = c :: cs ∧ isWordStart c = true) ∧ Letters name := by
  have whole := @isIdentifier_ofList name.toList
  rw [String.ofList_toList] at whole
  rw [whole]
  constructor
  · rintro ⟨c, cs, same, begins, letters⟩
    exact ⟨⟨c, cs, same, begins⟩, letters⟩
  · rintro ⟨⟨c, cs, same, begins⟩, letters⟩
    exact ⟨c, cs, same, begins, letters⟩

theorem letters_of_isIdentifier (identifier : isIdentifier name = true) : Letters name :=
  (isIdentifier_iff.mp identifier).2

theorem Letters.joined (first : Letters front) (second : Letters back) : Letters (joined front back) := by
  rw [Letters, toList_joined, List.all_append, List.all_cons]
  exact Bool.and_eq_true_iff.mpr ⟨first, Bool.and_eq_true_iff.mpr ⟨by decide, second⟩⟩

theorem isIdentifier_joined (identifier : isIdentifier front = true) (letters : Letters back) :
    isIdentifier (joined front back) = true := by
  obtain ⟨⟨c, cs, same, begins⟩, first⟩ := isIdentifier_iff.mp identifier
  refine isIdentifier_iff.mpr ⟨⟨c, cs ++ '_' :: back.toList, ?_, begins⟩, first.joined letters⟩
  rw [toList_joined, same, List.cons_append]

theorem isKeyword_eq_false_iff : isKeyword name = false ↔ name ∉ keywords := by
  rw [isKeyword, ← Bool.not_eq_true, List.contains_iff_mem]

/-- What has two underscores is no keyword. -/
theorem isKeyword_joined_joined (lead word rest : String) : isKeyword (joined (joined lead word) rest) = false := by
  have few : ∀ keyword ∈ keywords, keyword.toList.count '_' ≤ 1 := by decide +kernel
  refine isKeyword_eq_false_iff.mpr fun member => ?_
  have count := few _ member
  simp only [toList_joined, List.count_append, List.count_cons_self] at count
  omega

theorem spelled_joined_joined (first : isIdentifier lead = true) (second : Letters word) (third : Letters rest) :
    Spelled (joined (joined lead word) rest) where
  identifier := isIdentifier_joined (isIdentifier_joined first second) third
  free := isKeyword_joined_joined lead word rest

/-- The name of a struct is no keyword, whatever it begins with. -/
theorem isKeyword_joined_struct (name : String) : isKeyword (joined name "struct") = false := by
  have others : ∀ keyword ∈ keywords, ¬ "_struct".toList <:+ keyword.toList := by decide +kernel
  refine isKeyword_eq_false_iff.mpr fun member => others _ member ?_
  rw [toList_joined]
  exact List.suffix_append _ _

theorem spelled_joined_struct (identifier : isIdentifier name = true) : Spelled (joined name "struct") where
  identifier := isIdentifier_joined identifier (by decide)
  free := isKeyword_joined_struct name

theorem isIdentifier_of_mem_keywords : ∀ keyword ∈ keywords, isIdentifier keyword = true := by
  decide +kernel

end DocWeave.Text
