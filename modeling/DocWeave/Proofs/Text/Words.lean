import DocWeave.Text.Word

/-!
# Words

A word is read back from the text in which another character follows it. Only ASCII letters have another case.
-/

namespace DocWeave.Text

section Read

variable {word rest : List Char} {c : Char} (letters : word.all isWordChar = true) (other : isWordChar c = false)

include letters other

theorem takeWhile_word : (word ++ c :: rest).takeWhile isWordChar = word := by
  rw [List.takeWhile_append_of_pos (List.all_eq_true.mp letters), List.takeWhile_cons_of_neg (by simp [other]),
    List.append_nil]

theorem dropWhile_word : (word ++ c :: rest).dropWhile isWordChar = c :: rest := by
  rw [List.dropWhile_append_of_pos (List.all_eq_true.mp letters), List.dropWhile_cons_of_neg (by simp [other])]

end Read

theorem isWordChar_of_isWordStart {c : Char} (begins : isWordStart c = true) : isWordChar c = true := by
  simp only [isWordStart, isWordChar, Char.isAlphanum, Bool.or_eq_true] at begins ⊢
  exact begins.imp_left .inl

theorem isIdentifier_ofList {name : List Char} :
    isIdentifier (String.ofList name) = true ↔
      ∃ c cs, name = c :: cs ∧ isWordStart c = true ∧ name.all isWordChar = true := by
  unfold isIdentifier
  rw [String.toList_ofList]
  cases name with
  | nil => simp
  | cons c cs =>
    rw [List.all_cons]
    constructor
    · intro identifier
      obtain ⟨begins, letters⟩ := Bool.and_eq_true_iff.mp identifier
      exact ⟨c, cs, rfl, begins, by simp [isWordChar_of_isWordStart begins, letters]⟩
    · rintro ⟨_, _, same, begins, letters⟩
      cases same
      simp [begins, (Bool.and_eq_true_iff.mp letters).2]

/-! ### Capitals -/

theorem toUpper_of_not_ascii {c : Char} (beyond : 128 ≤ c.toNat) : c.toUpper = c := by
  refine dif_neg fun small => ?_
  have most : c.toNat ≤ 122 := UInt32.le_iff_toNat_le.mp small.2
  omega

theorem toLower_of_not_ascii {c : Char} (beyond : 128 ≤ c.toNat) : c.toLower = c := by
  refine dif_neg fun capital => ?_
  have most : c.toNat ≤ 90 := UInt32.le_iff_toNat_le.mp capital.2
  omega

/-- What holds of the ASCII characters and of those without case holds of all. -/
theorem forall_of_ascii {holds : Char → Prop} (ascii : ∀ n < 128, holds (Char.ofNat n))
    (others : ∀ c : Char, c.toUpper = c → c.toLower = c → holds c) (c : Char) : holds c := by
  by_cases small : c.toNat < 128
  · rw [← Char.ofNat_toNat c]
    exact ascii _ small
  · have beyond := Nat.le_of_not_lt small
    exact others c (toUpper_of_not_ascii beyond) (toLower_of_not_ascii beyond)

theorem toUpper_toLower (c : Char) : c.toLower.toUpper = c.toUpper := by
  revert c
  apply forall_of_ascii
  · decide +kernel
  · intro c _ lower
    rw [lower]

theorem toLower_toUpper (c : Char) : c.toUpper.toLower = c.toLower := by
  revert c
  apply forall_of_ascii
  · decide +kernel
  · intro c upper _
    rw [upper]

/-- The capital of a letter is a letter, and a digit stays what it is. -/
theorem isWordChar_toUpper : ∀ {c : Char}, c.isAlphanum = true → isWordChar c.toUpper = true := by
  apply forall_of_ascii
  · decide +kernel
  · intro c upper _ plain
    rw [upper, isWordChar, plain, Bool.true_or]

end DocWeave.Text
