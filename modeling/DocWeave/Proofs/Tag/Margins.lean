import DocWeave.Proofs.Tag.Meaning
import DocWeave.Proofs.Tag.Places
import DocWeave.Proofs.Text.Reindent

/-!
# Margins of expanded fragments

White space holds no tag, and what stands for a tag begins with a character that prints. So an expanded fragment begins
where the fragment began.
-/

namespace DocWeave.Tag

open DocWeave.Text DocWeave.Extension

/-- The text begins with a character that prints. -/
def Begins (s : String) : Prop :=
  ∃ c ∈ s.toList.head?, isBlankChar c = false

instance (s : String) : Decidable (Begins s) :=
  decidable_of_iff (s.toList.head?.any (!isBlankChar ·) = true) (by simp [Begins, Option.any_eq_true])

theorem begins_iff {s : String} : Begins s ↔ ∃ c rest, s.toList = c :: rest ∧ isBlankChar c = false := by
  simp only [Begins, Option.mem_def, List.head?_eq_some_iff]
  exact ⟨fun ⟨c, ⟨rest, split⟩, prints⟩ => ⟨c, rest, split, prints⟩,
    fun ⟨c, rest, split, prints⟩ => ⟨c, ⟨rest, split⟩, prints⟩⟩

theorem Begins.append {s : String} (begins : Begins s) (t : String) : Begins (s ++ t) := by
  obtain ⟨c, rest, split, prints⟩ := begins_iff.mp begins
  exact begins_iff.mpr ⟨c, rest ++ t.toList, by rw [String.toList_append, split, List.cons_append], prints⟩

variable {scope : Scope} {site : Site}

/-! ### Tags -/

theorem begins_trim {cs : List Char} (filled : trim cs ≠ []) : Begins (String.ofList (trim cs)) := by
  have notBlank : isBlank cs = false := by
    by_contra blank
    have empty : trimStart cs = [] :=
      List.dropWhile_eq_nil_iff.mpr (List.all_eq_true.mp (Bool.not_eq_false _ ▸ blank))
    exact filled (by rw [trim, empty]; rfl)
  obtain ⟨front, c, rest, rfl, blank, prints⟩ := exists_prints notBlank
  refine begins_iff.mpr ⟨c, trimEnd rest, ?_, prints⟩
  rw [String.toList_ofList, trim, trimStart, List.dropWhile_append_of_pos (List.all_eq_true.mp blank),
    List.dropWhile_cons_of_neg (by simp [prints])]
  exact trimEnd_append_cons prints [] rest

/-- The class that a replaced tag names is not empty, and there is no white space around it. -/
theorem begins_of_named {word inner : List Char} {span : Span} {text named : String} {kind : Kind}
    (success : scope.expandTag site word inner span = .ok text) (given : kind.named? inner = some named) :
    Begins named := by
  have member : named ∈ (arguments inner).map String.ofList := List.mem_of_getElem? given
  have filled : named ≠ "" := by
    unfold Scope.expandTag at success
    split at success
    · cases success
    · dsimp only at success
      split at success
      · cases success
      · split at success
        · cases success
        · rename_i allGiven
          simpa using List.findIdx?_eq_none_iff.mp allGiven named member
  unfold arguments at member
  split at member
  · cases member
  · rw [List.map_map] at member
    obtain ⟨piece, _, rfl⟩ := List.mem_map.mp member
    exact begins_trim fun empty => filled (by rw [Function.comp_apply, empty])

theorem begins_expansion {stem target : String} (stemBegins : stem = "" ∨ Begins stem) (begins : Begins target)
    (kind : Kind) (object : String) : Begins (kind.expansion ((⟨stem⟩ : Symbols).forClass target) object) := by
  have lead : Begins (stem ++ "_") := by
    rcases stemBegins with rfl | own
    · decide
    · exact own.append "_"
  have converted : ∀ object, Begins (((⟨stem⟩ : Symbols).forClass target).castExpr object) := fun object =>
    (((((by decide : Begins "reinterpret_cast<").append _).append "*>(").append object).append ")")
  cases kind with
  | name => exact begins
  | struct => exact begins.append _
  | typeStruct => exact begins.append _
  | new => exact converted _
  | copy => exact (((((lead.append _).append _).append _).append "(").append _).append ")"
  | isInstance =>
    exact (((by decide : Begins "PyObject_TypeCheck(reinterpret_cast<PyObject*>(").append object).append _).append _
      |>.append _
  | cast => exact converted object

/-- What stands for a tag begins with a character that prints, if the names that a module chooses do. -/
theorem begins_of_expandTag (stemBegins : scope.symbols.stem = "" ∨ Begins scope.symbols.stem)
    (ownBegins : ∀ own ∈ site.defaultClass, Begins own) {word inner : List Char} {span : Span} {text : String}
    (success : scope.expandTag site word inner span = .ok text) : Begins text := by
  obtain ⟨kind, target, _, means, rfl⟩ := expandTag_eq_ok success
  refine begins_expansion stemBegins ?_ kind _
  generalize given : kind.named? inner = named at means
  cases means with
  | named _ => exact begins_of_named success given
  | own default => exact ownBegins target default

/-! ### Fragments -/

theorem lead_of_blank {c : Char} (blank : isBlankChar c = true) (cs : List Char) : lead (c :: cs) = .plain c cs := by
  have other : c ≠ '$' := by
    rintro rfl
    cases blank
  exact if_neg other

/-- White space is expanded to itself. -/
theorem expand_blank_append {front : List Char} (blank : isBlank front = true) {start : Nat} {rest : List Char}
    {found : List Token} {text : List Char} (read : scan start (front ++ rest) = .ok found)
    (expanded : scope.expandTokens site found = .ok text) :
    ∃ later others written, scan later rest = .ok others ∧ scope.expandTokens site others = .ok written ∧
      text = front ++ written := by
  induction front generalizing start found text with
  | nil => exact ⟨start, found, text, read, expanded, rfl⟩
  | cons c front ih =>
    obtain ⟨first, others⟩ := Bool.and_eq_true_iff.mp (List.all_cons.symm.trans blank)
    rw [List.cons_append, scan_of_plain (lead_of_blank first _)] at read
    obtain ⟨tokens, further, rfl⟩ := map_eq_ok.mp read
    obtain ⟨_, behind, own, next, rfl⟩ := expandTokens_cons.mp expanded
    cases own
    obtain ⟨later, left, written, unread, last, rfl⟩ := ih others further next
    exact ⟨later, left, written, unread, last, rfl⟩

section Names

variable (stemBegins : scope.symbols.stem = "" ∨ Begins scope.symbols.stem)
  (ownBegins : ∀ own ∈ site.defaultClass, Begins own)

include stemBegins ownBegins

/-- A text that begins with a character that prints is expanded to such a text. -/
theorem exists_prints_of_expand {c : Char} (prints : isBlankChar c = false) {start : Nat} {rest : List Char}
    {found : List Token} {text : List Char} (read : scan start (c :: rest) = .ok found)
    (expanded : scope.expandTokens site found = .ok text) : ∃ d more, text = d :: more ∧ isBlankChar d = false := by
  cases first : lead (c :: rest) with
  | done =>
    unfold lead at first
    repeat' split at first
    all_goals cases first
    contradiction
  | plain d cs =>
    rw [scan_of_plain first] at read
    obtain ⟨tokens, _, rfl⟩ := map_eq_ok.mp read
    obtain ⟨_, behind, own, _, rfl⟩ := expandTokens_cons.mp expanded
    cases own
    cases eq_of_lead_plain first
    exact ⟨c, behind, rfl, prints⟩
  | dollar cs =>
    rw [scan_of_dollar first] at read
    obtain ⟨tokens, _, rfl⟩ := map_eq_ok.mp read
    obtain ⟨_, behind, own, _, rfl⟩ := expandTokens_cons.mp expanded
    cases own
    exact ⟨'$', behind, rfl, by decide⟩
  | tag name inner cs =>
    rw [scan_of_tag first] at read
    obtain ⟨tokens, _, rfl⟩ := map_eq_ok.mp read
    obtain ⟨_, behind, own, _, rfl⟩ := expandTokens_cons.mp expanded
    obtain ⟨written, replaced, rfl⟩ := map_eq_ok.mp own
    obtain ⟨d, more, split, prints⟩ := begins_iff.mp (begins_of_expandTag stemBegins ownBegins replaced)
    exact ⟨d, more ++ behind, by rw [split, List.cons_append], prints⟩
  | unclosed name =>
    rw [scan_of_unclosed first] at read
    cases read

/-- A fragment whose first line that prints begins with spaces and tabs is expanded to such a text. -/
theorem margined_of_expand {fragment text : String} (margined : Margined fragment.toList)
    (success : scope.expand site fragment = .ok text) : Margined text.toList := by
  obtain ⟨front, margin, c, rest, split, blank, opens, plain, prints⟩ := margined
  unfold Scope.expand at success
  split at success
  · cases success
  · rename_i found read
    obtain ⟨written, expanded, rfl⟩ := map_eq_ok.mp success
    have both : isBlank (front ++ margin) = true := by
      rw [isBlank_append, blank, Bool.true_and, isBlank, List.all_eq_true]
      intro m member
      rcases plain m member with rfl | rfl <;> decide
    rw [tokens, split] at read
    obtain ⟨later, others, behind, unread, last, rfl⟩ := expand_blank_append both read expanded
    obtain ⟨d, more, rfl, begins⟩ := exists_prints_of_expand stemBegins ownBegins prints unread last
    exact ⟨front, margin, d, more, by simp, blank, opens, plain, begins⟩

end Names

theorem expand_of_blank {fragment text : String} (blank : isBlank fragment.toList = true)
    (success : scope.expand site fragment = .ok text) : text = fragment := by
  unfold Scope.expand at success
  split at success
  · cases success
  · rename_i found read
    obtain ⟨written, expanded, rfl⟩ := map_eq_ok.mp success
    rw [tokens, ← List.append_nil fragment.toList] at read
    obtain ⟨later, others, behind, unread, last, rfl⟩ := expand_blank_append blank read expanded
    rw [scan_of_done rfl] at unread
    cases unread
    cases last
    simp

end DocWeave.Tag
