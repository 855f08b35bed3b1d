import DocWeave.Proofs.Text.Edges

/-!
# Texts up to white space

The gist of a text is what is left of it once white space does not count: the words of each line that is not
blank. Moving a block, expanding its tabs and cutting its edges keeps the gist.
-/

namespace DocWeave.Text

/-- The runs of characters that print. -/
def words (cs : List Char) : List (List Char) :=
  (cs.splitOnP isBlankChar).filter (!·.isEmpty)

/-- The words of the lines that are not blank. -/
def wordLines (ls : List (List Char)) : List (List (List Char)) :=
  (ls.map words).filter (!·.isEmpty)

def gist (cs : List Char) : List (List (List Char)) :=
  wordLines (lines cs)

/-! ### Words -/

@[simp]
theorem words_nil : words [] = [] := rfl

theorem words_append_blank {c : Char} (blank : isBlankChar c = true) (cs ds : List Char) :
    words (cs ++ c :: ds) = words cs ++ words ds := by
  rw [words, List.splitOnP_append_cons cs ds blank, List.filter_append]
  rfl

theorem words_cons_blank {c : Char} (blank : isBlankChar c = true) (cs : List Char) :
    words (c :: cs) = words cs :=
  words_append_blank blank [] cs

theorem words_blank_append {front : List Char} (blank : isBlank front = true) (cs : List Char) :
    words (front ++ cs) = words cs := by
  induction front with
  | nil => rfl
  | cons c rest ih =>
    obtain ⟨first, others⟩ := Bool.and_eq_true_iff.mp (List.all_cons.symm.trans blank)
    rw [List.cons_append, words_cons_blank first, ih others]

theorem words_append_of_blank {tail : List Char} (blank : isBlank tail = true) (cs : List Char) :
    words (cs ++ tail) = words cs := by
  cases tail with
  | nil => rw [List.append_nil]
  | cons c rest =>
    obtain ⟨first, others⟩ := Bool.and_eq_true_iff.mp (List.all_cons.symm.trans blank)
    have nothing := words_blank_append others []
    rw [List.append_nil] at nothing
    rw [words_append_blank first, nothing, words_nil, List.append_nil]

theorem words_of_blank {cs : List Char} (blank : isBlank cs = true) : words cs = [] :=
  words_append_of_blank blank []

theorem words_trimEnd (cs : List Char) : words (trimEnd cs) = words cs := by
  obtain ⟨tail, split, blank⟩ := exists_eq_trimEnd_append cs
  have whole := words_append_of_blank blank (trimEnd cs)
  rwa [← split, eq_comm] at whole

theorem isBlank_spaces (n : Nat) : isBlank (spaces n) = true := by
  simp [isBlank, spaces, isBlankChar_space]

theorem words_drop {n : Nat} {line : List Char} (inside : n ≤ indentation line) :
    words (line.drop n) = words line := by
  have blank : isBlank (line.take n) = true := by
    rw [isBlank, List.all_eq_true]
    intro c member
    have lead : c ∈ line.takeWhile (· = ' ') := by
      have whole : line.take n = (line.takeWhile (· = ' ')).take n := by
        conv => lhs; rw [← List.takeWhile_append_dropWhile (p := (· = ' ')) (l := line)]
        exact List.take_append_of_le_length inside
      rw [whole] at member
      exact List.mem_of_mem_take member
    have space : c = ' ' := by simpa using List.all_eq_true.mp List.all_takeWhile c lead
    rw [space]
    exact isBlankChar_space
  have whole := words_blank_append blank (line.drop n)
  rwa [List.take_append_drop, eq_comm] at whole

theorem words_expandTabsFrom {width : Nat} (wide : 0 < width) (column : Nat) (word cs : List Char) :
    words (word ++ expandTabsFrom width column cs) = words (word ++ cs) := by
  induction cs generalizing column word with
  | nil => rfl
  | cons c cs ih =>
    unfold expandTabsFrom
    split
    · rename_i tab
      subst tab
      dsimp only
      have positive : 0 < width - column % width := Nat.sub_pos_of_lt (Nat.mod_lt _ wide)
      obtain ⟨more, size⟩ : ∃ more, width - column % width = more + 1 := ⟨_, (Nat.sub_add_cancel positive).symm⟩
      have later := ih (column + (width - column % width)) []
      rw [List.nil_append, List.nil_append] at later
      rw [size, spaces, List.replicate_succ, List.cons_append, words_append_blank isBlankChar_space,
        ← spaces, words_blank_append (isBlank_spaces more), ← size, later,
        words_append_blank (show isBlankChar '\t' = true by decide)]
    · have later := ih (column + 1) (word ++ [c])
      simpa using later

theorem words_expandTabs (tabWidth : Nat) (line : List Char) : words (expandTabs tabWidth line) = words line :=
  words_expandTabsFrom (by omega) 0 [] line

/-! ### Lines -/

theorem wordLines_append (ls others : List (List Char)) :
    wordLines (ls ++ others) = wordLines ls ++ wordLines others := by
  simp [wordLines]

@[simp]
theorem gist_nil : gist [] = [] := rfl

theorem gist_append_newline (before after : List Char) :
    gist (before ++ '\n' :: after) = gist before ++ gist after := by
  rw [gist, lines_append, wordLines_append]
  rfl

theorem gist_of_not_mem {line : List Char} (whole : '\n' ∉ line) : gist line = wordLines [line] := by
  rw [gist, lines_of_not_mem whole]

/-- A text with its last line split off. -/
theorem exists_last_line (cs : List Char) :
    ∃ last, '\n' ∉ last ∧ (cs = last ∨ ∃ front, cs = front ++ '\n' :: last) := by
  induction cs with
  | nil => exact ⟨[], by simp, .inl rfl⟩
  | cons c cs ih =>
    obtain ⟨last, whole, rfl | ⟨front, rfl⟩⟩ := ih
    · by_cases newline : c = '\n'
      · exact ⟨cs, whole, .inr ⟨[], by rw [newline]; rfl⟩⟩
      · exact ⟨c :: cs, by simp [whole, Ne.symm newline], .inl rfl⟩
    · exact ⟨last, whole, .inr ⟨c :: front, rfl⟩⟩

theorem gist_append_char {c : Char} (blank : isBlankChar c = true) (cs : List Char) :
    gist (cs ++ [c]) = gist cs := by
  by_cases newline : c = '\n'
  · rw [newline, gist_append_newline, gist_nil, List.append_nil]
  have line : ∀ last : List Char, '\n' ∉ last → gist (last ++ [c]) = gist last := by
    intro last whole
    have still : '\n' ∉ last ++ [c] := by simp [whole, Ne.symm newline]
    rw [gist_of_not_mem still, gist_of_not_mem whole]
    simp only [wordLines, List.map_cons, words_append_blank blank, words_nil, List.append_nil]
  obtain ⟨last, whole, rfl | ⟨front, rfl⟩⟩ := exists_last_line cs
  · exact line cs whole
  · rw [List.append_assoc, List.cons_append, gist_append_newline, gist_append_newline, line last whole]

theorem gist_append_of_blank {tail : List Char} (blank : isBlank tail = true) (cs : List Char) :
    gist (cs ++ tail) = gist cs := by
  induction tail generalizing cs with
  | nil => rw [List.append_nil]
  | cons c rest ih =>
    obtain ⟨first, others⟩ := Bool.and_eq_true_iff.mp (List.all_cons.symm.trans blank)
    have step := ih others (cs ++ [c])
    rw [gist_append_char first] at step
    simpa using step

theorem gist_cons_blank {c : Char} (blank : isBlankChar c = true) (cs : List Char) :
    gist (c :: cs) = gist cs := by
  by_cases newline : c = '\n'
  · rw [newline]
    exact gist_append_newline [] cs
  · rw [gist, lines, List.splitOn_cons_eq_if_modifyHead, if_neg (by simpa using newline)]
    rw [gist, lines]
    cases cs.splitOn '\n' with
    | nil => rfl
    | cons first rest => simp only [List.modifyHead_cons, wordLines, List.map_cons, words_cons_blank blank]

theorem gist_blank_append {front : List Char} (blank : isBlank front = true) (cs : List Char) :
    gist (front ++ cs) = gist cs := by
  induction front with
  | nil => rfl
  | cons c rest ih =>
    obtain ⟨first, others⟩ := Bool.and_eq_true_iff.mp (List.all_cons.symm.trans blank)
    rw [List.cons_append, gist_cons_blank first, ih others]

theorem gist_of_blank {cs : List Char} (blank : isBlank cs = true) : gist cs = [] :=
  gist_append_of_blank blank []

theorem gist_trimEnd (cs : List Char) : gist (trimEnd cs) = gist cs := by
  obtain ⟨tail, split, blank⟩ := exists_eq_trimEnd_append cs
  have whole := gist_append_of_blank blank (trimEnd cs)
  rwa [← split, eq_comm] at whole

theorem gist_trimStart (cs : List Char) : gist (trimStart cs) = gist cs := by
  obtain ⟨front, split, blank⟩ := exists_eq_append_trimStart cs
  have whole := gist_blank_append blank (trimStart cs)
  rwa [← split, eq_comm] at whole

theorem gist_trim (cs : List Char) : gist (trim cs) = gist cs := by
  rw [trim, gist_trimEnd, gist_trimStart]

theorem gist_dropBlankLines (cs : List Char) : gist (dropBlankLines cs) = gist cs := by
  obtain ⟨front, split, blank⟩ := exists_eq_append_dropBlankLines cs
  have whole := gist_blank_append blank (dropBlankLines cs)
  rwa [← split, eq_comm] at whole

theorem gist_trimBlankEdges (cs : List Char) : gist (trimBlankEdges cs) = gist cs := by
  rw [trimBlankEdges, gist_trimEnd, gist_dropBlankLines]

/-! ### Blocks -/

theorem gist_joinLines {ls : List (List Char)} (whole : ∀ line ∈ ls, '\n' ∉ line) :
    gist (joinLines ls) = wordLines ls := by
  by_cases empty : ls = []
  · rw [empty]
    rfl
  · rw [gist, lines_joinLines whole empty]

theorem wordLines_map {f : List Char → List Char} {ls : List (List Char)}
    (same : ∀ line ∈ ls, words (f line) = words line) : wordLines (ls.map f) = wordLines ls := by
  rw [wordLines, List.map_map, wordLines]
  congr 1
  exact List.map_congr_left same

theorem wordLines_collapseEmpty (ls : List (List Char)) : wordLines (collapseEmpty ls) = wordLines ls := by
  induction ls using collapseEmpty.induct with
  | case1 ls ih =>
    rw [collapseEmpty, ih]
    rfl
  | case2 line ls other ih =>
    rw [collapseEmpty]
    · rw [← List.singleton_append, wordLines_append, ih, ← wordLines_append, List.singleton_append]
    · exact other
  | case3 => rfl

theorem commonIndentation_le {ls : List (List Char)} {line : List Char} (member : line ∈ ls)
    (prints : isBlank line = false) : commonIndentation ls ≤ indentation line := by
  have listed : indentation line ∈ (ls.filter (!isBlank ·)).map indentation :=
    List.mem_map_of_mem (List.mem_filter.mpr ⟨member, by simp [prints]⟩)
  unfold commonIndentation
  cases least : ((ls.filter (!isBlank ·)).map indentation).min? with
  | none => exact Nat.zero_le _
  | some n => exact (List.min?_eq_some_iff.mp least).2 _ listed

theorem words_shiftLine {common columns : Nat} {line : List Char}
    (inside : isBlank line = false → common ≤ indentation line) :
    words (shiftLine common columns line) = words line := by
  unfold shiftLine
  split
  · rename_i blank
    rw [words_of_blank blank, words_nil]
  · rename_i some
    rw [words_blank_append (isBlank_spaces columns), words_trimEnd, words_drop (inside (by simpa using some))]

theorem newline_not_mem_spaces (n : Nat) : '\n' ∉ spaces n := by
  simp [spaces]

theorem newline_not_mem_expandTabsFrom {width column : Nat} {cs : List Char} (whole : '\n' ∉ cs) :
    '\n' ∉ expandTabsFrom width column cs := by
  induction cs generalizing column with
  | nil => exact whole
  | cons c cs ih =>
    rw [List.mem_cons, not_or] at whole
    unfold expandTabsFrom
    split
    · rw [List.mem_append, not_or]
      exact ⟨newline_not_mem_spaces _, ih whole.2⟩
    · rw [List.mem_cons, not_or]
      exact ⟨whole.1, ih whole.2⟩

theorem mem_of_mem_trimEnd {c : Char} {cs : List Char} (member : c ∈ trimEnd cs) : c ∈ cs := by
  obtain ⟨tail, split, _⟩ := exists_eq_trimEnd_append cs
  rw [split]
  exact List.mem_append_left _ member

theorem newline_not_mem_shiftLine {common columns : Nat} {line : List Char} (whole : '\n' ∉ line) :
    '\n' ∉ shiftLine common columns line := by
  unfold shiftLine
  split
  · simp
  · rw [List.mem_append, not_or]
    exact ⟨newline_not_mem_spaces _, fun inside => whole (List.mem_of_mem_drop (mem_of_mem_trimEnd inside))⟩

theorem mem_of_mem_collapseEmpty {ls : List (List Char)} {line : List Char}
    (member : line ∈ collapseEmpty ls) : line ∈ ls := by
  induction ls using collapseEmpty.induct with
  | case1 ls ih =>
    rw [collapseEmpty] at member
    exact List.mem_cons_of_mem _ (ih member)
  | case2 first ls other ih =>
    rw [collapseEmpty] at member
    · rcases List.mem_cons.mp member with rfl | later
      · exact List.mem_cons_self
      · exact List.mem_cons_of_mem _ (ih later)
    · exact other
  | case3 => exact member

/-- Moving a block keeps its gist. -/
theorem gist_reindent (tabWidth columns : Nat) (cs : List Char) : gist (reindent tabWidth columns cs) = gist cs := by
  unfold reindent
  dsimp only
  generalize shown : (lines cs).map (expandTabs tabWidth) = expanded
  have whole : ∀ line ∈ expanded, '\n' ∉ line := by
    rw [← shown]
    intro line member
    obtain ⟨source, listed, rfl⟩ := List.mem_map.mp member
    exact newline_not_mem_expandTabsFrom (not_mem_of_mem_lines listed)
  have moved : ∀ line ∈ collapseEmpty (expanded.map (shiftLine (commonIndentation expanded) columns)),
      '\n' ∉ line := by
    intro line member
    obtain ⟨source, listed, rfl⟩ := List.mem_map.mp (mem_of_mem_collapseEmpty member)
    exact newline_not_mem_shiftLine (whole source listed)
  rw [gist_joinLines moved, wordLines_collapseEmpty, wordLines_map, ← shown, wordLines_map]
  · rfl
  · intro line _
    exact words_expandTabs tabWidth line
  · intro line member
    exact words_shiftLine (commonIndentation_le member)

/-! ### Characters that print -/

/-- The characters that print. -/
def ink (cs : List Char) : List Char :=
  cs.filter (!isBlankChar ·)

@[simp]
theorem ink_append (cs ds : List Char) : ink (cs ++ ds) = ink cs ++ ink ds :=
  List.filter_append ..

theorem flatten_words_append (word : List Char) (letters : ∀ c ∈ word, isBlankChar c = false) (cs : List Char) :
    (words (word ++ cs)).flatten = word ++ ink cs := by
  induction cs generalizing word with
  | nil =>
    rw [words, List.append_nil, List.splitOnP_eq_singleton letters]
    cases word <;> simp [ink]
  | cons c cs ih =>
    by_cases blank : isBlankChar c = true
    · have rest := ih [] (by simp)
      rw [List.nil_append, List.nil_append] at rest
      have alone : (words word).flatten = word := by
        rw [words, List.splitOnP_eq_singleton letters]
        cases word <;> simp
      rw [words_append_blank blank, List.flatten_append, rest, alone, ink, ink,
        List.filter_cons_of_neg (by simp [blank])]
    · have rest := ih (word ++ [c]) (by
        intro d member
        rcases List.mem_append.mp member with inside | last
        · exact letters d inside
        · rw [List.mem_singleton.mp last]
          simpa using blank)
      rw [List.append_assoc, List.singleton_append] at rest
      rw [rest, ink, ink, List.filter_cons_of_pos (by simpa using blank), List.append_assoc, List.singleton_append]

theorem flatten_words (cs : List Char) : (words cs).flatten = ink cs :=
  flatten_words_append [] (by simp) cs

theorem ink_joinLines (ls : List (List Char)) : ink (joinLines ls) = ls.flatMap ink := by
  induction ls with
  | nil => rfl
  | cons line rest ih =>
    by_cases empty : rest = []
    · simp [empty]
    · rw [joinLines_cons line empty, ink_append, List.flatMap_cons, ← ih]
      rfl

theorem flatten_gist (cs : List Char) : (gist cs).flatten.flatten = ink cs := by
  have each : ∀ ls, (wordLines ls).flatten.flatten = ls.flatMap ink := by
    intro ls
    induction ls with
    | nil => rfl
    | cons line rest ih =>
      rw [← List.singleton_append, wordLines_append, List.flatten_append, List.flatten_append, ih,
        List.flatMap_append]
      congr 1
      rw [List.flatMap_singleton, ← flatten_words]
      cases shown : words line <;> simp [wordLines, shown]
  rw [gist, each, ← ink_joinLines, joinLines_lines]

theorem ink_eq_of_gist_eq {cs ds : List Char} (same : gist cs = gist ds) : ink cs = ink ds := by
  rw [← flatten_gist, same, flatten_gist]

/-! ### Texts in a longer text -/

/-- Consecutive lines of the longer text are those of the text, up to white space. -/
def Emits (buffer text : List Char) : Prop :=
  ∃ before inside after, lines buffer = before ++ inside ++ after ∧ wordLines inside = gist text

theorem emits_iff {buffer text : List Char} : Emits buffer text ↔ gist text <:+: gist buffer := by
  constructor
  · rintro ⟨before, inside, after, split, same⟩
    refine ⟨wordLines before, wordLines after, ?_⟩
    rw [gist.eq_1 buffer, split, wordLines_append, wordLines_append, same]
  · rintro ⟨front, back, whole⟩
    rw [gist.eq_1 buffer, wordLines] at whole
    obtain ⟨most, last, filtered, blanks, _⟩ := List.filter_eq_append_iff.mp whole.symm
    obtain ⟨first, middle, rfl, _, kept⟩ := List.filter_eq_append_iff.mp blanks
    obtain ⟨mostLines, after, split, mapped, _⟩ := List.map_eq_append_iff.mp filtered
    obtain ⟨before, inside, rfl, _, mapped⟩ := List.map_eq_append_iff.mp mapped
    refine ⟨before, inside, after, split, ?_⟩
    rw [wordLines, mapped, kept]

end DocWeave.Text
