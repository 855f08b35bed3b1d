import DocWeave.Proofs.Template
import Mathlib.Data.List.DropRight

/-!
# How a template is read

A template is taken apart from left to right, and in one way only: into escapes, fields, and characters at which
neither of the two begins. What the pieces put is written one behind the other, so that the text of a value is never
read. A text in which every `%(` is escaped comes out as it is.
-/

namespace DocWeave.Text

/-- Put `new` in the place of every occurrence of `old`, from left to right. -/
def replaceAll (old new : List Char) : List Char → List Char
  | [] => []
  | c :: cs =>
    if old.isPrefixOf (c :: cs) then new ++ replaceAll old new (cs.drop (old.length - 1))
    else c :: replaceAll old new cs
  termination_by cs => cs.length
  decreasing_by all_goals simp only [List.length_cons, List.length_drop]; omega

section Replace

variable {old : List Char} (new : List Char)

@[simp]
theorem replaceAll_nil : replaceAll old new [] = [] := by
  rw [replaceAll]

theorem replaceAll_append (filled : old ≠ []) (cs : List Char) :
    replaceAll old new (old ++ cs) = new ++ replaceAll old new cs := by
  obtain ⟨c, rest, rfl⟩ := List.exists_cons_of_ne_nil filled
  rw [List.cons_append, replaceAll, if_pos (by simp)]
  simp

theorem replaceAll_cons {c : Char} {cs : List Char} (other : ¬ old <+: c :: cs) :
    replaceAll old new (c :: cs) = c :: replaceAll old new cs := by
  rw [replaceAll, if_neg (by simpa using other)]

end Replace

end DocWeave.Text

namespace DocWeave.Template

open DocWeave.Text

/-! ### Pieces -/

/-- The pieces that are written with more than one character. -/
inductive Piece.Compound : Piece → Prop
  | escape : Compound .escape
  | field {key} (filled : key ≠ []) (word : key.all isWordChar = true) : Compound (.field key)

/-- A template is read as these pieces. A character stands for itself only where no other piece begins. -/
inductive Reads : (template : List Char) → List Piece → Prop
  | done : Reads [] []
  | compound {piece cs found} (compound : piece.Compound) (further : Reads cs found) :
      Reads (piece.written ++ cs) (piece :: found)
  | char {c cs found} (alone : ∀ piece : Piece, piece.Compound → ¬ piece.written <+: c :: cs)
      (further : Reads cs found) : Reads (c :: cs) (.char c :: found)

theorem fieldKey?_eq_some_iff {cs key rest : List Char} :
    fieldKey? cs = some (key, rest) ↔ cs = key ++ ')' :: 's' :: rest ∧ key ≠ [] ∧ key.all isWordChar = true := by
  constructor
  · intro found
    refine ⟨fieldKey?_eq found, ?_⟩
    have letters : (cs.takeWhile isWordChar).all isWordChar = true := List.all_takeWhile
    unfold fieldKey? at found
    split at found
    · rename_i taken _
      cases found
      exact ⟨List.cons_ne_nil _ _, taken ▸ letters⟩
    · cases found
  · rintro ⟨rfl, filled, word⟩
    exact fieldKey?_of_word filled word rest

theorem pieces_compound {piece : Piece} (compound : piece.Compound) (rest : List Char) :
    pieces (piece.written ++ rest) = piece :: pieces rest := by
  cases compound with
  | escape => exact pieces.eq_2 rest
  | field filled word => exact pieces_field filled word rest

theorem alone_iff (text : List Char) :
    (∀ piece : Piece, piece.Compound → ¬ piece.written <+: text) ↔
      ¬ Piece.written .escape <+: text ∧ ∀ cs, text = '%' :: '(' :: cs → fieldKey? cs = none := by
  constructor
  · intro alone
    refine ⟨alone .escape .escape, ?_⟩
    rintro cs rfl
    cases found : fieldKey? cs with
    | none => rfl
    | some field =>
      obtain ⟨rfl, filled, word⟩ := fieldKey?_eq_some_iff.mp found
      exact absurd ⟨field.2, by simp [Piece.written]⟩ (alone (.field field.1) (.field filled word))
  · rintro ⟨noEscape, noField⟩ piece compound
    cases compound with
    | escape => exact noEscape
    | @field key filled word =>
      rintro ⟨rest, rfl⟩
      have missing := noField (key ++ ')' :: 's' :: rest) (by simp [Piece.written])
      rw [fieldKey?_of_word filled word] at missing
      cases missing

theorem pieces_char {c : Char} {cs : List Char}
    (alone : ∀ piece : Piece, piece.Compound → ¬ piece.written <+: c :: cs) :
    pieces (c :: cs) = .char c :: pieces cs := by
  obtain ⟨noEscape, noField⟩ := (alone_iff _).mp alone
  by_cases opens : ∃ rest, c :: cs = '%' :: '(' :: rest
  · obtain ⟨rest, same⟩ := opens
    cases same
    have missing := noField rest rfl
    rw [pieces.eq_3]
    split
    · rename_i found
      rw [missing] at found
      cases found
    · rfl
  · apply pieces.eq_4
    · rintro rest rfl rfl
      exact noEscape ⟨rest, rfl⟩
    · rintro rest rfl rfl
      exact opens ⟨rest, rfl⟩

theorem reads_pieces (template : List Char) : Reads template (pieces template) := by
  induction template using pieces.induct with
  | case1 =>
    rw [pieces.eq_1]
    exact .done
  | case2 cs ih =>
    have read := pieces_compound .escape cs
    exact read ▸ .compound .escape ih
  | case3 cs key rest found ih =>
    obtain ⟨rfl, filled, word⟩ := fieldKey?_eq_some_iff.mp found
    have spelled : '%' :: '(' :: (key ++ ')' :: 's' :: rest) = Piece.written (.field key) ++ rest := by
      simp [Piece.written]
    rw [spelled, pieces_compound (.field filled word)]
    exact .compound (.field filled word) ih
  | case4 cs missing ih =>
    have alone : ∀ piece : Piece, piece.Compound → ¬ piece.written <+: '%' :: '(' :: cs := by
      refine (alone_iff _).mpr ⟨by simp [Piece.written], ?_⟩
      intro rest same
      cases same
      exact missing
    exact pieces_char alone ▸ .char alone ih
  | case5 c cs noEscape noField ih =>
    have alone : ∀ piece : Piece, piece.Compound → ¬ piece.written <+: c :: cs := by
      refine (alone_iff _).mpr ⟨?_, ?_⟩
      · rintro ⟨rest, same⟩
        obtain ⟨rfl, rfl⟩ := List.cons.inj same
        exact noEscape rest rfl rfl
      · intro rest same
        obtain ⟨rfl, rfl⟩ := List.cons.inj same
        exact (noField rest rfl rfl).elim
    exact pieces_char alone ▸ .char alone ih

/-- A template is read in one way. -/
theorem reads_iff {template : List Char} {found : List Piece} : Reads template found ↔ pieces template = found := by
  constructor
  · intro reads
    induction reads with
    | done => exact pieces.eq_1
    | compound compound _ ih => rw [pieces_compound compound, ih]
    | char alone _ ih => rw [pieces_char alone, ih]
  · rintro rfl
    exact reads_pieces template

theorem Reads.flatMap_written {template : List Char} {found : List Piece} (reads : Reads template found) :
    found.flatMap Piece.written = template := by
  induction reads with
  | done => rfl
  | compound _ _ ih => rw [List.flatMap_cons, ih]
  | char _ _ ih =>
    rw [List.flatMap_cons, ih]
    rfl

/-! ### The output -/

/-- The number of characters behind the last line end. -/
def column (cs : List Char) : Nat :=
  (cs.rtakeWhile (· ≠ '\n')).length

theorem advance_append (start : Nat) (cs ds : List Char) :
    advance start (cs ++ ds) = advance (advance start cs) ds :=
  List.foldl_append

theorem advance_zero (cs : List Char) : advance 0 cs = column cs := by
  induction cs using List.reverseRecOn with
  | nil => rfl
  | append_singleton cs c ih =>
    rw [advance_append, ih]
    by_cases newline : c = '\n' <;> simp [advance, column, newline]

theorem advance_column (cs ds : List Char) : advance (column cs) ds = column (cs ++ ds) := by
  rw [← advance_zero, ← advance_zero, advance_append]

section Fill

variable (tabWidth : Nat) (values : Values)

/-- What a piece puts at a column. The first entry of its key gives a field its value. -/
inductive Puts (column : Nat) : Piece → (text : List Char) → Prop
  | char {c} : Puts column (.char c) [c]
  | escape : Puts column .escape ['%', '(']
  | value {key value before after} (given : values = before ++ (key, value) :: after)
      (first : ∀ entry ∈ before, entry.1 ≠ key) :
      Puts column (.field key.toList) (place tabWidth column value.toList)
  | unknown {key} (never : ∀ entry ∈ values, entry.1.toList ≠ key) :
      Puts column (.field key) (Piece.written (.field key))

/-- The pieces have put this output. Each one is put behind the output of the pieces in front of it. -/
inductive Fills : List Piece → (out : List Char) → Prop
  | none : Fills [] []
  | more {before out piece text} (further : Fills before out) (puts : Puts tabWidth values (column out) piece text) :
      Fills (before ++ [piece]) (out ++ text)

theorem puts_fill (column : Nat) (piece : Piece) :
    Puts tabWidth values column piece (piece.fill tabWidth values column) := by
  cases piece with
  | char c => exact .char
  | escape => exact .escape
  | field key =>
    rw [Piece.fill, Values.find?]
    cases found : values.lookup (String.ofList key) with
    | none =>
      refine .unknown fun entry member same => ?_
      have different := List.lookup_eq_none_iff.mp found entry member
      simp [← same] at different
    | some value =>
      obtain ⟨before, after, given, first⟩ := List.lookup_eq_some_iff.mp found
      have puts :
          Puts tabWidth values column (.field (String.ofList key).toList) (place tabWidth column value.toList) :=
        .value given fun entry member same => by simpa [same] using first entry member
      rwa [String.toList_ofList] at puts

variable {tabWidth values} in
/-- The pieces that follow are put behind the output. -/
theorem Fills.append {before : List Piece} {out : List Char} (fills : Fills tabWidth values before out)
    (after : List Piece) :
    Fills tabWidth values (before ++ after) (out ++ fillFrom tabWidth values (column out) after) := by
  induction after generalizing before out with
  | nil => simpa [fillFrom] using fills
  | cons piece rest ih =>
    have step := ih (fills.more (puts_fill tabWidth values (column out) piece))
    rw [← advance_column] at step
    simpa [fillFrom] using step

theorem fills_fill {template : List Char} {found : List Piece} (reads : Reads template found) :
    Fills tabWidth values found (fill tabWidth values template) := by
  obtain rfl := reads_iff.mp reads
  exact Fills.none.append (pieces template)

end Fill

/-! ### Escapes -/

/-- The text as it is written in a template. -/
def escape (cs : List Char) : List Char :=
  replaceAll ['%', '('] ['%', '%', '('] cs

/-- What is left of a template that has no values. -/
def unescape (cs : List Char) : List Char :=
  replaceAll ['%', '%', '('] ['%', '('] cs

theorem escape_opening (cs : List Char) : escape ('%' :: '(' :: cs) = '%' :: '%' :: '(' :: escape cs :=
  replaceAll_append ['%', '%', '('] (List.cons_ne_nil '%' ['(']) cs

theorem eq_of_opening {c : Char} {cs : List Char} (opens : ['%', '('] <+: c :: cs) :
    ∃ rest, c = '%' ∧ cs = '(' :: rest := by
  obtain ⟨rest, same⟩ := opens
  obtain ⟨rfl, rfl⟩ := List.cons.inj same
  exact ⟨rest, rfl, rfl⟩

theorem escape_cons {c : Char} {cs : List Char} (other : ¬ ['%', '('] <+: c :: cs) :
    escape (c :: cs) = c :: escape cs :=
  replaceAll_cons _ other

theorem head?_escape (cs : List Char) : (escape cs).head? = cs.head? := by
  cases cs with
  | nil => rw [escape, replaceAll_nil]
  | cons c cs =>
    by_cases opens : ['%', '('] <+: c :: cs
    · obtain ⟨rest, rfl, rfl⟩ := eq_of_opening opens
      rw [escape_opening]
      rfl
    · rw [escape_cons opens]
      rfl

/-- The sign in front of an escaped parenthesis is one of two. -/
theorem not_opening_escape (cs : List Char) : ¬ ['%', '('] <+: escape cs := by
  cases cs with
  | nil => simp [escape]
  | cons c cs =>
    by_cases opens : ['%', '('] <+: c :: cs
    · obtain ⟨rest, rfl, rfl⟩ := eq_of_opening opens
      rw [escape_opening]
      simp
    · -- A parenthesis behind a sign that stays as it is would be one of the text itself.
      rw [escape_cons opens]
      rintro ⟨rest, same⟩
      obtain ⟨rfl, split⟩ := List.cons.inj same
      have head := head?_escape cs
      rw [← split] at head
      obtain ⟨after, rfl⟩ := List.head?_eq_some_iff.mp head.symm
      exact opens ⟨after, rfl⟩

/-- No piece begins in an escaped text but escapes. -/
theorem alone_escape {c : Char} {cs : List Char} (other : ¬ ['%', '('] <+: c :: cs) :
    ∀ piece : Piece, piece.Compound → ¬ piece.written <+: c :: escape cs := by
  rw [alone_iff]
  constructor
  · rintro ⟨rest, same⟩
    exact not_opening_escape cs ⟨rest, (List.cons.inj same).2⟩
  · intro rest same
    rw [← escape_cons other] at same
    exact absurd ⟨rest, same.symm⟩ (not_opening_escape (c :: cs))

theorem fillFrom_escape (tabWidth : Nat) (values : Values) (column : Nat) (cs : List Char) :
    fillFrom tabWidth values column (pieces (escape cs)) = cs := by
  induction cs using (replaceAll.induct ['%', '(']) generalizing column with
  | case1 => simp [escape, pieces, fillFrom]
  | case2 c cs opens ih =>
    obtain ⟨rest, rfl, rfl⟩ := eq_of_opening (List.isPrefixOf_iff_prefix.mp opens)
    rw [escape_opening, pieces.eq_2, fillFrom]
    exact congrArg (['%', '('] ++ ·) (ih _)
  | case3 c cs other ih =>
    have lone : ¬ ['%', '('] <+: c :: cs := by simpa using other
    rw [escape_cons lone, pieces_char (alone_escape lone), fillFrom, ih]
    rfl

theorem unescape_cons {c : Char} {cs : List Char} (other : ¬ ['%', '%', '('] <+: c :: cs) :
    unescape (c :: cs) = c :: unescape cs :=
  replaceAll_cons _ other

theorem unescape_append_of_not_mem {front : List Char} (plain : '%' ∉ front) (cs : List Char) :
    unescape (front ++ cs) = front ++ unescape cs := by
  induction front with
  | nil => rfl
  | cons c front ih =>
    obtain ⟨different, others⟩ := not_or.mp (mt List.mem_cons.mpr plain)
    have lone : ¬ ['%', '%', '('] <+: c :: (front ++ cs) := by simp [different]
    rw [List.cons_append, unescape_cons lone, ih others, List.cons_append]

theorem fillFrom_nil (tabWidth column : Nat) {template : List Char} {found : List Piece}
    (reads : Reads template found) :
    fillFrom tabWidth [] column found = unescape template := by
  induction reads generalizing column with
  | done => rw [unescape, replaceAll_nil, fillFrom]
  | @compound piece cs found compound _ ih =>
    rw [fillFrom, ih]
    cases compound with
    | escape => exact (replaceAll_append ['%', '('] (List.cons_ne_nil '%' ['%', '(']) cs).symm
    | @field key filled word =>
      -- Behind its first sign a field has no other one, so no escape begins inside it.
      have letters : '%' ∉ key := fun inside => absurd (List.all_eq_true.mp word '%' inside) (by decide)
      have plain : '%' ∉ '(' :: key ++ [')', 's'] := by simp [letters]
      have lone : ¬ ['%', '%', '('] <+: '%' :: (('(' :: key ++ [')', 's']) ++ cs) := by simp
      have spelled : Piece.written (.field key) ++ cs = '%' :: (('(' :: key ++ [')', 's']) ++ cs) := rfl
      rw [spelled, unescape_cons lone, unescape_append_of_not_mem plain]
      rfl
  | char alone _ ih =>
    rw [fillFrom, ih, unescape_cons (alone .escape .escape)]
    rfl

/-- A template is read once and in one way, and what its pieces put is its output. What is escaped comes out as it is,
and without values nothing but the escapes changes. -/
theorem fill_reads_once (tabWidth : Nat) (values : Values) (template : List Char) :
    (∃ found, Reads template found ∧ (∀ other, Reads template other → other = found) ∧
      found.flatMap Piece.written = template ∧ Fills tabWidth values found (fill tabWidth values template)) ∧
    (∀ cs, fill tabWidth values (escape cs) = cs) ∧
    fill tabWidth [] template = unescape template := by
  have reads := reads_pieces template
  refine ⟨⟨pieces template, reads, ?_, reads.flatMap_written, fills_fill tabWidth values reads⟩, ?_, ?_⟩
  · intro other read
    exact (reads_iff.mp read).symm
  · exact fillFrom_escape tabWidth values 0
  · exact fillFrom_nil tabWidth 0 reads

example :
    fill 4 [("a", "%(b)s"), ("b", "c")] "%(a)s %%(b)s %(d)s %%%(b)s".toList = "%(b)s %(b)s %(d)s %%(b)s".toList := by
  decide +kernel

end DocWeave.Template
