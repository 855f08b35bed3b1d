import DocWeave.Text.Quoted
import Mathlib.Data.List.Basic

/-!
# The inside of string literals

A quoted text has no quote that could end its literal and no character that could end its line. Reading its escapes
gives the text back, without carriage returns.
-/

namespace DocWeave.Text

/-! ### Spellings -/

/-- Behind a backslash, `letter` stands for `c`. -/
inductive Escapes : (letter c : Char) → Prop
  | backslash : Escapes '\\' '\\'
  | quote : Escapes '"' '"'
  | newline : Escapes 'n' '\n'
  | tab : Escapes 't' '\t'

/-- A character that is spelled as it is. -/
structure Plain (c : Char) : Prop where
  backslash : c ≠ '\\'
  quote : c ≠ '"'
  newline : c ≠ '\n'
  carriage : c ≠ '\r'
  tab : c ≠ '\t'

/-- The first text spells the second one inside a literal. -/
inductive Spells : List Char → List Char → Prop
  | nil : Spells [] []
  | escape {letter c : Char} {spelled text : List Char} (escapes : Escapes letter c) (rest : Spells spelled text) :
      Spells ('\\' :: letter :: spelled) (c :: text)
  | char {c : Char} {spelled text : List Char} (plain : Plain c) (rest : Spells spelled text) :
      Spells (c :: spelled) (c :: text)

/-- A text without its carriage returns. -/
def withoutReturns (cs : List Char) : List Char :=
  cs.filter (· ≠ '\r')

theorem quoteChar_cases (c : Char) :
    c = '\r' ∨ (∃ letter, Escapes letter c ∧ quoteChar c = ['\\', letter]) ∨ Plain c ∧ quoteChar c = [c] := by
  by_cases backslash : c = '\\'
  · exact .inr (.inl ⟨'\\', backslash ▸ .backslash, by rw [backslash]; rfl⟩)
  by_cases quote : c = '"'
  · exact .inr (.inl ⟨'"', quote ▸ .quote, by rw [quote]; rfl⟩)
  by_cases newline : c = '\n'
  · exact .inr (.inl ⟨'n', newline ▸ .newline, by rw [newline]; rfl⟩)
  by_cases carriage : c = '\r'
  · exact .inl carriage
  by_cases tab : c = '\t'
  · exact .inr (.inl ⟨'t', tab ▸ .tab, by rw [tab]; rfl⟩)
  · refine .inr (.inr ⟨⟨backslash, quote, newline, carriage, tab⟩, ?_⟩)
    simp [quoteChar, backslash, quote, newline, carriage, tab]

theorem quote_cons (c : Char) (cs : List Char) : quote (c :: cs) = quoteChar c ++ quote cs :=
  List.flatMap_cons

theorem quote_append (cs ds : List Char) : quote (cs ++ ds) = quote cs ++ quote ds :=
  List.flatMap_append

theorem spells_quote (cs : List Char) : Spells (quote cs) (withoutReturns cs) := by
  induction cs with
  | nil => exact .nil
  | cons c cs ih =>
    rw [quote_cons]
    rcases quoteChar_cases c with rfl | ⟨letter, escapes, spelled⟩ | ⟨plain, spelled⟩
    · exact ih
    · have kept : c ≠ '\r' := by
        rintro rfl
        cases escapes
      rw [spelled, withoutReturns, List.filter_cons_of_pos (by simpa using kept)]
      exact .escape escapes ih
    · rw [spelled, withoutReturns, List.filter_cons_of_pos (by simpa using plain.carriage)]
      exact .char plain ih

/-! ### Reading -/

/-- Read a spelling that uses the escapes of `quote`. -/
def unquote : List Char → Option (List Char)
  | [] => some []
  | '\\' :: '\\' :: cs => (unquote cs).map ('\\' :: ·)
  | '\\' :: '"' :: cs => (unquote cs).map ('"' :: ·)
  | '\\' :: 'n' :: cs => (unquote cs).map ('\n' :: ·)
  | '\\' :: 't' :: cs => (unquote cs).map ('\t' :: ·)
  | c :: cs => if c = '\\' || c = '"' then none else (unquote cs).map (c :: ·)

/-- What stands in a literal whose opening quote is read, and what stands behind its closing quote. A line end ends no
literal. -/
def literal? : List Char → Option (List Char × List Char)
  | '"' :: rest => some ([], rest)
  | '\\' :: letter :: cs => (literal? cs).map fun found => ('\\' :: letter :: found.1, found.2)
  | c :: cs => if c = '\n' then none else (literal? cs).map fun found => (c :: found.1, found.2)
  | [] => none

namespace Spells

variable {spelled text : List Char}

/-- Reading the escapes from left to right gives the text. -/
theorem unquote_eq (spells : Spells spelled text) : unquote spelled = some text := by
  induction spells with
  | nil => rfl
  | escape escapes _ ih => cases escapes <;> rw [unquote, ih] <;> rfl
  | char plain _ ih =>
    rw [unquote, ih]
    · simp [plain.backslash, plain.quote]
    all_goals exact fun _ same => absurd same plain.backslash

theorem literal?_eq (spells : Spells spelled text) (rest : List Char) :
    literal? (spelled ++ '"' :: rest) = some (spelled, rest) := by
  induction spells with
  | nil => rfl
  | escape _ _ ih => rw [List.cons_append, List.cons_append, literal?, ih]; rfl
  | char plain _ ih =>
    rw [List.cons_append, literal?, if_neg plain.newline, ih]
    · rfl
    · exact plain.quote
    · exact fun _ _ same => absurd same plain.backslash

theorem not_mem {white : Char} (spells : Spells spelled text) (special : white ∈ ['\n', '\r', '\t']) :
    white ∉ spelled := by
  have notBackslash : white ≠ '\\' := by
    rintro rfl
    simp at special
  induction spells with
  | nil => exact List.not_mem_nil
  | escape escapes _ ih =>
    rw [List.mem_cons, List.mem_cons, not_or, not_or]
    refine ⟨notBackslash, ?_, ih⟩
    rintro rfl
    cases escapes <;> simp at special
  | char plain _ ih =>
    rw [List.mem_cons, not_or]
    refine ⟨?_, ih⟩
    rintro rfl
    simp [plain.newline, plain.carriage, plain.tab] at special

end Spells

/-- What is written between the quotes of a literal for a text: it stays on its line, no quote in it ends the literal,
and reading its escapes gives the text. -/
structure Quoted (spelled text : List Char) : Prop where
  newline : '\n' ∉ spelled
  carriage : '\r' ∉ spelled
  tab : '\t' ∉ spelled
  closed : ∀ rest, literal? (spelled ++ '"' :: rest) = some (spelled, rest)
  read : unquote spelled = some text

theorem quoted_quote (cs : List Char) : Quoted (quote cs) (withoutReturns cs) :=
  have spells := spells_quote cs
  { newline := spells.not_mem (by simp)
    carriage := spells.not_mem (by simp)
    tab := spells.not_mem (by simp)
    closed := spells.literal?_eq
    read := spells.unquote_eq }

theorem withoutReturns_eq {cs : List Char} (free : '\r' ∉ cs) : withoutReturns cs = cs := by
  rw [withoutReturns, List.filter_eq_self]
  rintro c member
  simpa using ne_of_mem_of_not_mem member free

theorem quote_inj {cs ds : List Char} (first : '\r' ∉ cs) (second : '\r' ∉ ds) : quote cs = quote ds ↔ cs = ds := by
  constructor
  · intro same
    have read := (quoted_quote cs).read
    rw [same, (quoted_quote ds).read, withoutReturns_eq first, withoutReturns_eq second] at read
    exact (Option.some.inj read).symm
  · rintro rfl
    rfl

end DocWeave.Text
