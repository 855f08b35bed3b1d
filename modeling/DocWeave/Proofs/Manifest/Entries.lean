import DocWeave.Manifest.Locate
import DocWeave.Proofs.Text.Places

/-!
# Entries of names

A search finds the first entry of a name that begins at its start or behind, by the bytes of the text. A context that
enters records searches behind the entries of these, and its searches start at the beginning of a character.
-/

namespace DocWeave

namespace Text

variable {before cs rest part : List Char} {c : Char} {start : Nat}

theorem occursAt_append_iff : OccursAt (before ++ cs) (byteLength before) part ↔ part <+: cs := by
  constructor
  · rintro ⟨front, after, whole, size⟩
    have same := congrArg (dropBytes (byteLength before)) whole
    rw [dropBytes_append, ← size, List.append_assoc, dropBytes_append] at same
    exact ⟨after, same.symm⟩
  · rintro ⟨after, rfl⟩
    exact ⟨before, after, (List.append_assoc _ _ _).symm, rfl⟩

/-- What stands behind the beginning of a character stands behind the whole character. -/
theorem OccursAt.behind (occurs : OccursAt (before ++ c :: rest) start part) (later : byteLength before < start) :
    byteLength (before ++ [c]) ≤ start := by
  obtain ⟨front, after, whole, rfl⟩ := occurs
  rw [List.append_assoc, List.append_eq_append_iff] at whole
  rcases whole with ⟨gap, rfl, split⟩ | ⟨gap, rfl, _⟩
  · cases gap with
    | nil => simp at later
    | cons first gap =>
      obtain ⟨rfl, _⟩ := List.cons.inj split
      simp only [byteLength_append, byteLength_cons, byteLength_nil]
      omega
  · simp only [byteLength_append] at later
    omega

/-- A text can be cut exactly at the beginning of a character or at its end. -/
theorem exists_fromByte?_iff {text : List Char} :
    (∃ rest, fromByte? start text = some rest) ↔ OccursAt text start [] := by
  constructor
  · rintro ⟨rest, cut⟩
    induction text generalizing start with
    | nil =>
      cases start with
      | zero => exact ⟨[], [], rfl, rfl⟩
      | succ n => cases cut
    | cons c cs ih =>
      cases start with
      | zero => exact ⟨[], c :: cs, rfl, rfl⟩
      | succ n =>
        rw [fromByte?] at cut
        split at cut
        · rename_i inside
          obtain ⟨before, after, rfl, size⟩ := ih cut
          exact ⟨c :: before, after, rfl, by rw [byteLength_cons, size]; omega⟩
        · cases cut
  · rintro ⟨before, after, rfl, rfl⟩
    exact ⟨after, by simp⟩

end Text

namespace Manifest

open Text

/-- An entry of a name begins at byte `start`: it is the word `name`, a sign with or without spaces around it, and the
name between equal quotes. The name itself is in the span. -/
inductive Entry (text name : List Char) (start : Nat) : Span → Prop
  | spelled {opening : String} {quote : Char} (known : opening = "name = " ∨ opening = "name=")
      (quoted : quote = '"' ∨ quote = '\'')
      (occurs : OccursAt text start (opening.toList ++ quote :: name ++ [quote])) :
      Entry text name start
        ⟨start + byteLength opening.toList + 1, start + byteLength opening.toList + 1 + byteLength name⟩

/-- Of the entries of the name that begin at byte `lower` or behind, the first one has the name in the span. -/
def First (text name : List Char) (lower : Nat) (span : Span) : Prop :=
  ∃ start, lower ≤ start ∧ Entry text name start span ∧
    ∀ other behind, lower ≤ other → Entry text name other behind → start ≤ other

/-- No entry of the name begins at byte `lower` or behind. -/
def Absent (text name : List Char) (lower : Nat) : Prop :=
  ∀ start span, lower ≤ start → ¬ Entry text name start span

/-- The answer of a search: the place of the name in the first entry, or nothing if there is none. -/
inductive Finds (text name : List Char) (lower : Nat) : Option Span → Prop
  | some {span} (first : First text name lower span) : Finds text name lower (some span)
  | none (absent : Absent text name lower) : Finds text name lower none

variable {text name before cs : List Char} {start lower skip : Nat} {span other : Span}

/-! ### One entry -/

theorem utf8Size_quote {quote : Char} (quoted : quote = '"' ∨ quote = '\'') : quote.utf8Size = 1 := by
  rcases quoted with rfl | rfl <;> decide

theorem mem_entryForms {form : List Char × Char} : form ∈ entryForms ↔ ∃ opening : String,
    (opening = "name = " ∨ opening = "name=") ∧ (form.2 = '"' ∨ form.2 = '\'') ∧
      form.1 = opening.toList ++ [form.2] := by
  constructor
  · have each : ∀ form ∈ entryForms, ∃ opening ∈ ["name = ", "name="],
        (form.2 = '"' ∨ form.2 = '\'') ∧ form.1 = opening.toList ++ [form.2] := by decide +kernel
    intro member
    obtain ⟨opening, known, quoted, whole⟩ := each form member
    exact ⟨opening, by simpa using known, quoted, whole⟩
  · obtain ⟨letters, quote⟩ := form
    rintro ⟨opening, known, quoted, whole⟩
    dsimp only at quoted whole
    subst whole
    rcases known with rfl | rfl <;> rcases quoted with rfl | rfl <;> decide +kernel

/-- No form begins like another one. -/
theorem eq_of_isPrefix {form second : List Char × Char} (member : form ∈ entryForms) (listed : second ∈ entryForms)
    (here : form.1 <+: cs) (there : second.1 <+: cs) : form = second := by
  have apart : ∀ form ∈ entryForms, ∀ second ∈ entryForms, form.1 <+: second.1 → form = second := by decide +kernel
  rcases List.prefix_or_prefix_of_prefix here there with shorter | longer
  · exact apart form member second listed shorter
  · exact (apart second listed form member longer).symm

theorem entryAt?_eq_some_iff : entryAt? name cs = some skip ↔
    ∃ form ∈ entryForms, form.1 ++ name ++ [form.2] <+: cs ∧ byteLength form.1 = skip := by
  rw [entryAt?, Option.map_eq_some_iff]
  constructor
  · rintro ⟨form, found, rfl⟩
    have begins := List.find?_some found
    exact ⟨form, List.mem_of_find?_eq_some found, List.isPrefixOf_iff_prefix.mp begins, rfl⟩
  · rintro ⟨form, member, begins, rfl⟩
    have present : (entryForms.find? fun form => (form.1 ++ name ++ [form.2]).isPrefixOf cs).isSome :=
      List.find?_isSome.mpr ⟨form, member, List.isPrefixOf_iff_prefix.mpr begins⟩
    obtain ⟨second, found⟩ := Option.isSome_iff_exists.mp present
    have also : second.1 ++ name ++ [second.2] <+: cs := by simpa using List.find?_some found
    have front : ∀ form : List Char × Char, form.1 <+: form.1 ++ name ++ [form.2] := fun form =>
      List.append_assoc form.1 _ _ ▸ List.prefix_append _ _
    exact ⟨second, found, by rw [eq_of_isPrefix (List.mem_of_find?_eq_some found) member
      ((front second).trans also) ((front form).trans begins)]⟩

/-- Behind the front part of a text, an entry is where one of the forms stands. -/
theorem entry_append_iff : Entry (before ++ cs) name (byteLength before) span ↔ ∃ skip,
    entryAt? name cs = some skip ∧ span = ⟨byteLength before + skip, byteLength before + skip + byteLength name⟩ := by
  constructor
  · rintro (@⟨opening, quote, known, quoted, occurs⟩)
    have size := utf8Size_quote quoted
    refine ⟨byteLength opening.toList + 1, entryAt?_eq_some_iff.mpr ⟨(opening.toList ++ [quote], quote),
      mem_entryForms.mpr ⟨opening, known, quoted, rfl⟩, ?_, by simp [size]⟩, by simp only [Nat.add_assoc]⟩
    simpa using occursAt_append_iff.mp occurs
  · rintro ⟨skip, found, rfl⟩
    obtain ⟨⟨letters, quote⟩, member, begins, rfl⟩ := entryAt?_eq_some_iff.mp found
    obtain ⟨opening, known, quoted, whole⟩ := mem_entryForms.mp member
    dsimp only at whole quoted begins
    subst whole
    have size := utf8Size_quote quoted
    have occurs : OccursAt (before ++ cs) (byteLength before) (opening.toList ++ quote :: name ++ [quote]) :=
      occursAt_append_iff.mpr (by simpa using begins)
    simpa [size, Nat.add_assoc] using Entry.spelled known quoted occurs

theorem Entry.occursAt (entry : Entry text name start span) : OccursAt text start [] := by
  cases entry with
  | @spelled opening quote _ _ occurs =>
    obtain ⟨before, after, whole, size⟩ := occurs
    refine ⟨before, opening.toList ++ quote :: name ++ [quote] ++ after, ?_, size⟩
    rw [whole, List.append_nil, List.append_assoc before]

/-- Two entries of a name that begin at the same byte are the same. -/
theorem Entry.unique (entry : Entry text name start span) (second : Entry text name start other) : span = other := by
  obtain ⟨before, after, rfl, rfl⟩ := entry.occursAt
  rw [List.append_nil] at entry second
  obtain ⟨skip, found, rfl⟩ := entry_append_iff.mp entry
  obtain ⟨_, again, rfl⟩ := entry_append_iff.mp second
  cases found.symm.trans again
  rfl

/-- The span of an entry selects the name, between quotes. -/
theorem Entry.covers (entry : Entry text name start span) : span.Covers text name := by
  cases entry with
  | @spelled opening quote _ quoted occurs =>
    obtain ⟨before, after, rfl, rfl⟩ := occurs
    have size := utf8Size_quote quoted
    refine ⟨⟨before ++ opening.toList ++ [quote], quote :: after, by simp, ?_⟩, rfl⟩
    simp [size, Nat.add_assoc]

theorem Entry.start_lt (entry : Entry text name start span) : start + 6 ≤ span.start ∧ span.start ≤ span.stop := by
  obtain ⟨known, quoted, _⟩ := entry
  refine ⟨?_, Nat.le_add_right _ _⟩
  rcases known with rfl | rfl
  · have size : byteLength "name = ".toList = 7 := by decide +kernel
    dsimp only
    omega
  · have size : byteLength "name=".toList = 5 := by decide +kernel
    dsimp only
    omega

/-- The end of a name is the beginning of the quote behind it. -/
theorem Entry.boundary (entry : Entry text name start span) : OccursAt text span.stop [] := by
  obtain ⟨before, after, rfl, size⟩ := entry.covers.begins
  refine ⟨before ++ name, after, by simp, ?_⟩
  rw [byteLength_append, size, entry.covers.ends]

theorem First.unique (first : First text name lower span) (second : First text name lower other) : span = other := by
  obtain ⟨start, inside, entry, least⟩ := first
  obtain ⟨start', inside', entry', least'⟩ := second
  cases Nat.le_antisymm (least start' other inside' entry') (least' start span inside entry)
  exact entry.unique entry'

/-! ### The search -/

/-- A search that starts earlier finds the same if no entry begins in between. -/
theorem Finds.earlier {upper : Nat} {answer : Option Span} (finds : Finds text name upper answer) (le : lower ≤ upper)
    (skips : ∀ start span, lower ≤ start → Entry text name start span → upper ≤ start) :
    Finds text name lower answer := by
  cases finds with
  | some first =>
    obtain ⟨start, inside, entry, least⟩ := first
    exact .some ⟨start, Nat.le_trans le inside, entry, fun other behind reached second =>
      least other behind (skips other behind reached second) second⟩
  | none absent => exact .none fun start span reached entry => absent start span (skips start span reached entry) entry

/-- No entry begins at the end of a text: the name would have to end inside the text. -/
theorem absent_at_end (before : List Char) : Absent (before ++ []) name (byteLength before) := by
  intro start span reached entry
  have inside := entry.covers.selects.inside
  rw [List.append_nil] at inside
  have place := entry.start_lt
  omega

/-- An entry behind the front part of a text begins there, or behind the next character. -/
theorem Entry.here_or_behind {c : Char} (entry : Entry (before ++ c :: cs) name start span)
    (reached : byteLength before ≤ start) : byteLength before = start ∨ byteLength (before ++ [c]) ≤ start := by
  obtain ⟨_, _, occurs⟩ := entry
  exact (Nat.eq_or_lt_of_le reached).imp_right occurs.behind

theorem finds_findPlace? (before cs : List Char) :
    Finds (before ++ cs) name (byteLength before) (findPlace? name (byteLength before) cs) := by
  induction cs generalizing before with
  | nil => exact .none (absent_at_end before)
  | cons c cs ih =>
    have size : byteLength (before ++ [c]) = byteLength before + c.utf8Size := by simp
    rw [findPlace?]
    split
    · rename_i skip found
      exact .some ⟨byteLength before, Nat.le_refl _, entry_append_iff.mpr ⟨skip, found, rfl⟩,
        fun _ _ reached _ => reached⟩
    · rename_i missing
      have further := ih (before ++ [c])
      rw [size, List.append_assoc] at further
      refine further.earlier (Nat.le_add_right _ _) fun start span reached entry => ?_
      rcases entry.here_or_behind reached with rfl | behind
      · obtain ⟨skip, found, _⟩ := entry_append_iff.mp entry
        cases missing.symm.trans found
      · exact size ▸ behind

theorem finds_iff {answer : Option Span} (finds : Finds text name lower answer) :
    (∀ span, answer = some span ↔ First text name lower span) ∧ (answer = none ↔ Absent text name lower) := by
  cases finds with
  | some first =>
    refine ⟨fun span => ⟨?_, fun second => congrArg some (first.unique second)⟩, iff_of_false nofun fun absent => ?_⟩
    · rintro ⟨⟩
      exact first
    · obtain ⟨start, inside, entry, _⟩ := first
      exact absent start _ inside entry
  | none absent =>
    refine ⟨fun span => iff_of_false nofun fun first => ?_, iff_of_true rfl absent⟩
    obtain ⟨start, inside, entry, _⟩ := first
    exact absent start _ inside entry

/-- The places of a name in all its entries, where the text begins at byte `start`. -/
def entries (name : List Char) : (start : Nat) → List Char → List Span
  | _, [] => []
  | start, c :: cs =>
    ((entryAt? name (c :: cs)).map fun skip => ⟨start + skip, start + skip + byteLength name⟩).toList
      ++ entries name (start + c.utf8Size) cs

theorem mem_entries_append (before cs : List Char) : span ∈ entries name (byteLength before) cs ↔
    ∃ start, byteLength before ≤ start ∧ Entry (before ++ cs) name start span := by
  induction cs generalizing before with
  | nil =>
    refine iff_of_false List.not_mem_nil ?_
    rintro ⟨start, reached, entry⟩
    exact absent_at_end before start span reached entry
  | cons c cs ih =>
    have size : byteLength (before ++ [c]) = byteLength before + c.utf8Size := by simp
    have whole : before ++ c :: cs = before ++ [c] ++ cs := by simp
    rw [entries, List.mem_append, ← size, ih, ← whole, Option.mem_toList, Option.map_eq_some_iff]
    constructor
    · rintro (⟨skip, found, rfl⟩ | ⟨start, behind, entry⟩)
      · exact ⟨byteLength before, Nat.le_refl _, entry_append_iff.mpr ⟨skip, found, rfl⟩⟩
      · exact ⟨start, by omega, entry⟩
    · rintro ⟨start, reached, entry⟩
      rcases entry.here_or_behind reached with rfl | behind
      · obtain ⟨skip, found, rfl⟩ := entry_append_iff.mp entry
        exact .inl ⟨skip, found, rfl⟩
      · exact .inr ⟨start, behind, entry⟩

theorem mem_entries : span ∈ entries name 0 text ↔ ∃ start, Entry text name start span := by
  rw [← byteLength_nil, mem_entries_append]
  simp

/-! ### Searches of a context -/

namespace Context

variable {context : Context}

/-- The search of the context starts at the beginning of a character or at the end of the text. -/
def AtBoundary (context : Context) : Prop :=
  OccursAt context.text.toList context.start []

theorem finds_find? (boundary : context.AtBoundary) (name : String) :
    Finds context.text.toList name.toList context.start (context.find? name) := by
  obtain ⟨before, after, whole, size⟩ := boundary
  rw [List.append_nil] at whole
  rw [find?, whole, ← size, fromByte?_append]
  exact finds_findPlace? before after

theorem stop_of_find? {name : String} (boundary : context.AtBoundary) (found : context.find? name = some span) :
    context.start ≤ span.start ∧ span.start ≤ span.stop ∧ OccursAt context.text.toList span.stop [] := by
  obtain ⟨start, inside, entry, _⟩ := ((finds_iff (finds_find? boundary name)).1 span).mp found
  obtain ⟨gap, ordered⟩ := entry.start_lt
  exact ⟨by omega, ordered, entry.boundary⟩

/-- Entering a record keeps the start of searches at a boundary, and never moves it back. -/
theorem enter_keeps (boundary : context.AtBoundary) (name : String) :
    (context.enter name).AtBoundary ∧ context.start ≤ (context.enter name).start := by
  cases found : context.find? name with
  | none =>
    have same : (context.enter name).start = context.start := by simp [enter, found]
    exact ⟨by rwa [AtBoundary, same], Nat.le_of_eq same.symm⟩
  | some span =>
    have moved : (context.enter name).start = span.stop := by simp [enter, found]
    obtain ⟨behind, ordered, ends⟩ := stop_of_find? boundary found
    exact ⟨by rwa [AtBoundary, moved], by omega⟩

/-- Enter the records of a path, one inside the other. -/
def descend (context : Context) (path : List String) : Context :=
  path.foldl enter context

@[simp]
theorem descend_nil (context : Context) : context.descend [] = context := rfl

@[simp]
theorem descend_cons (context : Context) (segment : String) (path : List String) :
    context.descend (segment :: path) = (context.enter segment).descend path := rfl

@[simp]
theorem descend_append (context : Context) (front back : List String) :
    context.descend (front ++ back) = (context.descend front).descend back :=
  List.foldl_append

@[simp]
theorem text_descend (context : Context) (path : List String) : (context.descend path).text = context.text := by
  induction path generalizing context with
  | nil => rfl
  | cons segment path ih => exact ih (context.enter segment)

theorem descend_keeps (boundary : context.AtBoundary) (path : List String) :
    (context.descend path).AtBoundary ∧ context.start ≤ (context.descend path).start := by
  induction path generalizing context with
  | nil => exact ⟨boundary, Nat.le_refl _⟩
  | cons segment path ih =>
    obtain ⟨entered, forward⟩ := enter_keeps boundary segment
    obtain ⟨kept, further⟩ := ih entered
    exact ⟨kept, Nat.le_trans forward further⟩

/-- A context that has entered a record searches behind the name of this record. -/
theorem stop_le_start_descend {segment : String} (boundary : context.AtBoundary) (path : List String)
    (found : context.find? segment = some span) : span.stop ≤ (context.descend (segment :: path)).start := by
  have moved : (context.enter segment).start = span.stop := by simp [enter, found]
  exact moved ▸ (descend_keeps (enter_keeps boundary segment).1 path).2

/-- In the records of any path, a search finds a name exactly in its first entry from the start of the search on. It
starts at a character, never moves back along the path, and what it finds is behind every name that was found on the
way. -/
theorem find?_finds_first (text fileName : String) (path : List String) (name : String) :
    let context : Context := { text, fileName }
    let inside := context.descend path
    (∃ rest, fromByte? inside.start text.toList = some rest) ∧
    (∀ front back, path = front ++ back → (context.descend front).start ≤ inside.start) ∧
    (∀ span, inside.find? name = some span ↔ First text.toList name.toList inside.start span) ∧
    (inside.find? name = none ↔ Absent text.toList name.toList inside.start) ∧
    ∀ span, inside.find? name = some span → span.Selects text.toList name.toList ∧ inside.start ≤ span.start ∧
      ∀ front segment back passed, path = front ++ segment :: back →
        (context.descend front).find? segment = some passed → passed.stop ≤ span.start := by
  intro context inside
  have root : context.AtBoundary := ⟨[], text.toList, rfl, rfl⟩
  have boundary : inside.AtBoundary := (descend_keeps root path).1
  have same : inside.text = text := text_descend context path
  have finds := same ▸ finds_find? boundary name
  obtain ⟨finds, absent⟩ := finds_iff finds
  refine ⟨?_, ?_, finds, absent, fun span found => ⟨?_, ?_, ?_⟩⟩
  · rw [exists_fromByte?_iff, ← same]
    exact boundary
  · rintro front back rfl
    rw [show inside = (context.descend front).descend back from descend_append context front back]
    exact (descend_keeps (descend_keeps root front).1 back).2
  · obtain ⟨_, _, entry, _⟩ := (finds span).mp found
    exact entry.covers.selects
  · exact (stop_of_find? boundary found).1
  · rintro front segment back passed rfl there
    have onTheWay := stop_le_start_descend (descend_keeps root front).1 back there
    rw [← descend_append] at onTheWay
    exact Nat.le_trans onTheWay (stop_of_find? boundary found).1

example : (Context.descend ⟨"name = \"Éva\"\nname='walk'\nname = 'Éva'\nname='walk'", "", [], 0⟩ ["walk"]).find? "Éva" =
    some ⟨34, 38⟩ := by decide +kernel

end Context

end Manifest

end DocWeave
