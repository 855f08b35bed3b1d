import DocWeave.Proofs.Text.Edges
import DocWeave.Tag.Token

/-!
# Parentheses and commas

The depth of a text counts the parentheses that are open. With it the matcher is found to stop at the partner of a
parenthesis, and the splitter to cut a balanced text at its commas outside parentheses. Neither of the two closes a
parenthesis that is not open.
-/

namespace DocWeave.Tag

open DocWeave.Text

/-- Every parenthesis has its partner. -/
inductive Balanced : List Char → Prop
  | nil : Balanced []
  | char {c cs} (notOpen : c ≠ '(') (notClose : c ≠ ')') (behind : Balanced cs) : Balanced (c :: cs)
  | nested {inner rest} (inside : Balanced inner) (behind : Balanced rest) :
      Balanced ('(' :: inner ++ ')' :: rest)

/-- The depth behind a character. There is none if the character closes a parenthesis that is not open. -/
def deeper? (depth : Nat) (c : Char) : Option Nat :=
  if c = '(' then some (depth + 1)
  else if c = ')' then
    match depth with
    | 0 => none
    | depth + 1 => some depth
  else some depth

/-- The depth behind a text. -/
def height? : (depth : Nat) → List Char → Option Nat
  | depth, [] => some depth
  | depth, c :: cs => (deeper? depth c).bind (height? · cs)

theorem parenthesis_cases (c : Char) : c = '(' ∨ c = ')' ∨ c ≠ '(' ∧ c ≠ ')' := by
  by_cases opens : c = '('
  · exact .inl opens
  · by_cases closes : c = ')'
    · exact .inr (.inl closes)
    · exact .inr (.inr ⟨opens, closes⟩)

section Step

variable (depth : Nat) (cs : List Char)

@[simp]
theorem deeper?_open : deeper? depth '(' = some (depth + 1) := by simp [deeper?]

@[simp]
theorem deeper?_close_zero : deeper? 0 ')' = none := by simp [deeper?]

@[simp]
theorem deeper?_close_succ : deeper? (depth + 1) ')' = some depth := by simp [deeper?]

theorem deeper?_other {c : Char} (other : c ≠ '(' ∧ c ≠ ')') : deeper? depth c = some depth := by
  simp [deeper?, other]

@[simp]
theorem height?_nil : height? depth [] = some depth := rfl

@[simp]
theorem height?_cons (c : Char) : height? depth (c :: cs) = (deeper? depth c).bind (height? · cs) := rfl

@[simp]
theorem closing?_open :
    closing? depth ('(' :: cs) = (closing? (depth + 1) cs).map fun found => ('(' :: found.1, found.2) := by
  simp [closing?]

@[simp]
theorem closing?_close_zero : closing? 0 (')' :: cs) = some ([], cs) := by simp [closing?]

@[simp]
theorem closing?_close_succ :
    closing? (depth + 1) (')' :: cs) = (closing? depth cs).map fun found => (')' :: found.1, found.2) := by
  simp [closing?]

theorem closing?_other {c : Char} (other : c ≠ '(' ∧ c ≠ ')') :
    closing? depth (c :: cs) = (closing? depth cs).map fun found => (c :: found.1, found.2) := by
  simp [closing?, other]

end Step

theorem height?_append (depth : Nat) (cs ds : List Char) :
    height? depth (cs ++ ds) = (height? depth cs).bind (height? · ds) := by
  induction cs generalizing depth with
  | nil => rfl
  | cons c cs ih => simp only [List.cons_append, height?_cons, ih, Option.bind_assoc]

/-- More parentheses that are open around a text do not change what it does. -/
theorem height?_add {depth after : Nat} {cs : List Char} (level : height? depth cs = some after) (more : Nat) :
    height? (depth + more) cs = some (after + more) := by
  induction cs generalizing depth with
  | nil =>
    cases level
    rfl
  | cons c cs ih =>
    rcases parenthesis_cases c with rfl | rfl | other
    · simp only [height?_cons, deeper?_open, Option.bind_some] at level ⊢
      rw [Nat.add_right_comm]
      exact ih level
    · cases depth with
      | zero => simp at level
      | succ depth =>
        simp only [height?_cons, deeper?_close_succ, Option.bind_some] at level
        rw [Nat.add_right_comm, height?_cons, deeper?_close_succ, Option.bind_some]
        exact ih level
    · simp only [height?_cons, deeper?_other _ other, Option.bind_some] at level ⊢
      exact ih level

theorem height?_of_blank {cs : List Char} (blank : isBlank cs = true) (depth : Nat) :
    height? depth cs = some depth := by
  induction cs with
  | nil => rfl
  | cons c cs ih =>
    rw [isBlank, List.all_cons, Bool.and_eq_true_iff] at blank
    have other : c ≠ '(' ∧ c ≠ ')' := by
      constructor <;>
      · rintro rfl
        exact absurd blank.1 (by decide)
    simp only [height?_cons, deeper?_other _ other, Option.bind_some]
    exact ih blank.2

/-! ### The partner of a parenthesis -/

theorem height?_of_closing? {depth : Nat} {cs inner rest : List Char}
    (found : closing? depth cs = some (inner, rest)) : height? depth inner = some 0 := by
  induction cs generalizing depth inner with
  | nil => cases found
  | cons c cs ih =>
    rcases parenthesis_cases c with rfl | rfl | other
    · rw [closing?_open, Option.map_eq_some_iff] at found
      obtain ⟨⟨tail, _⟩, step, same⟩ := found
      cases same
      simpa using ih step
    · cases depth with
      | zero =>
        rw [closing?_close_zero] at found
        cases found
        rfl
      | succ depth =>
        rw [closing?_close_succ, Option.map_eq_some_iff] at found
        obtain ⟨⟨tail, _⟩, step, same⟩ := found
        cases same
        simpa using ih step
    · rw [closing?_other _ _ other, Option.map_eq_some_iff] at found
      obtain ⟨⟨tail, _⟩, step, same⟩ := found
      cases same
      simpa [deeper?_other _ other] using ih step

theorem closing?_of_height? {depth : Nat} {inner : List Char} (level : height? depth inner = some 0)
    (rest : List Char) : closing? depth (inner ++ ')' :: rest) = some (inner, rest) := by
  induction inner generalizing depth with
  | nil =>
    cases level
    exact closing?_close_zero rest
  | cons c inner ih =>
    rw [List.cons_append]
    rcases parenthesis_cases c with rfl | rfl | other
    · rw [closing?_open, ih (by simpa using level), Option.map_some]
    · cases depth with
      | zero => simp at level
      | succ depth => rw [closing?_close_succ, ih (by simpa using level), Option.map_some]
    · rw [closing?_other _ _ other, ih (by simpa [deeper?_other _ other] using level), Option.map_some]

theorem closing?_eq_some_iff {depth : Nat} {cs inner rest : List Char} :
    closing? depth cs = some (inner, rest) ↔ cs = inner ++ ')' :: rest ∧ height? depth inner = some 0 := by
  constructor
  · intro found
    exact ⟨eq_of_closing? found, height?_of_closing? found⟩
  · rintro ⟨rfl, level⟩
    exact closing?_of_height? level rest

/-- The matcher finds no partner in a text that leaves all parentheses open. -/
theorem closing?_eq_none_iff {depth : Nat} {cs : List Char} :
    closing? depth cs = none ↔ ∃ after, height? depth cs = some after := by
  induction cs generalizing depth with
  | nil => simp [closing?]
  | cons c cs ih =>
    rcases parenthesis_cases c with rfl | rfl | other
    · simpa using ih
    · cases depth with
      | zero => simp
      | succ depth => simpa using ih
    · simpa [closing?_other _ _ other, deeper?_other _ other] using ih

/-! ### Balanced texts -/

theorem Balanced.level {cs : List Char} (balanced : Balanced cs) (depth : Nat) :
    height? depth cs = some depth := by
  induction balanced generalizing depth with
  | nil => rfl
  | char notOpen notClose _ ih => simpa [deeper?_other _ ⟨notOpen, notClose⟩] using ih depth
  | nested _ _ inside behind =>
    rw [List.cons_append, height?_cons, deeper?_open, Option.bind_some, height?_append, inside]
    simpa using behind depth

theorem balanced_of_height? {cs : List Char} (level : height? 0 cs = some 0) : Balanced cs := by
  induction size : cs.length using Nat.strongRecOn generalizing cs with
  | ind length ih =>
    subst size
    cases cs with
    | nil => exact .nil
    | cons c cs =>
      rcases parenthesis_cases c with rfl | rfl | other
      · rw [height?_cons, deeper?_open, Option.bind_some] at level
        cases partner : closing? 0 cs with
        | none =>
          -- Without a partner the parenthesis would still be open at the end.
          obtain ⟨after, high⟩ := closing?_eq_none_iff.mp partner
          rw [height?_add high 1] at level
          cases level
        | some found =>
          obtain ⟨inner, rest⟩ := found
          obtain ⟨rfl, inside⟩ := closing?_eq_some_iff.mp partner
          have behind : height? 0 rest = some 0 := by
            rw [height?_append, height?_add inside 1] at level
            simpa using level
          have shorter : inner.length < ('(' :: (inner ++ ')' :: rest)).length := by
            rw [List.length_cons, List.length_append]
            omega
          have restShorter : rest.length < ('(' :: (inner ++ ')' :: rest)).length := by
            rw [List.length_cons, List.length_append, List.length_cons]
            omega
          exact .nested (ih _ shorter inside rfl) (ih _ restShorter behind rfl)
      · simp at level
      · rw [height?_cons, deeper?_other _ other, Option.bind_some] at level
        exact .char other.1 other.2 (ih _ (by simp) level rfl)

theorem balanced_iff {cs : List Char} : Balanced cs ↔ height? 0 cs = some 0 :=
  ⟨fun balanced => balanced.level 0, balanced_of_height?⟩

theorem exists_eq_append_trim (cs : List Char) :
    ∃ front back, cs = front ++ trim cs ++ back ∧ isBlank front = true ∧ isBlank back = true := by
  obtain ⟨front, split, frontBlank⟩ := exists_eq_append_trimStart cs
  obtain ⟨back, rest, backBlank⟩ := exists_eq_trimEnd_append (trimStart cs)
  exact ⟨front, back, by rw [List.append_assoc, trim, ← rest, ← split], frontBlank, backBlank⟩

theorem Balanced.trim {cs : List Char} (balanced : Balanced cs) : Balanced (trim cs) := by
  obtain ⟨front, back, split, frontBlank, backBlank⟩ := exists_eq_append_trim cs
  have level := balanced.level 0
  rw [split, height?_append, height?_append, height?_of_blank frontBlank, Option.bind_some,
    Option.bind_eq_some_iff] at level
  obtain ⟨after, inside, behind⟩ := level
  rw [height?_of_blank backBlank] at behind
  cases behind
  exact balanced_of_height? inside

/-! ### Commas -/

/-- No comma stands outside of the parentheses of a text at whose front `depth` are open. -/
def CommaFreeAt (depth : Nat) (cs : List Char) : Prop :=
  ∀ front back, cs = front ++ ',' :: back → height? depth front ≠ some 0

/-- No comma stands outside of the parentheses. -/
def CommaFree (cs : List Char) : Prop :=
  ∀ front back, cs = front ++ ',' :: back → ¬ Balanced front

theorem commaFree_iff {cs : List Char} : CommaFree cs ↔ CommaFreeAt 0 cs := by
  simp only [CommaFree, CommaFreeAt, balanced_iff, ne_eq]

theorem CommaFree.trim {cs : List Char} (free : CommaFree cs) : CommaFree (trim cs) := by
  obtain ⟨front, back, whole, frontBlank, _⟩ := exists_eq_append_trim cs
  intro left right split balanced
  refine free (front ++ left) (right ++ back) ?_ (balanced_of_height? ?_)
  · rw [whole, split]
    simp
  · rw [height?_append, height?_of_blank frontBlank]
    exact balanced.level 0

theorem commaFreeAt_nil (depth : Nat) : CommaFreeAt depth [] := by
  intro front back split
  simp at split

theorem CommaFreeAt.tail {depth deeper : Nat} {c : Char} {cs : List Char} (deep : deeper? depth c = some deeper)
    (free : CommaFreeAt depth (c :: cs)) : CommaFreeAt deeper cs := by
  rintro front back rfl level
  exact free (c :: front) back rfl (by simpa [deep] using level)

theorem CommaFreeAt.cons {depth deeper : Nat} {c : Char} {cs : List Char} (deep : deeper? depth c = some deeper)
    (notCut : ¬ (c = ',' ∧ depth = 0)) (free : CommaFreeAt deeper cs) : CommaFreeAt depth (c :: cs) := by
  intro front back split level
  cases front with
  | nil => exact notCut ⟨(List.cons.inj split).1, by simpa using level⟩
  | cons first front =>
    obtain ⟨rfl, rest⟩ := List.cons.inj split
    exact free front back rest (by simpa [deep] using level)

theorem commaPieces_ne_nil (depth : Nat) (cs : List Char) : commaPieces depth cs ≠ [] := by
  cases cs with
  | nil => simp [commaPieces]
  | cons c cs =>
    unfold commaPieces
    split
    · simp
    · dsimp only
      split <;> simp

theorem commaPieces_comma (cs : List Char) : commaPieces 0 (',' :: cs) = [] :: commaPieces 0 cs := by
  simp [commaPieces]

/-- A character that is no cut belongs to the first piece. -/
theorem commaPieces_cons {depth deeper : Nat} {c : Char} (deep : deeper? depth c = some deeper)
    (notCut : ¬ (c = ',' ∧ depth = 0)) (cs : List Char) :
    commaPieces depth (c :: cs) = (commaPieces deeper cs).modifyHead (c :: ·) := by
  have same : (if c = '(' then depth + 1 else if c = ')' then depth - 1 else depth) = deeper := by
    unfold deeper? at deep
    repeat' split at deep
    all_goals simp_all
  rw [commaPieces, if_neg (by simpa using notCut)]
  dsimp only
  rw [same]
  cases pieces : commaPieces deeper cs with
  | nil => exact absurd pieces (commaPieces_ne_nil deeper cs)
  | cons piece rest => rfl

/-- A comma outside parentheses ends the first piece. -/
theorem commaPieces_append {depth : Nat} {piece : List Char} (level : height? depth piece = some 0)
    (free : CommaFreeAt depth piece) (rest : List Char) :
    commaPieces depth (piece ++ ',' :: rest) = piece :: commaPieces 0 rest := by
  induction piece generalizing depth with
  | nil =>
    cases level
    exact commaPieces_comma rest
  | cons c piece ih =>
    obtain ⟨deeper, deep, level⟩ := Option.bind_eq_some_iff.mp level
    have notCut : ¬ (c = ',' ∧ depth = 0) := by
      rintro ⟨rfl, rfl⟩
      exact free [] piece rfl rfl
    rw [List.cons_append, commaPieces_cons deep notCut, ih level (free.tail deep), List.modifyHead_cons]

theorem commaPieces_of_free {depth : Nat} {piece : List Char} (level : height? depth piece = some 0)
    (free : CommaFreeAt depth piece) : commaPieces depth piece = [piece] := by
  induction piece generalizing depth with
  | nil => rfl
  | cons c piece ih =>
    obtain ⟨deeper, deep, level⟩ := Option.bind_eq_some_iff.mp level
    have notCut : ¬ (c = ',' ∧ depth = 0) := by
      rintro ⟨rfl, rfl⟩
      exact free [] piece rfl rfl
    rw [commaPieces_cons deep notCut, ih level (free.tail deep), List.modifyHead_cons]

/-- The pieces between the commas of a text that stand outside of its parentheses. -/
structure Pieces (inner : List Char) (pieces : List (List Char)) : Prop where
  some : pieces ≠ []
  whole : [','].intercalate pieces = inner
  balanced : ∀ piece ∈ pieces, Balanced piece
  commaFree : ∀ piece ∈ pieces, CommaFree piece

/-- There is one way only to cut a text into such pieces. -/
theorem Pieces.eq {inner : List Char} {pieces : List (List Char)} (cut : Pieces inner pieces) :
    pieces = commaPieces 0 inner := by
  obtain ⟨some, rfl, balanced, commaFree⟩ := cut
  induction pieces with
  | nil => exact absurd rfl some
  | cons piece pieces ih =>
    have level := (balanced piece List.mem_cons_self).level 0
    have free := commaFree_iff.mp (commaFree piece List.mem_cons_self)
    by_cases more : pieces = []
    · rw [more, List.intercalate_singleton, commaPieces_of_free level free]
    · have rest := ih more (fun other later => balanced other (List.mem_cons_of_mem _ later))
        (fun other later => commaFree other (List.mem_cons_of_mem _ later))
      rw [List.intercalate_cons_of_ne_nil more, List.append_assoc, List.singleton_append,
        commaPieces_append level free, ← rest]

/-- A text that ends outside of its parentheses can be cut. Those open at its front close in the first piece. -/
theorem exists_pieces {depth : Nat} {cs : List Char} (level : height? depth cs = some 0) :
    ∃ piece pieces, [','].intercalate (piece :: pieces) = cs ∧ height? depth piece = some 0 ∧
      CommaFreeAt depth piece ∧ ∀ other ∈ pieces, Balanced other ∧ CommaFree other := by
  induction cs generalizing depth with
  | nil => exact ⟨[], [], rfl, level, commaFreeAt_nil depth, by simp⟩
  | cons c cs ih =>
    obtain ⟨deeper, deep, level⟩ := Option.bind_eq_some_iff.mp level
    obtain ⟨piece, pieces, rfl, first, free, others⟩ := ih level
    by_cases cut : c = ',' ∧ depth = 0
    · obtain ⟨rfl, rfl⟩ := cut
      cases deep
      refine ⟨[], piece :: pieces, by simp, rfl, commaFreeAt_nil 0, ?_⟩
      intro other member
      rcases List.mem_cons.mp member with rfl | later
      · exact ⟨balanced_of_height? first, commaFree_iff.mpr free⟩
      · exact others other later
    · refine ⟨c :: piece, pieces, ?_, by simpa [deep] using first, free.cons deep cut, others⟩
      cases pieces <;> simp

theorem pieces_commaPieces {inner : List Char} (balanced : Balanced inner) : Pieces inner (commaPieces 0 inner) := by
  obtain ⟨piece, pieces, whole, first, free, others⟩ := exists_pieces (balanced.level 0)
  have cut : Pieces inner (piece :: pieces) := by
    refine ⟨by simp, whole, fun other member => ?_, fun other member => ?_⟩ <;>
      rcases List.mem_cons.mp member with rfl | later
    · exact balanced_of_height? first
    · exact (others other later).1
    · exact commaFree_iff.mpr free
    · exact (others other later).2
  rw [← cut.eq]
  exact cut

/-- The arguments in balanced parentheses: the pieces between the commas, without white space around them. -/
structure Arguments (inner : List Char) (args : List (List Char)) : Prop where
  blank : isBlank inner = true → args = []
  pieces : isBlank inner = false →
    ∃ pieces, Pieces inner pieces ∧ (∀ other, Pieces inner other → other = pieces) ∧ args = pieces.map trim
  balanced : ∀ arg ∈ args, Balanced arg
  commaFree : ∀ arg ∈ args, CommaFree arg

theorem arguments_of_balanced {inner : List Char} (balanced : Balanced inner) :
    Arguments inner (arguments inner) := by
  have cut := pieces_commaPieces balanced
  cases blank : isBlank inner with
  | true =>
    have nothing : arguments inner = [] := if_pos blank
    constructor <;> simp [nothing, blank]
  | false =>
    have args : arguments inner = (commaPieces 0 inner).map trim := if_neg (by simp [blank])
    rw [args]
    refine ⟨by simp [blank], fun _ => ⟨_, cut, fun _ => Pieces.eq, rfl⟩, ?_, ?_⟩
    · intro arg member
      obtain ⟨piece, listed, rfl⟩ := List.mem_map.mp member
      exact (cut.balanced piece listed).trim
    · intro arg member
      obtain ⟨piece, listed, rfl⟩ := List.mem_map.mp member
      exact (cut.commaFree piece listed).trim

/-! ### The depth counters -/

/-- The matcher with a counter of the parentheses that are open. There is no result if the counter underflows. -/
def countedClosing? : (counter : Nat) → List Char → Option (Option (List Char × List Char))
  | _, [] => some none
  | counter, c :: cs =>
    (deeper? counter c).bind fun deeper =>
      if c = ')' ∧ deeper = 0 then some (some ([], cs))
      else (countedClosing? deeper cs).map (·.map fun found => (c :: found.1, found.2))

/-- The splitter with a counter of the parentheses that are open. There is no result if the counter underflows. -/
def countedPieces? : (counter : Nat) → List Char → Option (List (List Char))
  | _, [] => some [[]]
  | counter, c :: cs =>
    if c = ',' ∧ counter = 0 then (countedPieces? counter cs).map ([] :: ·)
    else (deeper? counter c).bind fun deeper => (countedPieces? deeper cs).map (·.modifyHead (c :: ·))

theorem countedClosing?_eq (depth : Nat) (cs : List Char) :
    countedClosing? (depth + 1) cs = some (closing? depth cs) := by
  induction cs generalizing depth with
  | nil => rfl
  | cons c cs ih =>
    rcases parenthesis_cases c with rfl | rfl | other
    · simp [countedClosing?, ih]
    · cases depth with
      | zero => simp [countedClosing?]
      | succ depth => simp [countedClosing?, ih]
    · simp [countedClosing?, deeper?_other _ other, closing?_other _ _ other, other, ih]

theorem countedPieces?_eq {depth after : Nat} {cs : List Char} (level : height? depth cs = some after) :
    countedPieces? depth cs = some (commaPieces depth cs) := by
  induction cs generalizing depth with
  | nil => rfl
  | cons c cs ih =>
    obtain ⟨deeper, deep, level⟩ := Option.bind_eq_some_iff.mp level
    by_cases cut : c = ',' ∧ depth = 0
    · obtain ⟨rfl, rfl⟩ := cut
      cases deep
      rw [countedPieces?, if_pos ⟨rfl, rfl⟩, ih level, commaPieces_comma, Option.map_some]
    · rw [countedPieces?, if_neg cut, deep, Option.bind_some, ih level, commaPieces_cons deep cut, Option.map_some]

end DocWeave.Tag
