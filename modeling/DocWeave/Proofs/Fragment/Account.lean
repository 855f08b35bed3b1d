import DocWeave.Proofs.Fragment.Markers
import DocWeave.Proofs.Outcome
import DocWeave.Proofs.Text.Words

/-!
# Accounting for a documentation text

A documentation text is what stands in front of its first marker, and behind it fragment after fragment: a marker
and a body, with nothing but white space around the body. So no part of the text is lost or used twice, and whatever
place a fragment shows lies in the text. The search for markers overlooks no bare marker.
-/

namespace DocWeave

open DocWeave.Text

namespace Text

/-- No occurrence of the word that begins earlier reaches beyond the place. -/
def Free (word text : List Char) (place : Nat) : Prop :=
  ∀ earlier, OccursAt text earlier word → earlier < place → earlier + byteLength word ≤ place

theorem Free.drop {word text : List Char} {place : Nat} (front : List Char)
    (free : Free word (front ++ text) (byteLength front + place)) : Free word text place := by
  rintro earlier ⟨before, after, split, size⟩ sooner
  have moved : OccursAt (front ++ text) (byteLength front + earlier) word :=
    ⟨front ++ before, after, by simp [split], by simp [size]⟩
  have bound := free _ moved (by omega)
  omega

theorem eq_nil_of_byteLength {cs : List Char} (size : byteLength cs = 0) : cs = [] := by
  cases cs with
  | nil => rfl
  | cons c cs =>
    have positive := c.utf8Size_pos
    simp only [byteLength_cons] at size
    omega

/-- A word at the front does not reach beyond a free place, so it is a part of the text in front of that place. -/
theorem Free.exists_eq_append {word text before rest others : List Char} (split : text = before ++ rest)
    (first : text = word ++ others) (free : Free word text (byteLength before)) (inside : before ≠ []) :
    ∃ inner, before = word ++ inner := by
  have later : 0 < byteLength before := Nat.pos_of_ne_zero fun size => inside (eq_nil_of_byteLength size)
  have fits := free 0 ⟨[], others, by simp [first], rfl⟩ later
  rcases List.prefix_or_prefix_of_prefix ⟨others, first.symm⟩ ⟨rest, split.symm⟩ with ⟨inner, same⟩ | ⟨inner, same⟩
  · exact ⟨inner, same.symm⟩
  · have size : byteLength inner = 0 := by
      rw [← same, byteLength_append] at fits
      omega
    exact ⟨[], by simp [← same, eq_nil_of_byteLength size]⟩

end Text

namespace Marker

/-- Between the parentheses of a marker there is no bare marker, and none begins with the characters behind them. -/
theorem exists_eq_append_of_keyed {word key before after rest : List Char} (filled : word ≠ [])
    (letters : word.all isWordChar = true) (keyLetters : key.all isWordChar = true)
    (split : '(' :: key ++ ')' :: ':' :: rest = before ++ (word ++ ':' :: after)) :
    ∃ inner, before = '(' :: key ++ [')', ':'] ++ inner := by
  obtain ⟨c, cs, rfl⟩ := List.exists_cons_of_ne_nil filled
  have letter : isWordChar c = true := List.all_eq_true.mp letters c List.mem_cons_self
  have starts : c ≠ '(' ∧ c ≠ ')' ∧ c ≠ ':' := by
    refine ⟨?_, ?_, ?_⟩ <;>
    · rintro rfl
      simp [isWordChar] at letter
  cases before with
  | nil => exact absurd (List.cons.inj split).1.symm starts.1
  | cons first before =>
    obtain ⟨rfl, others⟩ := List.cons.inj split
    rcases List.append_eq_append_iff.mp others with ⟨inner, rfl, behind⟩ | ⟨inner, rfl, behind⟩
    · cases inner with
      | nil => exact absurd (List.cons.inj behind).1.symm starts.2.1
      | cons first inner =>
        obtain ⟨rfl, colon⟩ := List.cons.inj behind
        cases inner with
        | nil => exact absurd (List.cons.inj colon).1.symm starts.2.2
        | cons first inner =>
          obtain ⟨rfl, _⟩ := List.cons.inj colon
          exact ⟨inner, by simp⟩
    · -- The key word would end with the marker word, but a parenthesis follows it, and no colon.
      have inside : inner.all isWordChar = true := by
        rw [List.all_append, Bool.and_eq_true_iff] at keyLetters
        exact keyLetters.2
      have same : c :: cs = inner := by
        have front := congrArg (List.takeWhile isWordChar) behind
        rwa [takeWhile_word letters (by decide), takeWhile_word inside (by decide)] at front
      rw [same, List.append_cancel_left_eq] at behind
      exact absurd (List.cons.inj behind).1 (by decide)

/-- A bare marker behind an occurrence of the marker word stands in the text behind this occurrence. -/
theorem exists_eq_append_of_free {word text after before others : List Char} (first : text = word ++ after)
    (split : text = before ++ (word ++ ':' :: others)) (free : Free word text (byteLength before))
    (inside : before ≠ []) :
    ∃ inner, before = word ++ inner ∧ after = inner ++ (word ++ ':' :: others) ∧
      Free word after (byteLength inner) := by
  obtain ⟨inner, rfl⟩ := free.exists_eq_append split first inside
  refine ⟨inner, rfl, ?_, ?_⟩
  · rw [first, List.append_assoc, List.append_cancel_left_eq] at split
    exact split
  · rw [first, byteLength_append] at free
    exact free.drop

theorem Spelled.letters {word key written : List Char} (spelled : Spelled word key written) :
    key.all isWordChar = true := by
  rcases spelled with ⟨rfl, _⟩ | ⟨letters, _⟩
  · rfl
  · exact letters

theorem eq_of_tail_colon {after : List Char} (rest : List Char) (colon : after = ':' :: rest) :
    Tail.of after = .colon := by
  rw [colon, Tail.of]

/-- The scan finds every bare marker that does not overlap with an earlier occurrence of the marker word. -/
theorem bare_mem_scan {c : Char} {cs : List Char} (letters : (c :: cs).all isWordChar = true) (start : Nat)
    (text before after : List Char) (split : text = before ++ (c :: cs ++ ':' :: after))
    (free : Free (c :: cs) text (byteLength before)) :
    ⟨⟨start + byteLength before, start + byteLength before + byteLength (c :: cs) + 1⟩, []⟩ ∈
      scan c cs start text := by
  induction start, text using scan.induct c cs generalizing before with
  | case1 start => simp at split
  | case2 start first others rest stop tail found ih =>
    rw [scan_of_colon found tail]
    by_cases inside : before = []
    · simp [inside]
    · obtain ⟨inner, rfl, whole, free⟩ := exists_eq_append_of_free (eq_append_drop found) split free inside
      refine List.mem_cons_of_mem _ ?_
      rw [byteLength_append, ← Nat.add_assoc]
      exact ih inner whole free
  | case3 start first others rest stop key further tail keyedStop found ih =>
    rw [scan_of_keyed found tail]
    by_cases inside : before = []
    · rw [eq_append_drop found, inside, List.nil_append, List.append_cancel_left_eq] at split
      cases (eq_of_tail_colon after split).symm.trans tail
    · obtain ⟨inner, rfl, whole, free⟩ := exists_eq_append_of_free (eq_append_drop found) split free inside
      have marked : others.drop cs.length = '(' :: key ++ ')' :: ':' :: further := Tail.eq_of_keyed tail
      have keyed := marked.symm.trans whole
      have spelled : Spelled (c :: cs) key (c :: cs ++ '(' :: key ++ [')', ':']) := spelled_of_tail_keyed tail
      obtain ⟨back, rfl⟩ := exists_eq_append_of_keyed (by simp) letters spelled.letters keyed
      have rest : further = back ++ (c :: cs ++ ':' :: after) := by simpa using keyed
      have size : start + byteLength (c :: cs ++ ('(' :: key ++ [')', ':'] ++ back)) = keyedStop + byteLength back := by
        simp only [keyedStop, stop, List.cons_append, byteLength_cons, byteLength_append, byteLength_nil, size_colon,
          size_open, size_close]
        omega
      refine List.mem_cons_of_mem _ ?_
      rw [size]
      refine ih back rest (Free.drop ('(' :: key ++ [')', ':']) ?_)
      rw [← byteLength_append]
      simpa [marked] using free
  | case4 start first others rest stop tail found ih =>
    rw [scan_of_none found tail]
    by_cases inside : before = []
    · rw [eq_append_drop found, inside, List.nil_append, List.append_cancel_left_eq] at split
      cases (eq_of_tail_colon after split).symm.trans tail
    · obtain ⟨inner, rfl, whole, free⟩ := exists_eq_append_of_free (eq_append_drop found) split free inside
      rw [byteLength_append, ← Nat.add_assoc]
      exact ih inner whole free
  | case5 start first others absent ih =>
    rw [scan, if_neg absent]
    cases before with
    | nil =>
      refine absurd (List.isPrefixOf_iff_prefix.mpr ⟨':' :: after, ?_⟩) absent
      exact split.symm
    | cons other before =>
      obtain ⟨rfl, whole⟩ := List.cons.inj split
      rw [byteLength_cons, ← Nat.add_assoc]
      refine ih before whole (Free.drop [first] ?_)
      simpa using free

end Marker

namespace Fragment

/-- The text behind a marker is the body with nothing but white space around it. -/
theorem exists_eq_append_body (key : FragmentKey) (marker : Span) (raw : List Char) :
    ∃ front back, raw = front ++ (ofRaw key marker raw).body.toList ++ back ∧ isBlank front = true ∧
      isBlank back = true ∧ (ofRaw key marker raw).offset = marker.stop + byteLength front := by
  obtain ⟨front, rawSplit, frontBlank⟩ := exists_eq_append_bodyText raw
  obtain ⟨back, bodySplit, backBlank⟩ := exists_eq_trimEnd_append (bodyText raw)
  have size : byteLength raw = byteLength front + byteLength (bodyText raw) := by
    rw [← byteLength_append, ← rawSplit]
  refine ⟨front, back, ?_, frontBlank, backBlank, ?_⟩
  · calc
      raw = front ++ (trimEnd (bodyText raw) ++ back) := by rw [← bodySplit, ← rawSplit]
      _ = front ++ (ofRaw key marker raw).body.toList ++ back := by simp [ofRaw]
  · simp only [ofRaw]
    omega

/-- Every fragment with the position where its text ends: the next marker, or the end of the documentation. -/
def withStops (finish : Nat) : List Fragment → List (Fragment × Nat)
  | [] => []
  | fragment :: rest => (fragment, (rest.head?.map (·.marker.start)).getD finish) :: withStops finish rest

/-- A fragment stands in the documentation between its marker and the position `stop`, where its text ends. -/
structure Placed (word doc : List Char) (fragment : Fragment) (stop : Nat) : Prop where
  marker : ∃ key written, Marker.Spelled word key written ∧ fragment.marker.Covers doc written
  body : Span.Selects ⟨fragment.offset, fragment.offset + byteLength fragment.body.toList⟩ doc fragment.body.toList
  around : ∃ front back, isBlank front = true ∧ isBlank back = true ∧
    fragment.offset = fragment.marker.stop + byteLength front ∧
    Span.Covers ⟨fragment.marker.stop, stop⟩ doc (front ++ fragment.body.toList ++ back)

end Fragment

namespace Documentation

/-- The text that begins at byte `start` is fragment after fragment: a marker, and a body between white space. -/
inductive LaidOut (word : List Char) : Nat → List Char → List Fragment → Prop
  | nil {start} : LaidOut word start [] []
  | cons {start key written front back rest} {fragment : Fragment} {fragments}
      (spelled : Marker.Spelled word key written) (marker : fragment.marker = ⟨start, start + byteLength written⟩)
      (frontBlank : isBlank front = true) (backBlank : isBlank back = true)
      (offset : fragment.offset = fragment.marker.stop + byteLength front)
      (further : LaidOut word (fragment.marker.stop + byteLength (front ++ fragment.body.toList ++ back)) rest
        fragments) :
      LaidOut word start (written ++ (front ++ fragment.body.toList ++ back) ++ rest) (fragment :: fragments)

namespace LaidOut

variable {word text doc before : List Char} {start : Nat} {fragments : List Fragment}

/-- The first marker begins where the text begins. -/
theorem head_start (laidOut : LaidOut word start text fragments) :
    (fragments.head?.map (·.marker.start)).getD (start + byteLength text) = start := by
  cases laidOut with
  | nil => simp
  | cons spelled marker frontBlank backBlank offset further => simp [marker]

theorem start_le (laidOut : LaidOut word start text fragments) :
    ∀ fragment ∈ fragments, start ≤ fragment.marker.start := by
  induction laidOut with
  | nil => simp
  | cons spelled marker frontBlank backBlank offset further ih =>
    intro fragment member
    rcases List.mem_cons.mp member with rfl | later
    · simp [marker]
    · have bound := ih fragment later
      simp only [marker] at bound
      omega

/-- No two fragments share a part of the text. -/
theorem pairwise (laidOut : LaidOut word start text fragments) :
    fragments.Pairwise fun earlier later => earlier.marker.stop ≤ later.marker.start := by
  induction laidOut with
  | nil => exact .nil
  | cons spelled marker frontBlank backBlank offset further ih =>
    refine .cons (fun fragment later => ?_) ih
    exact Nat.le_trans (Nat.le_add_right _ _) (further.start_le fragment later)

theorem placed (laidOut : LaidOut word start text fragments) (whole : doc = before ++ text)
    (size : byteLength before = start) :
    ∀ entry ∈ Fragment.withStops (byteLength doc) fragments, Fragment.Placed word doc entry.1 entry.2 := by
  induction laidOut generalizing before with
  | nil => simp [Fragment.withStops]
  | @cons start key written front back rest fragment fragments spelled marker frontBlank backBlank offset further ih =>
    intro entry member
    have stop : fragment.marker.stop = byteLength (before ++ written) := by simp [marker, size]
    have split : doc = before ++ written ++ (front ++ fragment.body.toList ++ back) ++ rest := by simp [whole]
    rcases List.mem_cons.mp member with rfl | later
    · have next : (fragments.head?.map (·.marker.start)).getD (byteLength doc) =
          fragment.marker.stop + byteLength (front ++ fragment.body.toList ++ back) := by
        rw [split, byteLength_append, byteLength_append, ← stop]
        exact further.head_start
      refine ⟨⟨key, written, spelled, ?_, ?_⟩, ?_, front, back, frontBlank, backBlank, offset, ?_, next⟩
      · exact ⟨before, _, by rw [split, List.append_assoc], by simp [marker, size]⟩
      · simp [marker]
      · refine Span.Covers.selects ⟨⟨before ++ written ++ front, back ++ rest, by simp [split], ?_⟩, rfl⟩
        rw [byteLength_append, offset, stop]
      · exact ⟨before ++ written, rest, split, stop.symm⟩
    · exact ih split (by rw [byteLength_append, stop]) entry later

/-- The text behind a marker ends where the first of the other fragments begins. -/
theorem behind_eq {front raw rest : List Char} {marker : Marker} {markers : List Marker}
    (laidOut : LaidOut word (byteLength (front ++ raw)) rest fragments) (whole : doc = front ++ raw ++ rest)
    (stop : marker.span.stop = byteLength front) (spans : fragments.map Fragment.marker = markers.map Marker.span) :
    marker.behind doc markers = raw := by
  have next : (markers.head?.map (·.span.start)).getD (byteLength doc) = byteLength front + byteLength raw :=
    calc
      _ = ((markers.map Marker.span).head?.map Span.start).getD (byteLength doc) := by simp [Function.comp_def]
      _ = (fragments.head?.map (·.marker.start)).getD (byteLength (front ++ raw) + byteLength rest) := by
        rw [← spans, whole]
        simp [Function.comp_def, Nat.add_assoc]
      _ = byteLength front + byteLength raw := by rw [laidOut.head_start, byteLength_append]
  rw [Marker.behind, next, stop, whole]
  exact Span.sub_append front raw rest

end LaidOut

section AddAll

variable {word : List Char} {subject : Subject} {doc : String} {documentation result : Documentation}
  {markers : List Marker} {tail : List Char}

theorem laidOut_of_addAll (before : List Char) (whole : doc.toList = before ++ tail)
    (reads : Marker.Reads word (byteLength before) tail markers)
    (success : addAll subject doc documentation markers = .ok result) :
    ∃ lead rest fragments, tail = lead ++ rest ∧ LaidOut word (byteLength (before ++ lead)) rest fragments ∧
      fragments.map Fragment.marker = markers.map Marker.span ∧ result = fragments.foldl add documentation := by
  induction markers generalizing documentation before tail with
  | nil =>
    cases success
    exact ⟨tail, [], [], by simp, .nil, rfl, rfl⟩
  | cons marker others ih =>
    rw [addAll_cons] at success
    split at success
    · cases success
    rename_i key _
    cases reads with
    | @marker _ span lead written keyWord tail others spelled begins ends further =>
      have stop : span.stop = byteLength (before ++ lead ++ written) := by simp [ends, begins, Nat.add_assoc]
      have split : doc.toList = (before ++ lead ++ written) ++ tail := by simp [whole]
      obtain ⟨raw, rest, fragments, rfl, laidOut, spans, result⟩ :=
        ih (before ++ lead ++ written) split (stop ▸ further) success
      have behind : Marker.behind doc.toList ⟨span, keyWord⟩ others = raw :=
        laidOut.behind_eq (by rw [split, List.append_assoc _ raw rest]) stop spans
      rw [behind] at result
      obtain ⟨front, back, rawSplit, frontBlank, backBlank, offset⟩ :=
        Fragment.exists_eq_append_body key span raw
      have further : LaidOut word (span.stop + byteLength (front ++ (Fragment.ofRaw key span raw).body.toList ++ back))
          rest fragments := by
        rwa [← rawSplit, stop, ← byteLength_append]
      have marked : span = ⟨byteLength (before ++ lead), byteLength (before ++ lead) + byteLength written⟩ := by
        rw [byteLength_append, ← begins, ← ends]
      refine ⟨lead, _, _, ?_, .cons spelled marked frontBlank backBlank offset further, ?_, result⟩
      · rw [← rawSplit]
        simp
      · simp [spans, Fragment.ofRaw]

end AddAll

/-- The fragments that are added are kept or set aside, each in their order. -/
theorem foldl_add (fragments : List Fragment) (documentation : Documentation) :
    ∃ kept aside, fragments.foldl add documentation =
        { documentation with
          fragments := documentation.fragments ++ kept
          repeats := documentation.repeats ++ aside } ∧
      kept.Sublist fragments ∧ aside.Sublist fragments ∧ (kept ++ aside).Perm fragments := by
  induction fragments generalizing documentation with
  | nil => exact ⟨[], [], by simp, .slnil, .slnil, .nil⟩
  | cons fragment fragments ih =>
    rw [List.foldl_cons]
    by_cases taken : (documentation.fragments.map Fragment.key).contains fragment.key = true
    · obtain ⟨kept, aside, result, keptOrder, asideOrder, every⟩ :=
        ih { documentation with repeats := documentation.repeats ++ [fragment] }
      refine ⟨kept, fragment :: aside, ?_, keptOrder.cons fragment, asideOrder.cons_cons fragment, ?_⟩
      · rw [add, if_pos taken, result]
        simp
      · exact List.perm_middle.trans (every.cons fragment)
    · obtain ⟨kept, aside, result, keptOrder, asideOrder, every⟩ :=
        ih { documentation with fragments := documentation.fragments ++ [fragment] }
      refine ⟨fragment :: kept, aside, ?_, keptOrder.cons_cons fragment, asideOrder.cons fragment, every.cons fragment⟩
      rw [add, if_neg taken, result]
      simp

/-- The fragments, in text order, account for a documentation text: what is not in front of the first marker stands
behind one of them. -/
structure Accounts (word : String) (doc : List Char) (documentation : Documentation) (fragments : List Fragment) :
    Prop where
  kept : documentation.fragments.Sublist fragments
  aside : documentation.repeats.Sublist fragments
  every : documentation.everyFragment.Perm fragments
  /-- Each marker that the search finds has its fragment. -/
  markers : fragments.map Fragment.marker = (Marker.all word doc).map Marker.span
  /-- The description is the text in front of the first marker, or the whole text. -/
  description : ∃ lead rest, doc = lead ++ rest ∧ documentation.description = String.ofList (trim lead) ∧
    byteLength lead = (fragments.head?.map (·.marker.start)).getD (byteLength doc)
  apart : fragments.Pairwise fun earlier later => earlier.marker.stop ≤ later.marker.start
  placed : ∀ entry ∈ Fragment.withStops (byteLength doc) fragments,
    Fragment.Placed word.toList doc entry.1 entry.2
  /-- No bare marker is overlooked. -/
  bare : ∀ place, OccursAt doc place (word.toList ++ [':']) → Free word.toList doc place →
    ∃ fragment ∈ fragments, fragment.marker = ⟨place, place + byteLength word.toList + 1⟩

section Parse

variable {word : String} {subject : Subject} {doc : String} {documentation : Documentation}

theorem bare_mem_all (isWord : isWord word = true) {text : List Char} {place : Nat}
    (bare : OccursAt text place (word.toList ++ [':'])) (free : Free word.toList text place) :
    ⟨⟨place, place + byteLength word.toList + 1⟩, []⟩ ∈ Marker.all word text := by
  obtain ⟨before, after, split, rfl⟩ := bare
  obtain ⟨some, letters⟩ := Bool.and_eq_true_iff.mp isWord
  unfold Marker.all
  split
  · rename_i empty
    simp [empty] at some
  · rename_i c cs chars
    rw [chars] at letters split free ⊢
    have found := Marker.bare_mem_scan letters 0 text before after (by simpa using split) free
    simpa using found

/-- No part of a documentation text is lost, and none is used twice. -/
theorem parse_accounts_for_text (isWord : isWord word = true) (success : parse word subject doc = .ok documentation) :
    ∃ fragments, Accounts word doc.toList documentation fragments := by
  have begins : doc.toList = [] ++ doc.toList := rfl
  obtain ⟨lead, rest, fragments, whole, laidOut, spans, result⟩ :=
    laidOut_of_addAll [] begins (reads_all isWord doc.toList) success
  have size : byteLength lead = (fragments.head?.map (·.marker.start)).getD (byteLength doc.toList) := by
    rw [whole, byteLength_append]
    exact laidOut.head_start.symm
  have front : takeBytes (((Marker.all word doc.toList).head?.map (·.span.start)).getD (byteLength doc.toList))
      doc.toList = lead := by
    have same : (Marker.all word doc.toList).head?.map (·.span.start) = fragments.head?.map (·.marker.start) := by
      simpa [Function.comp_def] using (congrArg (·.head?.map Span.start) spans).symm
    rw [same, ← size, whole, takeBytes_append]
  obtain ⟨kept, aside, added, keptOrder, asideOrder, every⟩ :=
    foldl_add fragments { description := String.ofList (trim lead) }
  rw [front, added] at result
  subst result
  refine ⟨fragments, by simpa using keptOrder, by simpa using asideOrder, by simpa [everyFragment] using every,
    spans, ⟨lead, rest, whole, rfl, size⟩, laidOut.pairwise, laidOut.placed whole rfl, fun place bare free => ?_⟩
  have found := List.mem_map_of_mem (f := Marker.span) (bare_mem_all isWord bare free)
  rw [← spans] at found
  exact List.mem_map.mp found

/-- A text with a getter and a setter, a look-alike in front of them and a second getter behind them. -/
def volume : String :=
  "Größe CPP(a CPPCPP: return é;\n  CPP(set):\n\n    é = it;\n  CPP(get): return 0;\n"

def volumeParts : Documentation where
  description := "Größe CPP(a CPP"
  fragments := [⟨.get, "return é;", 22, ⟨17, 21⟩⟩, ⟨.set, "    é = it;", 46, ⟨35, 44⟩⟩]
  repeats := [⟨.get, "return 0;", 71, ⟨61, 70⟩⟩]

theorem account_of_volume :
    isWord "CPP" = true ∧ parse "CPP" ⟨"Speaker.volume", .property, ⟨"", none⟩⟩ volume = .ok volumeParts ∧
      ∃ fragments, Accounts "CPP" volume.toList volumeParts fragments := by
  have isWord : isWord "CPP" = true := by decide +kernel
  have success : parse "CPP" ⟨"Speaker.volume", .property, ⟨"", none⟩⟩ volume = .ok volumeParts := by decide +kernel
  exact ⟨isWord, success, parse_accounts_for_text isWord success⟩

end Parse

end Documentation

end DocWeave
