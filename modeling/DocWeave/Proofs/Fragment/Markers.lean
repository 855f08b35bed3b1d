import DocWeave.Fragment.Documentation
import DocWeave.Proofs.Text.Edges
import DocWeave.Proofs.Text.Places

/-!
# Markers and fragments in their documentation

The scan reads a text as markers with other text between them. From this every fragment is found to stand
in the documentation at its offset, and a marker whose key is not supported at its span.
-/

namespace DocWeave

open DocWeave.Text

namespace Marker

/-- A marker with a key word is written like this. The key word may be missing. -/
def Spelled (word key written : List Char) : Prop :=
  key = [] ∧ written = word ++ [':'] ∨
    key.all isWordChar = true ∧ written = word ++ '(' :: key ++ [')', ':']

/-- A text that begins at byte `start` holds these markers, one after the other. -/
inductive Reads (word : List Char) : Nat → List Char → List Marker → Prop
  | done {start text} : Reads word start text []
  | marker {start span front written key rest markers} (spelled : Spelled word key written)
      (begins : span.start = start + byteLength front)
      (ends : span.stop = span.start + byteLength written) (further : Reads word span.stop rest markers) :
      Reads word start (front ++ written ++ rest) (⟨span, key⟩ :: markers)

theorem Reads.prepend {word : List Char} {start : Nat} {text : List Char} {markers : List Marker}
    (front : List Char) (reads : Reads word (start + byteLength front) text markers) :
    Reads word start (front ++ text) markers := by
  cases reads with
  | done => exact .done
  | @marker _ span other written key rest markers spelled begins ends further =>
    rw [← List.append_assoc, ← List.append_assoc]
    refine .marker spelled ?_ ends further
    rw [begins, byteLength_append, Nat.add_assoc]

/-- No marker begins with a character that does not begin the marker word. -/
theorem Reads.tail {c d : Char} {cs rest : List Char} {start : Nat} {markers : List Marker} (other : d ≠ c)
    (reads : Reads (c :: cs) start (d :: rest) markers) :
    Reads (c :: cs) (start + d.utf8Size) rest markers := by
  generalize whole : d :: rest = text at reads
  cases reads with
  | done => exact .done
  | @marker _ span front written key after markers spelled begins ends further =>
    cases front with
    | nil =>
      rcases spelled with ⟨_, rfl⟩ | ⟨_, rfl⟩ <;>
        exact absurd (List.cons.inj whole).1 other
    | cons first front =>
      obtain ⟨rfl, rfl⟩ := List.cons.inj whole
      refine .marker spelled ?_ ends further
      rw [begins, byteLength_cons, Nat.add_assoc]

theorem spelled_of_tail_colon (word : List Char) {after : List Char} (tail : Tail.of after = .colon) :
    ∃ rest, after = ':' :: rest ∧ Spelled word [] (word ++ [':']) := by
  unfold Tail.of at tail
  split at tail
  · exact ⟨_, rfl, .inl ⟨rfl, rfl⟩⟩
  · split at tail <;> cases tail
  · cases tail

theorem spelled_of_tail_keyed {word after key rest : List Char} (tail : Tail.of after = .keyed key rest) :
    Spelled word key (word ++ '(' :: key ++ [')', ':']) := by
  unfold Tail.of at tail
  split at tail
  · cases tail
  · split at tail
    · cases tail
      exact .inr ⟨List.all_takeWhile, rfl⟩
    · cases tail
  · cases tail

theorem eq_append_drop {c first : Char} {cs others : List Char}
    (found : (c :: cs).isPrefixOf (first :: others) = true) :
    first :: others = c :: cs ++ others.drop cs.length := by
  obtain ⟨after, whole⟩ := List.isPrefixOf_iff_prefix.mp found
  obtain ⟨rfl, rfl⟩ := List.cons.inj whole
  simp

theorem size_colon : ':'.utf8Size = 1 := by decide

theorem size_open : '('.utf8Size = 1 := by decide

theorem size_close : ')'.utf8Size = 1 := by decide

section Scan

variable {c first : Char} {cs others : List Char} {start : Nat}
  (found : (c :: cs).isPrefixOf (first :: others) = true)

include found

theorem scan_of_colon (tail : Tail.of (others.drop cs.length) = .colon) :
    scan c cs start (first :: others) =
      ⟨⟨start, start + byteLength (c :: cs) + 1⟩, []⟩
        :: scan c cs (start + byteLength (c :: cs)) (others.drop cs.length) := by
  rw [scan, if_pos found]
  dsimp only
  split <;> simp_all

theorem scan_of_keyed {key rest : List Char} (tail : Tail.of (others.drop cs.length) = .keyed key rest) :
    scan c cs start (first :: others) =
      ⟨⟨start, start + byteLength (c :: cs) + byteLength key + 3⟩, key⟩
        :: scan c cs (start + byteLength (c :: cs) + byteLength key + 3) rest := by
  rw [scan, if_pos found]
  dsimp only
  split <;> simp_all

theorem scan_of_none (tail : Tail.of (others.drop cs.length) = .none) :
    scan c cs start (first :: others) =
      scan c cs (start + byteLength (c :: cs)) (others.drop cs.length) := by
  rw [scan, if_pos found]
  dsimp only
  split <;> simp_all

end Scan

theorem reads_scan {c : Char} {cs : List Char} (noColon : ':' ≠ c) (start : Nat) (text : List Char) :
    Reads (c :: cs) start text (scan c cs start text) := by
  induction start, text using scan.induct c cs with
  | case1 start =>
    rw [scan]
    exact .done
  | case2 start first others after stop tail found ih =>
    obtain ⟨rest, colon, spelled⟩ := spelled_of_tail_colon (c :: cs) tail
    rw [scan_of_colon found tail, eq_append_drop found]
    -- The scan goes on from the colon, which cannot begin another marker.
    have whole : c :: cs ++ after = [] ++ (c :: cs ++ [':']) ++ rest := by simp [colon]
    have further : Reads (c :: cs) (stop + 1) rest (scan c cs stop after) := by
      rw [colon] at ih ⊢
      exact ih.tail noColon
    rw [whole]
    exact .marker spelled rfl (by simp [size_colon, Nat.add_assoc]) further
  | case3 start first others after stop key rest tail keyedStop found ih =>
    rw [scan_of_keyed found tail, eq_append_drop found]
    have whole : c :: cs ++ after = [] ++ (c :: cs ++ '(' :: key ++ [')', ':']) ++ rest := by
      simp [Tail.eq_of_keyed tail]
    rw [whole]
    refine .marker (spelled_of_tail_keyed tail) rfl ?_ ih
    simp only [List.cons_append, byteLength_cons, byteLength_append, byteLength_nil, size_colon, size_open,
      size_close]
    omega
  | case4 start first others after stop tail found ih =>
    rw [scan_of_none found tail, eq_append_drop found]
    exact ih.prepend (c :: cs)
  | case5 start first others absent ih =>
    rw [scan, if_neg absent]
    exact Reads.prepend [first] (by simpa using ih)

/-- The text from a marker to the next one, or to the end. -/
def behind (doc : List Char) (marker : Marker) (rest : List Marker) : List Char :=
  Span.sub ⟨marker.span.stop, (rest.head?.map (·.span.start)).getD (byteLength doc)⟩ doc

theorem Reads.behind {word doc before tail : List Char} {marker : Marker} {rest : List Marker}
    (whole : doc = before ++ tail) (reads : Reads word (byteLength before) tail (marker :: rest)) :
    ∃ front after, doc = front ++ marker.behind doc rest ++ after ∧ byteLength front = marker.span.stop ∧
      Reads word (byteLength front) (marker.behind doc rest ++ after) rest := by
  cases reads with
  | @marker _ span gap written key tail rest spelled begins ends further =>
    have split : doc = (before ++ gap ++ written) ++ tail := by simp [whole]
    have size : byteLength (before ++ gap ++ written) = span.stop := by
      simp [ends, begins, Nat.add_assoc]
    rw [← size] at further
    generalize before ++ gap ++ written = front at split size further
    cases further with
    | done =>
      have raw : Marker.behind doc ⟨span, key⟩ [] = tail := by
        simpa [Marker.behind, split, size] using Span.sub_append front tail []
      rw [raw]
      exact ⟨front, [], by simp [split], size, .done⟩
    | @marker _ next inner other nextKey after markers nextSpelled nextBegins nextEnds others =>
      have raw : Marker.behind doc ⟨span, key⟩ (⟨next, nextKey⟩ :: markers) = inner := by
        simpa [Marker.behind, split, ← size, nextBegins] using Span.sub_append front inner (other ++ after)
      rw [raw]
      refine ⟨front, other ++ after, by simp [split], size, ?_⟩
      rw [← List.append_assoc]
      exact .marker nextSpelled nextBegins nextEnds others

end Marker

namespace Fragment

theorem exists_eq_append_bodyText (raw : List Char) :
    ∃ skipped, raw = skipped ++ bodyText raw ∧ isBlank skipped = true := by
  unfold bodyText
  split
  · exact exists_eq_append_dropBlankLines raw
  · obtain ⟨first, rawSplit, firstBlank⟩ := exists_eq_append_trimStart raw
    obtain ⟨second, restSplit, secondBlank⟩ := exists_eq_append_dropBlankLines (trimStart raw)
    refine ⟨first ++ second, ?_, by simp [isBlank_append, firstBlank, secondBlank]⟩
    rw [List.append_assoc, ← restSplit, ← rawSplit]

/-- The body that is cut out of the text behind a marker stands at its offset. -/
theorem occursAt_ofRaw {doc front raw after : List Char} {marker : Span} (key : FragmentKey)
    (whole : doc = front ++ raw ++ after) (size : byteLength front = marker.stop) :
    OccursAt doc (ofRaw key marker raw).offset (ofRaw key marker raw).body.toList := by
  obtain ⟨skipped, rawSplit, _⟩ := exists_eq_append_bodyText raw
  obtain ⟨tail, bodySplit, _⟩ := exists_eq_trimEnd_append (bodyText raw)
  have lengths : byteLength raw = byteLength skipped + byteLength (bodyText raw) := by
    rw [← byteLength_append, ← rawSplit]
  refine ⟨front ++ skipped, tail ++ after, ?_, ?_⟩
  · calc
      doc = front ++ (skipped ++ bodyText raw) ++ after := by rw [← rawSplit, whole]
      _ = front ++ (skipped ++ (trimEnd (bodyText raw) ++ tail)) ++ after := by rw [← bodySplit]
      _ = front ++ skipped ++ (ofRaw key marker raw).body.toList ++ (tail ++ after) := by simp [ofRaw]
  · simp only [ofRaw, byteLength_append]
    omega

end Fragment

namespace Documentation

/-- All fragments that a documentation text holds. -/
def everyFragment (documentation : Documentation) : List Fragment :=
  documentation.fragments ++ documentation.repeats

theorem mem_everyFragment_add {documentation : Documentation} {added fragment : Fragment} :
    fragment ∈ (documentation.add added).everyFragment ↔
      fragment = added ∨ fragment ∈ documentation.everyFragment := by
  unfold add everyFragment
  split <;> grind

theorem addAll_cons (subject : Subject) (doc : String) (documentation : Documentation) (marker : Marker)
    (rest : List Marker) :
    addAll subject doc documentation (marker :: rest) =
      match subject.kind.keyOfWord? (documentation.fragments.map Fragment.key) (String.ofList marker.word) with
      | none => .error (.unsupportedKey subject.kind ((String.ofList marker.word).map Char.toUpper)
          subject.name subject.position doc marker.span)
      | some key => addAll subject doc
          (documentation.add (Fragment.ofRaw key marker.span (marker.behind doc.toList rest))) rest := rfl

section AddAll

variable {word : List Char} {subject : Subject} {doc : String} {documentation result : Documentation}
  {markers : List Marker} {tail : List Char}

/-- Every fragment stands in the documentation at its offset. -/
theorem occursAt_of_addAll (before : List Char) (whole : doc.toList = before ++ tail)
    (reads : Marker.Reads word (byteLength before) tail markers)
    (placed : ∀ fragment ∈ documentation.everyFragment,
      OccursAt doc.toList fragment.offset fragment.body.toList)
    (success : addAll subject doc documentation markers = .ok result) :
    ∀ fragment ∈ result.everyFragment, OccursAt doc.toList fragment.offset fragment.body.toList := by
  induction markers generalizing documentation before tail with
  | nil =>
    cases success
    exact placed
  | cons marker rest ih =>
    obtain ⟨front, after, split, size, further⟩ := reads.behind whole
    rw [addAll_cons] at success
    split at success
    · cases success
    · rename_i key _
      refine ih front (split.trans (List.append_assoc front _ after)) further ?_ success
      intro fragment member
      rcases mem_everyFragment_add.mp member with rfl | old
      · exact Fragment.occursAt_ofRaw key split size
      · exact placed fragment old

/-- A key word that is not supported stands between the parentheses of its marker. -/
theorem selects_of_addAll_error (before : List Char) (whole : doc.toList = before ++ tail)
    (reads : Marker.Reads word (byteLength before) tail markers) {fault : Fault}
    (failure : addAll subject doc documentation markers = .error fault) :
    ∃ key taken span,
      fault = .unsupportedKey subject.kind ((String.ofList key).map Char.toUpper) subject.name
        subject.position doc span ∧
      subject.kind.keyOfWord? taken (String.ofList key) = none ∧
      span.Selects doc.toList (word ++ '(' :: key ++ [')', ':']) := by
  induction markers generalizing documentation before tail with
  | nil => cases failure
  | cons marker rest ih =>
    obtain ⟨front, after, split, size, further⟩ := reads.behind whole
    rw [addAll_cons] at failure
    split at failure
    · rename_i unsupported
      cases failure
      refine ⟨marker.word, _, marker.span, rfl, unsupported, ?_⟩
      cases reads with
      | @marker _ span gap written key tail rest spelled begins ends further =>
        rcases spelled with ⟨rfl, rfl⟩ | ⟨_, rfl⟩
        · simp [EntityKind.keyOfWord?] at unsupported
        · have place : OccursAt doc.toList span.start (word ++ '(' :: key ++ [')', ':']) :=
            ⟨before ++ gap, tail, by simp [whole], by simp [begins]⟩
          exact Span.Covers.selects ⟨place, ends⟩
    · exact ih front (split.trans (List.append_assoc front _ after)) further failure

/-- What holds at first and is kept by each fragment that is added holds in the end. -/
theorem addAll_induction {motive : Documentation → Prop} (start : motive documentation)
    (step : ∀ documentation, motive documentation → ∀ (marker : Marker) key raw,
      subject.kind.keyOfWord? (documentation.fragments.map Fragment.key) (String.ofList marker.word) = some key →
      motive (documentation.add (Fragment.ofRaw key marker.span raw)))
    (success : addAll subject doc documentation markers = .ok result) : motive result := by
  induction markers generalizing documentation with
  | nil =>
    cases success
    exact start
  | cons marker rest ih =>
    rw [addAll_cons] at success
    split at success
    · cases success
    · rename_i key supported
      exact ih (step documentation start marker key _ supported) success

theorem mem_of_addAll (success : addAll subject doc documentation markers = .ok result) {fragment : Fragment}
    (member : fragment ∈ documentation.everyFragment) : fragment ∈ result.everyFragment :=
  addAll_induction (motive := fun grown => fragment ∈ grown.everyFragment) member
    (fun _ old _ _ _ _ => mem_everyFragment_add.mpr (.inr old)) success

/-- Every marker has its fragment. -/
theorem exists_fragment_of_addAll (success : addAll subject doc documentation markers = .ok result) :
    ∀ marker ∈ markers, ∃ fragment ∈ result.everyFragment, fragment.marker = marker.span := by
  induction markers generalizing documentation with
  | nil => simp
  | cons marker rest ih =>
    rw [addAll_cons] at success
    split at success
    · cases success
    · intro other member
      rcases List.mem_cons.mp member with rfl | later
      · exact ⟨_, mem_of_addAll success (mem_everyFragment_add.mpr (.inl rfl)), rfl⟩
      · exact ih success other later

end AddAll

theorem bareKey_mem_keys (kind : EntityKind) (taken : List FragmentKey) : kind.bareKey taken ∈ kind.keys := by
  unfold EntityKind.bareKey
  split
  · rename_i property
    subst property
    split <;> decide
  · cases kind <;> simp_all [EntityKind.keys]

theorem mem_keys_of_keyOfWord? {kind : EntityKind} {taken : List FragmentKey} {word : String}
    {key : FragmentKey} (supported : kind.keyOfWord? taken word = some key) : key ∈ kind.keys := by
  unfold EntityKind.keyOfWord? at supported
  split at supported
  · cases supported
    exact bareKey_mem_keys kind taken
  · simpa using (Option.filter_eq_some_iff.mp supported).2

/-- The fragments of a documentation text have keys that its entity supports, and no two that are kept have
the same key. A fragment is set aside only for one that is kept. -/
structure Keyed (kind : EntityKind) (documentation : Documentation) : Prop where
  supported : ∀ fragment ∈ documentation.everyFragment, fragment.key ∈ kind.keys
  distinct : (documentation.fragments.map Fragment.key).Nodup
  taken : ∀ fragment ∈ documentation.repeats, fragment.key ∈ documentation.fragments.map Fragment.key

theorem Keyed.add {kind : EntityKind} {documentation : Documentation} (keyed : Keyed kind documentation)
    {fragment : Fragment} (supported : fragment.key ∈ kind.keys) : Keyed kind (documentation.add fragment) := by
  constructor
  · intro other member
    rcases mem_everyFragment_add.mp member with rfl | old
    · exact supported
    · exact keyed.supported other old
  · unfold Documentation.add
    split
    · exact keyed.distinct
    · rename_i fresh
      rw [List.map_append, List.nodup_append]
      refine ⟨keyed.distinct, by simp, ?_⟩
      rintro key old _ added rfl
      rw [List.map_singleton, List.mem_singleton] at added
      exact fresh (by simpa [added] using old)
  · unfold Documentation.add
    split
    · rename_i present
      intro other member
      rcases List.mem_append.mp member with old | added
      · exact keyed.taken other old
      · rw [List.mem_singleton.mp added]
        simpa using present
    · intro other member
      rw [List.map_append]
      exact List.mem_append_left _ (keyed.taken other member)

/-- The look-up of a key finds the fragment that is kept for it. -/
theorem Keyed.find?_eq {kind : EntityKind} {documentation : Documentation} (keyed : Keyed kind documentation)
    {fragment : Fragment} (kept : fragment ∈ documentation.fragments) :
    Fragment.find? documentation.fragments fragment.key = some fragment := by
  have distinct := keyed.distinct
  generalize documentation.fragments = fragments at kept distinct
  unfold Fragment.find?
  induction fragments with
  | nil => cases kept
  | cons first rest ih =>
    rw [List.map_cons, List.nodup_cons] at distinct
    rcases List.mem_cons.mp kept with rfl | later
    · simp
    · have other : first.key ≠ fragment.key := by
        intro same
        exact distinct.1 (same ▸ List.mem_map_of_mem later)
      rw [List.find?_cons_of_neg (by simpa using other)]
      exact ih later distinct.2

/-- A marker word that a manifest may choose cannot run into the colon behind it. -/
theorem reads_all {word : String} (isWord : isWord word = true) (text : List Char) :
    Marker.Reads word.toList 0 text (Marker.all word text) := by
  unfold Marker.all
  obtain ⟨some, letters⟩ := Bool.and_eq_true_iff.mp isWord
  split
  · exact .done
  · rename_i c cs chars
    rw [chars]
    refine Marker.reads_scan ?_ 0 text
    rintro rfl
    rw [chars] at letters
    simp [isWordChar] at letters

section Parse

variable {word : String} {subject : Subject} {doc : String} {documentation : Documentation}

theorem keyed_of_parse (success : parse word subject doc = .ok documentation) :
    Keyed subject.kind documentation := by
  refine addAll_induction ?_ ?_ success
  · exact ⟨by simp [everyFragment], by simp, by simp⟩
  · intro documentation keyed marker key raw supported
    exact keyed.add (mem_keys_of_keyOfWord? supported)

theorem occursAt_of_parse (isWord : isWord word = true) (success : parse word subject doc = .ok documentation) :
    ∀ fragment ∈ documentation.everyFragment, OccursAt doc.toList fragment.offset fragment.body.toList :=
  occursAt_of_addAll [] rfl (reads_all isWord doc.toList) (by simp [everyFragment]) success

theorem exists_fragment_of_parse (success : parse word subject doc = .ok documentation) :
    ∀ marker ∈ Marker.all word doc.toList,
      ∃ fragment ∈ documentation.everyFragment, fragment.marker = marker.span :=
  exists_fragment_of_addAll success

theorem selects_of_parse_error (isWord : isWord word = true) {fault : Fault}
    (failure : parse word subject doc = .error fault) :
    ∃ key taken span,
      fault = .unsupportedKey subject.kind ((String.ofList key).map Char.toUpper) subject.name
        subject.position doc span ∧
      subject.kind.keyOfWord? taken (String.ofList key) = none ∧
      span.Selects doc.toList (word.toList ++ '(' :: key ++ [')', ':']) :=
  selects_of_addAll_error [] rfl (reads_all isWord doc.toList) failure

end Parse

end Documentation

end DocWeave
