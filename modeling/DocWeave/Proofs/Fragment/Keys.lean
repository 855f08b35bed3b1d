import DocWeave.Proofs.Fragment.Markers
import DocWeave.Proofs.Outcome
import Mathlib.Data.List.Induction

/-!
# The keys of fragments

A key word selects the key of its fragment. Without one, the fragment has the default key, but on a property the
getter's or the setter's, which depends on the markers in front. Of the fragments with one key the first is kept.
-/

namespace DocWeave

open Text

theorem FragmentKey.ofWord?_eq_some {word : String} {key : FragmentKey} :
    ofWord? word = some key ↔ key.word = word.map Char.toUpper := by
  constructor
  · intro found
    simpa using List.find?_some found
  · intro spelled
    rw [ofWord?, ← spelled]
    cases key <;> rfl

namespace EntityKind

/-- There is no key word, or it is the word of a key of this kind, in either case. -/
def Supports (kind : EntityKind) (word : List Char) : Prop :=
  word = [] ∨ ∃ key ∈ kind.keys, word.map Char.toUpper = key.word.toList

/-- The key of a marker with this key word, where the markers in front of it have the keys `taken`. -/
inductive Assigns (kind : EntityKind) (taken : List FragmentKey) : List Char → FragmentKey → Prop
  | keyed {word key} (worded : word ≠ []) (supported : key ∈ kind.keys)
      (spelled : word.map Char.toUpper = key.word.toList) : Assigns kind taken word key
  | getter (property : kind = .property) (others : .get ∉ taken ∨ .set ∈ taken) : Assigns kind taken [] .get
  | setter (property : kind = .property) (others : .get ∈ taken ∧ .set ∉ taken) : Assigns kind taken [] .set
  | bare (other : kind ≠ .property) : Assigns kind taken [] .default

variable {kind : EntityKind} {taken : List FragmentKey} {word : List Char} {key : FragmentKey}

theorem Assigns.congr {others : List FragmentKey} (same : ∀ key, key ∈ taken ↔ key ∈ others)
    (assigns : kind.Assigns taken word key) : kind.Assigns others word key := by
  cases assigns with
  | keyed worded supported spelled => exact .keyed worded supported spelled
  | getter property free => exact .getter property (by rwa [← same, ← same])
  | setter property free => exact .setter property (by rwa [← same, ← same])
  | bare other => exact .bare other

theorem assigns_bareKey : kind.Assigns taken [] (kind.bareKey taken) := by
  unfold bareKey
  split
  · rename_i property
    split
    · rename_i free
      exact .setter property (by simpa using free)
    · rename_i others
      exact .getter property (by simpa [Decidable.imp_iff_not_or] using others)
  · rename_i other
    exact .bare other

theorem keyOfWord?_eq_some (found : kind.keyOfWord? taken (String.ofList word) = some key) :
    kind.Assigns taken word key := by
  unfold keyOfWord? at found
  split at found
  · rename_i empty
    obtain rfl := String.ofList_eq_empty_iff.mp empty
    cases found
    exact assigns_bareKey
  · rename_i worded
    obtain ⟨known, supported⟩ := Option.filter_eq_some_iff.mp found
    have spelled := congrArg String.toList (FragmentKey.ofWord?_eq_some.mp known)
    rw [String.toList_map, String.toList_ofList] at spelled
    exact .keyed (fun empty => worded (String.ofList_eq_empty_iff.mpr empty)) (by simpa using supported) spelled.symm

theorem keyOfWord?_eq_none : kind.keyOfWord? taken (String.ofList word) = none ↔ ¬ kind.Supports word := by
  rw [Supports, not_or]
  by_cases worded : word = []
  · simp [keyOfWord?, worded]
  · rw [keyOfWord?, if_neg (fun empty => worded (String.ofList_eq_empty_iff.mp empty)), Option.filter_eq_none_iff]
    simp only [worded, not_false_eq_true, true_and, not_exists, not_and]
    constructor
    · intro missing key supported spelled
      have known : FragmentKey.ofWord? (String.ofList word) = some key := by
        rw [FragmentKey.ofWord?_eq_some, ← String.toList_inj, String.toList_map, String.toList_ofList, spelled]
      exact missing key known (by simpa using supported)
    · intro missing key known supported
      have spelled := congrArg String.toList (FragmentKey.ofWord?_eq_some.mp known)
      rw [String.toList_map, String.toList_ofList] at spelled
      exact missing key (by simpa using supported) spelled.symm

theorem Assigns.mem_keys (assigns : kind.Assigns taken word key) : key ∈ kind.keys := by
  cases assigns with
  | keyed _ supported _ => exact supported
  | getter property _ => exact property ▸ by decide
  | setter property _ => exact property ▸ by decide
  | bare other => cases kind <;> simp_all [keys]

theorem Assigns.supports (assigns : kind.Assigns taken word key) : kind.Supports word := by
  cases assigns with
  | keyed _ supported spelled => exact .inr ⟨key, supported, spelled⟩
  | getter => exact .inl rfl
  | setter => exact .inl rfl
  | bare => exact .inl rfl

end EntityKind

namespace Fragment

/-- A fragment in front of the one at this place has its key. -/
def keyTaken (fragments : List Fragment) (entry : Fragment × Nat) : Bool :=
  ((fragments.take entry.2).map key).contains entry.1.key

/-- The fragments whose key another one in front of them has, or else those whose key none has. -/
def whereTaken (taken : Bool) (fragments : List Fragment) : List Fragment :=
  (fragments.zipIdx.filter (keyTaken fragments · == taken)).map Prod.fst

variable {taken : Bool} {fragments : List Fragment} {added : Fragment}

theorem keyTaken_concat {entry : Fragment × Nat} (member : entry ∈ fragments.zipIdx) :
    keyTaken (fragments ++ [added]) entry = keyTaken fragments entry := by
  obtain ⟨fragment, place⟩ := entry
  have bound := (List.mem_zipIdx member).2.1
  rw [keyTaken, List.take_append_of_le_length (by omega), keyTaken]

theorem keyTaken_last : keyTaken (fragments ++ [added]) (added, fragments.length) =
    (fragments.map key).contains added.key := by
  rw [keyTaken, List.take_left]

theorem whereTaken_concat :
    whereTaken taken (fragments ++ [added]) =
      whereTaken taken fragments ++ if (fragments.map key).contains added.key == taken then [added] else [] := by
  have front : fragments.zipIdx.filter (keyTaken (fragments ++ [added]) · == taken) =
      fragments.zipIdx.filter (keyTaken fragments · == taken) :=
    List.filter_congr fun entry member => by rw [keyTaken_concat member]
  rw [whereTaken, List.zipIdx_append, List.filter_append, List.map_append, front, whereTaken, List.zipIdx_singleton,
    Nat.zero_add, ← keyTaken_last]
  congr 1
  rw [List.filter_cons, List.filter_nil]
  split <;> rfl

/-- Every fragment is the first of its key or behind the first. -/
theorem length_whereTaken (fragments : List Fragment) :
    (whereTaken false fragments).length + (whereTaken true fragments).length = fragments.length := by
  induction fragments using List.reverseRecOn with
  | nil => rfl
  | append_singleton fragments added ih =>
    rw [whereTaken_concat, whereTaken_concat]
    cases (fragments.map key).contains added.key <;> simp <;> omega

theorem mem_keys_whereTaken {wanted : FragmentKey} :
    wanted ∈ (whereTaken false fragments).map key ↔ wanted ∈ fragments.map key := by
  induction fragments using List.reverseRecOn with
  | nil => rfl
  | append_singleton fragments added ih =>
    rw [whereTaken_concat, List.map_append, List.mem_append, ih, List.map_append, List.mem_append]
    cases test : (fragments.map key).contains added.key with
    | false => simp
    | true =>
      have present : added.key ∈ fragments.map key := by simpa using test
      rw [if_neg (by simp), List.map_nil, List.map_singleton, List.mem_singleton]
      constructor
      · exact fun old => .inl (old.resolve_right List.not_mem_nil)
      · rintro (old | rfl)
        · exact .inl old
        · exact .inl present

/-- The first fragment of a key is the one that is kept. -/
theorem find?_whereTaken (wanted : FragmentKey) :
    find? (whereTaken false fragments) wanted = find? fragments wanted := by
  induction fragments using List.reverseRecOn with
  | nil => rfl
  | append_singleton fragments added ih =>
    unfold find? at ih ⊢
    rw [whereTaken_concat, List.find?_append, List.find?_append, ih]
    by_cases present : added.key ∈ fragments.map key
    · rw [if_neg (by simpa using present), List.find?_nil]
      obtain ⟨fragment, member, same⟩ := List.mem_map.mp present
      by_cases asked : added.key = wanted
      · have found : (fragments.find? (·.key = wanted)).isSome := by
          rw [List.find?_isSome]
          exact ⟨fragment, member, by simpa [same] using asked⟩
        rw [Option.or_of_isSome found, Option.or_of_isSome found]
      · rw [List.find?_cons_of_neg (by simpa using asked), List.find?_nil]
    · rw [if_pos (by simpa using present)]

end Fragment

namespace Documentation

/-- The fragments of the markers, in text order, have the keys that belong to the markers. The first one of each key is
kept and the others are set aside. -/
structure Keys (kind : EntityKind) (read : List (Marker × Fragment)) (documentation : Documentation) : Prop where
  marked : ∀ entry ∈ read, entry.2.marker = entry.1.span
  assigned : ∀ front entry rest, read = front ++ entry :: rest →
    kind.Assigns (front.map (·.2.key)) entry.1.word entry.2.key
  kept : documentation.fragments = Fragment.whereTaken false (read.map Prod.snd)
  aside : documentation.repeats = Fragment.whereTaken true (read.map Prod.snd)

section Keys

variable {kind : EntityKind} {subject : Subject} {doc : String} {read : List (Marker × Fragment)}
  {documentation result : Documentation} {markers : List Marker} {fault : Fault}

theorem Keys.mem_taken (keys : Keys kind read documentation) (key : FragmentKey) :
    key ∈ documentation.fragments.map Fragment.key ↔ key ∈ read.map (·.2.key) := by
  rw [keys.kept, Fragment.mem_keys_whereTaken, List.map_map]
  rfl

theorem Keys.add (keys : Keys kind read documentation) {marker : Marker} {fragment : Fragment}
    (marked : fragment.marker = marker.span)
    (assigns : kind.Assigns (documentation.fragments.map Fragment.key) marker.word fragment.key) :
    Keys kind (read ++ [(marker, fragment)]) (documentation.add fragment) := by
  have present : (documentation.fragments.map Fragment.key).contains fragment.key =
      ((read.map Prod.snd).map Fragment.key).contains fragment.key := by
    rw [Bool.eq_iff_iff, List.contains_iff_mem, List.contains_iff_mem, keys.kept, Fragment.mem_keys_whereTaken]
  constructor
  · intro entry member
    rcases List.mem_append.mp member with old | new
    · exact keys.marked entry old
    · rw [List.mem_singleton.mp new]
      exact marked
  · intro front entry rest split
    rcases List.eq_nil_or_concat rest with rfl | ⟨others, last, rfl⟩
    · obtain ⟨rfl, same⟩ := List.append_inj' split rfl
      cases same
      exact assigns.congr keys.mem_taken
    · rw [List.concat_eq_append, ← List.cons_append, ← List.append_assoc] at split
      exact keys.assigned front entry others (List.append_inj' split rfl).1
  · rw [List.map_append, List.map_singleton, Fragment.whereTaken_concat, ← present, ← keys.kept, Documentation.add]
    cases (documentation.fragments.map Fragment.key).contains fragment.key <;> simp
  · rw [List.map_append, List.map_singleton, Fragment.whereTaken_concat, ← present, ← keys.aside, Documentation.add]
    cases (documentation.fragments.map Fragment.key).contains fragment.key <;> simp

theorem keys_of_addAll (keys : Keys subject.kind read documentation)
    (success : addAll subject doc documentation markers = .ok result) :
    ∃ more, more.map Prod.fst = markers ∧ Keys subject.kind (read ++ more) result := by
  induction markers generalizing documentation read with
  | nil =>
    cases success
    exact ⟨[], rfl, by rwa [List.append_nil]⟩
  | cons marker rest ih =>
    rw [addAll_cons] at success
    split at success
    · cases success
    · rename_i key found
      obtain ⟨more, rfl, all⟩ := ih (keys.add rfl (EntityKind.keyOfWord?_eq_some found)) success
      rw [← List.append_cons] at all
      exact ⟨_, List.map_cons, all⟩

/-- The fault is about the first marker whose key word is not supported. -/
theorem addAll_eq_error (failure : addAll subject doc documentation markers = .error fault) :
    ∃ front marker rest, markers = front ++ marker :: rest ∧ (∀ other ∈ front, subject.kind.Supports other.word) ∧
      ¬ subject.kind.Supports marker.word ∧
      fault = .unsupportedKey subject.kind ((String.ofList marker.word).map Char.toUpper) subject.name
        subject.position doc marker.span := by
  induction markers generalizing documentation with
  | nil => cases failure
  | cons marker rest ih =>
    rw [addAll_cons] at failure
    split at failure
    · rename_i missing
      cases failure
      exact ⟨[], marker, rest, rfl, by simp, EntityKind.keyOfWord?_eq_none.mp missing, rfl⟩
    · rename_i key found
      obtain ⟨front, unsupported, behind, rfl, supported, first, rfl⟩ := ih failure
      refine ⟨marker :: front, unsupported, behind, rfl, ?_, first, rfl⟩
      intro other member
      rcases List.mem_cons.mp member with rfl | later
      · exact (EntityKind.keyOfWord?_eq_some found).supports
      · exact supported other later

theorem Keys.mem_keys (keys : Keys kind read documentation) {entry : Marker × Fragment} (member : entry ∈ read) :
    entry.2.key ∈ kind.keys ∧ kind.Supports entry.1.word := by
  obtain ⟨front, rest, split⟩ := List.append_of_mem member
  have assigns := keys.assigned front entry rest split
  exact ⟨assigns.mem_keys, assigns.supports⟩

end Keys

/-- What comes of these markers: a fault about the first key word that is not supported, or fragments with keys of this
kind. -/
inductive Outcome (subject : Subject) (doc : String) (markers : List Marker) : Except Fault Documentation → Prop
  | unsupported {front marker rest} (split : markers = front ++ marker :: rest)
      (supported : ∀ other ∈ front, subject.kind.Supports other.word) (first : ¬ subject.kind.Supports marker.word) :
      Outcome subject doc markers (.error (.unsupportedKey subject.kind
        ((String.ofList marker.word).map Char.toUpper) subject.name subject.position doc marker.span))
  | keyed {read documentation} (each : read.map Prod.fst = markers) (keys : Keys subject.kind read documentation)
      (supported : ∀ fragment ∈ documentation.everyFragment, fragment.key ∈ subject.kind.keys)
      (earliest : ∀ key, Fragment.find? documentation.fragments key = Fragment.find? (read.map Prod.snd) key)
      (total : documentation.fragments.length + documentation.repeats.length = markers.length) :
      Outcome subject doc markers (.ok documentation)

theorem outcome_of_parse (word : String) (subject : Subject) (doc : String) :
    Outcome subject doc (Marker.all word doc.toList) (parse word subject doc) := by
  cases outcome : parse word subject doc with
  | error fault =>
    obtain ⟨front, marker, rest, split, supported, first, rfl⟩ := addAll_eq_error outcome
    exact .unsupported split supported first
  | ok documentation =>
    have nothing : Keys subject.kind []
        { description := String.ofList (trim (takeBytes (((Marker.all word doc.toList).head?.map
          (·.span.start)).getD (byteLength doc.toList)) doc.toList)) } :=
      ⟨by simp, by simp, rfl, rfl⟩
    obtain ⟨read, each, keys⟩ := keys_of_addAll nothing outcome
    refine .keyed each keys (keyed_of_parse outcome).supported ?_ ?_
    · intro key
      rw [keys.kept, List.nil_append, Fragment.find?_whereTaken]
    · rw [keys.kept, keys.aside, Fragment.length_whereTaken, List.nil_append, List.length_map, ← each, List.length_map]

/-- The markers of a documentation text fail if one of them has an unsupported key word, and it is about the first such
marker. Otherwise every marker gives a fragment of its key, and the first one of each key is kept. -/
theorem parse_assigns_keys {word : String} (isWord : isWord word = true) (subject : Subject) (doc : String) :
    Marker.Reads word.toList 0 doc.toList (Marker.all word doc.toList) ∧
    ((∃ fault, parse word subject doc = .error fault) ↔
      ∃ marker ∈ Marker.all word doc.toList, ¬ subject.kind.Supports marker.word) ∧
    Outcome subject doc (Marker.all word doc.toList) (parse word subject doc) := by
  have outcome := outcome_of_parse word subject doc
  refine ⟨reads_all isWord doc.toList, ?_, outcome⟩
  generalize Marker.all word doc.toList = markers, parse word subject doc = result at outcome
  cases outcome with
  | unsupported split supported first =>
    exact ⟨fun _ => ⟨_, split ▸ List.mem_append_right _ List.mem_cons_self, first⟩, fun _ => ⟨_, rfl⟩⟩
  | keyed each keys supported earliest total =>
    refine ⟨fun ⟨_, failure⟩ => (nomatch failure), ?_⟩
    rintro ⟨marker, member, unsupported⟩
    obtain ⟨entry, listed, rfl⟩ := List.mem_map.mp (each ▸ member)
    exact absurd (keys.mem_keys listed).2 unsupported

/-- A setter comes first, and then three markers without a key word. -/
def gain : String :=
  "CPP(Set): gain = it;\nCPP: return gain;\nCPP(): return 1;\nCPP: return 2;\n"

theorem keys_of_gain :
    isWord "CPP" = true ∧
    (∃ documentation, parse "CPP" ⟨"Speaker.gain", .property, ⟨"", none⟩⟩ gain = .ok documentation ∧
      documentation.fragments.map Fragment.key = [.set, .get] ∧
      documentation.repeats.map Fragment.key = [.get, .get]) ∧
    Outcome ⟨"Speaker.gain", .property, ⟨"", none⟩⟩ gain (Marker.all "CPP" gain.toList)
      (parse "CPP" ⟨"Speaker.gain", .property, ⟨"", none⟩⟩ gain) := by
  have isWord : isWord "CPP" = true := by decide +kernel
  have evaluated : (parse "CPP" ⟨"Speaker.gain", .property, ⟨"", none⟩⟩ gain >>= fun documentation =>
      (.ok (decide (documentation.fragments.map Fragment.key = [.set, .get] ∧
        documentation.repeats.map Fragment.key = [.get, .get])) : Except Fault Bool)) = .ok true := by decide +kernel
  obtain ⟨documentation, success, keys⟩ := bind_eq_ok.mp evaluated
  exact ⟨isWord, ⟨documentation, success, of_decide_eq_true (Except.ok.inj keys)⟩,
    (parse_assigns_keys isWord _ gain).2.2⟩

end Documentation

end DocWeave
