import DocWeave.Manifest.Check
import DocWeave.Proofs.Manifest.Entries
import DocWeave.Proofs.Outcome

/-!
# Places of members

A method or property that is refused is looked for behind the first entry of the name of its class. In a text that
writes each name once, that is behind the class itself, unless a record in front of the class has its name.
-/

namespace DocWeave

namespace Manifest

open Text

/-- A record of a manifest, by its number among the records of its kind. -/
inductive Record where
  | module
  | function (index : Nat)
  | class (index : Nat)
  | method (owner index : Nat)
  | property (owner index : Nat)
  deriving DecidableEq

/-- The records with their names. -/
def records (manifest : Manifest) : List (Record × String) :=
  (.module, manifest.module.name)
    :: manifest.functions.mapIdx (fun index record => (.function index, record.name))
    ++ (manifest.classes.mapIdx fun owner record =>
      (.class owner, record.name)
        :: record.methods.mapIdx (fun index method => (.method owner index, method.name))
        ++ record.properties.mapIdx fun index property => (.property owner index, property.name)).flatten

/-- The manifest in which one record has another name. -/
def rename (manifest : Manifest) (word : String) : Record → Manifest
  | .module => { manifest with module := { manifest.module with name := word } }
  | .function index =>
    { manifest with functions := manifest.functions.modify index fun record => { record with name := word } }
  | .class index =>
    { manifest with classes := manifest.classes.modify index fun record => { record with name := word } }
  | .method owner index =>
    { manifest with classes := manifest.classes.modify owner fun record =>
        { record with methods := record.methods.modify index fun method => { method with name := word } } }
  | .property owner index =>
    { manifest with classes := manifest.classes.modify owner fun record =>
        { record with properties := record.properties.modify index fun property => { property with name := word } } }

/-- The text has the records of the manifest. -/
def Reads (text : String) (manifest : Manifest) : Prop :=
  (Toml.read? text).bind Decode.manifest = some manifest

end Manifest

/-- The text with other characters in place of the span. -/
def Text.Span.replace (span : Span) (word whole : List Char) : List Char :=
  takeBytes span.start whole ++ word ++ dropBytes span.stop whole

namespace Manifest

open Text

/-- Each record has its name in one entry, which stands at `place`, and these are all entries of the names. An entry
is the one of a record if another name in it is the name of this record, and nothing else changes. -/
structure WrittenOnce (text : String) (manifest : Manifest) (place : Record → Span) : Prop where
  once : ∀ named ∈ manifest.records, (entries named.2.toList 0 text.toList).Perm
    ((manifest.records.filter fun other => other.2 = named.2).map fun other => place other.1)
  own : ∀ named ∈ manifest.records, ∃ word ≠ named.2,
    Reads (String.ofList ((place named.1).replace word.toList text.toList)) (manifest.rename word named.1)

namespace Context

/-- The check stops at a member of the class `owner`, which has this number: all that comes before the member passes,
and the member does not. -/
inductive StopsAtMember (context : Context) (manifest : Manifest) (owner : ClassRecord) :
    (index : Nat) → (member : String) → Refusal → Prop
  | method {front back before method after refusal} (classes : manifest.classes = front ++ owner :: back)
      (methods : owner.methods = before ++ method :: after)
      (passes : context.checkManifest
        { manifest with classes := front ++ [{ owner with methods := before, properties := [] }] } = .ok ())
      (fails : (context.enter owner.name).checkMethod owner.name method = .error refusal) :
      StopsAtMember context manifest owner front.length method.name refusal
  | property {front back before property after refusal} (classes : manifest.classes = front ++ owner :: back)
      (properties : owner.properties = before ++ property :: after)
      (passes : context.checkManifest
        { manifest with classes := front ++ [{ owner with properties := before }] } = .ok ())
      (fails : (context.enter owner.name).checkSymbol "property" property.name = .error refusal) :
      StopsAtMember context manifest owner front.length property.name refusal

variable {context : Context} {manifest : Manifest} {owner : ClassRecord} {index : Nat} {member : String}
  {refusal : Refusal}

/-- The check of all that comes before the classes. -/
def checkFront (context : Context) (manifest : Manifest) : Except Refusal Unit :=
  context.checkManifest { manifest with classes := [] }

theorem checkManifest_eq : context.checkManifest manifest =
    context.checkFront manifest >>= fun _ => manifest.classes.forM context.checkClass := by
  simp only [checkFront, checkManifest]
  split <;> simp

theorem checkClass_eq : context.checkClass owner =
    context.checkClass { owner with methods := [], properties := [] } >>= fun _ =>
      owner.methods.forM ((context.enter owner.name).checkMethod owner.name) >>= fun _ =>
      owner.properties.forM fun property => (context.enter owner.name).checkSymbol "property" property.name := by
  simp only [checkClass]
  simp

/-- If the manifest passes with a part of a class as the last class, it is refused as soon as the whole class is. -/
theorem checkManifest_of_class {front back : List ClassRecord} {part : ClassRecord}
    (classes : manifest.classes = front ++ owner :: back)
    (passes : context.checkManifest { manifest with classes := front ++ [part] } = .ok ())
    (fails : context.checkClass part = .ok () → context.checkClass owner = .error refusal) :
    context.checkManifest manifest = .error refusal := by
  rw [checkManifest_eq, bind_eq_ok] at passes
  obtain ⟨_, begins, each⟩ := passes
  change forM (front ++ [part]) context.checkClass = .ok () at each
  rw [List.forM_append, bind_eq_ok] at each
  obtain ⟨_, earlier, last⟩ := each
  rw [checkManifest_eq, bind_eq_error]
  exact .inr ⟨(), begins, forM_eq_error.mpr
    ⟨front, owner, back, classes, earlier, fails (forM_eq_ok last part (List.mem_singleton_self part))⟩⟩

theorem checkManifest_of_stops (stops : context.StopsAtMember manifest owner index member refusal) :
    context.checkManifest manifest = .error refusal := by
  cases stops with
  | @method _ _ before method after _ classes methods passes fails =>
    refine checkManifest_of_class classes passes fun part => ?_
    rw [checkClass_eq, bind_eq_ok] at part
    obtain ⟨_, head, members⟩ := part
    obtain ⟨_, others, _⟩ := bind_eq_ok.mp members
    rw [checkClass_eq, bind_eq_error]
    exact .inr ⟨(), head, bind_eq_error.mpr (.inl (forM_eq_error.mpr ⟨before, method, after, methods, others, fails⟩))⟩
  | @property _ _ before property after _ classes properties passes fails =>
    refine checkManifest_of_class classes passes fun part => ?_
    rw [checkClass_eq, bind_eq_ok] at part
    obtain ⟨_, head, members⟩ := part
    obtain ⟨_, methods, others⟩ := bind_eq_ok.mp members
    rw [checkClass_eq, bind_eq_error]
    exact .inr ⟨(), head, bind_eq_error.mpr
      (.inr ⟨(), methods, forM_eq_error.mpr ⟨before, property, after, properties, others, fails⟩⟩)⟩

@[simp]
theorem label?_refuseAt (context : Context) (name : String) (cause : Cause) :
    (context.refuseAt name cause).label?.map Prod.snd = context.find? name := by
  simp only [refuseAt, Refusal.label?, Option.map_map]
  exact Option.map_id'

/-- The refusal of a member is marked where the search from its class finds the name of the member. -/
theorem exists_refuseAt_of_stops (stops : context.StopsAtMember manifest owner index member refusal) :
    ∃ cause, refusal = (context.enter owner.name).refuseAt member cause := by
  have symbol : ∀ kind : String, (context.enter owner.name).checkSymbol kind member = .error refusal →
      ∃ cause, refusal = (context.enter owner.name).refuseAt member cause := by
    intro kind fails
    rw [checkSymbol] at fails
    split at fails
    · cases fails
    · exact ⟨_, (Except.error.inj fails).symm⟩
  cases stops with
  | @method _ _ _ method _ _ _ _ _ fails =>
    rw [checkMethod, bind_eq_error] at fails
    rcases fails with unspellable | ⟨_, _, unreceived⟩
    · exact symbol "method" unspellable
    · split at unreceived
      · exact ⟨_, (Except.error.inj unreceived).symm⟩
      · cases unreceived
  | property _ _ _ fails => exact symbol "property" fails

theorem getElem?_of_stops (stops : context.StopsAtMember manifest owner index member refusal) :
    manifest.classes[index]? = some owner := by
  cases stops with
  | method classes | property classes => simp [classes]

end Context

variable {text fileName : String} {manifest : Manifest} {owner : ClassRecord} {index : Nat} {member : String}
  {refusal : Refusal} {place : Record → Span}

theorem class_mem_records (listed : manifest.classes[index]? = some owner) :
    (.class index, owner.name) ∈ manifest.records := by
  obtain ⟨inside, same⟩ := List.getElem?_eq_some_iff.mp listed
  rw [records, List.mem_append]
  refine .inr (List.mem_flatten.mpr ⟨_, List.mem_mapIdx.mpr ⟨index, inside, rfl⟩, ?_⟩)
  rw [same]
  exact List.mem_cons_self

/-- The place of a record is the place of its name in an entry. -/
theorem WrittenOnce.exists_entry (written : WrittenOnce text manifest place) {record : Record} {name : String}
    (listed : (record, name) ∈ manifest.records) : ∃ start, Entry text.toList name.toList start (place record) := by
  refine mem_entries.mp ((written.once (record, name) listed).mem_iff.mpr ?_)
  exact List.mem_map.mpr ⟨(record, name), List.mem_filter.mpr ⟨listed, by simp⟩, rfl⟩

/-- An entry of the name of a record is the place of a record with that name. -/
theorem WrittenOnce.exists_record (written : WrittenOnce text manifest place) {record : Record} {name : String}
    {start : Nat} {span : Span} (listed : (record, name) ∈ manifest.records)
    (entry : Entry text.toList name.toList start span) :
    ∃ other, (other, name) ∈ manifest.records ∧ place other = span := by
  have member := (written.once (record, name) listed).mem_iff.mp (mem_entries.mpr ⟨start, entry⟩)
  obtain ⟨⟨other, same⟩, found, rfl⟩ := List.mem_map.mp member
  obtain ⟨also, named⟩ := List.mem_filter.mp found
  cases of_decide_eq_true named
  exact ⟨other, also, rfl⟩

/-- A search for the name of a record passes the record, if no record of this name stands in front of it. -/
theorem WrittenOnce.stop_le (written : WrittenOnce text manifest place) {record : Record} {name : String}
    (listed : (record, name) ∈ manifest.records)
    (ahead : ∀ other, (other, name) ∈ manifest.records → (place record).start ≤ (place other).start)
    {passed : Option Span} (finds : Finds text.toList name.toList 0 passed) :
    (place record).stop ≤ (passed.map Span.stop).getD 0 := by
  obtain ⟨start, own⟩ := written.exists_entry listed
  cases finds with
  | none absent => exact absurd own (absent start _ (Nat.zero_le _))
  | some first =>
    obtain ⟨begins, _, entry, _⟩ := first
    obtain ⟨other, also, rfl⟩ := written.exists_record listed entry
    have earlier := ahead other also
    rw [Option.map_some, Option.getD_some, own.covers.ends, entry.covers.ends]
    omega

theorem parse_of_stops (reads : Reads text manifest)
    (stops : Context.StopsAtMember ⟨text, fileName, [], 0⟩ manifest owner index member refusal) :
    parse fileName text = .error refusal := by
  rw [Reads] at reads
  rw [parse, reads]
  exact bind_eq_error.mpr (.inl (Context.checkManifest_of_stops stops))

/-- The label of a refused member is the first entry of its name behind the first entry of the name of its class. In a
text that writes each name once it stands behind the class, if no record in front of the class has the name of the
class. -/
theorem member_label_behind_class (reads : Reads text manifest)
    (stops : Context.StopsAtMember ⟨text, fileName, [], 0⟩ manifest owner index member refusal) :
    parse fileName text = .error refusal ∧
    (∃ passed, Finds text.toList owner.name.toList 0 passed ∧
      Finds text.toList member.toList ((passed.map Span.stop).getD 0) (refusal.label?.map Prod.snd)) ∧
    ∀ place, WrittenOnce text manifest place →
      (∀ other, (other, owner.name) ∈ manifest.records → (place (.class index)).start ≤ (place other).start) →
      ∀ span, refusal.label?.map Prod.snd = some span → (place (.class index)).stop < span.start := by
  have root : Context.AtBoundary ⟨text, fileName, [], 0⟩ := ⟨[], text.toList, rfl, rfl⟩
  have refused := parse_of_stops reads stops
  have known := class_mem_records (Context.getElem?_of_stops stops)
  obtain ⟨cause, rfl⟩ := Context.exists_refuseAt_of_stops stops
  have passed := Context.finds_find? root owner.name
  have marked : Finds text.toList member.toList
      (((Context.find? ⟨text, fileName, [], 0⟩ owner.name).map Span.stop).getD 0)
      ((Context.enter ⟨text, fileName, [], 0⟩ owner.name).find? member) :=
    Context.finds_find? (Context.enter_keeps root owner.name).1 member
  refine ⟨refused, ⟨_, passed, ?_⟩, ?_⟩
  · rwa [Context.label?_refuseAt]
  · intro place written ahead span label
    rw [Context.label?_refuseAt] at label
    obtain ⟨start, behind, entry, _⟩ := ((finds_iff marked).1 span).mp label
    have further := written.stop_le known ahead passed
    have gap := entry.start_lt
    omega

/-- What follows the name of the module: a bulb and a lamp that glow. The lamp has no receiver. -/
def bulbsRest : String :=
  "\"
[[classes]]
name = \"Bulb\"
[[classes.methods]]
name = \"glow\"
params = 1
[[classes]]
name = \"Lamp\"
[[classes.methods]]
name = \"glow\""

def bulbsText (name : String) : String :=
  "[module]\nname = \"" ++ name ++ bulbsRest

def bulbs (name : String) : Manifest where
  module := { name }
  classes := [
    { name := "Bulb", methods := [{ name := "glow", arity := { params := 1 } }] },
    { name := "Lamp", methods := [{ name := "glow" }] }]

/-- The places of the names, if the name of the module has four letters. -/
def bulbsPlace : Record → Span
  | .module => ⟨17, 21⟩
  | .class 0 => ⟨43, 47⟩
  | .method 0 0 => ⟨77, 81⟩
  | .class 1 => ⟨114, 118⟩
  | .method 1 0 => ⟨148, 152⟩
  | _ => ⟨0, 0⟩

theorem toList_bulbsText (name : String) :
    (bulbsText name).toList = "[module]\nname = \"".toList ++ name.toList ++ bulbsRest.toList := by
  have outer := String.toList_append (s := "[module]\nname = \"" ++ name) (t := bulbsRest)
  have inner := String.toList_append (s := "[module]\nname = \"") (t := name)
  exact outer.trans (congrArg (· ++ bulbsRest.toList) inner)

theorem reads_bulbs : ∀ name ∈ ["Lamp", "glow"], Reads (bulbsText name) (bulbs name) := by
  -- The characters are taken from the literal as a whole, which is faster than decoding them.
  have characters : bulbsRest.toList = _ := (String.toList_ofList : (String.ofList _).toList = _)
  simp only [Reads, Toml.read?, toList_bulbsText, characters]
  decide +kernel

/-- Any of the names can be replaced by another word, and only the record at this place has a new name then. -/
theorem written_bulbs : ∀ name ∈ ["Lamp", "glow"], WrittenOnce (bulbsText name) (bulbs name) bulbsPlace := by
  have characters : bulbsRest.toList = _ := (String.toList_ofList : (String.ofList _).toList = _)
  have once : ∀ name ∈ ["Lamp", "glow"], ∀ named ∈ (bulbs name).records,
      (entries named.2.toList 0 (bulbsText name).toList).Perm
        (((bulbs name).records.filter fun other => other.2 = named.2).map fun other => bulbsPlace other.1) := by
    simp only [toList_bulbsText, characters]
    decide +kernel
  have own : ∀ name ∈ ["Lamp", "glow"], ∀ named ∈ (bulbs name).records, "X" ≠ named.2 ∧
      Reads (String.ofList ((bulbsPlace named.1).replace "X".toList (bulbsText name).toList))
        ((bulbs name).rename "X" named.1) := by
    simp only [Reads, Toml.read?, toList_bulbsText, characters, String.toList_ofList]
    decide +kernel
  exact fun name listed => ⟨once name listed, fun named member => ⟨"X", own name listed named member⟩⟩

/-- The glowing of the lamp is refused. -/
def bulbsRefusal (name : String) : Refusal :=
  (Context.enter ⟨bulbsText name, "quill.toml", [], 0⟩ "Lamp").refuseAt "glow" (.noReceiver "Lamp" "glow")

theorem stops_bulbs : ∀ name ∈ ["Lamp", "glow"],
    Context.StopsAtMember ⟨bulbsText name, "quill.toml", [], 0⟩ (bulbs name)
      { name := "Lamp", methods := [{ name := "glow" }] } 1 "glow" (bulbsRefusal name) := by
  intro name listed
  let bulb : ClassRecord := { name := "Bulb", methods := [{ name := "glow", arity := { params := 1 } }] }
  have classes : (bulbs name).classes = [bulb] ++ { name := "Lamp", methods := [{ name := "glow" }] } :: [] := rfl
  have passes : Context.checkManifest ⟨bulbsText name, "quill.toml", [], 0⟩
      { bulbs name with classes := [bulb] ++ [{ name := "Lamp" }] } = .ok () := by
    rcases List.mem_pair.mp listed with rfl | rfl <;> decide +kernel
  have fails : (Context.enter ⟨bulbsText name, "quill.toml", [], 0⟩ "Lamp").checkMethod "Lamp" { name := "glow" } =
      .error (bulbsRefusal name) := rfl
  exact .method classes rfl passes fails

theorem label?_bulbs : (bulbsRefusal "Lamp").label?.map Prod.snd = some (bulbsPlace (.method 0 0)) ∧
    (bulbsRefusal "glow").label?.map Prod.snd = some (bulbsPlace (.method 1 0)) := by
  have characters : bulbsRest.toList = _ := (String.toList_ofList : (String.ofList _).toList = _)
  simp only [bulbsRefusal, Context.label?_refuseAt, Context.enter, Context.find?, toList_bulbsText, characters]
  decide +kernel

/-- If the module has the name of the lamp, the glowing of the lamp is marked in the bulb, which is in front of it. -/
theorem bulbs_label_in_front : ∃ owner refusal span, Reads (bulbsText "Lamp") (bulbs "Lamp") ∧
    WrittenOnce (bulbsText "Lamp") (bulbs "Lamp") bulbsPlace ∧
    Context.StopsAtMember ⟨bulbsText "Lamp", "quill.toml", [], 0⟩ (bulbs "Lamp") owner 1 "glow" refusal ∧
    parse "quill.toml" (bulbsText "Lamp") = .error refusal ∧ refusal.label?.map Prod.snd = some span ∧
    span = bulbsPlace (.method 0 0) ∧ span.stop < (bulbsPlace (.class 1)).start := by
  have reads := reads_bulbs "Lamp" (by simp)
  have stops := stops_bulbs "Lamp" (by simp)
  exact ⟨_, _, _, reads, written_bulbs "Lamp" (by simp), stops, parse_of_stops reads stops, label?_bulbs.1, rfl,
    by decide⟩

theorem label_of_bulbs : ∃ owner refusal span, Reads (bulbsText "glow") (bulbs "glow") ∧
    Context.StopsAtMember ⟨bulbsText "glow", "quill.toml", [], 0⟩ (bulbs "glow") owner 1 "glow" refusal ∧
    WrittenOnce (bulbsText "glow") (bulbs "glow") bulbsPlace ∧
    (∀ other, (other, owner.name) ∈ (bulbs "glow").records →
      (bulbsPlace (.class 1)).start ≤ (bulbsPlace other).start) ∧
    refusal.label?.map Prod.snd = some span ∧ (bulbsPlace (.class 1)).stop < span.start := by
  have reads := reads_bulbs "glow" (by simp)
  have stops := stops_bulbs "glow" (by simp)
  have written := written_bulbs "glow" (by simp)
  have ahead : ∀ other, (other, "Lamp") ∈ (bulbs "glow").records →
      (bulbsPlace (.class 1)).start ≤ (bulbsPlace other).start := by
    have each : ∀ named ∈ (bulbs "glow").records, named.2 = "Lamp" →
        (bulbsPlace (.class 1)).start ≤ (bulbsPlace named.1).start := by decide +kernel
    exact fun other listed => each (other, "Lamp") listed rfl
  have behind := (member_label_behind_class reads stops).2.2 bulbsPlace written ahead _ label?_bulbs.2
  exact ⟨_, _, _, reads, stops, written, ahead, label?_bulbs.2, behind⟩

end Manifest

end DocWeave
