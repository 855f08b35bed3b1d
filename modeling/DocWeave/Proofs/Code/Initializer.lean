import DocWeave.Proofs.Code.StructTable
import DocWeave.Proofs.Text.Columns
import Mathlib.Data.List.Basic

/-!
# The lines of initialized structs

A table is written with one line for each field, in the order of the fields and not of the calls that gave them their
values. Only the last value of a field is seen, and names of any script are filled up so that the types stand below
each other, and so do the values.
-/

namespace DocWeave.Code.StructTable

open DocWeave.Text

/-! ### Calls -/

/-- A call that gives fields their values. -/
inductive Call where
  | set (field value : String)
  | setAll (values : List (String × String))

/-- The fields that a call names and their values, in order. -/
def Call.entries : Call → List (String × String)
  | .set field value => [(field, value)]
  | .setAll values => values

def perform (table : StructTable) : Call → StructTable
  | .set field value => table.set field value
  | .setAll values => table.setAll values

def performAll (table : StructTable) (calls : List Call) : StructTable :=
  calls.foldl perform table

theorem perform_eq (table : StructTable) (call : Call) : table.perform call = table.setAll call.entries := by
  cases call <;> rfl

theorem setAll_append (table : StructTable) (values others : List (String × String)) :
    table.setAll (values ++ others) = (table.setAll values).setAll others :=
  List.foldl_append

theorem performAll_eq (table : StructTable) (calls : List Call) :
    table.performAll calls = table.setAll (calls.flatMap Call.entries) := by
  induction calls generalizing table with
  | nil => rfl
  | cons call rest ih =>
    rw [performAll, List.foldl_cons, ← performAll, ih, perform_eq, List.flatMap_cons, setAll_append]

/-! ### Values -/

/-- The value that a field has after some assignments: the last one to this field, or else its zero. -/
inductive Holds (entries : List (String × String)) (field : Field) : String → Prop
  | given {before after : List (String × String)} {value : String}
      (split : entries = before ++ (field.name, value) :: after) (last : ∀ other, (field.name, other) ∉ after) :
      Holds entries field value
  | zero (free : ∀ value, (field.name, value) ∉ entries) : Holds entries field field.zero

/-- The assignments to one field. -/
def assignments (name : String) (entries : List (String × String)) : List (String × String) :=
  entries.filter (·.1 = name)

theorem lookup_reverse (name : String) (entries : List (String × String)) :
    entries.reverse.lookup name = (assignments name entries).reverse.head?.map Prod.snd := by
  rw [assignments, ← List.filter_reverse]
  induction entries.reverse with
  | nil => rfl
  | cons entry rest ih =>
    by_cases same : entry.1 = name
    · rw [List.filter_cons_of_pos (by simpa using same), ← same]
      exact List.lookup_cons_self
    · have different : (name == entry.1) = false := by simpa using Ne.symm same
      rw [List.filter_cons_of_neg (by simpa using same), ← ih, List.lookup_cons, different]

theorem value_of_fresh {table : StructTable} (fresh : table.assigned = []) (entries : List (String × String))
    (field : Field) : (table.setAll entries).value field = (entries.reverse.lookup field.name).getD field.zero := by
  rw [StructTable.value, setAll_eq, fresh, List.append_nil]

theorem holds_value {table : StructTable} (fresh : table.assigned = []) (entries : List (String × String))
    (field : Field) : Holds entries field ((table.setAll entries).value field) := by
  rw [value_of_fresh fresh]
  cases found : entries.reverse.lookup field.name with
  | none =>
    refine .zero fun value member => ?_
    have other := List.lookup_eq_none_iff.mp found _ (List.mem_reverse.mpr member)
    simp at other
  | some value =>
    obtain ⟨after, before, split, last⟩ := List.lookup_eq_some_iff.mp found
    have reversed : entries = before.reverse ++ (field.name, value) :: after.reverse := by
      rw [← List.reverse_reverse entries, split, List.reverse_append, List.reverse_cons, List.append_assoc,
        List.singleton_append]
    refine .given reversed fun other member => ?_
    have different := last _ (List.mem_reverse.mp member)
    simp at different

theorem Holds.whole {entries : List (String × String)} {field : Field} {value : String}
    (holds : Holds entries field value) (each : ∀ entry ∈ entries, '\n' ∉ entry.2.toList) : '\n' ∉ value.toList := by
  cases holds with
  | given split _ => exact each (field.name, value) (by simp [split])
  | zero free =>
    unfold Field.zero
    split <;> decide

/-- Tables of the same fields have the same text if they give each field the same values in the same order. -/
theorem render_congr {table : StructTable} (fresh : table.assigned = []) {entries others : List (String × String)}
    (same : ∀ field ∈ table.fields, assignments field.name entries = assignments field.name others) :
    (table.setAll entries).render = (table.setAll others).render := by
  have values : ∀ field ∈ table.fields,
      (table.setAll entries).fieldLine field = (table.setAll others).fieldLine field := by
    intro field member
    have value : (table.setAll entries).value field = (table.setAll others).value field := by
      rw [value_of_fresh fresh, value_of_fresh fresh, lookup_reverse, lookup_reverse, same field member]
    simp only [fieldLine, value, nameWidth, typeWidth, fields_setAll]
  have rows := List.map_congr_left values
  rw [render, render, lines, lines]
  simp only [setAll_eq] at rows ⊢
  rw [rows]

/-! ### Columns -/

/-- Some spaces. -/
def gap (n : Nat) : String :=
  String.ofList (spaces n)

/-- The line of a field: its name in a comment, its type as a cast that begins at a column, and its value in
parentheses, which begins at another. -/
structure Row (castColumn valueColumn : Nat) (field : Field) (value : String) (closing line : String) : Prop where
  text : ∃ n m, line = "    /* " ++ field.name ++ " */" ++ gap (n + 1) ++ "(" ++ field.type ++ ")" ++ gap (m + 1) ++ "("
      ++ value ++ ")" ++ closing ∧
    ("    /* " ++ field.name ++ " */" ++ gap (n + 1)).length = castColumn ∧
    ("    /* " ++ field.name ++ " */" ++ gap (n + 1) ++ "(" ++ field.type ++ ")" ++ gap (m + 1) ++ "(").length =
      valueColumn

theorem length_gap (n : Nat) : (gap n).length = n := by
  simp [gap, spaces]

theorem gap_succ (n : Nat) : gap (n + 1) = gap n ++ " " := by
  apply String.toList_inj.mp
  simp [gap, spaces, List.replicate_succ']

theorem pushn_eq_append (s : String) (n : Nat) : s.pushn ' ' n = s ++ gap n := by
  rw [String.pushn_eq_repeat_push]
  induction n with
  | zero => simp [Nat.repeat, gap, spaces]
  | succ n ih =>
    rw [Nat.repeat, ih, gap_succ, ← String.append_assoc]
    rfl

theorem pad_eq (width : Nat) (s : String) : pad width s = s ++ gap (width - s.length) :=
  pushn_eq_append s _

/-- No character takes less than one byte. -/
theorem length_le_utf8ByteSize (s : String) : s.length ≤ s.utf8ByteSize := by
  induction s using String.push_induction with
  | empty => exact Nat.zero_le _
  | push s c ih =>
    rw [String.length_push, String.utf8ByteSize_push]
    exact Nat.add_le_add ih c.utf8Size_pos

/-- The widest of some texts is at least as wide as each of them. -/
theorem length_add_le {fields : List Field} {field : Field} (part : Field → String) (member : field ∈ fields)
    (n : Nat) :
    (part field).length + n ≤ (fields.map fun other => (part other).utf8ByteSize).max?.getD 0 + n := by
  have listed : (part field).utf8ByteSize ∈ fields.map fun other => (part other).utf8ByteSize :=
    List.mem_map.mpr ⟨field, member, rfl⟩
  cases largest : (fields.map fun other => (part other).utf8ByteSize).max? with
  | none => simp [List.max?_eq_none_iff.mp largest] at listed
  | some widest =>
    have inside := (List.max?_eq_some_iff.mp largest).2 _ listed
    exact Nat.add_le_add_right ((length_le_utf8ByteSize _).trans inside) n

theorem length_enclosed (front s back : String) :
    (front ++ s ++ back).length = s.length + (front.length + back.length) := by
  rw [String.length_append, String.length_append]
  omega

theorem row_fieldLine {table : StructTable} {field : Field} (member : field ∈ table.fields) (closing : String) :
    Row (table.nameWidth + 5) (table.nameWidth + table.typeWidth + 7) field (table.value field) closing
      (table.fieldLine field ++ closing) where
  text := by
    have name : field.name.length + 6 ≤ table.nameWidth := length_add_le Field.name member 6
    have type : field.type.length + 2 ≤ table.typeWidth := length_add_le Field.type member 2
    have nameSize : ("/* " ++ field.name ++ " */").length = field.name.length + 6 := length_enclosed _ _ _
    have typeSize : ("(" ++ field.type ++ ")").length = field.type.length + 2 := length_enclosed _ _ _
    have castSize : ("    /* " ++ field.name ++ " */").length = field.name.length + 10 := length_enclosed _ _ _
    refine ⟨table.nameWidth - (field.name.length + 6), table.typeWidth - (field.type.length + 2), ?_, ?_, ?_⟩
    · have lead : "    /* " = "    " ++ "/* " := rfl
      have opening : " (" = " " ++ "(" := rfl
      rw [fieldLine, pad_eq, pad_eq, nameSize, typeSize, gap_succ, gap_succ, lead, opening]
      simp only [String.append_assoc]
    · rw [String.length_append, castSize, length_gap]
      omega
    · have bracket : "(".length = 1 := rfl
      rw [String.length_append, String.length_append, String.append_assoc, String.append_assoc, String.length_append,
        ← String.append_assoc, String.length_append, castSize, typeSize, length_gap, length_gap, bracket]
      omega

/-! ### Lines -/

/-- The lines in front of the fields: what is initialized, the opening brace and the head. -/
def heading (table : StructTable) : List String :=
  [table.storage.elim "" (· ++ " ") ++ table.type ++ " " ++ table.name ++ " =", "\x7b"]
    ++ table.head.toList.map ("    " ++ ·)

def closing (table : StructTable) : String :=
  "\x7d; /* " ++ table.name ++ " */"

theorem lines_eq (table : StructTable) :
    table.lines = table.heading ++ withCommas (table.fields.map table.fieldLine) ++ [table.closing] := by
  cases storage : table.storage <;> simp [lines, heading, closing, storage]

/-- What stands behind the line in one place of a list: a comma, but for the last line. -/
def comma (size place : Nat) : String :=
  if place + 1 = size then "" else ","

theorem length_withCommas (ls : List String) : (withCommas ls).length = ls.length := by
  induction ls with
  | nil => rfl
  | cons line rest ih =>
    cases rest with
    | nil => rfl
    | cons next others =>
      rw [withCommas, List.length_cons, ih]
      · rfl
      · exact List.cons_ne_nil next others

theorem getElem?_withCommas (ls : List String) (place : Nat) :
    (withCommas ls)[place]? = ls[place]?.map (· ++ comma ls.length place) := by
  induction ls generalizing place with
  | nil => rfl
  | cons line rest ih =>
    cases rest with
    | nil => cases place <;> simp [withCommas, comma]
    | cons next others =>
      cases place with
      | zero => simp [withCommas, comma]
      | succ place =>
        rw [withCommas, List.getElem?_cons_succ, ih, List.getElem?_cons_succ]
        · simp [comma]
        · simp

theorem Row.whole {castColumn valueColumn : Nat} {field : Field} {value closing line : String}
    (row : Row castColumn valueColumn field value closing line) (name : '\n' ∉ field.name.toList)
    (type : '\n' ∉ field.type.toList) (held : '\n' ∉ value.toList) (ends : '\n' ∉ closing.toList) :
    '\n' ∉ line.toList := by
  obtain ⟨n, m, rfl, _, _⟩ := row.text
  simp [gap, newline_not_mem_spaces, name, type, held, ends]

/-- The lines of the fields of a table, in order. -/
structure Rows (fields : List Field) (entries : List (String × String)) (rows : List String) : Prop where
  length : rows.length = fields.length
  aligned : ∃ castColumn valueColumn, ∀ place field row, fields[place]? = some field → rows[place]? = some row →
    ∃ value, Holds entries field value ∧ Row castColumn valueColumn field value (comma fields.length place) row

theorem rows_withCommas {table : StructTable} (fresh : table.assigned = []) (entries : List (String × String)) :
    Rows table.fields entries (withCommas (table.fields.map (table.setAll entries).fieldLine)) where
  length := by rw [length_withCommas, List.length_map]
  aligned := by
    refine ⟨(table.setAll entries).nameWidth + 5,
      (table.setAll entries).nameWidth + (table.setAll entries).typeWidth + 7, fun place field row known listed => ?_⟩
    rw [getElem?_withCommas, List.getElem?_map, known, List.length_map] at listed
    obtain rfl := Option.some.inj listed
    exact ⟨_, holds_value fresh entries field, row_fieldLine (by simpa using List.mem_of_getElem? known) _⟩

theorem Rows.whole {fields : List Field} {entries : List (String × String)} {rows : List String}
    (laid : Rows fields entries rows) (plain : ∀ field ∈ fields, '\n' ∉ field.name.toList ∧ '\n' ∉ field.type.toList)
    (each : ∀ entry ∈ entries, '\n' ∉ entry.2.toList) : ∀ row ∈ rows, '\n' ∉ row.toList := by
  intro row member
  obtain ⟨castColumn, valueColumn, aligned⟩ := laid.aligned
  obtain ⟨place, bound, listed⟩ := List.mem_iff_getElem.mp member
  have known := List.getElem?_eq_getElem (laid.length ▸ bound : place < fields.length)
  obtain ⟨value, holds, row⟩ := aligned place _ row known (by rw [List.getElem?_eq_getElem bound, listed])
  obtain ⟨name, type⟩ := plain _ (List.mem_of_getElem? known)
  refine row.whole name type (holds.whole each) ?_
  unfold comma
  split <;> decide

/-- A rendered table: its heading, a line for each field, and the closing line. -/
def Laid (table : StructTable) (entries : List (String × String)) (text : String) : Prop :=
  ∃ rows, Rows table.fields entries rows ∧
    Text.lines text.toList = table.heading.flatMap (Text.lines ·.toList) ++ rows.map String.toList
      ++ Text.lines table.closing.toList

theorem laid_render {table : StructTable} (fresh : table.assigned = []) {entries : List (String × String)}
    (plain : ∀ field ∈ table.fields, '\n' ∉ field.name.toList ∧ '\n' ∉ field.type.toList)
    (each : ∀ entry ∈ entries, '\n' ∉ entry.2.toList) : table.Laid entries (table.setAll entries).render := by
  have rows := rows_withCommas fresh entries
  refine ⟨_, rows, ?_⟩
  have single : (withCommas (table.fields.map (table.setAll entries).fieldLine)).flatMap (Text.lines ·.toList) =
      (withCommas (table.fields.map (table.setAll entries).fieldLine)).map String.toList :=
    (List.flatMap_congr fun row member => lines_of_not_mem (rows.whole plain each row member)).trans
      List.map_eq_flatMap.symm
  have heading : (table.setAll entries).heading = table.heading := by rw [setAll_eq]; rfl
  have closing : (table.setAll entries).closing = table.closing := by rw [setAll_eq]; rfl
  have joined : (table.setAll entries).render.toList = joinLines ((table.setAll entries).lines.map String.toList) := by
    rw [render, String.toList_intercalate]
    rfl
  rw [joined, lines_joinTexts (by simp [lines_eq, heading]), List.flatMap_map, lines_eq, heading, closing,
    fields_setAll]
  simp only [List.flatMap_append, List.flatMap_singleton, single]

/-- A table is rendered with one line for each field, whatever calls have given the fields their values. Values of
fields that the table does not have change nothing, and neither does another order of the calls, if it keeps the order
of those to the same field. -/
theorem render_lays_out {type name : String} {storage head : Option String} {fields : List Field} {calls : List Call}
    (plain : ∀ field ∈ fields, '\n' ∉ field.name.toList ∧ '\n' ∉ field.type.toList)
    (each : ∀ call ∈ calls, ∀ entry ∈ call.entries, '\n' ∉ entry.2.toList) :
    let table : StructTable := { type, name, fields, storage, head }
    table.Laid (calls.flatMap Call.entries) (table.performAll calls).render ∧
      (table.performAll calls).render =
        (table.setAll ((calls.flatMap Call.entries).filter (·.1 ∈ fields.map Field.name))).render ∧
      ∀ others : List Call, (∀ field, assignments field (calls.flatMap Call.entries) =
        assignments field (others.flatMap Call.entries)) →
          (table.performAll calls).render = (table.performAll others).render := by
  intro table
  have fresh : table.assigned = [] := rfl
  simp only [performAll_eq]
  refine ⟨laid_render fresh plain ?_, render_congr fresh ?_, fun others same =>
    render_congr fresh fun field _ => same field.name⟩
  · intro entry member
    obtain ⟨call, made, inside⟩ := List.mem_flatMap.mp member
    exact each call made entry inside
  · intro field member
    rw [assignments, assignments, List.filter_filter]
    refine List.filter_congr fun entry _ => ?_
    by_cases same : entry.1 = field.name
    · have known : entry.1 ∈ fields.map Field.name := same ▸ List.mem_map_of_mem member
      simp [same, same ▸ known]
    · simp [same]

/-- A struct with a name that has more bytes than characters. -/
def dial : StructTable where
  type := "Slots"
  name := "dial"
  fields := [⟨"größe", "Py_ssize_t"⟩, ⟨"repr", "reprfunc"⟩, ⟨"next", "long"⟩]

def dialCalls : List Call :=
  [.set "repr" "dial_repr", .setAll [("größe", "8"), ("lost", "x")], .set "größe" "16"]

/-- The same calls, but for the order of those to different fields. -/
def dialReordered : List Call :=
  [.setAll [("größe", "8"), ("größe", "16")], .set "lost" "x", .set "repr" "dial_repr"]

def dialText : String :=
  "static Slots dial =\n\x7b\n    /* größe */   (Py_ssize_t) (16),\n    /* repr */    (reprfunc)   (dial_repr),\n"
    ++ "    /* next */    (long)       (0)\n\x7d; /* dial */"

theorem dial_laid :
    (∀ field ∈ dial.fields, '\n' ∉ field.name.toList ∧ '\n' ∉ field.type.toList) ∧
    (∀ call ∈ dialCalls, ∀ entry ∈ call.entries, '\n' ∉ entry.2.toList) ∧
    dial.Laid (dialCalls.flatMap Call.entries) dialText ∧
    (dial.performAll dialCalls).render = dialText ∧ (dial.performAll dialReordered).render = dialText := by
  have plain : ∀ field ∈ dial.fields, '\n' ∉ field.name.toList ∧ '\n' ∉ field.type.toList := by decide +kernel
  have each : ∀ call ∈ dialCalls, ∀ entry ∈ call.entries, '\n' ∉ entry.2.toList := by decide +kernel
  have text : (dial.performAll dialCalls).render = dialText := by decide +kernel
  obtain ⟨laid, _, reordered⟩ := @render_lays_out "Slots" "dial" (some "static") none dial.fields dialCalls plain each
  have same : ∀ field, assignments field (dialCalls.flatMap Call.entries) =
      assignments field (dialReordered.flatMap Call.entries) := by
    intro field
    by_cases size : "größe" = field
    · subst size
      rfl
    · by_cases shown : "repr" = field
      · subst shown
        rfl
      · simp [assignments, dialCalls, dialReordered, Call.entries, List.filter_cons, size, shown]
  exact ⟨plain, each, text ▸ laid, text, (reordered dialReordered same).symm.trans text⟩

end DocWeave.Code.StructTable
