import DocWeave.Code.StructTable

/-!
# The fields of initialized structs

A field holds the last value that was assigned to it. Where all assignments to the field agree, that is any of
them.
-/

namespace DocWeave.Code.StructTable

/-- The fields with their values. -/
def rows (table : StructTable) : List (Field × String) :=
  table.fields.map fun field => (field, table.value field)

/-- One of the rows gives a field of this name the value. -/
def Gives (rows : List (Field × String)) (name value : String) : Prop :=
  ∃ field, (field, value) ∈ rows ∧ field.name = name

theorem setAll_eq (table : StructTable) (values : List (String × String)) :
    table.setAll values = { table with assigned := values.reverse ++ table.assigned } := by
  induction values generalizing table with
  | nil => rfl
  | cons entry rest ih =>
    rw [setAll, List.foldl_cons, ← setAll, ih, set, List.reverse_cons, List.append_assoc]
    rfl

@[simp]
theorem type_setAll (table : StructTable) (values : List (String × String)) :
    (table.setAll values).type = table.type := by
  rw [setAll_eq]

@[simp]
theorem name_setAll (table : StructTable) (values : List (String × String)) :
    (table.setAll values).name = table.name := by
  rw [setAll_eq]

@[simp]
theorem fields_setAll (table : StructTable) (values : List (String × String)) :
    (table.setAll values).fields = table.fields := by
  rw [setAll_eq]

@[simp]
theorem storage_setAll (table : StructTable) (values : List (String × String)) :
    (table.setAll values).storage = table.storage := by
  rw [setAll_eq]

@[simp]
theorem head_setAll (table : StructTable) (values : List (String × String)) :
    (table.setAll values).head = table.head := by
  rw [setAll_eq]

theorem lookup_eq_of_agree {values : List (String × String)} {name value : String}
    (given : (name, value) ∈ values) (agree : ∀ other, (name, other) ∈ values → other = value) :
    values.lookup name = some value := by
  induction values with
  | nil => cases given
  | cons entry rest ih =>
    obtain ⟨key, found⟩ := entry
    by_cases same : key = name
    · rw [same, List.lookup_cons_self, agree found (same ▸ List.mem_cons_self)]
    · have different : (name == key) = false := by simpa using Ne.symm same
      rw [List.lookup_cons, different]
      refine ih ?_ fun other member => agree other (List.mem_cons_of_mem _ member)
      rcases List.mem_cons.mp given with first | later
      · exact absurd (congrArg Prod.fst first).symm same
      · exact later

theorem lookup_eq_none {values : List (String × String)} {name : String}
    (free : ∀ value, (name, value) ∉ values) : values.lookup name = none := by
  rw [List.lookup_eq_none_iff]
  intro entry member
  have different : entry.1 ≠ name := by
    rintro rfl
    exact free entry.2 member
  simpa using Ne.symm different

variable {table : StructTable} {values : List (String × String)}

theorem value_setAll (fresh : table.assigned = []) {field : Field} {value : String}
    (given : (field.name, value) ∈ values) (agree : ∀ other, (field.name, other) ∈ values → other = value) :
    (table.setAll values).value field = value := by
  have found : values.reverse.lookup field.name = some value :=
    lookup_eq_of_agree (List.mem_reverse.mpr given) fun other member => agree other (List.mem_reverse.mp member)
  rw [StructTable.value, setAll_eq, fresh, List.append_nil, found]
  rfl

theorem value_setAll_of_free (fresh : table.assigned = []) {field : Field}
    (free : ∀ value, (field.name, value) ∉ values) : (table.setAll values).value field = field.zero := by
  have missing : values.reverse.lookup field.name = none :=
    lookup_eq_none fun value member => free value (List.mem_reverse.mp member)
  rw [StructTable.value, setAll_eq, fresh, List.append_nil, missing]
  rfl

theorem mem_rows {field : Field} {value : String} :
    (field, value) ∈ table.rows ↔ field ∈ table.fields ∧ table.value field = value := by
  rw [rows, List.mem_map]
  constructor
  · rintro ⟨other, listed, same⟩
    cases same
    exact ⟨listed, rfl⟩
  · rintro ⟨listed, rfl⟩
    exact ⟨field, listed, rfl⟩

@[simp]
theorem map_fst_rows (table : StructTable) : table.rows.map Prod.fst = table.fields := by
  rw [rows, List.map_map]
  exact List.map_id _

/-- An assignment to a field of the struct counts, if those to the same field agree. -/
theorem gives_setAll (fresh : table.assigned = []) {name value : String}
    (known : name ∈ table.fields.map Field.name) (given : (name, value) ∈ values)
    (agree : ∀ other, (name, other) ∈ values → other = value) : Gives (table.setAll values).rows name value := by
  obtain ⟨field, listed, rfl⟩ := List.mem_map.mp known
  exact ⟨field, mem_rows.mpr ⟨by rwa [fields_setAll], value_setAll fresh given agree⟩, rfl⟩

/-- A pointer without assignment is `NULL`. -/
theorem gives_null (fresh : table.assigned = []) {field : Field} (known : field ∈ table.fields)
    (pointer : field.zero = "NULL") (free : ∀ value, (field.name, value) ∉ values) :
    Gives (table.setAll values).rows field.name "NULL" :=
  ⟨field, mem_rows.mpr ⟨by rwa [fields_setAll], pointer ▸ value_setAll_of_free fresh free⟩, rfl⟩

end DocWeave.Code.StructTable
