import DocWeave.Proofs.Render.References

/-!
# The text of the tables of an implementation

The part of an array lists its rows, the part of a struct initializes its fields, and the part of a comparison holds a
line for every method that compares.
-/

namespace DocWeave.Render

open Code Extension Step StructTable Text

variable {context : Context}

/-! ### Arrays -/

theorem lists_of_written {part : Part} {type symbol last : String} {rows : List String} (inner : part.depth = 1)
    (written : part.written context = arrayTable type symbol rows last) (filled : ∀ row ∈ rows, row ≠ "")
    (closed : last ≠ "") : Lists context type symbol rows last (part.text context) := by
  have all : ∀ row ∈ rows ++ [last], row ≠ "" := List.forall_mem_append.mpr ⟨filled, by simpa using closed⟩
  rw [Lists, Part.text, written, inner, arrayTable, toList_outputAll_line _ _ _ (by simp),
    toList_outputAll_line _ _ _ (by simp), toList_outputAll_indented, toList_outputAll_lines _ _ all,
    toList_outputAll_line _ _ _ (by simp), toList_outputAll_blank]
  simp [sheet, Indent.enter, outputAll]

theorem methodRow_ne_empty {name symbol description : String} {convention : Convention} :
    methodRow name symbol convention description ≠ "" :=
  append_ne_empty (by decide)

theorem accessorRow_ne_empty {symbols : ClassSymbols} {property : Entity.Property} :
    accessorRow symbols property ≠ "" :=
  append_ne_empty (by decide)

/-! ### Structs -/

theorem distinct_layout (slots : SlotTable) : (slots.layout.map Field.name).Nodup := by
  cases slots <;> decide +kernel

theorem distinct_moduleDef : (Layout.moduleDef.map Field.name).Nodup := by
  decide +kernel

theorem unset_zero (field : Field) : Unset (field, field.zero) := by
  unfold Field.zero
  split
  · rename_i whole
    exact .integer (List.contains_iff_mem.mp whole)
  · rename_i other
    exact .pointer fun whole => other (List.contains_iff_mem.mpr whole)

theorem ink_outputAll_text (tabWidth : Nat) (indent : Indent) (s : String) :
    ink (outputAll tabWidth indent [.text s, .blank]).toList = ink s.toList := by
  have blank : ink ("\n" ++ "").toList = [] := by decide
  rw [outputAll, outputAll, output, output, outputAll, String.toList_append, ink_append, blank, List.append_nil]
  exact ink_eq_of_gist_eq (gist_blockText indent tabWidth s)

theorem initializes_setAll {part : Part} (table : StructTable) {values : List (String × String)} {opening : String}
    (written : part.written context = [.text (table.setAll values).render, .blank])
    (opens : table.storage.elim "" (· ++ " ") ++ table.type = opening)
    (distinct : (table.fields.map Field.name).Nodup) :
    Initializes opening table.name (table.head.getD "") table.fields (table.setAll values).rows
      (part.text context) where
  fields := by rw [map_fst_rows, fields_setAll]
  distinct := by
    have names := List.map_map (f := Prod.fst) (g := Field.name) (l := (table.setAll values).rows)
    rw [map_fst_rows, fields_setAll] at names
    rwa [names] at distinct
  printed := by
    rw [Part.text, written, ink_outputAll_text, ink_render, storage_setAll, type_setAll, name_setAll, head_setAll,
      opens]

/-! ### Comparisons -/

theorem text_comparison_of_nil {self : Entity.Class} (empty : compareMethods self = []) :
    (Part.comparison self).text context = "" := by
  have written : (Part.comparison self).written context = [] := by
    change compareDefinition (classSymbols context self) self = []
    simp [compareDefinition, empty]
  rw [Part.text, written, outputAll]

/-- The lines of the methods that compare. -/
def compareLines (context : Context) (self : Entity.Class) : List String :=
  (compareMethods self).map fun entry =>
    "case " ++ entry.1 ++ ": return " ++ (classSymbols context self).method entry.2.name ++ "(self, arg1, arg2);"

theorem toList_text_comparison {self : Entity.Class} (present : compareMethods self ≠ []) :
    ((Part.comparison self).text context).toList = sheet context.options.indentWidth
      ([(1, compareHead (classSymbols context self)), (1, "\x7b"), (2, "switch (arg2)"), (2, "\x7b")]
        ++ (compareLines context self).map (3, ·)
        ++ [(3, "default: Py_RETURN_NOTIMPLEMENTED;"), (2, "\x7d"), (1, "\x7d"), (0, "")]) := by
  have written : (Part.comparison self).written context =
      [.line (compareHead (classSymbols context self)), .line "\x7b",
        .indented [.line "switch (arg2)", .line "\x7b",
          .indented ((compareLines context self ++ ["default: Py_RETURN_NOTIMPLEMENTED;"]).map .line), .line "\x7d"],
        .line "\x7d", .blank] := by
    change compareDefinition (classSymbols context self) self = _
    simp [compareDefinition, compareHead, compareLines, present, Function.comp_def]
  have filled : ∀ line ∈ compareLines context self ++ ["default: Py_RETURN_NOTIMPLEMENTED;"], line ≠ "" := by
    refine List.forall_mem_append.mpr ⟨List.forall_mem_map.mpr fun entry _ => ?_, by simp⟩
    simp
  rw [Part.text, written, toList_outputAll_line _ _ _ (by simp [compareHead]), toList_outputAll_line _ _ _ (by simp),
    toList_outputAll_indented, toList_outputAll_line _ _ _ (by simp), toList_outputAll_line _ _ _ (by simp),
    toList_outputAll_indented, toList_outputAll_lines _ _ filled, toList_outputAll_line _ _ _ (by simp),
    toList_outputAll_line _ _ _ (by simp), toList_outputAll_blank]
  simp [sheet, Indent.enter, outputAll, Part.depth]

end DocWeave.Render
