import DocWeave.Text.Span

/-!
# Places of a text in another

A span that begins where a text stands and is as long as the text selects exactly this text.
-/

namespace DocWeave.Text

/-- `part` stands in `whole` from byte `start` on. -/
def OccursAt (whole : List Char) (start : Nat) (part : List Char) : Prop :=
  ∃ before after, whole = before ++ part ++ after ∧ byteLength before = start

/-- The span lies in the text and selects `part`. -/
structure Span.Selects (span : Span) (whole part : List Char) : Prop where
  inside : span.stop ≤ byteLength whole
  sub : span.sub whole = part

/-- The span begins where `part` stands and ends with it. -/
structure Span.Covers (span : Span) (whole part : List Char) : Prop where
  begins : OccursAt whole span.start part
  ends : span.stop = span.start + byteLength part

theorem OccursAt.trans {whole part piece : List Char} {start offset : Nat}
    (outer : OccursAt whole start part) (inner : OccursAt part offset piece) :
    OccursAt whole (start + offset) piece := by
  obtain ⟨before, after, rfl, rfl⟩ := outer
  obtain ⟨front, back, rfl, rfl⟩ := inner
  exact ⟨before ++ front, back ++ after, by simp, by simp⟩

theorem Span.Covers.selects {span : Span} {whole part : List Char} (covers : span.Covers whole part) :
    span.Selects whole part := by
  obtain ⟨before, after, rfl, size⟩ := covers.begins
  constructor
  · simp only [covers.ends, ← size, byteLength_append]
    omega
  · have selected := Span.sub_append before part after
    rwa [size, ← covers.ends] at selected

theorem Span.Covers.shift {span : Span} {whole part piece : List Char} {offset : Nat}
    (outer : OccursAt whole offset part) (inner : span.Covers part piece) :
    (span.shift offset).Covers whole piece := by
  constructor
  · exact outer.trans inner.begins
  · simp only [Span.shift, inner.ends]
    omega

end DocWeave.Text
