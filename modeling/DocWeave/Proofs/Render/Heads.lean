import DocWeave.Proofs.Render.References

/-!
# What an implementation defines is referred to

Only functions, methods and accessors are blocks, and only those of something included are among the parts.
-/

namespace DocWeave.Render

open Code Step

variable {context : Context} {steps more : List Step}

@[simp]
theorem allHeads_nil : allHeads [] = [] := by
  rw [allHeads]

@[simp]
theorem allHeads_cons {step : Step} : allHeads (step :: steps) = heads step ++ allHeads steps := by
  rw [allHeads]

@[simp]
theorem allHeads_append : allHeads (steps ++ more) = allHeads steps ++ allHeads more := by
  induction steps with
  | nil => simp
  | cons step rest ih => rw [List.cons_append, allHeads_cons, allHeads_cons, ih, List.append_assoc]

theorem allHeads_eq_nil (headless : ∀ step ∈ steps, heads step = []) : allHeads steps = [] := by
  induction steps with
  | nil => exact allHeads_nil
  | cons step rest ih =>
    obtain ⟨own, others⟩ := List.forall_mem_cons.mp headless
    rw [allHeads_cons, own, ih others, List.append_nil]

@[simp]
theorem heads_line (s : String) : heads (.line s) = [] := by
  rw [heads] <;> simp

@[simp]
theorem heads_text (s : String) : heads (.text s) = [] := by
  rw [heads] <;> simp

@[simp]
theorem heads_blank : heads .blank = [] := by
  rw [heads] <;> simp

@[simp]
theorem heads_indented (body : List Step) : heads (.indented body) = allHeads body := by
  rw [heads]

@[simp]
theorem heads_block (head close : String) (body : List Step) :
    heads (.block head close body) = head :: allHeads body := by
  rw [heads]

@[simp]
theorem allHeads_lines (lines : List String) : allHeads (lines.map Step.line) = [] :=
  allHeads_eq_nil fun step member => by
    obtain ⟨s, _, rfl⟩ := List.mem_map.mp member
    exact heads_line s

@[simp]
theorem allHeads_docLine (symbol description : String) : allHeads (docLine symbol description) = [] := by
  unfold docLine
  split <;> simp

@[simp]
theorem allHeads_arrayTable (type symbol : String) (rows : List String) (last : String) :
    allHeads (arrayTable type symbol rows last) = [] := by
  simp [arrayTable]

@[simp]
theorem allHeads_slotStruct (type symbol : String) (fields : List Field) (values : List (String × String)) :
    allHeads (slotStruct type symbol fields values) = [] := by
  unfold slotStruct
  split <;> simp

@[simp]
theorem allHeads_compareDefinition (symbols : Extension.ClassSymbols) (self : Entity.Class) :
    allHeads (compareDefinition symbols self) = [] := by
  unfold compareDefinition
  dsimp only
  split
  · simp
  · have cases := allHeads_lines ((compareMethods self).map fun entry =>
      "case " ++ entry.1 ++ ": return " ++ symbols.method entry.2.name ++ "(self, arg1, arg2);")
    rw [List.map_map] at cases
    simpa [Function.comp_def] using cases

@[simp]
theorem allHeads_documented (position : Position) (symbol description : String) (code : List Step) :
    allHeads (documented position symbol description code) = allHeads code := by
  simp [documented, positionLine]

theorem eq_of_mem_code {head other : String} {site : Fragment → Tag.Site} {fragment? : Option Fragment}
    (code : CodeOf context head site fragment? steps) (member : other ∈ allHeads steps) : other = head := by
  cases code with
  | missing => simp at member
  | given expanded => simpa using member

/-- The parts that define functions by blocks are about something included. -/
theorem included_of_mem_parts {graph : Graph} {part : Part} (member : part ∈ parts graph) :
    match part with
    | .function entity => entity ∈ graph.includedFunctions
    | .method self method => self ∈ graph.includedClasses ∧ method ∈ self.includedMethods
    | .property self property => self ∈ graph.includedClasses ∧ property ∈ self.includedProperties
    | _ => True := by
  cases part with
  | function entity => simpa [parts, innerParts, outerParts, bodyParts, tableParts] using member
  | method self method => simpa [parts, innerParts, outerParts, bodyParts, tableParts] using member
  | property self property => simpa [parts, innerParts, outerParts, bodyParts, tableParts] using member
  | _ => trivial

theorem allHeads_structDefinition {self : Entity.Class} (success : structDefinition context self = .ok steps) :
    allHeads steps = [] := by
  obtain ⟨_, _, success⟩ := bind_eq_ok.mp success
  obtain ⟨_, _, success⟩ := bind_eq_ok.mp success
  obtain ⟨_, _, success⟩ := bind_eq_ok.mp success
  obtain ⟨_, _, success⟩ := bind_eq_ok.mp success
  cases success
  simp [positionLine]

theorem allHeads_opening (success : Part.steps context .opening = .ok steps) : allHeads steps = [] := by
  obtain ⟨preamble, made, success⟩ := bind_eq_ok.mp success
  cases success
  rcases moduleFragment_eq_ok made with ⟨_, rfl⟩ | ⟨_, _, _, _, rfl⟩ <;> simp [openExtern]

/-- Every function that is defined by a block belongs to something included. -/
theorem referenced_of_mem {part : Part} (member : part ∈ parts context.graph) (succeeds : part.Succeeds context)
    {head : String} (defined : head ∈ allHeads (part.written context)) : Referenced context part head := by
  have included := included_of_mem_parts member
  cases part with
  | function entity =>
    obtain ⟨code, made, same⟩ := functionDefinition_eq_ok succeeds
    rw [same, allHeads_documented] at defined
    rw [eq_of_mem_code made defined]
    exact .function included
  | method self method =>
    obtain ⟨code, made, same⟩ := methodDefinition_eq_ok succeeds
    rw [same, allHeads_documented] at defined
    rw [eq_of_mem_code made defined]
    exact .method included.1 (mem_methodsAt.mpr ⟨included.2, rfl⟩)
  | property self property =>
    obtain ⟨getter, setter, getterMade, setterMade, same⟩ := propertyDefinition_eq_ok succeeds
    rw [same, allHeads_documented, allHeads_append] at defined
    rcases List.mem_append.mp defined with own | own
    · rw [eq_of_mem_code getterMade own]
      exact .getter included.1 included.2
    · rw [eq_of_mem_code setterMade own]
      exact .setter included.1 included.2
  | opening =>
    rw [allHeads_opening succeeds] at defined
    cases defined
  | struct self =>
    rw [allHeads_structDefinition succeeds] at defined
    cases defined
  | _ =>
    simp [Part.written, Part.steps, forwardDeclarations, lifecycle, methodTable, accessorTable, closeExtern,
      classRegistration] at defined

end DocWeave.Render
