import Mathlib.Data.List.Forall2

/-!
# Outcomes

A computation that may fail, taken apart at its ways to end.
-/

namespace DocWeave

variable {α β ε : Type}

theorem map_eq_ok {f : α → β} {outcome : Except ε α} {result : β} :
    outcome.map f = .ok result ↔ ∃ value, outcome = .ok value ∧ f value = result := by
  cases outcome <;> simp [Except.map]

theorem map_eq_error {f : α → β} {outcome : Except ε α} {fault : ε} :
    outcome.map f = .error fault ↔ outcome = .error fault := by
  cases outcome <;> simp [Except.map]

theorem bind_eq_ok {f : α → Except ε β} {outcome : Except ε α} {result : β} :
    outcome >>= f = .ok result ↔ ∃ value, outcome = .ok value ∧ f value = .ok result := by
  cases outcome <;> simp [bind, Except.bind]

theorem unit_bind_eq_ok {f : Unit → Except ε β} {outcome : Except ε Unit} {result : β} :
    outcome >>= f = .ok result ↔ outcome = .ok () ∧ f () = .ok result := by
  rw [bind_eq_ok]
  exact ⟨fun ⟨_, first, others⟩ => ⟨first, others⟩, fun ⟨first, others⟩ => ⟨(), first, others⟩⟩

theorem bind_eq_error {f : α → Except ε β} {outcome : Except ε α} {fault : ε} :
    outcome >>= f = .error fault ↔
      outcome = .error fault ∨ ∃ value, outcome = .ok value ∧ f value = .error fault := by
  cases outcome <;> simp [bind, Except.bind]

theorem pure_eq_ok {value result : α} : (pure value : Except ε α) = .ok result ↔ value = result := by
  simp [pure, Except.pure]

theorem mapM_eq_ok {f : α → Except ε β} {xs : List α} {ys : List β} (success : xs.mapM f = .ok ys) :
    List.Forall₂ (fun x y => f x = .ok y) xs ys := by
  induction xs generalizing ys with
  | nil =>
    cases success
    exact .nil
  | cons x xs ih =>
    rw [List.mapM_cons, bind_eq_ok] at success
    obtain ⟨y, first, others⟩ := success
    obtain ⟨rest, further, whole⟩ := bind_eq_ok.mp others
    cases whole
    exact .cons first (ih further)

theorem mapM_eq_error {f : α → Except ε β} {xs : List α} {fault : ε} (failure : xs.mapM f = .error fault) :
    ∃ x ∈ xs, f x = .error fault := by
  induction xs with
  | nil => cases failure
  | cons x xs ih =>
    rw [List.mapM_cons, bind_eq_error] at failure
    rcases failure with first | ⟨y, _, others⟩
    · exact ⟨x, List.mem_cons_self, first⟩
    · rcases bind_eq_error.mp others with later | ⟨_, _, done⟩
      · obtain ⟨other, member, failed⟩ := ih later
        exact ⟨other, List.mem_cons_of_mem _ member, failed⟩
      · cases done

theorem forM_eq_ok {f : α → Except ε Unit} {xs : List α} (success : xs.forM f = .ok ()) :
    ∀ x ∈ xs, f x = .ok () := by
  induction xs with
  | nil => exact List.forall_mem_nil _
  | cons x xs ih =>
    obtain ⟨_, first, others⟩ := bind_eq_ok.mp success
    exact List.forall_mem_cons.mpr ⟨first, ih others⟩

theorem forM_eq_ok_iff {f : α → Except ε Unit} {xs : List α} : xs.forM f = .ok () ↔ ∀ x ∈ xs, f x = .ok () := by
  refine ⟨forM_eq_ok, fun each => ?_⟩
  induction xs with
  | nil => rfl
  | cons x xs ih =>
    obtain ⟨first, others⟩ := List.forall_mem_cons.mp each
    exact bind_eq_ok.mpr ⟨(), first, ih others⟩
/-- A pass over a list fails where the first element fails. -/
theorem forM_eq_error {f : α → Except ε Unit} {xs : List α} {fault : ε} : xs.forM f = .error fault ↔
    ∃ before x after, xs = before ++ x :: after ∧ before.forM f = .ok () ∧ f x = .error fault := by
  induction xs with
  | nil => simp [List.forM, pure, Except.pure]
  | cons x xs ih =>
    rw [show (x :: xs).forM f = f x >>= fun _ => xs.forM f from rfl, bind_eq_error, ih]
    constructor
    · rintro (first | ⟨_, passes, before, later, after, rfl, others, fails⟩)
      · exact ⟨[], x, xs, rfl, rfl, first⟩
      · exact ⟨x :: before, later, after, rfl, bind_eq_ok.mpr ⟨(), passes, others⟩, fails⟩
    · rintro ⟨_ | ⟨first, before⟩, later, after, split, passes, fails⟩
      · obtain ⟨rfl, rfl⟩ := List.cons.inj split
        exact .inl fails
      · obtain ⟨rfl, rfl⟩ := List.cons.inj split
        obtain ⟨_, here, others⟩ := bind_eq_ok.mp passes
        exact .inr ⟨(), here, before, later, after, rfl, others, fails⟩

theorem map_eq_map_of_forall₂ {γ : Type} {R : α → β → Prop} {f : α → γ} {g : β → γ} {xs : List α} {ys : List β}
    (related : List.Forall₂ R xs ys) (same : ∀ x y, R x y → f x = g y) : xs.map f = ys.map g := by
  rw [← List.forall₂_eq_eq_eq, List.forall₂_map_left_iff, List.forall₂_map_right_iff]
  exact related.imp same

theorem exists_of_forall₂_left {R : α → β → Prop} {xs : List α} {ys : List β} (related : List.Forall₂ R xs ys)
    {x : α} (member : x ∈ xs) : ∃ y ∈ ys, R x y := by
  induction related with
  | nil => cases member
  | cons first rest ih =>
    rcases List.mem_cons.mp member with rfl | later
    · exact ⟨_, List.mem_cons_self, first⟩
    · obtain ⟨y, listed, holds⟩ := ih later
      exact ⟨y, List.mem_cons_of_mem _ listed, holds⟩

theorem exists_of_forall₂_right {R : α → β → Prop} {xs : List α} {ys : List β} (related : List.Forall₂ R xs ys)
    {y : β} (member : y ∈ ys) : ∃ x ∈ xs, R x y :=
  exists_of_forall₂_left related.flip member

end DocWeave
