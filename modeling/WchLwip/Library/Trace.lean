import Mathlib.Data.List.Basic

/-! Traces: what was observed in a given order, and what came before an action. -/

universe u

namespace Trace

variable {α : Type u}

/-- Actions that satisfy the conditions one after the other, with others in between. -/
def inOrder : List (α → Bool) → List α → Bool
  | [], _ => true
  | _ :: _, [] => false
  | p :: ps, a :: as => if p a then inOrder ps as else inOrder (p :: ps) as

@[simp] theorem inOrder_nil (as : List α) : inOrder [] as = true := by
  simp only [inOrder]

/-- A longer trace contains what was observed. -/
theorem inOrder_append {ps : List (α → Bool)} {as : List α} (bs : List α)
    (observed : inOrder ps as = true) : inOrder ps (as ++ bs) = true := by
  induction as generalizing ps with
  | nil =>
    cases ps with
    | nil => simp
    | cons p ps => cases observed
  | cons a as ih =>
    cases ps with
    | nil => simp
    | cons p ps =>
      simp only [inOrder, List.cons_append] at observed ⊢
      by_cases met : p a = true
      · rw [if_pos met] at observed ⊢
        exact ih observed
      · rw [if_neg met] at observed ⊢
        exact ih observed

/-- The first conditions are met when all are. -/
theorem inOrder_left {ps qs : List (α → Bool)} {as : List α}
    (observed : inOrder (ps ++ qs) as = true) : inOrder ps as = true := by
  induction as generalizing ps with
  | nil =>
    cases ps with
    | nil => simp
    | cons p ps => cases observed
  | cons a as ih =>
    cases ps with
    | nil => simp
    | cons p ps =>
      simp only [inOrder, List.cons_append] at observed ⊢
      by_cases met : p a = true
      · rw [if_pos met] at observed ⊢
        exact ih observed
      · rw [if_neg met] at observed ⊢
        rw [← List.cons_append] at observed
        exact ih observed

/-- What a trace starts with came before every action that it does not contain. -/
theorem prefix_before {p : α → Bool} {start rest before after : List α} {a : α}
    (none : ∀ b ∈ start, p b = false) (action : p a = true)
    (split : start ++ rest = before ++ a :: after) : ∃ between, before = start ++ between := by
  rcases List.append_eq_append_iff.mp split with ⟨between, same, -⟩ | ⟨between, same, tail⟩
  · exact ⟨between, same⟩
  · cases between with
    | nil => exact ⟨[], by simpa using same.symm⟩
    | cons b between =>
      -- the action would be in the part that has none
      obtain ⟨rfl, -⟩ := List.cons_eq_cons.mp tail
      have absent := none a (by simp [same])
      exact absurd (absent.symm.trans action) Bool.false_ne_true

end Trace
