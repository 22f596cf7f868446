import Mathlib.Data.List.Basic
import Mathlib.Logic.Function.Basic

/-! Memory as a function of the address: contiguous reads and writes. -/

universe u

namespace ByteMemory

variable {α : Type u} {m m' : Nat → α} {a b n : Nat} {x : α}

/-- The `n` cells from address `a` on. -/
def read (m : Nat → α) (a n : Nat) : List α := (List.range n).map fun k => m (a + k)

/-- Store the items from address `a` on. -/
def write (m : Nat → α) (a : Nat) : List α → Nat → α
  | [] => m
  | x :: xs => write (Function.update m a x) (a + 1) xs

@[simp] theorem read_length (m : Nat → α) (a n : Nat) : (read m a n).length = n := by
  simp [read]

@[simp] theorem read_zero (m : Nat → α) (a : Nat) : read m a 0 = [] := rfl

theorem read_succ (m : Nat → α) (a n : Nat) : read m a (n + 1) = read m a n ++ [m (a + n)] := by
  simp [read, List.range_succ]

/-- The first cell of a span, and the rest. -/
theorem read_head (m : Nat → α) (a n : Nat) : read m a (n + 1) = m a :: read m (a + 1) n := by
  simp [read, List.range_succ_eq_map, Function.comp_def, Nat.add_assoc, Nat.add_comm 1]

/-- Two reads agree exactly when the memories agree on the span. -/
theorem read_eq_iff : read m' a n = read m a n ↔ ∀ k < n, m' (a + k) = m (a + k) := by
  simp [read, List.map_inj_left]

theorem read_update_outside (outside : b < a ∨ a + n ≤ b) :
    read (Function.update m b x) a n = read m a n := by
  refine read_eq_iff.mpr fun k inside => Function.update_of_ne ?_ _ _
  omega

theorem read_add (m : Nat → α) (a n k : Nat) :
    read m a (n + k) = read m a n ++ read m (a + n) k := by
  induction k with
  | zero => simp
  | succ k ih => rw [← Nat.add_assoc, read_succ, ih, read_succ, List.append_assoc, Nat.add_assoc]

/-- A span is read address by address. -/
theorem map_range'_eq_read (m : Nat → α) (a n : Nat) : (List.range' a n).map m = read m a n := by
  rw [List.range'_eq_map_range, List.map_map]
  rfl

/-- Storing the cell after a span extends the span. -/
theorem read_update_end (m : Nat → α) (a n : Nat) (x : α) :
    read (Function.update m (a + n) x) a (n + 1) = read m a n ++ [x] := by
  rw [read_succ, read_update_outside (Or.inr (Nat.le_refl _)), Function.update_self]

/-! ### Writing a list of items -/

theorem write_append (m : Nat → α) (a : Nat) (xs ys : List α) :
    write m a (xs ++ ys) = write (write m a xs) (a + xs.length) ys := by
  induction xs generalizing m a with
  | nil => rfl
  | cons x xs ih =>
    rw [List.cons_append, write, ih, write, List.length_cons, Nat.add_assoc, Nat.add_comm 1]

theorem write_outside {xs : List α} (outside : b < a ∨ a + xs.length ≤ b) :
    write m a xs b = m b := by
  induction xs generalizing m a with
  | nil => rfl
  | cons x xs ih =>
    rw [List.length_cons] at outside
    rw [write, ih (by omega), Function.update_of_ne (by omega)]

/-- What was written is read back. -/
theorem read_write (m : Nat → α) (a : Nat) (xs : List α) :
    read (write m a xs) a xs.length = xs := by
  induction xs generalizing m a with
  | nil => rfl
  | cons x xs ih =>
    rw [List.length_cons, read_head, write, ih, write_outside (Or.inl (Nat.lt_succ_self a)),
      Function.update_self]

theorem write_inside {xs : List α} {k : Nat} (inside : k < xs.length) :
    write m a xs (a + k) = xs[k] := by
  have stored := congrArg (·[k]?) (read_write m a xs)
  simpa [read, inside] using stored

theorem write_replicate {k : Nat} (inside : k < n) :
    write m a (List.replicate n x) (a + k) = x := by
  rw [write_inside (by simpa using inside), List.getElem_replicate]

end ByteMemory
