import Mathlib.Data.Nat.ModEq
import Mathlib.Logic.Function.Basic

/-! A ring of cells that holds a bounded queue.

The cells are numbered `0 .. n - 1` and visited in cyclic order. A queue of at
most `n` items whose first item is the `lo`-th ever stored occupies the cells of
`lo`, `lo + 1`, ... modulo `n`, and every other cell is empty. One relation so
says which arc of the ring is in use and what it contains, with no ambiguity
between the empty and the full ring. -/

universe u

namespace RingQueue

variable {α : Type u} {n lo i j : Nat} {cell : Nat → Option α} {q : List α} {a : α}

/-! ### Positions on the ring -/

theorem succ_mod (n lo : Nat) : (lo % n + 1) % n = (lo + 1) % n := by
  simp

theorem slot_injective (hi : i < n) (hj : j < n)
    (same : (lo + i) % n = (lo + j) % n) : i = j := by
  have cong : i ≡ j [MOD n] := Nat.ModEq.add_left_cancel' lo same
  exact cong.eq_of_lt_of_lt hi hj

/-- Every cell is some number of places after the first one of the queue. -/
theorem exists_offset (lo : Nat) (hj : j < n) : ∃ i < n, (lo + i) % n = j := by
  refine ⟨(j + (n - lo % n)) % n, Nat.mod_lt _ (by omega), ?_⟩
  have below := Nat.mod_lt lo (show 0 < n by omega)
  calc (lo + (j + (n - lo % n)) % n) % n
      = (lo % n + (j + (n - lo % n))) % n := by simp [Nat.add_mod]
    _ = (j + n) % n := by congr 1; omega
    _ = j := by simp [Nat.mod_eq_of_lt hj]

/-! ### The representation -/

structure Holds (n : Nat) (cell : Nat → Option α) (lo : Nat) (q : List α) : Prop where
  le : q.length ≤ n
  get : ∀ i < n, cell ((lo + i) % n) = q[i]?

theorem Holds.empty (free : ∀ j < n, cell j = none) : Holds n cell lo [] where
  le := Nat.zero_le n
  get i hi := by
    simpa using free _ (Nat.mod_lt _ (by omega))

theorem Holds.head (holds : Holds n cell lo q) (pos : 0 < n) : cell (lo % n) = q.head? := by
  simpa [List.head?_eq_getElem?] using holds.get 0 pos

/-- The cell after the queue is empty exactly while there is room. -/
theorem Holds.tail_eq_none_iff (holds : Holds n cell lo q) (pos : 0 < n) :
    cell ((lo + q.length) % n) = none ↔ q.length < n := by
  rcases Nat.lt_or_ge q.length n with room | full
  · simp [holds.get _ room, room]
  · -- the cell after a full queue is its first one
    have size : q.length = n := Nat.le_antisymm holds.le full
    rw [size, Nat.add_mod_right, holds.head pos]
    simp [List.head?_eq_none_iff, ← List.length_eq_zero_iff, size]
    omega

/-- One test of the cell after the queue decides whether all cells are in use. -/
theorem Holds.tail_ne_none_iff (holds : Holds n cell lo q) (pos : 0 < n) :
    cell ((lo + q.length) % n) ≠ none ↔ ∀ j < n, cell j ≠ none := by
  constructor
  · intro used j hj
    have size : q.length = n :=
      Nat.le_antisymm holds.le
        (Nat.le_of_not_lt fun room => used ((holds.tail_eq_none_iff pos).mpr room))
    obtain ⟨i, hi, rfl⟩ := exists_offset lo hj
    rw [holds.get i hi]
    simp [size, hi]
  · intro all
    exact all _ (Nat.mod_lt _ pos)

/-- The cells in use are those of the arc of length `q.length` from `lo`. -/
theorem Holds.ne_none_iff (holds : Holds n cell lo q) (hj : j < n) :
    cell j ≠ none ↔ ∃ k, lo ≤ k ∧ k < lo + q.length ∧ j = k % n := by
  constructor
  · intro used
    obtain ⟨i, hi, rfl⟩ := exists_offset lo hj
    rw [holds.get i hi] at used
    have inside : i < q.length := by simpa using used
    exact ⟨lo + i, by omega, by omega, rfl⟩
  · rintro ⟨k, lower, upper, rfl⟩
    have bound := holds.le
    have there := holds.get (k - lo) (by omega)
    rw [show lo + (k - lo) = k by omega] at there
    rw [there]
    simp
    omega

theorem Holds.push (holds : Holds n cell lo q) (room : q.length < n) (a : α) :
    Holds n (Function.update cell ((lo + q.length) % n) (some a)) lo (q ++ [a]) where
  le := by simpa [Nat.succ_le_iff] using room
  get i hi := by
    by_cases last : i = q.length
    · subst last
      simp
    · -- any other place of the window is another cell
      have other : (lo + i) % n ≠ (lo + q.length) % n :=
        fun same => last (slot_injective hi room same)
      rw [Function.update_of_ne other, holds.get i hi]
      rcases Nat.lt_or_gt_of_ne last with before | after
      · rw [List.getElem?_append_left before]
      · rw [List.getElem?_eq_none (by omega), List.getElem?_eq_none (by simp; omega)]

theorem Holds.pop (holds : Holds n cell lo (a :: q)) :
    Holds n (Function.update cell (lo % n) none) (lo + 1) q where
  le := by
    have := holds.le
    simp at this
    omega
  get i hi := by
    have bound : q.length + 1 ≤ n := by simpa using holds.le
    by_cases last : i + 1 = n
    · -- the last place of the window is now the cell that was emptied
      have wrapped : (lo + 1 + i) % n = lo % n := by
        rw [show lo + 1 + i = lo + n by omega, Nat.add_mod_right]
      rw [wrapped, Function.update_self, List.getElem?_eq_none (by omega)]
    · have other : (lo + 1 + i) % n ≠ lo % n := by
        intro same
        have shifted : (lo + (i + 1)) % n = (lo + 0) % n := by
          simpa [Nat.add_assoc, Nat.add_comm 1 i] using same
        have : i + 1 = 0 := slot_injective (by omega) (by omega) shifted
        omega
      have there := holds.get (i + 1) (by omega)
      rw [show lo + (i + 1) = lo + 1 + i by omega] at there
      rw [Function.update_of_ne other, there, List.getElem?_cons_succ]

/-- The ring is only read at its cells. -/
theorem Holds.congr {cell' : Nat → Option α} (holds : Holds n cell lo q)
    (same : ∀ j < n, cell' j = cell j) : Holds n cell' lo q where
  le := holds.le
  get i hi := by
    rw [same _ (Nat.mod_lt _ (by omega)), holds.get i hi]

end RingQueue
