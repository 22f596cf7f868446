import Mathlib.Data.BitVec
import WchLwip.Library.ByteMemory

/-! Words of 32 bits in a memory of bytes, the lowest byte first. -/

namespace WordMemory

variable {m m' : Nat → UInt8} {a b : Nat} {w : BitVec 32}

def bytes (w : BitVec 32) : List UInt8 :=
  [⟨w.extractLsb' 0 8⟩, ⟨w.extractLsb' 8 8⟩, ⟨w.extractLsb' 16 8⟩, ⟨w.extractLsb' 24 8⟩]

def load (m : Nat → UInt8) (a : Nat) : BitVec 32 :=
  ((m (a + 3)).toBitVec ++ (m (a + 2)).toBitVec) ++ ((m (a + 1)).toBitVec ++ (m a).toBitVec)

def store (m : Nat → UInt8) (a : Nat) (w : BitVec 32) : Nat → UInt8 :=
  ByteMemory.write m a (bytes w)

theorem load_congr (same : ∀ x, a ≤ x → x < a + 4 → m' x = m x) : load m' a = load m a := by
  unfold load
  rw [same a (by omega) (by omega), same (a + 1) (by omega) (by omega),
    same (a + 2) (by omega) (by omega), same (a + 3) (by omega) (by omega)]

theorem store_outside {x : Nat} (outside : x < a ∨ a + 4 ≤ x) : store m a w x = m x :=
  ByteMemory.write_outside outside

@[simp] theorem load_store (m : Nat → UInt8) (a : Nat) (w : BitVec 32) :
    load (store m a w) a = w := by
  have cells := ByteMemory.read_write m a (bytes w)
  simp only [bytes, List.length_cons, List.length_nil, ByteMemory.read_head, ByteMemory.read_zero,
    List.cons.injEq, and_true] at cells
  obtain ⟨first, second, third, fourth⟩ := cells
  unfold load
  rw [show a + 2 = a + 1 + 1 from rfl, show a + 3 = a + 1 + 1 + 1 from rfl]
  unfold store bytes
  rw [first, second, third, fourth]
  -- the parts of the word are put together again in pairs
  have low : w.extractLsb' 8 8 ++ w.extractLsb' 0 8 = w.extractLsb' 0 16 :=
    BitVec.extractLsb'_append_extractLsb'_eq_extractLsb' rfl
  have high : w.extractLsb' 24 8 ++ w.extractLsb' 16 8 = w.extractLsb' 16 16 :=
    BitVec.extractLsb'_append_extractLsb'_eq_extractLsb' rfl
  have whole : w.extractLsb' 16 16 ++ w.extractLsb' 0 16 = w.extractLsb' 0 32 :=
    BitVec.extractLsb'_append_extractLsb'_eq_extractLsb' rfl
  rw [low, high, whole]
  exact BitVec.extractLsb'_eq_self

/-- A word that is elsewhere is not changed. -/
theorem load_store_of_apart (apart : a + 4 ≤ b ∨ b + 4 ≤ a) :
    load (store m a w) b = load m b :=
  load_congr fun _ _ _ => store_outside (by omega)

end WordMemory
