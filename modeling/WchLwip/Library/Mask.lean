import Mathlib.Data.BitVec

/-! Flag words: testing, setting and clearing the bits that a mask selects.

The side conditions of the simp lemmas compare two closed masks, so the callers
discharge them by `decide`. -/
namespace Mask

variable {n : Nat}

/-- `(w & mask) != 0` -/
def isSet (w mask : BitVec n) : Bool := w &&& mask != 0#n

/-- A write to a register whose bits are cleared by writing one to them. -/
def writeOneToClear (reg mask : BitVec n) : BitVec n := reg &&& ~~~mask

/-- The bits that `keep` selects from `w`, the others from `v`. -/
def merge (keep w v : BitVec n) : BitVec n := (w &&& keep) ||| (v &&& ~~~keep)

theorem isSet_zero (mask : BitVec n) : isSet 0#n mask = false := by
  simp [isSet]

private theorem bit_disjoint {mask other : BitVec n} (disjoint : mask &&& other = 0#n) (i : Nat)
    (hi : i < n) : mask[i] = false ∨ other[i] = false := by
  have bit : (mask &&& other)[i] = false := by simp [disjoint]
  simpa only [BitVec.getElem_and, Bool.and_eq_false_iff] using bit

private theorem or_and_disjoint (w mask other : BitVec n) (disjoint : mask &&& other = 0#n) :
    (w ||| mask) &&& other = w &&& other := by
  ext i hi
  rcases bit_disjoint disjoint i hi with bit | bit <;> simp [bit]

theorem writeOneToClear_and_disjoint (w mask other : BitVec n) (disjoint : mask &&& other = 0#n) :
    writeOneToClear w mask &&& other = w &&& other := by
  unfold writeOneToClear
  ext i hi
  rcases bit_disjoint disjoint i hi with bit | bit <;> simp [bit]

/-- Setting the bits of a mask sets the bits of every part of it. -/
theorem isSet_or_within (w mask part : BitVec n) (inside : part &&& mask = part)
    (nonzero : part ≠ 0#n) : isSet (w ||| mask) part = true := by
  have absorbed : (w ||| mask) &&& part = part := by
    ext i hi
    have bit : (part &&& mask)[i] = part[i] := by rw [inside]
    simp only [BitVec.getElem_and, BitVec.getElem_or] at bit ⊢
    -- a bit of the part is one of the mask
    cases held : part[i] <;> simp_all
  simp [isSet, absorbed, nonzero]

theorem isSet_or_self (w mask : BitVec n) (nonzero : mask ≠ 0#n) :
    isSet (w ||| mask) mask = true :=
  isSet_or_within w mask mask BitVec.and_self nonzero

theorem isSet_or_disjoint (w mask other : BitVec n) (disjoint : mask &&& other = 0#n) :
    isSet (w ||| mask) other = isSet w other := by
  rw [isSet, isSet, or_and_disjoint w mask other disjoint]

/-- Setting bits never clears one. -/
theorem isSet_or_left (w mask other : BitVec n) (before : isSet w other = true) :
    isSet (w ||| mask) other = true := by
  simp only [isSet, bne_iff_ne, ne_eq] at before ⊢
  intro cleared
  apply before
  ext i hi
  have bit : ((w ||| mask) &&& other)[i] = false := by simp [cleared]
  simp only [BitVec.getElem_and, BitVec.getElem_or, BitVec.getElem_zero] at bit ⊢
  cases held : w[i] <;> simp_all

theorem isSet_writeOneToClear_self (w mask : BitVec n) :
    isSet (writeOneToClear w mask) mask = false := by
  have cleared : w &&& ~~~mask &&& mask = 0#n := by
    ext i hi
    simp only [BitVec.getElem_and, BitVec.getElem_not, BitVec.getElem_zero]
    cases mask[i] <;> simp
  simp [isSet, writeOneToClear, cleared]

theorem isSet_writeOneToClear_disjoint (w mask other : BitVec n)
    (disjoint : mask &&& other = 0#n) :
    isSet (writeOneToClear w mask) other = isSet w other := by
  rw [isSet, isSet, writeOneToClear_and_disjoint w mask other disjoint]

/-- Words that agree on a mask agree on every part of it. -/
theorem and_congr_within {w v mask part : BitVec n} (inside : part &&& mask = part)
    (same : w &&& mask = v &&& mask) : w &&& part = v &&& part := by
  have cut (u : BitVec n) : u &&& part = u &&& mask &&& part := by
    rw [BitVec.and_assoc, BitVec.and_comm mask, inside]
  rw [cut w, cut v, same]

theorem isSet_congr {w v mask part : BitVec n} (inside : part &&& mask = part)
    (same : w &&& mask = v &&& mask) : isSet w part = isSet v part := by
  rw [isSet, isSet, and_congr_within inside same]

theorem isSet_merge_within (keep w v mask : BitVec n) (inside : mask &&& keep = mask) :
    isSet (merge keep w v) mask = isSet w mask := by
  have same : merge keep w v &&& mask = w &&& mask := by
    ext i hi
    have bit : (mask &&& keep)[i] = mask[i] := by rw [inside]
    simp only [merge, BitVec.getElem_and, BitVec.getElem_or, BitVec.getElem_not] at bit ⊢
    -- a bit of the mask is one that is kept
    cases held : mask[i] <;> simp_all
  rw [isSet, isSet, same]

/-- Bits inside a mask are disjoint from bits outside of it. -/
theorem and_eq_zero_of_within {w v mask : BitVec n} (inside : w &&& ~~~mask = 0#n)
    (outside : v &&& mask = 0#n) : w &&& v = 0#n := by
  ext i hi
  have first : (w &&& ~~~mask)[i] = false := by rw [inside, BitVec.getElem_zero]
  have second : (v &&& mask)[i] = false := by rw [outside, BitVec.getElem_zero]
  simp only [BitVec.getElem_and, BitVec.getElem_not, BitVec.getElem_zero] at first second ⊢
  cases held : mask[i] <;> simp_all

/-- Words that agree on two masks agree on both together. -/
theorem and_or_congr {w v mask other : BitVec n} (first : w &&& mask = v &&& mask)
    (second : w &&& other = v &&& other) : w &&& (mask ||| other) = v &&& (mask ||| other) := by
  rw [BitVec.and_or_distrib_left, BitVec.and_or_distrib_left, first, second]

/-! ### Clearing some bits and setting others -/

def update (reg clear set : BitVec n) : BitVec n := writeOneToClear reg clear ||| set

@[simp] theorem writeOneToClear_zero (reg : BitVec n) : writeOneToClear reg 0#n = reg := by
  simp [writeOneToClear]

@[simp] theorem update_clear (reg clear : BitVec n) :
    update reg clear 0#n = writeOneToClear reg clear := by
  simp [update]

@[simp] theorem update_set (reg set : BitVec n) : update reg 0#n set = reg ||| set := by
  simp [update]

/-- Equal bits stay equal under the same update. -/
theorem update_congr {w v mask : BitVec n} (clear set : BitVec n)
    (same : w &&& mask = v &&& mask) : update w clear set &&& mask = update v clear set &&& mask := by
  ext i hi
  have bit : (w &&& mask)[i] = (v &&& mask)[i] := by rw [same]
  simp only [update, writeOneToClear, BitVec.getElem_and, BitVec.getElem_or,
    BitVec.getElem_not] at bit ⊢
  cases held : mask[i] <;> simp_all

/-- The bits of a mask that an update leaves alone. -/
theorem update_and_disjoint {w clear set mask : BitVec n}
    (disjoint : (clear ||| set) &&& mask = 0#n) : update w clear set &&& mask = w &&& mask := by
  ext i hi
  have bit : ((clear ||| set) &&& mask)[i] = false := by rw [disjoint, BitVec.getElem_zero]
  simp only [update, writeOneToClear, BitVec.getElem_and, BitVec.getElem_or,
    BitVec.getElem_not] at bit ⊢
  cases held : mask[i] <;> simp_all

/-- Bits that are clear stay clear when an update does not set them. -/
theorem update_and_clear {w clear set mask : BitVec n} (before : w &&& mask = 0#n)
    (quiet : set &&& mask = 0#n) : update w clear set &&& mask = 0#n := by
  rw [update_congr clear set (before.trans BitVec.zero_and.symm), update, writeOneToClear,
    BitVec.zero_and, BitVec.zero_or, quiet]

/-- Bits that are set stay set when an update does not clear them. -/
theorem update_and_set {w clear set mask : BitVec n} (before : w &&& mask = mask)
    (quiet : clear &&& mask = 0#n) : update w clear set &&& mask = mask := by
  ext i hi
  have held : (w &&& mask)[i] = mask[i] := by rw [before]
  have bit : (clear &&& mask)[i] = false := by rw [quiet, BitVec.getElem_zero]
  simp only [update, writeOneToClear, BitVec.getElem_and, BitVec.getElem_or,
    BitVec.getElem_not] at held bit ⊢
  cases inside : mask[i] <;> simp_all

/-- The first bit is clear or set. -/
theorem and_one (w : BitVec (n + 1)) : w &&& 1#(n + 1) = 0#(n + 1) ∨ w &&& 1#(n + 1) = 1#(n + 1) := by
  rw [BitVec.and_one_eq_setWidth_ofBool_getLsbD]
  cases w.getLsbD 0 with
  | true => exact Or.inr (BitVec.eq_of_toNat_eq (by simp))
  | false => exact Or.inl (BitVec.eq_of_toNat_eq (by simp))

/-- Setting a bit that is set changes nothing. -/
theorem or_twoPow {w : BitVec n} {k : Nat} (set : isSet w (BitVec.twoPow n k) = true) :
    w ||| BitVec.twoPow n k = w := by
  rw [isSet, bne_iff_ne, BitVec.and_twoPow] at set
  have bit : w.getLsbD k = true := by
    by_contra clear
    exact set (if_neg clear)
  ext i hi
  rw [BitVec.getElem_or, BitVec.getElem_twoPow]
  by_cases same : i = k
  · subst same
    rw [← BitVec.getLsbD_eq_getElem, bit, Bool.true_or]
  · rw [decide_eq_false same, Bool.or_false]

/-- Updates of different bits commute. -/
theorem update_comm (w clear set clear' set' : BitVec n)
    (disjoint : (clear ||| set) &&& (clear' ||| set') = 0#n) :
    update (update w clear set) clear' set' = update (update w clear' set') clear set := by
  ext i hi
  have bit : ((clear ||| set) &&& (clear' ||| set'))[i] = false := by
    rw [disjoint, BitVec.getElem_zero]
  simp only [update, writeOneToClear, BitVec.getElem_and, BitVec.getElem_or,
    BitVec.getElem_not] at bit ⊢
  cases c : clear[i] <;> cases s : set[i] <;> simp_all

/-! ### Words as numbers -/

theorem isSet_eq_decide (w mask : BitVec n) : isSet w mask = decide ((w &&& mask).toNat ≠ 0) := by
  rw [isSet, Bool.eq_iff_iff, bne_iff_ne, decide_eq_true_eq, ne_eq, ne_eq, ← BitVec.toNat_inj,
    BitVec.toNat_zero]

/-- A word is the sum of the bits inside a mask and those outside of it. -/
theorem toNat_and_add_toNat_and_not (w mask : BitVec n) :
    (w &&& mask).toNat + (w &&& ~~~mask).toNat = w.toNat := by
  have disjoint : (w &&& mask) &&& (w &&& ~~~mask) = 0#n := by
    ext i hi
    simp only [BitVec.getElem_and, BitVec.getElem_not, BitVec.getElem_zero]
    cases mask[i] <;> simp
  have whole : (w &&& mask) ||| (w &&& ~~~mask) = w := by
    ext i hi
    simp only [BitVec.getElem_and, BitVec.getElem_or, BitVec.getElem_not]
    cases mask[i] <;> simp
  rw [← BitVec.toNat_add_of_and_eq_zero disjoint, BitVec.add_eq_or_of_and_eq_zero _ _ disjoint, whole]

/-- The bits below a power of two are the remainder. -/
theorem toNat_and_low (w : BitVec n) {mask : BitVec n} {k : Nat} (low : mask.toNat = 2 ^ k - 1) :
    (w &&& mask).toNat = w.toNat % 2 ^ k := by
  rw [BitVec.toNat_and, low, Nat.and_two_pow_sub_one_eq_mod]

/-- Setting bits that are clear adds them. -/
theorem toNat_or_of_disjoint {w mask : BitVec n} (disjoint : w &&& mask = 0#n) :
    (w ||| mask).toNat = w.toNat + mask.toNat := by
  rw [← BitVec.add_eq_or_of_and_eq_zero _ _ disjoint, BitVec.toNat_add_of_and_eq_zero disjoint]

end Mask
