import WchLwip.Library.Arena
import WchLwip.Model.Heap

/-! The free list in memory.

`Links` says which spans the list that is threaded through memory consists of.
`prvInsertBlockIntoFreeList` and the first half of `pvPortMalloc` do to it what
`Span.insert` and `Span.carve` do to a list of spans. -/
namespace WchLwip.Heap

open Mask Span

/-! ### Words -/

theorem toNat_and_alignmentMask (w : Word) : (w &&& portByteAlignmentMask).toNat = w.toNat % 16 :=
  toNat_and_low w (k := 4) rfl

/-- Clearing the low bits rounds down. -/
theorem toNat_and_not_alignmentMask (w : Word) :
    (w &&& ~~~portByteAlignmentMask).toNat = w.toNat - w.toNat % 16 := by
  have parts := toNat_and_add_toNat_and_not w portByteAlignmentMask
  rw [toNat_and_alignmentMask] at parts
  omega

theorem isSet_alignmentMask (w : Word) :
    isSet w portByteAlignmentMask = decide (w.toNat % 16 ≠ 0) := by
  rw [isSet_eq_decide, toNat_and_alignmentMask]

/-- The mask is the top bit. -/
theorem toNat_and_allocatedBitmask (w : Word) :
    (w &&& heapBlockAllocatedBitmask).toNat = if 2 ^ 31 ≤ w.toNat then 2 ^ 31 else 0 := by
  have top : heapBlockAllocatedBitmask = BitVec.twoPow 32 31 := rfl
  have msb : w.getLsbD 31 = decide (2 ^ 31 ≤ w.toNat) := w.msb_eq_getLsbD_last.symm.trans w.msb_eq_decide
  rw [top, BitVec.and_twoPow, msb]
  by_cases large : 2 ^ 31 ≤ w.toNat
  · rw [if_pos (decide_eq_true large), if_pos large]
    rfl
  · rw [if_neg (by simpa using large), if_neg large]
    rfl

theorem isSet_allocatedBitmask (w : Word) :
    isSet w heapBlockAllocatedBitmask = decide (2 ^ 31 ≤ w.toNat) := by
  rw [isSet_eq_decide, toNat_and_allocatedBitmask]
  split <;> simp_all

theorem toNat_or_allocatedBitmask {w : Word} (small : w.toNat < 2 ^ 31) :
    (w ||| heapBlockAllocatedBitmask).toNat = w.toNat + 2 ^ 31 := by
  have clear : w &&& heapBlockAllocatedBitmask = 0 := by
    apply BitVec.eq_of_toNat_eq
    rw [toNat_and_allocatedBitmask, if_neg (Nat.not_le.mpr small)]
    rfl
  rw [toNat_or_of_disjoint clear]
  rfl

theorem toNat_and_not_allocatedBitmask {w : Word} (large : 2 ^ 31 ≤ w.toNat) :
    (w &&& ~~~heapBlockAllocatedBitmask).toNat = w.toNat - 2 ^ 31 := by
  have parts := toNat_and_add_toNat_and_not w heapBlockAllocatedBitmask
  rw [toNat_and_allocatedBitmask, if_pos large] at parts
  omega

theorem add_eq_iff {v w x : Word} (fits : v.toNat + w.toNat < 2 ^ 32) :
    v + w = x ↔ v.toNat + w.toNat = x.toNat := by
  rw [← BitVec.toNat_inj, BitVec.toNat_add_of_lt fits]

/-! ### Lists in memory -/

def nextAt (mem : Bytes) (a : Nat) : Nat := (WordMemory.load mem a).toNat

def sizeAt (mem : Bytes) (a : Nat) : Nat := (WordMemory.load mem (a + 4)).toNat

/-- The address of the first span, or of the end marker. -/
def first (marker : Nat) : List Span → Nat
  | [] => marker
  | s :: _ => s.start

/-- Every span of the list has a header with its size and the address of the next one. -/
def Chain (mem : Bytes) (marker : Nat) : List Span → Prop
  | [] => True
  | s :: ss => sizeAt mem s.start = s.size ∧ nextAt mem s.start = first marker ss ∧ Chain mem marker ss

/-- The address is outside of the header. -/
def OffHeader (s : Span) (a : Nat) : Prop := a < s.start ∨ s.start + 8 ≤ a

variable {mem mem' : Bytes} {s : State} {marker : Nat} {t u : Span} {ts : List Span}

theorem nextAt_congr {a : Nat} (same : ∀ x, a ≤ x → x < a + 4 → mem' x = mem x) :
    nextAt mem' a = nextAt mem a := by
  rw [nextAt, nextAt, WordMemory.load_congr same]

theorem sizeAt_congr {a : Nat} (same : ∀ x, a ≤ x → x < a + 8 → mem' x = mem x) :
    sizeAt mem' a = sizeAt mem a := by
  rw [sizeAt, sizeAt, WordMemory.load_congr fun x low high => same x (by omega) (by omega)]

/-- A list survives where its headers do. -/
theorem Chain.congr (chain : Chain mem marker ts)
    (same : ∀ t ∈ ts, ∀ x, t.start ≤ x → x < t.start + 8 → mem' x = mem x) :
    Chain mem' marker ts := by
  induction ts with
  | nil => trivial
  | cons t ts ih =>
    obtain ⟨size, next, rest⟩ := chain
    obtain ⟨here, others⟩ := List.forall_mem_cons.mp same
    refine ⟨?_, ?_, ih rest others⟩
    · rw [sizeAt_congr here, size]
    · rw [nextAt_congr fun x low high => here x low (by omega), next]

theorem Chain.size (chain : Chain mem marker ts) (member : t ∈ ts) : sizeAt mem t.start = t.size := by
  induction ts with
  | nil => cases member
  | cons u us ih =>
    obtain ⟨size, -, rest⟩ := chain
    rcases List.mem_cons.mp member with rfl | later
    · exact size
    · exact ih rest later

section Stores

variable {a b : Nat} {w : Word}

@[simp] theorem nextAt_store : nextAt (WordMemory.store mem a w) a = w.toNat := by
  rw [nextAt, WordMemory.load_store]

@[simp] theorem sizeAt_store : sizeAt (WordMemory.store mem (a + 4) w) a = w.toNat := by
  rw [sizeAt, WordMemory.load_store]

@[simp] theorem nextAt_store_size : nextAt (WordMemory.store mem (a + 4) w) a = nextAt mem a := by
  rw [nextAt, nextAt, WordMemory.load_store_of_apart (Or.inr (Nat.le_refl _))]

@[simp] theorem sizeAt_store_next : sizeAt (WordMemory.store mem a w) a = sizeAt mem a := by
  rw [sizeAt, sizeAt, WordMemory.load_store_of_apart (Or.inl (Nat.le_refl _))]

theorem nextAt_store_size_apart (apart : a + 8 ≤ b ∨ b + 8 ≤ a) :
    nextAt (WordMemory.store mem (a + 4) w) b = nextAt mem b :=
  nextAt_congr fun _ _ _ => WordMemory.store_outside (by omega)

theorem sizeAt_store_size_apart (apart : a + 8 ≤ b ∨ b + 8 ≤ a) :
    sizeAt (WordMemory.store mem (a + 4) w) b = sizeAt mem b :=
  sizeAt_congr fun _ _ _ => WordMemory.store_outside (by omega)

end Stores

/-! ### `prvInsertBlockIntoFreeList` -/

/-- The state with another memory. -/
def State.withMem (s : State) (mem : Bytes) : State := { s with mem := mem }

/-- The block is at its place in front of the list, whose blocks come after it. -/
structure InFront (marker : Nat) (t : Span) (ts : List Span) : Prop where
  header : 8 ≤ t.size
  room : t.stop ≤ marker
  after : ∀ u ∈ ts, t.stop ≤ u.start ∧ 8 ≤ u.size ∧ u.stop ≤ marker

theorem InFront.sizes {ts : List Span} (place : InFront marker t ts) :
    ∀ u ∈ t :: ts, True ∧ True ∧ 8 ≤ u.size :=
  List.forall_mem_cons.mpr ⟨⟨trivial, trivial, place.header⟩,
    fun u member => ⟨trivial, trivial, (place.after u member).2.1⟩⟩

theorem InFront.chain {ts : List Span} (place : InFront marker t ts) (chain : Chain mem marker ts)
    (same : ∀ a, OffHeader t a → mem' a = mem a) : Chain mem' marker ts := by
  refine chain.congr fun u member a low high => same a ?_
  have := place.after u member
  have := place.header
  simp only [stop, OffHeader] at *
  omega

/-- The header of `t` becomes that of the first block of the merged list. -/
theorem linkNext_spec {pxIterator pxBlockToInsert : Word}
    (here : pxBlockToInsert.toNat = t.start) (size : sizeAt s.mem t.start = t.size)
    (next : nextAt s.mem pxIterator.toNat = first marker ts) (chain : Chain s.mem marker ts)
    (atEnd : s.pxEnd.toNat = marker) (place : InFront marker t ts)
    (apart : pxIterator.toNat = t.start ∨ pxIterator.toNat + 8 ≤ t.start ∨
      t.start + 8 ≤ pxIterator.toNat) :
    ∃ mem', linkNext s pxIterator pxBlockToInsert = s.withMem mem' ∧
      Chain mem' marker (join t ts) ∧ ∀ a, OffHeader t a → mem' a = s.mem a := by
  have sizeWord : (s.xBlockSize pxBlockToInsert).toNat = t.size := by
    rw [← size, ← here]
    rfl
  have nextWord : (s.pxNextFreeBlock pxIterator).toNat = first marker ts := next
  have room := place.room
  have touches : pxBlockToInsert + s.xBlockSize pxBlockToInsert = s.pxNextFreeBlock pxIterator ↔
      t.stop = first marker ts := by
    have below := s.pxEnd.isLt
    rw [add_eq_iff (by rw [here, sizeWord]; simp only [stop] at room; omega), here, sizeWord, nextWord]
    rfl
  cases ts with
  | nil =>
    -- the end marker is never merged
    have unmerged : linkNext s pxIterator pxBlockToInsert =
        s.withMem (WordMemory.store s.mem t.start s.pxEnd) := by
      have last : s.pxNextFreeBlock pxIterator = s.pxEnd := by
        apply BitVec.eq_of_toNat_eq
        rw [nextWord, atEnd]
        rfl
      simp only [linkNext, last, ne_eq, not_true_eq_false, if_false, ite_self,
        State.setNextFreeBlock, here, State.withMem]
    refine ⟨_, unmerged, ⟨?_, ?_, trivial⟩, fun a off => WordMemory.store_outside ?_⟩
    · simpa using size
    · simpa [first] using atEnd
    · simp only [OffHeader] at off
      omega
  | cons u us =>
    obtain ⟨⟨behind, header, inside⟩, -⟩ := List.forall_mem_cons.mp place.after
    have following : (s.pxNextFreeBlock pxIterator).toNat = u.start := nextWord
    have inList : s.pxNextFreeBlock pxIterator ≠ s.pxEnd := by
      rw [ne_eq, ← BitVec.toNat_inj, following, atEnd]
      simp only [stop] at inside
      omega
    obtain ⟨sizeU, nextU, rest⟩ := chain
    simp only [join]
    by_cases merged : t.stop = u.start
    · rw [if_pos merged]
      have sizeSum : (s.xBlockSize pxBlockToInsert +
          s.xBlockSize (s.pxNextFreeBlock pxIterator)).toNat = t.size + u.size := by
        have sizeNext : (s.xBlockSize (s.pxNextFreeBlock pxIterator)).toNat = u.size := by
          rw [← sizeU, ← following]
          rfl
        have below := s.pxEnd.isLt
        rw [BitVec.toNat_add_of_lt, sizeWord, sizeNext]
        rw [sizeWord, sizeNext]
        simp only [stop] at merged inside
        omega
      generalize added : s.xBlockSize pxBlockToInsert +
        s.xBlockSize (s.pxNextFreeBlock pxIterator) = sum at sizeSum
      -- the size is all that has changed when the list is read again
      have grown : ∀ a, OffHeader t a → WordMemory.store s.mem (t.start + 4) sum a = s.mem a := by
        intro a off
        apply WordMemory.store_outside
        simp only [OffHeader] at off
        omega
      have same : WordMemory.load (WordMemory.store s.mem (t.start + 4) sum) pxIterator.toNat =
          s.pxNextFreeBlock pxIterator := by
        apply BitVec.eq_of_toNat_eq
        rcases apart with equal | other
        · rw [State.pxNextFreeBlock, equal]
          exact nextAt_store_size
        · exact nextAt_store_size_apart other.symm
      have linked : linkNext s pxIterator pxBlockToInsert =
          s.withMem (WordMemory.store (WordMemory.store s.mem (t.start + 4) sum) t.start
            (WordMemory.load (WordMemory.store s.mem (t.start + 4) sum) u.start)) := by
        rw [linkNext, if_pos (touches.mpr merged), if_pos inList, added, State.setBlockSize, here]
        simp only [State.setNextFreeBlock, here, State.withMem]
        simp only [State.pxNextFreeBlock, same]
        rw [show (WordMemory.load s.mem pxIterator.toNat).toNat = u.start from following]
      have kept : ∀ a, OffHeader t a → WordMemory.store (WordMemory.store s.mem (t.start + 4) sum)
          t.start (WordMemory.load (WordMemory.store s.mem (t.start + 4) sum) u.start) a = s.mem a := by
        intro a off
        rw [WordMemory.store_outside (by simp only [OffHeader] at off; omega)]
        exact grown a off
      have nextKept : nextAt (WordMemory.store s.mem (t.start + 4) sum) u.start = first marker us := by
        rw [← nextU]
        refine nextAt_store_size_apart (Or.inl ?_)
        have := place.header
        simp only [stop] at behind
        omega
      refine ⟨_, linked, ⟨by simpa using sizeSum, nextAt_store.trans nextKept, ?_⟩, kept⟩
      exact (place.chain ⟨sizeU, nextU, rest⟩ kept).2.2
    · rw [if_neg merged]
      have unmerged : linkNext s pxIterator pxBlockToInsert =
          s.withMem (WordMemory.store s.mem t.start (s.pxNextFreeBlock pxIterator)) := by
        rw [linkNext, if_neg (touches.not.mpr merged)]
        simp only [State.setNextFreeBlock, here, State.withMem]
      have kept : ∀ a, OffHeader t a →
          WordMemory.store s.mem t.start (s.pxNextFreeBlock pxIterator) a = s.mem a := by
        intro a off
        apply WordMemory.store_outside
        simp only [OffHeader] at off
        omega
      exact ⟨_, unmerged, ⟨by simpa using size, by simpa [first] using following,
        place.chain ⟨sizeU, nextU, rest⟩ kept⟩, kept⟩

/-- A block that does not touch the one in front of it is linked behind it. -/
theorem insertAfter_linked {pxIterator pxBlockToInsert : Word}
    (here : pxBlockToInsert.toNat = t.start) (size : sizeAt s.mem t.start = t.size)
    (next : nextAt s.mem pxIterator.toNat = first marker ts) (chain : Chain s.mem marker ts)
    (atEnd : s.pxEnd.toNat = marker) (place : InFront marker t ts)
    (behind : pxIterator + s.xBlockSize pxIterator ≠ pxBlockToInsert)
    (apart : ∀ u ∈ t :: ts, pxIterator.toNat + 8 ≤ u.start ∨ u.stop ≤ pxIterator.toNat) :
    ∃ mem', insertAfter s pxIterator pxBlockToInsert = s.withMem mem' ∧
      nextAt mem' pxIterator.toNat = t.start ∧ Chain mem' marker (join t ts) ∧
      ∀ a, OffHeader t a → (a < pxIterator.toNat ∨ pxIterator.toNat + 4 ≤ a) → mem' a = s.mem a := by
  obtain ⟨off, others⟩ := List.forall_mem_cons.mp apart
  have header := place.header
  simp only [stop] at off
  obtain ⟨mem, linked, joined, kept⟩ := linkNext_spec here size next chain atEnd place
    (Or.inr (by omega))
  have different : pxIterator ≠ pxBlockToInsert := by
    rintro rfl
    omega
  refine ⟨WordMemory.store mem pxIterator.toNat pxBlockToInsert, ?_, ?_, ?_, fun a outside away => ?_⟩
  · rw [insertAfter, if_neg behind, linked, if_pos different]
    rfl
  · rw [nextAt_store, here]
  · -- the link in front of the list is in none of its blocks
    refine joined.congr fun u member a low high => WordMemory.store_outside ?_
    have large := (forall_join (fun _ => True) 8 (place.sizes) u member).2.2
    have covered : Covers (join t ts) a := ⟨u, member, low, by simp only [stop]; omega⟩
    obtain ⟨v, among, inside⟩ := covers_cons.mpr (covers_join.mp covered)
    have := apart v among
    simp only [Contains] at inside
    omega
  · rw [WordMemory.store_outside away, kept a outside]

/-- A block that touches the one in front of it is merged into that one. -/
theorem insertAfter_merged {c : Span} {pxIterator pxBlockToInsert : Word}
    (iterator : pxIterator.toNat = c.start) (here : pxBlockToInsert.toNat = t.start)
    (sizeC : sizeAt s.mem c.start = c.size) (sizeT : sizeAt s.mem t.start = t.size)
    (next : nextAt s.mem c.start = first marker ts) (chain : Chain s.mem marker ts)
    (atEnd : s.pxEnd.toNat = marker) (header : 8 ≤ c.size) (place : InFront marker t ts)
    (touches : c.stop = t.start) :
    ∃ mem', insertAfter s pxIterator pxBlockToInsert = s.withMem mem' ∧
      Chain mem' marker (join ⟨c.start, c.size + t.size⟩ ts) ∧
      ∀ a, OffHeader c a → mem' a = s.mem a := by
  have sizeWordC : (s.xBlockSize pxIterator).toNat = c.size := by
    rw [← sizeC, ← iterator]
    rfl
  have sizeWordT : (s.xBlockSize pxBlockToInsert).toNat = t.size := by
    rw [← sizeT, ← here]
    rfl
  have room := place.room
  have below := s.pxEnd.isLt
  simp only [stop] at touches room
  have front : pxIterator + s.xBlockSize pxIterator = pxBlockToInsert := by
    rw [add_eq_iff (by rw [iterator, sizeWordC]; omega), iterator, sizeWordC, here]
    exact touches
  have sum : (s.xBlockSize pxIterator + s.xBlockSize pxBlockToInsert).toNat = c.size + t.size := by
    rw [BitVec.toNat_add_of_lt (by rw [sizeWordC, sizeWordT]; omega), sizeWordC, sizeWordT]
  have grown : ∀ a, OffHeader c a → WordMemory.store s.mem (c.start + 4)
      (s.xBlockSize pxIterator + s.xBlockSize pxBlockToInsert) a = s.mem a := by
    intro a off
    apply WordMemory.store_outside
    simp only [OffHeader] at off
    omega
  have place' : InFront marker ⟨c.start, c.size + t.size⟩ ts := by
    refine ⟨by simp only; omega, by simp only [stop]; omega, fun u member => ?_⟩
    obtain ⟨behind, rest⟩ := place.after u member
    refine ⟨?_, rest⟩
    simp only [stop] at behind ⊢
    omega
  obtain ⟨mem, linked, joined, kept⟩ :=
    linkNext_spec (s := s.setBlockSize pxIterator
        (s.xBlockSize pxIterator + s.xBlockSize pxBlockToInsert))
      (t := ⟨c.start, c.size + t.size⟩) iterator
      (by
        rw [State.setBlockSize, iterator]
        exact sizeAt_store.trans sum)
      (by
        rw [State.setBlockSize, iterator]
        exact nextAt_store_size.trans next)
      (by
        rw [State.setBlockSize, iterator]
        exact place'.chain chain grown)
      atEnd place' (Or.inl iterator)
  refine ⟨mem, ?_, joined, fun a off => (kept a off).trans ?_⟩
  · rw [insertAfter, if_pos front, linked]
    rfl
  · rw [State.setBlockSize, iterator]
    exact grown a off

/-- The blocks of a list below the end marker, and a block that is put back into it from the
address `a` on, which is in front of the list and in none of the blocks. -/
structure Inserts (marker a : Nat) (b : Span) (ts : List Span) : Prop where
  separated : Separated ts
  block : 8 ≤ b.size ∧ b.stop ≤ marker
  blocks : ∀ t ∈ ts, 8 ≤ t.size ∧ t.stop ≤ marker
  apart : ∀ t ∈ ts, b.Apart t
  front : ∀ t ∈ b :: ts, a + 8 ≤ t.start ∨ t.stop ≤ a

theorem Inserts.header {a : Nat} {b : Span} (inserts : Inserts marker a b ts) :
    ∀ t ∈ b :: ts, 8 ≤ t.size :=
  List.forall_mem_cons.mpr ⟨inserts.block.1, fun t member => (inserts.blocks t member).1⟩

theorem Inserts.tail {a : Nat} {b c : Span} {cs : List Span} (inserts : Inserts marker a b (c :: cs)) :
    Inserts marker c.start b cs := by
  obtain ⟨⟨header, inside⟩, rest⟩ := List.forall_mem_cons.mp inserts.blocks
  obtain ⟨here, others⟩ := List.forall_mem_cons.mp inserts.apart
  refine ⟨inserts.separated.tail, inserts.block, rest, others, List.forall_mem_cons.mpr ⟨?_, ?_⟩⟩
  · have := inserts.block
    simp only [Apart, stop] at *
    omega
  · intro t member
    have := inserts.separated.apart member
    have := rest t member
    simp only [Apart, stop] at *
    omega

@[simp] theorem first_join : first marker (join t ts) = t.start := by
  cases ts with
  | nil => rfl
  | cons u us =>
    rw [join]
    split <;> rfl

/-- The block is in front of the rest of the list when it is in front of its first block. -/
theorem Inserts.inFront {a : Nat} {b : Span} (inserts : Inserts marker a b ts)
    (before : b.start ≤ first marker ts) : InFront marker b ts := by
  refine ⟨inserts.block.1, inserts.block.2, fun t member => ⟨?_, inserts.blocks t member⟩⟩
  have apart := inserts.apart t member
  have header := inserts.blocks t member
  have lowest : first marker ts ≤ t.start := by
    cases ts with
    | nil => cases member
    | cons u us =>
      exact inserts.separated.start_le ⟨t, member, contains_start (by omega)⟩
  simp only [Apart, stop] at *
  omega

theorem insertPosition_stop {fuel : Nat} {pxIterator pxBlockToInsert : Word} {b : Span}
    (here : pxBlockToInsert.toNat = b.start)
    (next : nextAt s.mem pxIterator.toNat = first marker ts) (before : b.start ≤ first marker ts) :
    insertPosition s pxBlockToInsert (fuel + 1) pxIterator = some pxIterator := by
  rw [insertPosition, if_neg]
  rw [BitVec.lt_def, here]
  exact Nat.not_lt.mpr (before.trans_eq next.symm)

/-- From the address in front of the list on, the loop and what follows it put the block back. -/
theorem insert_spec {fuel : Nat} {pxIterator pxBlockToInsert : Word} {b : Span}
    (here : pxBlockToInsert.toNat = b.start) (size : sizeAt s.mem b.start = b.size)
    (next : nextAt s.mem pxIterator.toNat = first marker ts) (chain : Chain s.mem marker ts)
    (atEnd : s.pxEnd.toNat = marker) (inserts : Inserts marker pxIterator.toNat b ts)
    (behind : pxIterator + s.xBlockSize pxIterator ≠ pxBlockToInsert) (enough : ts.length < fuel) :
    ∃ mem', (insertPosition s pxBlockToInsert fuel pxIterator).map
        (insertAfter s · pxBlockToInsert) = some (s.withMem mem') ∧
      nextAt mem' pxIterator.toNat = first marker (Span.insert b ts) ∧
      Chain mem' marker (Span.insert b ts) ∧
      ∀ a, (∀ t ∈ b :: ts, OffHeader t a) → (a < pxIterator.toNat ∨ pxIterator.toNat + 4 ≤ a) →
        mem' a = s.mem a := by
  induction ts generalizing fuel pxIterator with
  | nil =>
    obtain ⟨fuel, rfl⟩ : ∃ f, fuel = f + 1 := ⟨fuel - 1, by simp at enough; omega⟩
    have before : b.start ≤ first marker [] := by
      have := inserts.block
      simp only [first, stop] at *
      omega
    obtain ⟨mem, linked, start, joined, kept⟩ := insertAfter_linked here size next chain atEnd
      (inserts.inFront before) behind inserts.front
    refine ⟨mem, ?_, start, joined, fun a off away => kept a (off b List.mem_cons_self) away⟩
    rw [insertPosition_stop here next before, Option.map_some, linked]
  | cons c cs ih =>
    obtain ⟨fuel, rfl⟩ : ∃ f, fuel = f + 1 := ⟨fuel - 1, by omega⟩
    by_cases lower : c.start < b.start
    · have following : (s.pxNextFreeBlock pxIterator).toNat = c.start := next
      obtain ⟨sizeC, nextC, rest⟩ := chain
      have step : insertPosition s pxBlockToInsert (fuel + 1) pxIterator =
          insertPosition s pxBlockToInsert fuel (s.pxNextFreeBlock pxIterator) := by
        rw [insertPosition, if_pos]
        rwa [BitVec.lt_def, here, following]
      have inserts' := inserts.tail
      rw [step, Span.insert, if_pos lower]
      by_cases touches : c.stop = b.start
      · -- the loop stops at the block that touches
        rw [if_pos touches, first_join]
        have before : b.start ≤ first marker cs := by
          have := inserts.block
          cases cs with
          | nil =>
            simp only [first, stop] at *
            omega
          | cons d ds =>
            have := (separated_cons.mp inserts.separated).2.1 d List.mem_cons_self
            simp only [first]
            omega
        have header := (inserts.blocks c List.mem_cons_self).1
        obtain ⟨mem, linked, joined, kept⟩ := insertAfter_merged following here sizeC size nextC rest
          atEnd header (inserts'.inFront before) touches
        obtain ⟨fuel, rfl⟩ : ∃ f, fuel = f + 1 := ⟨fuel - 1, by simp at enough; omega⟩
        refine ⟨mem, ?_, ?_, joined,
          fun a off _ => kept a (off c (List.mem_cons_of_mem _ List.mem_cons_self))⟩
        · rw [insertPosition_stop here ((congrArg (nextAt s.mem) following).trans nextC) before,
            Option.map_some, linked]
        · rw [← following]
          refine nextAt_congr fun a low high => kept a ?_
          have := inserts.front c (List.mem_cons_of_mem _ List.mem_cons_self)
          simp only [OffHeader, stop] at *
          omega
      · rw [if_neg touches]
        have apart : s.pxNextFreeBlock pxIterator + s.xBlockSize (s.pxNextFreeBlock pxIterator) ≠
            pxBlockToInsert := by
          have sizeWord : (s.xBlockSize (s.pxNextFreeBlock pxIterator)).toNat = c.size := by
            rw [← sizeC, ← following]
            rfl
          have room := (inserts.blocks c List.mem_cons_self).2
          have below := s.pxEnd.isLt
          simp only [stop] at room touches
          rw [ne_eq, add_eq_iff (by rw [following, sizeWord]; omega), following, sizeWord, here]
          exact touches
        rw [← following] at nextC inserts'
        obtain ⟨mem, inserted, start, joined, kept⟩ := ih nextC rest inserts' apart
          (by simp at enough; omega)
        rw [following] at start kept inserts'
        refine ⟨mem, inserted, ?_, ⟨?_, start, joined⟩, fun a off away => ?_⟩
        · rw [first, ← following]
          refine nextAt_congr fun a low high => kept a (fun t member => ?_) ?_
          · have := inserts.front t (by simp at member ⊢; tauto)
            have := (inserts'.header t member)
            simp only [OffHeader, stop] at *
            omega
          · have := inserts.front c (by simp)
            have := (inserts.blocks c List.mem_cons_self).1
            simp only [stop] at *
            omega
        · rw [← sizeC, sizeAt, sizeAt]
          refine congrArg BitVec.toNat (WordMemory.load_congr fun a low high => ?_)
          refine kept a (fun t member => ?_) (Or.inr low)
          have := inserts'.front t member
          have := inserts'.header t member
          simp only [OffHeader, stop] at *
          omega
        · have others : ∀ t ∈ b :: cs, OffHeader t a := fun t member =>
            off t (by simp at member ⊢; tauto)
          have here := off c (by simp)
          simp only [OffHeader] at here
          exact kept a others (by omega)
    · have before : b.start ≤ first marker (c :: cs) := Nat.le_of_not_lt lower
      obtain ⟨mem, linked, start, joined, kept⟩ := insertAfter_linked here size next chain atEnd
        (inserts.inFront before) behind inserts.front
      rw [Span.insert, if_neg lower]
      refine ⟨mem, ?_, start.trans first_join.symm, joined,
        fun a off away => kept a (off b List.mem_cons_self) away⟩
      rw [insertPosition_stop here next before, Option.map_some, linked]

/-! ### The search of `pvPortMalloc` -/

variable {xWantedSize : Word}

/-- The search passes every block that is too small. -/
theorem searchFreeList_pass (fuel : Nat) (pxPreviousBlock : Word) {pxBlock : Word}
    (here : pxBlock.toNat = t.start) (size : sizeAt s.mem t.start = t.size)
    (next : nextAt s.mem t.start = first marker ts) (nonnull : first marker ts ≠ 0)
    (small : t.size < xWantedSize.toNat) :
    searchFreeList s xWantedSize (fuel + 1) pxPreviousBlock pxBlock =
      searchFreeList s xWantedSize fuel pxBlock (s.pxNextFreeBlock pxBlock) ∧
    (s.pxNextFreeBlock pxBlock).toNat = first marker ts := by
  have following : (s.pxNextFreeBlock pxBlock).toNat = first marker ts := by
    rw [← next, ← here]
    rfl
  refine ⟨?_, following⟩
  rw [searchFreeList, if_pos]
  constructor
  · rw [BitVec.lt_def, State.xBlockSize, here]
    exact size.trans_lt small
  · rw [ne_eq, ← BitVec.toNat_inj, following]
    exact nonnull

/-- Where no block is large enough, the search ends at the end marker. -/
theorem searchFreeList_none {fuel : Nat} {pxPreviousBlock pxBlock : Word}
    (here : pxBlock.toNat = first marker ts) (chain : Chain s.mem marker ts)
    (atEnd : s.pxEnd.toNat = marker) (endNext : nextAt s.mem marker = 0)
    (nonnull : marker ≠ 0) (starts : ∀ t ∈ ts, t.start ≠ 0)
    (small : ∀ t ∈ ts, t.size < xWantedSize.toNat) (enough : ts.length < fuel) :
    ∃ pxPreviousBlock',
      searchFreeList s xWantedSize fuel pxPreviousBlock pxBlock = some (pxPreviousBlock', s.pxEnd) := by
  induction ts generalizing fuel pxPreviousBlock pxBlock with
  | nil =>
    obtain ⟨fuel, rfl⟩ : ∃ f, fuel = f + 1 := ⟨fuel - 1, by simp at enough; omega⟩
    have last : pxBlock = s.pxEnd := by
      rw [← BitVec.toNat_inj, here, atEnd]
      rfl
    refine ⟨pxPreviousBlock, ?_⟩
    rw [searchFreeList, if_neg, last]
    rintro ⟨-, linked⟩
    apply linked
    rw [← BitVec.toNat_inj, last, State.pxNextFreeBlock, atEnd]
    exact endNext
  | cons t ts ih =>
    obtain ⟨fuel, rfl⟩ : ∃ f, fuel = f + 1 := ⟨fuel - 1, by omega⟩
    obtain ⟨size, next, rest⟩ := chain
    obtain ⟨-, others⟩ := List.forall_mem_cons.mp starts
    obtain ⟨short, shorts⟩ := List.forall_mem_cons.mp small
    have linked : first marker ts ≠ 0 := by
      cases ts with
      | nil => exact nonnull
      | cons u us => exact others u List.mem_cons_self
    obtain ⟨passed, following⟩ := searchFreeList_pass fuel pxPreviousBlock here size next linked short
    rw [passed]
    exact ih following rest others shorts (by simp at enough; omega)

/-- The search stops at the first block that is large enough; and when the link that led there
is given the next block, the list is without it. -/
theorem searchFreeList_some {fuel : Nat} {pxPreviousBlock pxBlock : Word} {before after : List Span}
    (here : pxBlock.toNat = first marker (before ++ t :: after))
    (next : nextAt s.mem pxPreviousBlock.toNat = first marker (before ++ t :: after))
    (chain : Chain s.mem marker (before ++ t :: after))
    (starts : ∀ u ∈ before ++ t :: after, u.start ≠ 0)
    (separated : Separated (before ++ t :: after))
    (sizes : ∀ u ∈ before ++ t :: after, 8 ≤ u.size)
    (front : ∀ u ∈ before ++ t :: after, pxPreviousBlock.toNat + 8 ≤ u.start ∨
      u.stop ≤ pxPreviousBlock.toNat)
    (small : ∀ u ∈ before, u.size < xWantedSize.toNat) (large : xWantedSize.toNat ≤ t.size)
    (enough : before.length < fuel) :
    ∃ pxPreviousBlock' pxBlock' : Word, searchFreeList s xWantedSize fuel pxPreviousBlock pxBlock =
        some (pxPreviousBlock', pxBlock') ∧ pxBlock'.toNat = t.start ∧
      nextAt s.mem pxPreviousBlock'.toNat = t.start ∧
      (pxPreviousBlock' = pxPreviousBlock ∨ ∃ u ∈ before, pxPreviousBlock'.toNat = u.start) ∧
      nextAt (WordMemory.store s.mem pxPreviousBlock'.toNat (s.pxNextFreeBlock pxBlock'))
        pxPreviousBlock.toNat = first marker (before ++ after) ∧
      Chain (WordMemory.store s.mem pxPreviousBlock'.toNat (s.pxNextFreeBlock pxBlock')) marker
        (before ++ after) := by
  induction before generalizing fuel pxPreviousBlock pxBlock with
  | nil =>
    obtain ⟨fuel, rfl⟩ : ∃ f, fuel = f + 1 := ⟨fuel - 1, by omega⟩
    obtain ⟨size, nextT, rest⟩ := chain
    have stops : searchFreeList s xWantedSize (fuel + 1) pxPreviousBlock pxBlock =
        some (pxPreviousBlock, pxBlock) := by
      rw [searchFreeList, if_neg]
      rintro ⟨short, -⟩
      rw [BitVec.lt_def, State.xBlockSize, here] at short
      exact Nat.not_lt.mpr large (size.symm.trans_lt short)
    refine ⟨pxPreviousBlock, pxBlock, stops, here, next, Or.inl rfl, ?_, ?_⟩
    · rw [nextAt_store, State.pxNextFreeBlock, here]
      exact nextT
    · refine rest.congr fun u member a low high => WordMemory.store_outside ?_
      have := front u (List.mem_cons_of_mem _ member)
      have := sizes u (List.mem_cons_of_mem _ member)
      simp only [stop] at *
      omega
  | cons u us ih =>
    obtain ⟨fuel, rfl⟩ : ∃ f, fuel = f + 1 := ⟨fuel - 1, by omega⟩
    rw [List.cons_append] at here next chain starts separated sizes front
    rw [first] at here
    obtain ⟨sizeU, nextU, rest⟩ := chain
    obtain ⟨short, shorts⟩ := List.forall_mem_cons.mp small
    obtain ⟨-, starts⟩ := List.forall_mem_cons.mp starts
    obtain ⟨header, sizes⟩ := List.forall_mem_cons.mp sizes
    obtain ⟨frontU, frontRest⟩ := List.forall_mem_cons.mp front
    have linked : first marker (us ++ t :: after) ≠ 0 := by
      cases us with
      | nil => exact starts t List.mem_cons_self
      | cons v vs => exact starts v List.mem_cons_self
    obtain ⟨passed, following⟩ := searchFreeList_pass fuel pxPreviousBlock here sizeU nextU linked short
    have behind : ∀ v ∈ us ++ t :: after, u.start + 8 ≤ v.start := fun v member => by
      have := (separated_cons.mp separated).2.1 v member
      simp only [stop] at this
      omega
    rw [← here] at nextU
    obtain ⟨previous, block, found, at_, leads, among, start, joined⟩ :=
      ih following nextU rest starts separated.tail sizes
        (fun v member => Or.inl (here ▸ behind v member)) shorts
        (by simp at enough; omega)
    have place : previous.toNat = u.start ∨ u.start + 8 ≤ previous.toNat := by
      rcases among with rfl | ⟨v, member, same⟩
      · exact Or.inl here
      · exact Or.inr (same ▸ behind v (by simp [member]))
    have away : pxPreviousBlock.toNat + 8 ≤ previous.toNat ∨
        previous.toNat + 8 ≤ pxPreviousBlock.toNat := by
      rcases among with rfl | ⟨v, member, same⟩
      · rw [here]
        simp only [stop] at *
        omega
      · have := frontRest v (by simp [member])
        have := sizes v (by simp [member])
        simp only [stop] at *
        omega
    refine ⟨previous, block, passed.trans found, at_, leads, Or.inr ?_, ?_, ?_, ?_, joined⟩
    · rcases among with rfl | ⟨v, member, same⟩
      · exact ⟨u, List.mem_cons_self, here⟩
      · exact ⟨v, List.mem_cons_of_mem _ member, same⟩
    · rw [nextAt_congr fun a low high => WordMemory.store_outside (by omega), next]
      rfl
    · rw [← sizeU]
      rcases place with same | other
      · rw [same]
        exact sizeAt_store_next
      · exact sizeAt_congr fun a low high => WordMemory.store_outside (by omega)
    · rw [← here]
      exact start

end WchLwip.Heap
