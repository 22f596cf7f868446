import WchLwip.Properties.FreeList

/-! What the calls of the allocator do to the free list.

One lemma for each half of a call says which list of spans it leaves in memory,
and that no byte has changed but in the free blocks and in the link of `xStart`. -/
namespace WchLwip.Heap

open Mask Span

/-! ### The range of the heap -/

/-- The address of the first block -/
def Layout.low (layout : Layout) : Nat := layout.pucAlignedHeap.toNat

/-- The address of the end marker -/
def Layout.marker (layout : Layout) : Nat := layout.endAddress.toNat

theorem Layout.low_bounds (layout : Layout) : layout.low % 16 = 0 ∧
    layout.ucHeap.toNat ≤ layout.low ∧ layout.low < layout.ucHeap.toNat + 16 := by
  have fits := layout.ucHeapEnd
  have size : configTotalHeapSize.toNat = 32768 := rfl
  unfold Layout.low Layout.pucAlignedHeap
  rw [isSet_alignmentMask]
  split
  next unaligned =>
    have added : (layout.ucHeap + (portByteAlignment - 1)).toNat = layout.ucHeap.toNat + 15 := by
      apply BitVec.toNat_add_of_lt
      have : (portByteAlignment - 1).toNat = 15 := rfl
      omega
    rw [toNat_and_not_alignmentMask, added]
    have := of_decide_eq_true unaligned
    omega
  next aligned =>
    have := of_decide_eq_false (Bool.eq_false_of_not_eq_true aligned)
    omega

theorem Layout.marker_bounds (layout : Layout) : layout.marker % 16 = 0 ∧
    layout.marker ≤ layout.ucHeap.toNat + 32752 ∧ layout.ucHeap.toNat + 32752 < layout.marker + 16 := by
  obtain ⟨-, above, near⟩ := layout.low_bounds
  have fits := layout.ucHeapEnd
  have size : configTotalHeapSize.toNat = 32768 := rfl
  have header : xHeapStructSize.toNat = 16 := rfl
  unfold Layout.low at above near
  have total : layout.xTotalHeapSize.toNat =
      32768 - (layout.pucAlignedHeap.toNat - layout.ucHeap.toNat) := by
    have difference := BitVec.toNat_sub_of_le above
    rw [Layout.xTotalHeapSize, BitVec.toNat_sub_of_le (BitVec.le_def.mpr (by omega)), difference, size]
  have sum : (layout.pucAlignedHeap + layout.xTotalHeapSize).toNat = layout.ucHeap.toNat + 32768 := by
    rw [BitVec.toNat_add_of_lt (by omega), total]
    omega
  unfold Layout.marker Layout.endAddress
  rw [toNat_and_not_alignmentMask, BitVec.toNat_sub_of_le (BitVec.le_def.mpr (by omega)), sum, header]
  omega

/-- The blocks and the end marker lie in `ucHeap`, away from `xStart`. -/
theorem Layout.range (layout : Layout) : 0 < layout.low ∧ layout.low + 32736 ≤ layout.marker ∧
    layout.marker + 16 < 2 ^ 32 ∧ (layout.xStart.toNat + 8 ≤ layout.low ∨
      layout.marker + 16 ≤ layout.xStart.toNat) := by
  have low := layout.low_bounds
  have marker := layout.marker_bounds
  have fits := layout.ucHeapEnd
  have apart := layout.apart
  have size : configTotalHeapSize.toNat = 32768 := rfl
  have nonnull : layout.ucHeap.toNat ≠ 0 := fun zero =>
    layout.nonnull (BitVec.eq_of_toNat_eq zero)
  omega

/-! ### The free list of the allocator -/

/-- `xStart` leads to the free blocks, which lie in the heap, and to the end marker. -/
structure FreeList (layout : Layout) (mem : Bytes) (free : List Span) : Prop where
  startSize : sizeAt mem layout.xStart.toNat = 0
  start : nextAt mem layout.xStart.toNat = first layout.marker free
  chain : Chain mem layout.marker free
  endNext : nextAt mem layout.marker = 0
  separated : Separated free
  blocks : ∀ t ∈ free, layout.low ≤ t.start ∧ t.stop ≤ layout.marker ∧ 8 ≤ t.size

/-- The address is in no free block, and not in the link of `xStart`. -/
def Untouched (layout : Layout) (free : List Span) (a : Nat) : Prop :=
  ¬ Covers free a ∧ (a < layout.xStart.toNat ∨ layout.xStart.toNat + 4 ≤ a)

variable {layout : Layout} {s : State} {mem mem' : Bytes} {free rest : List Span} {b t : Span}
  {fuel : Nat} {xWantedSize : Word}

theorem FreeList.congr (list : FreeList layout mem free)
    (same : ∀ a, Covers free a ∨ (layout.xStart.toNat ≤ a ∧ a < layout.xStart.toNat + 8) ∨
      (layout.marker ≤ a ∧ a < layout.marker + 8) → mem' a = mem a) :
    FreeList layout mem' free where
  startSize := by
    rw [sizeAt_congr fun a low high => same a (Or.inr (Or.inl ⟨low, high⟩)), list.startSize]
  start := by
    rw [nextAt_congr fun a low high => same a (Or.inr (Or.inl ⟨low, by omega⟩)), list.start]
  chain := by
    refine list.chain.congr fun t member a low high => same a (Or.inl ⟨t, member, low, ?_⟩)
    have := (list.blocks t member).2.2
    simp only [stop]
    omega
  endNext := by
    rw [nextAt_congr fun a low high => same a (Or.inr (Or.inr ⟨low, by omega⟩)), list.endNext]
  separated := list.separated
  blocks := list.blocks

/-- There are fewer free blocks than steps that the loops may take. -/
theorem FreeList.total_le (list : FreeList layout mem free) :
    total free ≤ 32768 ∧ free.length < loopFuel := by
  have range := layout.range
  have low := layout.low_bounds
  have marker := layout.marker_bounds
  have bound : total free ≤ layout.marker - layout.low := list.separated.total_le (by omega)
    fun t member => ⟨(list.blocks t member).1, (list.blocks t member).2.1⟩
  have few := mul_length_le_total (n := 8) fun t member => (list.blocks t member).2.2
  have fuel : loopFuel = 32768 := rfl
  omega

theorem FreeList.startWord (list : FreeList layout s.mem free) :
    s.xBlockSize layout.xStart = 0 :=
  BitVec.eq_of_toNat_eq list.startSize

/-- Nothing that is free is in `xStart` or in the end marker. -/
theorem FreeList.within (list : FreeList layout mem free) {a : Nat} (covered : Covers free a) :
    layout.low ≤ a ∧ a < layout.marker := by
  obtain ⟨t, member, inside⟩ := covered
  have := list.blocks t member
  simp only [Contains] at inside
  omega

/-- `prvInsertBlockIntoFreeList` puts a block back. -/
theorem FreeList.insert (list : FreeList layout s.mem free) (atEnd : s.pxEnd = layout.endAddress)
    {pxBlockToInsert : Word} (here : pxBlockToInsert.toNat = b.start)
    (size : sizeAt s.mem b.start = b.size)
    (within : layout.low ≤ b.start ∧ b.stop ≤ layout.marker ∧ 8 ≤ b.size)
    (apart : ∀ t ∈ free, b.Apart t) (enough : free.length < fuel) :
    ∃ mem', prvInsertBlockIntoFreeList layout fuel s pxBlockToInsert = some (s.withMem mem') ∧
      FreeList layout mem' (Span.insert b free) ∧
      ∀ a, Untouched layout (b :: free) a → mem' a = s.mem a := by
  have range := layout.range
  have inserts : Inserts layout.marker layout.xStart.toNat b free := by
    refine ⟨list.separated, ⟨within.2.2, within.2.1⟩, fun t member => ?_, apart,
      List.forall_mem_cons.mpr ⟨?_, fun t member => ?_⟩⟩
    · exact (list.blocks t member).2.symm
    · omega
    · have := list.blocks t member
      omega
  have behind : layout.xStart + s.xBlockSize layout.xStart ≠ pxBlockToInsert := by
    have behind : layout.xStart + 0 = layout.xStart := BitVec.add_zero _
    rw [list.startWord, behind, ne_eq, ← BitVec.toNat_inj, here]
    simp only [stop] at within
    omega
  obtain ⟨mem, inserted, start, joined, kept⟩ := insert_spec here size list.start list.chain
    (congrArg BitVec.toNat atEnd) inserts behind enough
  have untouched : ∀ a, Untouched layout (b :: free) a → mem a = s.mem a := by
    rintro a ⟨uncovered, away⟩
    refine kept a (fun t member => ?_) away
    by_contra inside
    apply uncovered
    have := inserts.header t member
    refine ⟨t, member, ?_⟩
    simp only [OffHeader, Contains, stop] at *
    omega
  have bounded : ∀ t ∈ b :: free, layout.low ≤ t.start ∧ t.stop ≤ layout.marker ∧ 8 ≤ t.size :=
    List.forall_mem_cons.mpr ⟨within, list.blocks⟩
  -- everything but the list is where none of its blocks is
  have elsewhere : ∀ a, ¬ (layout.low ≤ a ∧ a < layout.marker) →
      (a < layout.xStart.toNat ∨ layout.xStart.toNat + 4 ≤ a) → mem a = s.mem a := by
    intro a outside away
    refine untouched a ⟨?_, away⟩
    rintro ⟨t, member, inside⟩
    have := bounded t member
    simp only [Contains] at inside
    omega
  refine ⟨mem, inserted, ⟨?_, start, joined, ?_, list.separated.insert (by omega) apart, ?_⟩, untouched⟩
  · rw [← list.startSize, sizeAt, sizeAt]
    refine congrArg BitVec.toNat (WordMemory.load_congr fun a low high => elsewhere a ?_ (by omega))
    omega
  · rw [← list.endNext]
    exact nextAt_congr fun a low high => elsewhere a (by omega) (by omega)
  · intro t member
    obtain ⟨start, stop, header⟩ := forall_insert (fun x => layout.low ≤ x ∧ x ≤ layout.marker) 8
      (fun u among => by
        have := bounded u among
        simp only [Span.stop] at *
        omega) t member
    exact ⟨start.1, stop.2, header⟩

/-! ### The first half of `pvPortMalloc` -/

/-- The blocks are not at 0, where a link would be taken for the end of the list. -/
theorem FreeList.starts (list : FreeList layout mem free) : ∀ t ∈ free, t.start ≠ 0 := by
  intro t member
  have := list.blocks t member
  have := layout.range
  omega

theorem FreeList.search_none (list : FreeList layout s.mem free)
    (atEnd : s.pxEnd = layout.endAddress) (refused : carve 32 xWantedSize.toNat free = none)
    (enough : free.length < fuel) :
    ∃ pxPreviousBlock, searchFreeList s xWantedSize fuel layout.xStart
      (s.pxNextFreeBlock layout.xStart) = some (pxPreviousBlock, s.pxEnd) := by
  have range := layout.range
  exact searchFreeList_none list.start list.chain (congrArg BitVec.toNat atEnd) list.endNext
    (by omega) list.starts (carve_eq_none_iff.mp refused) enough

/-- The search finds the block, and the store that follows it takes the block out of the list. -/
theorem FreeList.unlink {before after : List Span}
    (list : FreeList layout s.mem (before ++ t :: after))
    (small : ∀ u ∈ before, u.size < xWantedSize.toNat) (large : xWantedSize.toNat ≤ t.size)
    (enough : before.length < fuel) :
    ∃ pxPreviousBlock pxBlock mem', searchFreeList s xWantedSize fuel layout.xStart
        (s.pxNextFreeBlock layout.xStart) = some (pxPreviousBlock, pxBlock) ∧
      pxBlock.toNat = t.start ∧ s.pxNextFreeBlock pxPreviousBlock = pxBlock ∧
      s.setNextFreeBlock pxPreviousBlock (s.pxNextFreeBlock pxBlock) = s.withMem mem' ∧
      FreeList layout mem' (before ++ after) ∧ sizeAt mem' t.start = t.size ∧
      ∀ a, Untouched layout (before ++ t :: after) a → mem' a = s.mem a := by
  have range := layout.range
  have sizes : ∀ u ∈ before ++ t :: after, 8 ≤ u.size := fun u member => (list.blocks u member).2.2
  have front : ∀ u ∈ before ++ t :: after, layout.xStart.toNat + 8 ≤ u.start ∨
      u.stop ≤ layout.xStart.toNat := by
    intro u member
    have := list.blocks u member
    omega
  obtain ⟨previous, block, found, here, leads, among, start, chain⟩ := searchFreeList_some list.start
    list.start list.chain list.starts list.separated sizes front small large enough
  have sublist : (before ++ after).Sublist (before ++ t :: after) :=
    List.Sublist.append_left (List.sublist_cons_self t after) before
  -- the link that is changed is that of `xStart`, or in a block in front
  have place : previous = layout.xStart ∨ ∃ u ∈ before ++ t :: after, previous.toNat = u.start ∧
      (u.stop ≤ t.start ∨ t.stop ≤ u.start) := by
    rcases among with same | ⟨u, member, at_⟩
    · exact Or.inl same
    · have gap := (List.pairwise_append.mp list.separated.gaps).2.2 u member t List.mem_cons_self
      exact Or.inr ⟨u, List.mem_append_left _ member, at_, Or.inl (Nat.le_of_lt gap)⟩
  refine ⟨previous, block, _, found, here, BitVec.eq_of_toNat_eq (leads.trans here.symm), rfl,
    ⟨?_, start, chain, ?_, ⟨list.separated.gaps.sublist sublist,
      fun u member => list.separated.sizes u (sublist.subset member)⟩,
      fun u member => list.blocks u (sublist.subset member)⟩, ?_, ?_⟩
  · rw [← list.startSize]
    rcases place with rfl | ⟨u, member, at_, -⟩
    · exact sizeAt_store_next
    · have := list.blocks u member
      have := front u member
      simp only [stop] at *
      exact sizeAt_congr fun a low high => WordMemory.store_outside (by omega)
  · rw [← list.endNext]
    refine nextAt_congr fun a low high => WordMemory.store_outside ?_
    rcases place with rfl | ⟨u, member, at_, -⟩
    · omega
    · have := list.blocks u member
      simp only [stop] at *
      omega
  · rw [← list.chain.size (t := t) (by simp)]
    refine sizeAt_congr fun a low high => WordMemory.store_outside ?_
    have := list.blocks t (by simp)
    rcases place with rfl | ⟨u, member, at_, apart⟩
    · have := front t (by simp)
      simp only [stop] at *
      omega
    · have := list.blocks u member
      simp only [stop] at *
      omega
  · rintro a ⟨uncovered, away⟩
    apply WordMemory.store_outside
    rcases place with rfl | ⟨u, member, at_, -⟩
    · exact away
    · by_contra inside
      apply uncovered
      have := sizes u member
      exact ⟨u, member, by simp only [Contains, stop]; omega⟩

/-- A block that is in no list is cut, and its end is put into the list. -/
theorem FreeList.split (list : FreeList layout s.mem free) (atEnd : s.pxEnd = layout.endAddress)
    {pxBlock : Word} (here : pxBlock.toNat = t.start) (size : sizeAt s.mem t.start = t.size)
    (within : layout.low ≤ t.start ∧ t.stop ≤ layout.marker) (apart : ∀ u ∈ free, t.Apart u)
    (wanted : 8 ≤ xWantedSize.toNat) (remains : xWantedSize.toNat + 8 ≤ t.size)
    (enough : free.length < fuel) :
    ∃ mem', prvInsertBlockIntoFreeList layout fuel
        ((s.setBlockSize (pxBlock + xWantedSize) (s.xBlockSize pxBlock - xWantedSize)).setBlockSize
          pxBlock xWantedSize) (pxBlock + xWantedSize) = some (s.withMem mem') ∧
      FreeList layout mem'
        (Span.insert ⟨t.start + xWantedSize.toNat, t.size - xWantedSize.toNat⟩ free) ∧
      sizeAt mem' t.start = xWantedSize.toNat ∧
      ∀ a, Untouched layout (t :: free) a → mem' a = s.mem a := by
  have range := layout.range
  simp only [stop] at within
  have next : (pxBlock + xWantedSize).toNat = t.start + xWantedSize.toNat := by
    rw [BitVec.toNat_add_of_lt (by omega), here]
  have sizeWord : (s.xBlockSize pxBlock).toNat = t.size := by
    rw [← size, ← here]
    rfl
  have left : (s.xBlockSize pxBlock - xWantedSize).toNat = t.size - xWantedSize.toNat := by
    rw [BitVec.toNat_sub_of_le (BitVec.le_def.mpr (by omega)), sizeWord]
  generalize s.xBlockSize pxBlock - xWantedSize = remainder at left
  -- the two sizes are stored in the block that is cut
  have state : (s.setBlockSize (pxBlock + xWantedSize) remainder).setBlockSize pxBlock xWantedSize =
      s.withMem (WordMemory.store (WordMemory.store s.mem (t.start + xWantedSize.toNat + 4) remainder)
        (t.start + 4) xWantedSize) := by
    simp only [State.setBlockSize, next, here, State.withMem]
  rw [state]
  have kept : ∀ a, a < t.start ∨ t.stop ≤ a →
      WordMemory.store (WordMemory.store s.mem (t.start + xWantedSize.toNat + 4) remainder)
        (t.start + 4) xWantedSize a = s.mem a := by
    intro a outside
    simp only [stop] at outside
    rw [WordMemory.store_outside (by omega), WordMemory.store_outside (by omega)]
  have list' : FreeList layout (s.withMem (WordMemory.store
      (WordMemory.store s.mem (t.start + xWantedSize.toNat + 4) remainder)
      (t.start + 4) xWantedSize)).mem free := by
    refine list.congr fun a place => kept a ?_
    simp only [stop]
    rcases place with ⟨u, member, inside⟩ | place
    · have := apart u member
      simp only [Apart, Contains, stop] at *
      omega
    · omega
  obtain ⟨mem, inserted, list, untouched⟩ := list'.insert
    (b := ⟨t.start + xWantedSize.toNat, t.size - xWantedSize.toNat⟩) atEnd next
    (by
      refine (sizeAt_store_size_apart (Or.inl (by simp only; omega))).trans ?_
      exact sizeAt_store.trans left)
    (by simp only [stop]; omega)
    (fun u member => by
      have := apart u member
      simp only [Apart, stop] at *
      omega)
    enough
  refine ⟨mem, inserted, list, ?_, ?_⟩
  · -- the header of the block is not in what was put into the list
    have stored : sizeAt (WordMemory.store (WordMemory.store s.mem
        (t.start + xWantedSize.toNat + 4) remainder) (t.start + 4) xWantedSize) t.start =
          xWantedSize.toNat := sizeAt_store
    refine Eq.trans ?_ stored
    refine sizeAt_congr fun a low high => untouched a ⟨?_, by omega⟩
    intro covered
    rcases covers_cons.mp covered with inside | ⟨u, member, inside⟩
    · simp only [Contains] at inside
      omega
    · have := apart u member
      simp only [Apart, Contains, stop] at *
      omega
  · rintro a ⟨uncovered, away⟩
    rw [covers_cons, not_or] at uncovered
    obtain ⟨outside, others⟩ := uncovered
    have elsewhere : a < t.start ∨ t.stop ≤ a := by
      simp only [Contains] at outside
      omega
    refine (untouched a ⟨?_, away⟩).trans (kept a elsewhere)
    rw [covers_cons, not_or]
    refine ⟨?_, others⟩
    simp only [Contains, stop] at *
    omega

/-- The bytes of the free blocks and the link of `xStart` are all that is written when a list
with less addresses is changed. -/
theorem Untouched.mono {a : Nat} (untouched : Untouched layout free a)
    (less : ∀ x, Covers rest x → Covers free x) :
    Untouched layout rest a :=
  ⟨fun covered => untouched.1 (less a covered), untouched.2⟩

/-- The search and what follows it are `Span.carve`. -/
theorem FreeList.take (list : FreeList layout s.mem free) (atEnd : s.pxEnd = layout.endAddress)
    (wanted : 8 ≤ xWantedSize.toNat) (carved : carve 32 xWantedSize.toNat free = some (b, rest))
    (enough : free.length < fuel) :
    ∃ pxPreviousBlock pxBlock mem', searchFreeList s xWantedSize fuel layout.xStart
        (s.pxNextFreeBlock layout.xStart) = some (pxPreviousBlock, pxBlock) ∧
      pxBlock.toNat = b.start ∧ s.pxNextFreeBlock pxPreviousBlock = pxBlock ∧
      unlinkBlock layout fuel s xWantedSize pxPreviousBlock pxBlock = some (s.withMem mem') ∧
      FreeList layout mem' rest ∧ sizeAt mem' b.start = b.size ∧
      ∀ a, Untouched layout free a → mem' a = s.mem a := by
  obtain ⟨before, t, after, rfl, small, large, taken⟩ := carve_cases carved
  have fewer : before.length < fuel ∧ (before ++ after).length < fuel := by
    simp only [List.length_append, List.length_cons] at enough ⊢
    omega
  obtain ⟨previous, block, mem, found, here, leads, unlinked, list', size, untouched⟩ :=
    list.unlink small large fewer.1
  have sizeWord : ((s.withMem mem).xBlockSize block).toNat = t.size := by
    rw [← size, ← here]
    rfl
  have remainder : ((s.withMem mem).xBlockSize block - xWantedSize).toNat =
      t.size - xWantedSize.toNat := by
    rw [BitVec.toNat_sub_of_le (BitVec.le_def.mpr (by omega)), sizeWord]
  have minimum : heapMinimumBlockSize.toNat = 32 := rfl
  rcases taken with ⟨remains, rfl, rfl⟩ | ⟨tight, rfl, rfl⟩
  · have within := list.blocks t (by simp)
    have apart : ∀ u ∈ before ++ after, t.Apart u := by
      intro u member
      have gaps := List.pairwise_append.mp list.separated.gaps
      rcases List.mem_append.mp member with front | behind
      · exact Or.inr (Nat.le_of_lt (gaps.2.2 u front t List.mem_cons_self))
      · exact Or.inl (Nat.le_of_lt ((List.pairwise_cons.mp gaps.2.1).1 u behind))
    obtain ⟨mem', inserted, list'', size', untouched'⟩ := list'.split (s := s.withMem mem)
      atEnd here size ⟨within.1, within.2.1⟩ apart wanted (by omega) fewer.2
    have inPlace : Span.insert ⟨t.start + xWantedSize.toNat, t.size - xWantedSize.toNat⟩
        (before ++ after) =
        before ++ ⟨t.start + xWantedSize.toNat, t.size - xWantedSize.toNat⟩ :: after := by
      apply list''.separated.eq_of_covers (list.separated.carve carved).1
      intro a
      rw [covers_insert, covers_append, covers_append, covers_cons, or_left_comm]
    rw [inPlace] at list''
    refine ⟨previous, block, mem', found, here, leads, ?_, list'', size', fun a outside => ?_⟩
    · rw [unlinkBlock, unlinked]
      refine (if_pos ?_).trans inserted
      rw [gt_iff_lt, BitVec.lt_def, minimum, remainder]
      exact remains
    · have less : ∀ x, Covers (t :: (before ++ after)) x → Covers (before ++ t :: after) x := by
        intro x
        rw [covers_cons, covers_append, covers_append, covers_cons, or_left_comm]
        exact id
      exact (untouched' a (outside.mono less)).trans (untouched a outside)
  · refine ⟨previous, block, mem, found, here, leads, ?_, list', size, untouched⟩
    rw [unlinkBlock, unlinked]
    refine if_neg ?_
    rw [gt_iff_lt, BitVec.lt_def, minimum, remainder]
    exact Nat.not_lt.mpr tight

/-! ### The whole calls -/

/-- The heap is initialised, and `xFreeBytesRemaining` counts the bytes of the free blocks. -/
structure Ready (layout : Layout) (s : State) (free : List Span) : Prop where
  atEnd : s.pxEnd = layout.endAddress
  list : FreeList layout s.mem free
  remaining : s.xFreeBytesRemaining.toNat = total free

theorem Ready.pxEnd_ne_null (ready : Ready layout s free) : s.pxEnd ≠ null := by
  have marker : s.pxEnd.toNat = layout.marker := congrArg BitVec.toNat ready.atEnd
  have range := layout.range
  intro isNull
  rw [isNull] at marker
  have : null.toNat = 0 := rfl
  omega

theorem prvHeapInit_ready (layout : Layout) (s : State) :
    Ready layout (prvHeapInit layout s) [⟨layout.low, layout.marker - layout.low⟩] := by
  have range := layout.range
  have low : layout.pucAlignedHeap.toNat = layout.low := rfl
  have marker : layout.endAddress.toNat = layout.marker := rfl
  have size : (layout.endAddress - layout.pucAlignedHeap).toNat = layout.marker - layout.low :=
    BitVec.toNat_sub_of_le (BitVec.le_def.mpr (by omega))
  have memory : (prvHeapInit layout s).mem = WordMemory.store (WordMemory.store (WordMemory.store
      (WordMemory.store (WordMemory.store (WordMemory.store s.mem layout.xStart.toNat
        layout.pucAlignedHeap) (layout.xStart.toNat + 4) 0) (layout.marker + 4) 0) layout.marker null)
      (layout.low + 4) (layout.endAddress - layout.pucAlignedHeap)) layout.low layout.endAddress := rfl
  have block : sizeAt (prvHeapInit layout s).mem layout.low = layout.marker - layout.low := by
    rw [memory, sizeAt]
    simp (disch := omega) only [WordMemory.load_store_of_apart, WordMemory.load_store]
    exact size
  refine ⟨rfl, ⟨?_, ?_, ⟨block, ?_, trivial⟩, ?_, ?_, ?_⟩, ?_⟩
  · rw [memory, sizeAt]
    simp (disch := omega) only [WordMemory.load_store_of_apart, WordMemory.load_store]
    rfl
  · rw [memory, nextAt]
    simp (disch := omega) only [WordMemory.load_store_of_apart, WordMemory.load_store]
    rfl
  · rw [memory, nextAt]
    simp only [WordMemory.load_store]
    rfl
  · rw [memory, nextAt]
    simp (disch := omega) only [WordMemory.load_store_of_apart, WordMemory.load_store]
    rfl
  · exact separated_cons.mpr ⟨by simp only; omega, by simp, .nil⟩
  · simp only [List.mem_singleton, forall_eq, stop]
    omega
  · -- the counter is read from the header of the block
    exact block.trans (by simp)

theorem prvHeapInit_outside (layout : Layout) (s : State) {a : Nat} (outside : ¬ layout.Owns a) :
    (prvHeapInit layout s).mem a = s.mem a := by
  have range := layout.range
  have low := layout.low_bounds
  have marker := layout.marker_bounds
  have size : configTotalHeapSize.toNat = 32768 := rfl
  simp only [Layout.Owns, size] at outside
  have memory : (prvHeapInit layout s).mem = WordMemory.store (WordMemory.store (WordMemory.store
      (WordMemory.store (WordMemory.store (WordMemory.store s.mem layout.xStart.toNat
        layout.pucAlignedHeap) (layout.xStart.toNat + 4) 0) (layout.marker + 4) 0) layout.marker null)
      (layout.low + 4) (layout.endAddress - layout.pucAlignedHeap)) layout.low layout.endAddress := rfl
  rw [memory]
  simp (disch := omega) only [WordMemory.store_outside]

/-- The bytes of the block for a request: the header, and at least as much as was asked for. -/
def requiredSize (n : Nat) : Nat := 16 * (n / 16) + 32

theorem blockSizeFor_toNat (pos : 0 < xWantedSize.toNat) : (blockSizeFor xWantedSize).toNat =
    if requiredSize xWantedSize.toNat < 2 ^ 32 then requiredSize xWantedSize.toNat else 0 := by
  have additional : (xHeapStructSize + portByteAlignment -
      (xWantedSize &&& portByteAlignmentMask)).toNat = 32 - xWantedSize.toNat % 16 := by
    have sum : (xHeapStructSize + portByteAlignment).toNat = 32 := rfl
    rw [BitVec.toNat_sub_of_le, sum, toNat_and_alignmentMask]
    rw [BitVec.le_def, sum, toNat_and_alignmentMask]
    omega
  have positive : xWantedSize > 0 := pos
  rw [blockSizeFor, if_pos positive]
  simp only
  generalize xHeapStructSize + portByteAlignment - (xWantedSize &&& portByteAlignmentMask) =
    xAdditionalRequiredSize at additional
  have room : (heapSizeMax - xAdditionalRequiredSize).toNat =
      2 ^ 32 - 1 - (32 - xWantedSize.toNat % 16) := by
    have max : heapSizeMax.toNat = 2 ^ 32 - 1 := rfl
    rw [BitVec.toNat_sub_of_le (BitVec.le_def.mpr (by omega)), max, additional]
  have bound := xWantedSize.isLt
  rw [heapAddWillOverflow]
  simp only [decide_eq_true_eq, gt_iff_lt, BitVec.lt_def, room]
  by_cases fits : requiredSize xWantedSize.toNat < 2 ^ 32
  · rw [if_pos fits]
    simp only [requiredSize] at fits ⊢
    rw [if_neg (by omega), BitVec.toNat_add_of_lt (by omega), additional]
    omega
  · rw [if_neg fits]
    simp only [requiredSize] at fits
    rw [if_pos (by omega)]
    rfl

theorem heapBlockSizeIsValid_eq (xBlockSize : Word) :
    heapBlockSizeIsValid xBlockSize = decide (xBlockSize.toNat < 2 ^ 31) := by
  rw [heapBlockSizeIsValid, isSet_allocatedBitmask, ← decide_not, decide_eq_decide, Nat.not_le]

theorem Ready.malloc_zero (ready : Ready layout s free) :
    pvPortMalloc layout fuel 0 s = some (null, s) := by
  rw [pvPortMalloc, if_neg ready.pxEnd_ne_null]
  simp [blockSizeFor]

/-- Where no free block is large enough, the call returns `NULL` and changes nothing. -/
theorem Ready.malloc_none (ready : Ready layout s free) (pos : 0 < xWantedSize.toNat)
    (refused : carve 32 (requiredSize xWantedSize.toNat) free = none) (enough : free.length < fuel) :
    pvPortMalloc layout fuel xWantedSize s = some (null, s) := by
  rw [pvPortMalloc, if_neg ready.pxEnd_ne_null]
  simp only
  split
  next =>
    split
    next fits =>
      have size : (blockSizeFor xWantedSize).toNat = requiredSize xWantedSize.toNat := by
        have := fits.1
        rw [gt_iff_lt, BitVec.lt_def] at this
        have cases := blockSizeFor_toNat pos
        split at cases
        · exact cases
        · rw [cases] at this
          exact absurd this (Nat.lt_irrefl 0)
      rw [← size] at refused
      obtain ⟨previous, found⟩ := ready.list.search_none ready.atEnd refused enough
      rw [found]
      simp
    next => rfl
  next => rfl

/-- What a call that succeeds leaves behind. -/
structure Allocated (layout : Layout) (s s' : State) (free rest : List Span) (b : Span) : Prop where
  ready : Ready layout s' rest
  size : sizeAt s'.mem b.start = b.size + 2 ^ 31
  link : nextAt s'.mem b.start = 0
  minimum : s'.xMinimumEverFreeBytesRemaining.toNat =
    min s.xMinimumEverFreeBytesRemaining.toNat (total rest)
  allocations : s'.xNumberOfSuccessfulAllocations = s.xNumberOfSuccessfulAllocations + 1
  frees : s'.xNumberOfSuccessfulFrees = s.xNumberOfSuccessfulFrees
  untouched : ∀ a, Untouched layout free a → s'.mem a = s.mem a

/-- The header of a block that is handed out is all that changes in memory. -/
theorem FreeList.handOut (list : FreeList layout s.mem free) {pxBlock : Word}
    (here : pxBlock.toNat = b.start) (size : sizeAt s.mem b.start = b.size)
    (small : b.size < 2 ^ 31) (header : 8 ≤ b.size)
    (within : layout.low ≤ b.start ∧ b.stop ≤ layout.marker) (apart : ∀ t ∈ free, b.Apart t) :
    FreeList layout (s.handOut pxBlock).mem free ∧
      sizeAt (s.handOut pxBlock).mem b.start = b.size + 2 ^ 31 ∧
      nextAt (s.handOut pxBlock).mem b.start = 0 ∧
      ∀ a, OffHeader b a → (s.handOut pxBlock).mem a = s.mem a := by
  have range := layout.range
  have sizeWord : (s.xBlockSize pxBlock).toNat = b.size := by
    rw [← size, ← here]
    rfl
  have memory : (s.handOut pxBlock).mem = WordMemory.store (WordMemory.store s.mem (b.start + 4)
      (s.xBlockSize pxBlock ||| heapBlockAllocatedBitmask)) b.start null := by
    rw [← here]
    rfl
  have kept : ∀ a, OffHeader b a → (s.handOut pxBlock).mem a = s.mem a := by
    intro a off
    simp only [OffHeader] at off
    rw [memory, WordMemory.store_outside (by omega), WordMemory.store_outside (by omega)]
  refine ⟨list.congr fun a place => kept a ?_, ?_, ?_, kept⟩
  · simp only [OffHeader]
    rcases place with ⟨t, member, inside⟩ | place
    · have := apart t member
      simp only [Apart, Contains, stop] at *
      omega
    · simp only [stop] at within
      omega
  · rw [memory, sizeAt_store_next, sizeAt_store, toNat_or_allocatedBitmask (by omega), sizeWord]
  · rw [memory, nextAt_store]
    rfl

/-- Where a free block is large enough, the call hands out the one that `Span.carve` takes. -/
theorem Ready.malloc_some (ready : Ready layout s free) (pos : 0 < xWantedSize.toNat)
    (carved : carve 32 (requiredSize xWantedSize.toNat) free = some (b, rest))
    (enough : free.length < fuel) :
    ∃ pv s', pvPortMalloc layout fuel xWantedSize s = some (pv, s') ∧ pv.toNat = b.start + 16 ∧
      Allocated layout s s' free rest b := by
  have range := layout.range
  have bound := ready.list.total_le.1
  have shares := total_carve carved
  have sizes := carve_size carved
  have smallest : 32 ≤ requiredSize xWantedSize.toNat := Nat.le_add_left _ _
  have within : layout.low ≤ b.start ∧ b.stop ≤ layout.marker := within_of_contains (by omega)
    fun a inside => ready.list.within ((covers_carve carved).mpr (Or.inl inside))
  have apart := (ready.list.separated.carve carved).2
  have wanted : (blockSizeFor xWantedSize).toNat = requiredSize xWantedSize.toNat := by
    rw [blockSizeFor_toNat pos, if_pos (by omega)]
  have valid : heapBlockSizeIsValid (blockSizeFor xWantedSize) = true := by
    rw [heapBlockSizeIsValid_eq, wanted, decide_eq_true_eq]
    omega
  have fits : blockSizeFor xWantedSize > 0 ∧ blockSizeFor xWantedSize ≤ s.xFreeBytesRemaining := by
    have zero : (0 : Word).toNat = 0 := rfl
    rw [gt_iff_lt, BitVec.lt_def, BitVec.le_def, wanted, ready.remaining, zero]
    omega
  rw [← wanted] at carved
  obtain ⟨previous, block, mem, found, here, leads, unlinked, list, size, untouched⟩ :=
    ready.list.take ready.atEnd (by omega) carved enough
  have inList : block ≠ s.pxEnd := by
    have marker : s.pxEnd.toNat = layout.marker := congrArg BitVec.toNat ready.atEnd
    simp only [stop] at within
    rw [ne_eq, ← BitVec.toNat_inj, here, marker]
    omega
  have sizeWord : ((s.withMem mem).xBlockSize block).toNat = b.size := by
    rw [← size, ← here]
    rfl
  obtain ⟨list', size', link, kept⟩ := list.handOut (s := s.withMem mem) here size (by omega) (by omega)
    within apart
  have remaining : ((s.withMem mem).handOut block).xFreeBytesRemaining.toNat = total rest := by
    have left : ((s.withMem mem).handOut block).xFreeBytesRemaining =
      s.xFreeBytesRemaining - (s.withMem mem).xBlockSize block := rfl
    have := ready.remaining
    rw [left, BitVec.toNat_sub_of_le (BitVec.le_def.mpr (by omega)), sizeWord]
    omega
  refine ⟨block + xHeapStructSize, (s.withMem mem).handOut block, ?_, ?_,
    ⟨⟨ready.atEnd, list', remaining⟩, size', link, ?_, rfl, rfl, fun a outside => ?_⟩⟩
  · rw [pvPortMalloc, if_neg ready.pxEnd_ne_null]
    simp only
    rw [if_pos valid, if_pos fits, found, Option.bind_some]
    simp only
    rw [if_pos inList, unlinked, leads, Option.map_some]
  · have header : xHeapStructSize.toNat = 16 := rfl
    simp only [stop] at within
    rw [BitVec.toNat_add_of_lt (by omega), here, header]
  · have minimum : ((s.withMem mem).handOut block).xMinimumEverFreeBytesRemaining =
        if ((s.withMem mem).handOut block).xFreeBytesRemaining < s.xMinimumEverFreeBytesRemaining then
          ((s.withMem mem).handOut block).xFreeBytesRemaining
        else s.xMinimumEverFreeBytesRemaining := rfl
    rw [minimum, ← remaining]
    split
    next less =>
      rw [BitVec.lt_def] at less
      exact (Nat.min_eq_right (Nat.le_of_lt less)).symm
    next more =>
      rw [BitVec.lt_def] at more
      exact (Nat.min_eq_left (Nat.le_of_not_lt more)).symm
  · refine (kept a ?_).trans (untouched a outside)
    have uncovered : ¬ b.Contains a := fun inside =>
      outside.1 ((covers_carve carved).mpr (Or.inl inside))
    simp only [OffHeader, Contains, stop] at *
    omega

/-- The header that is in front of a pointer. -/
theorem pxLink_toNat {pv : Word} (header : 16 ≤ pv.toNat) :
    (pv - xHeapStructSize).toNat = pv.toNat - 16 :=
  BitVec.toNat_sub_of_le header

/-- Marking the block as free changes its size word alone. -/
theorem freeMark_some {pv : Word} (header : 16 ≤ pv.toNat)
    (marked : 2 ^ 31 ≤ sizeAt s.mem (pv.toNat - 16)) (link : nextAt s.mem (pv.toNat - 16) = 0) :
    ∃ mem', freeMark pv s = some (s.withMem mem') ∧
      sizeAt mem' (pv.toNat - 16) = sizeAt s.mem (pv.toNat - 16) - 2 ^ 31 ∧
      ∀ a, a < pv.toNat - 16 + 4 ∨ pv.toNat - 16 + 8 ≤ a → mem' a = s.mem a := by
  have here := pxLink_toNat header
  have size : s.xBlockSize (pv - xHeapStructSize) = WordMemory.load s.mem (pv.toNat - 16 + 4) := by
    rw [State.xBlockSize, here]
  have allocated : s.heapBlockIsAllocated (pv - xHeapStructSize) = true := by
    rw [State.heapBlockIsAllocated, isSet_allocatedBitmask, size, decide_eq_true_eq]
    exact marked
  have unlinked : s.pxNextFreeBlock (pv - xHeapStructSize) = null := by
    rw [State.pxNextFreeBlock, here]
    exact BitVec.eq_of_toNat_eq link
  have freed : s.heapFreeBlock (pv - xHeapStructSize) = s.withMem (WordMemory.store s.mem
      (pv.toNat - 16 + 4) (s.xBlockSize (pv - xHeapStructSize) &&& ~~~heapBlockAllocatedBitmask)) := by
    simp only [State.heapFreeBlock, State.setBlockSize, here, State.withMem]
  refine ⟨WordMemory.store s.mem (pv.toNat - 16 + 4)
    (s.xBlockSize (pv - xHeapStructSize) &&& ~~~heapBlockAllocatedBitmask), ?_, ?_,
    fun a outside => WordMemory.store_outside outside⟩
  · rw [freeMark, if_pos allocated, if_pos unlinked, freed]
  · rw [sizeAt_store, size, toNat_and_not_allocatedBitmask marked]
    rfl

/-- What the second half of `vPortFree` leaves behind. -/
structure Freed (layout : Layout) (s s' : State) (free : List Span) (b : Span) : Prop where
  ready : Ready layout s' (Span.insert b free)
  minimum : s'.xMinimumEverFreeBytesRemaining = s.xMinimumEverFreeBytesRemaining
  allocations : s'.xNumberOfSuccessfulAllocations = s.xNumberOfSuccessfulAllocations
  frees : s'.xNumberOfSuccessfulFrees = s.xNumberOfSuccessfulFrees + 1
  untouched : ∀ a, Untouched layout (b :: free) a → s'.mem a = s.mem a

theorem Ready.freeInsert (ready : Ready layout s free) {pv : Word} (header : 16 ≤ pv.toNat)
    (here : pv.toNat - 16 = b.start) (size : sizeAt s.mem b.start = b.size)
    (within : layout.low ≤ b.start ∧ b.stop ≤ layout.marker ∧ 8 ≤ b.size)
    (apart : ∀ t ∈ free, b.Apart t) (enough : free.length < fuel) :
    ∃ s', Heap.freeInsert layout fuel pv s = some s' ∧ Freed layout s s' free b := by
  have link := (pxLink_toNat header).trans here
  have sizeWord : (s.xBlockSize (pv - xHeapStructSize)).toNat = b.size := by
    rw [← size, ← link]
    rfl
  obtain ⟨mem, inserted, list, untouched⟩ := ready.list.insert
    (s := { s with xFreeBytesRemaining :=
      s.xFreeBytesRemaining + s.xBlockSize (pv - xHeapStructSize) })
    ready.atEnd link size within apart enough
  have sum : (s.xFreeBytesRemaining + s.xBlockSize (pv - xHeapStructSize)).toNat =
      total (Span.insert b free) := by
    have bound := list.total_le.1
    have remaining := ready.remaining
    rw [total_insert] at bound ⊢
    rw [BitVec.toNat_add_of_lt (by omega), sizeWord]
    omega
  refine ⟨{ s with
    mem := mem
    xFreeBytesRemaining := s.xFreeBytesRemaining + s.xBlockSize (pv - xHeapStructSize)
    xNumberOfSuccessfulFrees := s.xNumberOfSuccessfulFrees + 1 }, ?_,
    ⟨ready.atEnd, list, sum⟩, rfl, rfl, rfl, untouched⟩
  rw [Heap.freeInsert, inserted]
  rfl

end WchLwip.Heap
