import WchLwip.Properties.HeapInvariant

/-! What the counters of the allocator and `vPortGetHeapStats` say. -/
namespace WchLwip.Heap

open Span

variable {layout : Layout} {p q : Program} {a : Arena} {s : State} {mem : Bytes}

/-! ### Counters -/

/-- The calls that returned a pointer, and the blocks that were put back. -/
structure Tally where
  allocated : Nat
  freed : Nat

def Tally.count (layout : Layout) (tally : Tally) (p : Program) : Event → Tally
  | .malloc xWantedSize =>
    match pvPortMalloc layout loopFuel xWantedSize p.heap with
    | some (pv, _) => if pv = null then tally else { tally with allocated := tally.allocated + 1 }
    | none => tally
  | .freeInsert _ => { tally with freed := tally.freed + 1 }
  | _ => tally

/-- The counters hold the tally, and every pointer counts as allocated and not yet freed. -/
structure Counted (tally : Tally) (p : Program) : Prop where
  allocations : p.heap.xNumberOfSuccessfulAllocations = BitVec.ofNat 32 tally.allocated
  frees : p.heap.xNumberOfSuccessfulFrees = BitVec.ofNat 32 tally.freed
  held : tally.allocated = tally.freed + p.pointers.length

theorem initialised_counters (layout : Layout) (s : State) :
    (s.initialised layout).xNumberOfSuccessfulAllocations = s.xNumberOfSuccessfulAllocations ∧
      (s.initialised layout).xNumberOfSuccessfulFrees = s.xNumberOfSuccessfulFrees := by
  unfold State.initialised
  split <;> exact ⟨rfl, rfl⟩

theorem Counted.step {tally : Tally} {e : Event} (counted : Counted tally p)
    (rep : Represents layout p a) (stepped : p.step layout e = some q) :
    Counted (tally.count layout p e) q := by
  obtain ⟨allocations, frees, held⟩ := counted
  have started := initialised_counters layout p.heap
  cases rep.stepped stepped with
  | refused xWantedSize refused =>
    have same : tally.count layout p (.malloc xWantedSize) = tally := by
      rcases rep.malloc_cases xWantedSize with ⟨-, called⟩ | ⟨pv, s', b, rest, took⟩
      · simp only [Tally.count, called, if_true]
      · -- a request that takes a block is not refused
        rcases refused with rfl | none
        · exact absurd took.pos (Nat.lt_irrefl 0)
        · exact absurd (took.carved.symm.trans none) (Option.some_ne_none _)
    rw [same]
    exact ⟨started.1.trans allocations, started.2.trans frees, held⟩
  | @took xWantedSize pv s' b rest took =>
    have more : tally.count layout p (.malloc xWantedSize) =
        { tally with allocated := tally.allocated + 1 } := by
      simp only [Tally.count, took.called, if_neg took.nonnull]
    rw [more]
    refine ⟨?_, took.allocated.frees.trans (started.2.trans frees), ?_⟩
    · rw [took.allocated.allocations, started.1, allocations, BitVec.ofNat_add]
      rfl
    · simp only [Program.pointers, List.map_cons, List.cons_append, List.length_cons] at held ⊢
      omega
  | marked held' rep' kept =>
    refine ⟨allocations, frees, ?_⟩
    rw [(rep.marked_pointers held' _).length_eq]
    exact held
  | @freed pv s' held' freed rep' =>
    refine ⟨freed.allocations.trans allocations, ?_, ?_⟩
    · rw [Tally.count, BitVec.ofNat_add, ← frees]
      exact freed.frees
    · have one := (p.freed_pointers held' s').length_eq
      simp only [Tally.count, List.length_cons] at one ⊢
      omega
  | stored => exact ⟨allocations, frees, held⟩

/-- `xFreeBytesRemaining` is what the blocks that are in use leave of the heap, and the two
numbers of calls are exact, as far as a word can hold them; they differ by what is held. -/
theorem counters_exact (layout : Layout) (mem : Bytes) {es : List Event} {p : Program}
    (ran : (program layout).run (Program.boot layout mem) es = some p) :
    (p.heap.pxEnd ≠ null →
      p.heap.xFreeBytesRemaining.toNat + total p.blocks = layout.marker - layout.low) ∧
    Counted ((program layout).log (Tally.count layout) ⟨0, 0⟩ (Program.boot layout mem) es) p := by
  constructor
  · intro started
    obtain ⟨a, rep⟩ := Represents.reached ran
    rcases rep.heap with ready | ⟨fresh, -⟩
    · rw [ready.remaining, ← Arena.total_perm rep.used]
      exact rep.tiles.total
    · exact absurd fresh.notInit started
  · have start : Counted ⟨0, 0⟩ (Program.boot layout mem) := ⟨rfl, rfl, rfl⟩
    have inv := (program layout).log_invariant (Tally.count layout)
      (fun tally p => Counted tally p ∧ ∃ a, Represents layout p a)
      (fun tally p e q ⟨counted, a, rep⟩ stepped =>
        ⟨counted.step rep stepped, (rep.step stepped).imp fun _ kept => kept.2⟩)
      ⟨start, _, Represents.boot layout mem⟩ ran
    exact inv.1

theorem counters_exact_sample : ∃ p,
    (program sampleLayout).run (Program.boot sampleLayout fun _ => 0) sampleEvents = some p ∧
      p.heap.xFreeBytesRemaining.toNat + total p.blocks = sampleLayout.marker - sampleLayout.low := by
  obtain ⟨p, ran, -, -, -, started⟩ := sample_ran 0 (Or.inl rfl)
  exact ⟨p, ran, (counters_exact sampleLayout _ ran).1 (by rw [started]; decide)⟩

/-! ### The minimum -/

/-- The values of `xFreeBytesRemaining` since the heap was initialised. -/
def freeBytesSeen (seen : List Nat) (p : Program) (_ : Event) : List Nat :=
  if p.heap.pxEnd = null then seen else seen ++ [p.heap.xFreeBytesRemaining.toNat]

/-- `xMinimumEverFreeBytesRemaining` is the least of what was seen and what is there now. -/
def Lowest (seen : List Nat) (p : Program) : Prop :=
  (p.heap.pxEnd = null → seen = []) ∧
  (p.heap.pxEnd ≠ null → (seen ++ [p.heap.xFreeBytesRemaining.toNat]).min? =
    some p.heap.xMinimumEverFreeBytesRemaining.toNat)

theorem min?_concat {xs : List Nat} {m n k : Nat} (least : xs.min? = some m) (next : k = min m n) :
    (xs ++ [n]).min? = some k := by
  rw [List.min?_eq_some_iff] at least ⊢
  simp only [List.mem_append, List.mem_singleton]
  refine ⟨?_, ?_⟩
  · rcases Nat.le_total m n with le | le
    · rw [next, Nat.min_eq_left le]
      exact Or.inl least.1
    · rw [next, Nat.min_eq_right le]
      exact Or.inr rfl
  · rintro x (old | rfl)
    · exact next ▸ (Nat.min_le_left m n).trans (least.2 x old)
    · exact next ▸ Nat.min_le_right m x

/-- Once the heap is initialised, a step takes the minimum of the old value and the new count. -/
theorem Represents.step_minimum {e : Event} (rep : Represents layout p a)
    (ready : Ready layout p.heap a.free) (stepped : p.step layout e = some q)
    (above : p.heap.xMinimumEverFreeBytesRemaining.toNat ≤ p.heap.xFreeBytesRemaining.toNat) :
    q.heap.pxEnd ≠ null ∧ q.heap.xMinimumEverFreeBytesRemaining.toNat =
      min p.heap.xMinimumEverFreeBytesRemaining.toNat q.heap.xFreeBytesRemaining.toNat := by
  have same : p.heap.initialised layout = p.heap := if_neg ready.pxEnd_ne_null
  have kept := (Nat.min_eq_left above).symm
  cases rep.stepped stepped with
  | refused =>
    simp only [same]
    exact ⟨ready.pxEnd_ne_null, kept⟩
  | took took =>
    have minimum := took.allocated.minimum
    rw [same] at minimum
    exact ⟨took.allocated.ready.pxEnd_ne_null,
      minimum.trans (congrArg (min _) took.allocated.ready.remaining.symm)⟩
  | marked => exact ⟨ready.pxEnd_ne_null, kept⟩
  | @freed pv s' held freed =>
    have more : p.heap.xFreeBytesRemaining.toNat ≤ (p.freed pv s').heap.xFreeBytesRemaining.toNat := by
      have after := freed.ready.remaining
      have before := ready.remaining
      rw [total_insert] at after
      simp only [Program.freed]
      omega
    exact ⟨freed.ready.pxEnd_ne_null, (congrArg BitVec.toNat freed.minimum).trans
      (Nat.min_eq_left (above.trans more)).symm⟩
  | stored => exact ⟨ready.pxEnd_ne_null, kept⟩

theorem Lowest.step {seen : List Nat} {e : Event} (lowest : Lowest seen p)
    (rep : Represents layout p a) (stepped : p.step layout e = some q) :
    Lowest (freeBytesSeen seen p e) q := by
  obtain ⟨unseen, least⟩ := lowest
  rcases rep.heap with ready | ⟨fresh, unused⟩
  · have started := ready.pxEnd_ne_null
    have before := least started
    have above := (List.min?_eq_some_iff.mp before).2 p.heap.xFreeBytesRemaining.toNat
      (List.mem_append_right _ List.mem_cons_self)
    obtain ⟨still, minimum⟩ := rep.step_minimum ready stepped above
    rw [freeBytesSeen, if_neg started]
    exact ⟨fun isNull => absurd isNull still, fun _ => min?_concat before minimum⟩
  · have nothing : ∀ pv, pv ∉ p.pointers := by
      intro pv held
      have used := rep.block_used held
      rw [unused] at used
      cases used
    rw [freeBytesSeen, if_pos fresh.notInit, unseen fresh.notInit]
    have initialised : p.heap.initialised layout = prvHeapInit layout p.heap := if_pos fresh.notInit
    have ready := rep.initialised.1
    have full : (p.heap.initialised layout).xMinimumEverFreeBytesRemaining =
        (p.heap.initialised layout).xFreeBytesRemaining := by
      rw [initialised]
      rfl
    cases rep.stepped stepped with
    | refused =>
      exact ⟨fun isNull => absurd isNull ready.pxEnd_ne_null, fun _ => by simp [full]⟩
    | took took =>
      refine ⟨fun isNull => absurd isNull took.allocated.ready.pxEnd_ne_null, fun _ => ?_⟩
      have fewer := total_carve took.carved
      have minimum := took.allocated.minimum
      rw [full, ready.remaining, Nat.min_eq_right (by omega), ← took.allocated.ready.remaining] at minimum
      simp [minimum]
    | marked held => exact absurd (List.mem_append_left _ held) (nothing _)
    | freed held => exact absurd (List.mem_append_right _ held) (nothing _)
    | stored => exact ⟨fun _ => rfl, fun started => absurd fresh.notInit started⟩

/-- `xMinimumEverFreeBytesRemaining` is the least number of free bytes that there has been after
any call since the heap was initialised. -/
theorem minimum_ever_exact (layout : Layout) (mem : Bytes) {es : List Event} {p : Program}
    (ran : (program layout).run (Program.boot layout mem) es = some p)
    (started : p.heap.pxEnd ≠ null) :
    ((program layout).log freeBytesSeen [] (Program.boot layout mem) es ++
      [p.heap.xFreeBytesRemaining.toNat]).min? =
        some p.heap.xMinimumEverFreeBytesRemaining.toNat := by
  have start : Lowest [] (Program.boot layout mem) :=
    ⟨fun _ => rfl, fun started => absurd rfl started⟩
  have inv := (program layout).log_invariant freeBytesSeen
    (fun seen p => Lowest seen p ∧ ∃ a, Represents layout p a)
    (fun seen p e q ⟨lowest, a, rep⟩ stepped =>
      ⟨lowest.step rep stepped, (rep.step stepped).imp fun _ kept => kept.2⟩)
    ⟨start, _, Represents.boot layout mem⟩ ran
  exact inv.1.2 started

theorem minimum_ever_exact_sample : ∃ p seen,
    (program sampleLayout).run (Program.boot sampleLayout fun _ => 0) sampleEvents = some p ∧
      (seen ++ [p.heap.xFreeBytesRemaining.toNat]).min? =
        some p.heap.xMinimumEverFreeBytesRemaining.toNat := by
  obtain ⟨p, ran, -, -, -, started⟩ := sample_ran 0 (Or.inl rfl)
  exact ⟨p, _, ran, minimum_ever_exact sampleLayout _ ran (by rw [started]; decide)⟩

/-! ### `vPortGetHeapStats` -/

theorem toNat_larger (v w : Word) : (if v > w then v else w).toNat = max w.toNat v.toNat := by
  split
  next greater =>
    rw [gt_iff_lt, BitVec.lt_def] at greater
    omega
  next notGreater =>
    rw [gt_iff_lt, BitVec.lt_def] at notGreater
    omega

theorem toNat_smaller (v w : Word) : (if v < w then v else w).toNat = min w.toNat v.toNat := by
  split
  next less =>
    rw [BitVec.lt_def] at less
    omega
  next notLess =>
    rw [BitVec.lt_def] at notLess
    omega

/-- The walk counts the blocks, and finds the largest and the smallest. -/
theorem walkFreeList_spec {ts : List Span} {fuel marker : Nat} {pxBlock : Word}
    (xBlocks xMaxSize xMinSize : Word) (here : pxBlock.toNat = first marker ts)
    (chain : Chain s.mem marker ts)
    (atEnd : s.pxEnd.toNat = marker) (before : ∀ t ∈ ts, t.start ≠ marker)
    (count : xBlocks.toNat + ts.length < 2 ^ 32) (enough : ts.length < fuel) :
    ∃ xBlocks' xMaxSize' xMinSize', walkFreeList s fuel pxBlock xBlocks xMaxSize xMinSize =
        some (xBlocks', xMaxSize', xMinSize') ∧
      xBlocks'.toNat = xBlocks.toNat + ts.length ∧
      xMaxSize'.toNat = (ts.map size).foldl max xMaxSize.toNat ∧
      xMinSize'.toNat = (ts.map size).foldl min xMinSize.toNat := by
  induction ts generalizing fuel pxBlock xBlocks xMaxSize xMinSize with
  | nil =>
    obtain ⟨fuel, rfl⟩ : ∃ f, fuel = f + 1 := ⟨fuel - 1, by simp at enough; omega⟩
    have last : pxBlock = s.pxEnd := BitVec.eq_of_toNat_eq (here.trans atEnd.symm)
    refine ⟨xBlocks, xMaxSize, xMinSize, ?_, rfl, rfl, rfl⟩
    rw [walkFreeList, if_neg (not_not.mpr last)]
  | cons t ts ih =>
    obtain ⟨fuel, rfl⟩ : ∃ f, fuel = f + 1 := ⟨fuel - 1, by omega⟩
    obtain ⟨size, next, rest⟩ := chain
    obtain ⟨notEnd, others⟩ := List.forall_mem_cons.mp before
    rw [List.length_cons] at count enough
    rw [first] at here
    have inList : pxBlock ≠ s.pxEnd := by
      rintro rfl
      exact notEnd (here.symm.trans atEnd)
    have sizeWord : (s.xBlockSize pxBlock).toNat = t.size := by
      rw [← size, ← here]
      rfl
    have following : (s.pxNextFreeBlock pxBlock).toNat = first marker ts := by
      rw [← next, ← here]
      rfl
    have one : (1 : Word).toNat = 1 := rfl
    have counted : (xBlocks + 1).toNat = xBlocks.toNat + 1 := by
      rw [BitVec.toNat_add_of_lt (by omega), one]
    obtain ⟨blocks, largest, smallest, walked, number, most, least⟩ := ih (xBlocks + 1)
      (if s.xBlockSize pxBlock > xMaxSize then s.xBlockSize pxBlock else xMaxSize)
      (if s.xBlockSize pxBlock < xMinSize then s.xBlockSize pxBlock else xMinSize)
      following rest others (by omega) (Nat.lt_of_succ_lt_succ enough)
    refine ⟨blocks, largest, smallest, ?_, ?_, ?_, ?_⟩
    · rw [walkFreeList, if_pos inList]
      exact walked
    · rw [number, counted, List.length_cons]
      omega
    · rw [most, toNat_larger, sizeWord, List.map_cons, List.foldl_cons]
    · rw [least, toNat_smaller, sizeWord, List.map_cons, List.foldl_cons]

theorem Ready.vPortGetHeapStats {free : List Span} (ready : Ready layout s free) (t : State) :
    ∃ stats, Heap.vPortGetHeapStats layout loopFuel s t = some stats ∧
      stats.xNumberOfFreeBlocks.toNat = free.length ∧
      stats.xSizeOfLargestFreeBlockInBytes.toNat = (free.map size).foldl max 0 ∧
      stats.xSizeOfSmallestFreeBlockInBytes.toNat = (free.map size).foldl min portMaxDelay.toNat ∧
      stats.xAvailableHeapSpaceInBytes = t.xFreeBytesRemaining := by
  have range := layout.range
  have atEnd : s.pxEnd.toNat = layout.marker := congrArg BitVec.toNat ready.atEnd
  have here : (s.pxNextFreeBlock layout.xStart).toNat = first layout.marker free := ready.list.start
  have zero : null.toNat = 0 := rfl
  have linked : s.pxNextFreeBlock layout.xStart ≠ null := by
    have positive : first layout.marker free ≠ 0 := by
      cases free with
      | nil =>
        simp only [first]
        omega
      | cons t ts => exact ready.list.starts t List.mem_cons_self
    intro isNull
    rw [isNull, zero] at here
    exact positive here.symm
  have enough := ready.list.total_le.2
  have fuel : loopFuel = 32768 := rfl
  have before : ∀ t ∈ free, t.start ≠ layout.marker := by
    intro t member
    have := ready.list.blocks t member
    simp only [stop] at this
    omega
  have count : (0 : Word).toNat + free.length < 2 ^ 32 := by
    have none : (0 : Word).toNat = 0 := rfl
    omega
  obtain ⟨blocks, largest, smallest, walked, number, most, least⟩ :=
    walkFreeList_spec 0 0 portMaxDelay here ready.list.chain atEnd before count enough
  have called : Heap.vPortGetHeapStats layout loopFuel s t = some
      { xAvailableHeapSpaceInBytes := t.xFreeBytesRemaining
        xSizeOfLargestFreeBlockInBytes := largest
        xSizeOfSmallestFreeBlockInBytes := smallest
        xNumberOfFreeBlocks := blocks
        xMinimumEverFreeBytesRemaining := t.xMinimumEverFreeBytesRemaining
        xNumberOfSuccessfulAllocations := t.xNumberOfSuccessfulAllocations
        xNumberOfSuccessfulFrees := t.xNumberOfSuccessfulFrees } := by
    rw [Heap.vPortGetHeapStats]
    simp only
    rw [if_pos linked, walked]
    rfl
  exact ⟨_, called, number.trans (Nat.zero_add _), most, least, rfl⟩

theorem le_foldl_max {xs : List Nat} {m n : Nat} :
    n ≤ xs.foldl max m ↔ n ≤ m ∨ ∃ x ∈ xs, n ≤ x := by
  induction xs generalizing m with
  | nil => simp
  | cons x xs ih => rw [List.foldl_cons, ih, le_max_iff, List.exists_mem_cons_iff, or_assoc]

/-- `vPortGetHeapStats` describes the free list as it is during the walk; and where no other task
comes in between, the largest block that it reports says which requests will be met. -/
theorem heap_stats_exact (layout : Layout) (mem : Bytes) {es : List Event} {p : Program}
    (ran : (program layout).run (Program.boot layout mem) es = some p)
    (started : p.heap.pxEnd ≠ null) (t : State) :
    ∃ free stats, FreeList layout p.heap.mem free ∧
      vPortGetHeapStats layout loopFuel p.heap t = some stats ∧
      stats.xNumberOfFreeBlocks.toNat = free.length ∧
      stats.xSizeOfLargestFreeBlockInBytes.toNat = (free.map size).foldl max 0 ∧
      stats.xSizeOfSmallestFreeBlockInBytes.toNat = (free.map size).foldl min portMaxDelay.toNat ∧
      stats.xAvailableHeapSpaceInBytes = t.xFreeBytesRemaining ∧
      ∀ xWantedSize, ∃ pv s', pvPortMalloc layout loopFuel xWantedSize p.heap = some (pv, s') ∧
        (pv ≠ null ↔ 0 < xWantedSize.toNat ∧
          requiredSize xWantedSize.toNat ≤ stats.xSizeOfLargestFreeBlockInBytes.toNat) := by
  obtain ⟨a, rep⟩ := Represents.reached ran
  have ready : Ready layout p.heap a.free :=
    rep.heap.resolve_right fun ⟨fresh, _⟩ => started fresh.notInit
  obtain ⟨stats, called, number, most, least, available⟩ := ready.vPortGetHeapStats t
  refine ⟨a.free, stats, ready.list, called, number, most, least, available, fun xWantedSize => ?_⟩
  have large : requiredSize xWantedSize.toNat ≤ stats.xSizeOfLargestFreeBlockInBytes.toNat ↔
      ∃ t ∈ a.free, requiredSize xWantedSize.toNat ≤ t.size := by
    have positive : ¬ requiredSize xWantedSize.toNat ≤ 0 := by
      simp only [requiredSize]
      omega
    rw [most, le_foldl_max, or_iff_right positive]
    simp
  rw [large]
  rcases rep.malloc_cases xWantedSize with ⟨refused, called⟩ | ⟨pv, s', b, rest, took⟩
  · refine ⟨null, _, called, iff_of_false (fun nonnull => nonnull rfl) ?_⟩
    rintro ⟨pos, t, member, fits⟩
    rcases refused with rfl | none
    · exact Nat.lt_irrefl 0 pos
    · exact Nat.not_lt.mpr fits (carve_eq_none_iff.mp none t member)
  · refine ⟨pv, s', took.called, iff_of_true took.nonnull ⟨took.pos, ?_⟩⟩
    obtain ⟨before, t, after, split, -, fits, -⟩ := carve_cases took.carved
    exact ⟨t, split ▸ List.mem_append_right _ List.mem_cons_self, fits⟩

theorem heap_stats_exact_sample : ∃ p stats,
    (program sampleLayout).run (Program.boot sampleLayout fun _ => 0) sampleEvents = some p ∧
      vPortGetHeapStats sampleLayout loopFuel p.heap p.heap = some stats ∧
      stats.xAvailableHeapSpaceInBytes = p.heap.xFreeBytesRemaining := by
  obtain ⟨p, ran, -, -, -, started⟩ := sample_ran 0 (Or.inl rfl)
  obtain ⟨-, stats, -, called, -, -, -, available, -⟩ :=
    heap_stats_exact sampleLayout _ ran (by rw [started]; decide) p.heap
  exact ⟨p, stats, ran, called, available⟩

end WchLwip.Heap
