import WchLwip.Properties.HeapInvariant

/-! What the tasks may rely on, whatever the other tasks do with the heap. -/
namespace WchLwip.Heap

open Span

variable {layout : Layout} {p q : Program} {a : Arena} {mem : Bytes} {es fs : List Event}
  {xWantedSize : Word}

/-! ### Allocations -/

theorem Represents.live_apart (rep : Represents layout p a) :
    p.live.Pairwise fun x y => (block p.heap.mem x.pv).Apart (block p.heap.mem y.pv) := by
  have apart := rep.apart
  rw [Program.blocks, Program.pointers, List.map_append, List.map_map] at apart
  exact List.pairwise_map.mp (List.pairwise_append.mp apart).1

theorem Represents.live_within {x : Allocation} (rep : Represents layout p a) (live : x ∈ p.live) :
    x.pv ≠ null ∧ x.pv.toNat % 16 = 0 ∧ layout.ucHeap.toNat ≤ x.pv.toNat ∧
      x.pv.toNat + x.xWantedSize.toNat ≤ layout.ucHeap.toNat + configTotalHeapSize.toNat := by
  have low := layout.low_bounds
  have marker := layout.marker_bounds
  have total : configTotalHeapSize.toNat = 32768 := rfl
  have zero : null.toNat = 0 := rfl
  have bounds := rep.block_bounds (List.mem_append_left p.freeing (List.mem_map_of_mem live))
  have large := (rep.live x live).large
  have nonnull : x.pv.toNat ≠ null.toNat := by omega
  refine ⟨fun same => nonnull (congrArg BitVec.toNat same), ?_⟩
  simp only [requiredSize, block, stop] at *
  omega

/-- Two allocations that are held at the same time have no byte in common; each is aligned, and
is wholly inside of `ucHeap`. -/
theorem live_allocations_disjoint (layout : Layout) (mem : Bytes) {es : List Event} {p : Program}
    (ran : (program layout).run (Program.boot layout mem) es = some p) :
    p.live.Pairwise (fun x y => ∀ addr, x.Contains addr → ¬ y.Contains addr) ∧
      ∀ x ∈ p.live, x.pv ≠ null ∧ x.pv.toNat % portByteAlignment.toNat = 0 ∧
        layout.ucHeap.toNat ≤ x.pv.toNat ∧
        x.pv.toNat + x.xWantedSize.toNat ≤ layout.ucHeap.toNat + configTotalHeapSize.toNat := by
  obtain ⟨a, rep⟩ := Represents.reached ran
  refine ⟨rep.live_apart.imp_of_mem fun {x y} liveX liveY apart addr inX inY => ?_,
    fun x live => rep.live_within live⟩
  have payload {z : Allocation} (live : z ∈ p.live) (inside : z.Contains addr) :
      (block p.heap.mem z.pv).Contains addr := by
    have large := (rep.live z live).large
    simp only [requiredSize, Allocation.Contains, Contains, block, stop] at *
    omega
  exact apart.not_contains (payload liveX inX) (payload liveY inY)

/-- The freed block is in use again, next to the one that was held all the time. -/
theorem live_allocations_disjoint_sample : ∃ p,
    (program sampleLayout).run (Program.boot sampleLayout fun _ => 0)
      (sampleEvents ++ [.malloc 10]) = some p ∧
      p.live = [⟨0x20000020, 10⟩, ⟨0x20000040, 100⟩] ∧
      p.live.Pairwise (fun x y => ∀ addr, x.Contains addr → ¬ y.Contains addr) ∧
      ∀ x ∈ p.live, x.pv ≠ null ∧ x.pv.toNat % portByteAlignment.toNat = 0 ∧
        sampleLayout.ucHeap.toNat ≤ x.pv.toNat ∧
        x.pv.toNat + x.xWantedSize.toNat ≤
          sampleLayout.ucHeap.toNat + configTotalHeapSize.toNat := by
  have reached : ((program sampleLayout).run (Program.boot sampleLayout fun _ => 0)
      (sampleEvents ++ [.malloc 10])).map Program.live =
        some [⟨0x20000020, 10⟩, ⟨0x20000040, 100⟩] := by decide +kernel
  obtain ⟨p, ran, live⟩ := Option.map_eq_some_iff.mp reached
  exact ⟨p, ran, live, live_allocations_disjoint sampleLayout _ ran⟩

/-! ### Bytes -/

/-- The byte at the address after the event -/
def written (addr : Nat) (byte : UInt8) : Event → UInt8
  | .store there new => if there = addr then new else byte
  | _ => byte

/-- No call changes a byte where a task may write. -/
theorem Represents.step_byte {e : Event} {addr : Nat} (rep : Represents layout p a)
    (writable : p.Writable layout addr) (stepped : p.step layout e = some q) :
    q.heap.mem addr = written addr (p.heap.mem addr) e := by
  obtain ⟨uncovered, start, marker⟩ := rep.writable_outside writable
  obtain ⟨headers, others⟩ := rep.writable_held writable
  have untouched : Untouched layout a.free addr := ⟨uncovered, by omega⟩
  have initialised : (p.heap.initialised layout).mem addr = p.heap.mem addr := by
    rcases rep.heap with ready | ⟨fresh, unused⟩
    · rw [State.initialised, if_neg ready.pxEnd_ne_null]
    · -- nothing is held yet, so the address is not the allocator's
      have outside : ¬ layout.Owns addr := by
        rcases rep.writable_cases writable with outside | ⟨pv, held, -⟩
        · exact outside
        · have used := rep.block_used (List.mem_append_left p.freeing held)
          rw [unused] at used
          cases used
      rw [State.initialised, if_pos fresh.notInit]
      exact prvHeapInit_outside layout p.heap outside
  cases rep.stepped stepped with
  | refused => exact initialised
  | took took => exact (took.allocated.untouched addr untouched).trans initialised
  | marked held rep' kept => exact kept addr (headers _ (List.mem_append_left _ held))
  | freed held freed rep' =>
    refine freed.untouched addr ⟨?_, untouched.2⟩
    rw [covers_cons, not_or]
    exact ⟨others _ held, uncovered⟩
  | @stored there new permitted =>
    rw [written]
    split
    next same =>
      subst same
      exact Function.update_self _ _ _
    next other => exact Function.update_of_ne (Ne.symm other) _ _

/-- What is held stays held until it is freed. -/
theorem Represents.step_live {e : Event} {x : Allocation} (rep : Represents layout p a)
    (live : x ∈ p.live) (notFreed : e ≠ .freeMark x.pv) (stepped : p.step layout e = some q) :
    x ∈ q.live := by
  cases rep.stepped stepped with
  | took => exact List.mem_cons_of_mem _ live
  | @marked pv mem' held rep' kept =>
    have different : x.pv ≠ pv := fun same => notFreed (same ▸ rfl)
    exact List.mem_filter.mpr ⟨live, decide_eq_true different⟩
  | refused => exact live
  | freed => exact live
  | stored => exact live

/-- What a task has written in memory that it holds is there when it reads it, whatever the
other tasks allocate, free and write; and the allocator writes nowhere but in its own objects. -/
theorem stored_bytes_survive (layout : Layout) (mem : Bytes) {es fs : List Event} {p q : Program}
    {addr : Nat} (ran : (program layout).run (Program.boot layout mem) es = some p)
    (kept : (∃ x ∈ p.live, x.Contains addr ∧ Event.freeMark x.pv ∉ fs) ∨ ¬ layout.Owns addr)
    (ran' : (program layout).run p fs = some q) :
    q.heap.mem addr = fs.foldl (written addr) (p.heap.mem addr) := by
  obtain ⟨a, rep⟩ := Represents.reached ran
  clear ran
  induction fs generalizing p a with
  | nil =>
    cases ran'
    rfl
  | cons e fs ih =>
    obtain ⟨m, stepped, rest⟩ := ((program layout).run_cons_iff p q e fs).mp ran'
    have writable : p.Writable layout addr :=
      kept.imp_left fun ⟨x, live, inside, _⟩ => ⟨x, live, inside⟩
    obtain ⟨b, -, rep'⟩ := rep.step stepped
    rw [List.foldl_cons, ← rep.step_byte writable stepped]
    refine ih ?_ rest b rep'
    refine kept.imp_left fun ⟨x, live, inside, notFreed⟩ => ?_
    rw [List.mem_cons, not_or] at notFreed
    exact ⟨x, rep.step_live live (Ne.symm notFreed.1) stepped, inside, notFreed.2⟩

theorem stored_bytes_survive_sample : ∃ p q,
    (program sampleLayout).run (Program.boot sampleLayout fun _ => 0) sampleEvents = some p ∧
      (program sampleLayout).run p [.store 0x20000041 9, .malloc 40] = some q ∧
      q.heap.mem 0x20000041 = 9 := by
  obtain ⟨p, ran, live, -⟩ := sample_ran 0 (Or.inl rfl)
  have held : (⟨0x20000040, 100⟩ : Allocation) ∈ p.live := by simp [live]
  have writable : p.Writable sampleLayout 0x20000041 := Or.inl ⟨_, held, by decide⟩
  obtain ⟨m, stored⟩ : ∃ m, (program sampleLayout).step p (.store 0x20000041 9) = some m :=
    ⟨_, if_pos writable⟩
  obtain ⟨a, rep⟩ := Represents.reached ran
  obtain ⟨b, -, rep'⟩ := (arenaRefinement sampleLayout).step _ _ _ _ rep stored
  obtain ⟨pv, s', called⟩ := rep'.malloc_returns 40
  obtain ⟨q, allocated⟩ : ∃ q, (program sampleLayout).step m (.malloc 40) = some q :=
    ⟨_, by rw [program_step, Program.step, called, Option.map_some]⟩
  have ran' : (program sampleLayout).run p [.store 0x20000041 9, .malloc 40] = some q :=
    ((program sampleLayout).run_cons_iff _ _ _ _).mpr
      ⟨m, stored, ((program sampleLayout).run_cons_iff _ _ _ _).mpr ⟨q, allocated, rfl⟩⟩
  exact ⟨p, q, ran, ran', stored_bytes_survive sampleLayout _ ran
    (Or.inl ⟨_, held, by decide, by decide⟩) ran'⟩

/-! ### What a call returns -/

/-- The first free block that is large enough for a request -/
def firstFit (free : List Span) (n : Nat) : Option Span :=
  if n = 0 then none else free.find? fun t => requiredSize n ≤ t.size

theorem firstFit_eq_none_iff {free : List Span} {n : Nat} :
    firstFit free n = none ↔ n = 0 ∨ carve 32 (requiredSize n) free = none := by
  rw [firstFit]
  split
  next zero => simp [zero]
  next nonzero => simp [nonzero, carve_eq_none_iff]

/-- `pvPortMalloc` returns, and what it returns is behind the header of the first free block that
is large enough, or `NULL` when there is none; the heap is then as it was. -/
theorem malloc_first_fit (layout : Layout) (mem : Bytes) {es : List Event} {p : Program}
    (ran : (program layout).run (Program.boot layout mem) es = some p) (xWantedSize : Word) :
    ∃ free pv s', FreeList layout (p.heap.initialised layout).mem free ∧
      pvPortMalloc layout loopFuel xWantedSize p.heap = some (pv, s') ∧
      pv.toNat = ((firstFit free xWantedSize.toNat).map fun t => t.start + 16).getD 0 ∧
      (pv = null ↔ firstFit free xWantedSize.toNat = none) ∧
      (pv = null → s' = p.heap.initialised layout) := by
  obtain ⟨a, rep⟩ := Represents.reached ran
  have list := rep.initialised.1.list
  rcases rep.malloc_cases xWantedSize with ⟨refused, called⟩ | ⟨pv, s', b, rest, took⟩
  · have none : firstFit a.free xWantedSize.toNat = none :=
      firstFit_eq_none_iff.mpr (refused.imp_left (congrArg BitVec.toNat))
    refine ⟨a.free, null, _, list, called, ?_, by simp [none], fun _ => rfl⟩
    rw [none]
    rfl
  · have pos := took.pos
    have found := carve_start 32 (requiredSize xWantedSize.toNat) a.free
    rw [took.carved, Option.map_some] at found
    have fits : firstFit a.free xWantedSize.toNat =
        a.free.find? fun t => requiredSize xWantedSize.toNat ≤ t.size := if_neg (by omega)
    obtain ⟨t, first, start⟩ := Option.map_eq_some_iff.mp found.symm
    rw [first] at fits
    refine ⟨a.free, pv, s', list, took.called, ?_, ?_, fun isNull => absurd isNull took.nonnull⟩
    · rw [fits, took.pointer]
      exact congrArg (· + 16) start.symm
    · simp [fits, took.nonnull]

theorem malloc_first_fit_sample : ∃ p pv s',
    (program sampleLayout).run (Program.boot sampleLayout fun _ => 0) sampleEvents = some p ∧
      pvPortMalloc sampleLayout loopFuel 16 p.heap = some (pv, s') := by
  obtain ⟨p, ran, -⟩ := sample_ran 0 (Or.inl rfl)
  obtain ⟨-, pv, s', -, called, -⟩ := malloc_first_fit sampleLayout _ ran 16
  exact ⟨p, pv, s', ran, called⟩

theorem vPortFree_eq {pv : Word} {s marked freed : State} {fuel : Nat} (nonnull : pv ≠ null)
    (first : freeMark pv s = some marked) (second : freeInsert layout fuel pv marked = some freed) :
    vPortFree layout fuel pv s = some freed := by
  rw [vPortFree, if_pos nonnull, first]
  exact second

/-- What is held can be freed by one call, which leaves the arena with the block given back. -/
theorem Represents.vPortFree {x : Allocation} (rep : Represents layout p a) (live : x ∈ p.live) :
    ∃ mem' s', Heap.freeMark x.pv p.heap = some (p.heap.withMem mem') ∧
      Heap.vPortFree layout loopFuel x.pv p.heap = some s' ∧
      Ready layout s' (Span.insert (block p.heap.mem x.pv) a.free) ∧
      Represents layout ((p.marked x.pv mem').freed x.pv s')
        ⟨Span.insert (block p.heap.mem x.pv) a.free, a.used.erase (block p.heap.mem x.pv)⟩ := by
  have held := List.mem_map_of_mem (f := Allocation.pv) live
  have header := (rep.live_within live).1
  obtain ⟨mem', marked, rep', same, -⟩ := rep.freeMark held
  obtain ⟨s', called, freed, rep''⟩ := rep'.freeInsert
    (List.mem_cons_self : x.pv ∈ x.pv :: p.freeing)
  have ready := freed.ready
  have same : block (p.marked x.pv mem').heap.mem x.pv = block p.heap.mem x.pv := same
  rw [same] at ready rep''
  exact ⟨mem', s', marked, vPortFree_eq header marked called, ready, rep''⟩

/-- No call is caught in a loop, and no assertion of `vPortFree` fails: the block behind a pointer
that is held is marked as allocated and is linked to nothing. -/
theorem calls_return (layout : Layout) (mem : Bytes) {es : List Event} {p : Program}
    (ran : (program layout).run (Program.boot layout mem) es = some p) :
    (∀ xWantedSize, (pvPortMalloc layout loopFuel xWantedSize p.heap).isSome) ∧
      (∀ x ∈ p.live, (freeMark x.pv p.heap).isSome ∧
        (vPortFree layout loopFuel x.pv p.heap).isSome) ∧
      ∀ pv ∈ p.freeing, (freeInsert layout loopFuel pv p.heap).isSome := by
  obtain ⟨a, rep⟩ := Represents.reached ran
  refine ⟨fun xWantedSize => ?_, fun x live => ?_, fun pv held => ?_⟩
  · obtain ⟨pv, s', called⟩ := rep.malloc_returns xWantedSize
    rw [called]
    rfl
  · obtain ⟨mem', s', marked, freed, -, -⟩ := rep.vPortFree live
    rw [marked, freed]
    exact ⟨rfl, rfl⟩
  · obtain ⟨s', called, -⟩ := rep.freeInsert held
    rw [called]
    rfl

theorem calls_return_sample : ∃ p,
    (program sampleLayout).run (Program.boot sampleLayout fun _ => 0) sampleEvents = some p ∧
      (vPortFree sampleLayout loopFuel 0x20000040 p.heap).isSome := by
  obtain ⟨p, ran, live, -⟩ := sample_ran 0 (Or.inl rfl)
  have held : (⟨0x20000040, 100⟩ : Allocation) ∈ p.live := by simp [live]
  exact ⟨p, ran, ((calls_return sampleLayout _ ran).2.1 _ held).2⟩

/-! ### What is left when blocks are freed -/

/-- The free list depends on the blocks that are in use alone: not on the order in which they
were allocated, nor on what has been freed, nor on what was in memory at the start. -/
theorem free_list_canonical (layout : Layout) (mem mem' : Bytes) {es fs : List Event} {p q : Program}
    (ran : (program layout).run (Program.boot layout mem) es = some p)
    (ran' : (program layout).run (Program.boot layout mem') fs = some q)
    (same : ∀ x, Covers p.blocks x ↔ Covers q.blocks x) :
    (p.heap.initialised layout).xFreeBytesRemaining =
        (q.heap.initialised layout).xFreeBytesRemaining ∧
      ∃ free, FreeList layout (p.heap.initialised layout).mem free ∧
        FreeList layout (q.heap.initialised layout).mem free := by
  obtain ⟨a, rep⟩ := Represents.reached ran
  obtain ⟨b, rep'⟩ := Represents.reached ran'
  have ready := rep.initialised.1
  have ready' := rep'.initialised.1
  have equal : a.free = b.free := by
    refine rep.tiles.free_unique rep'.tiles fun x => ?_
    rw [Arena.covers_perm rep.used, Arena.covers_perm rep'.used, same]
  rw [← equal] at ready'
  exact ⟨BitVec.eq_of_toNat_eq (ready.remaining.trans ready'.remaining.symm),
    a.free, ready.list, ready'.list⟩

theorem free_list_canonical_sample : ∃ p q free,
    (program sampleLayout).run (Program.boot sampleLayout fun _ => 0) sampleEvents = some p ∧
      (program sampleLayout).run (Program.boot sampleLayout fun _ => 0xa5) sampleEvents = some q ∧
      FreeList sampleLayout (p.heap.initialised sampleLayout).mem free ∧
      FreeList sampleLayout (q.heap.initialised sampleLayout).mem free := by
  obtain ⟨p, ran, -, -, blocks, -⟩ := sample_ran 0 (Or.inl rfl)
  obtain ⟨q, ran', -, -, blocks', -⟩ := sample_ran 0xa5 (Or.inr rfl)
  obtain ⟨-, free, first, second⟩ := free_list_canonical sampleLayout _ _ ran ran' fun x => by
    rw [blocks, blocks']
  exact ⟨p, q, free, ran, ran', first, second⟩

/-- Where nothing is held there is one free block again, of all that there is; so any request
that fits into it is met. -/
theorem freed_heap_whole (layout : Layout) (mem : Bytes) {es : List Event} {p : Program}
    (ran : (program layout).run (Program.boot layout mem) es = some p)
    (none : p.live = [] ∧ p.freeing = []) :
    FreeList layout (p.heap.initialised layout).mem [⟨layout.low, layout.marker - layout.low⟩] ∧
      ∀ xWantedSize : Word, 0 < xWantedSize.toNat →
        requiredSize xWantedSize.toNat ≤ layout.marker - layout.low →
        ∃ pv s', pvPortMalloc layout loopFuel xWantedSize p.heap = some (pv, s') ∧
          pv.toNat = layout.low + 16 := by
  obtain ⟨a, rep⟩ := Represents.reached ran
  have range := layout.range
  have unused : a.used = [] := by
    have used := rep.used
    rw [Program.blocks, Program.pointers, none.1, none.2] at used
    exact used.eq_nil
  have whole := rep.tiles.free_of_unused (by omega) unused
  have list := rep.initialised.1.list
  rw [whole] at list
  refine ⟨list, fun xWantedSize pos fits => ?_⟩
  rcases rep.malloc_cases xWantedSize with ⟨zero | refused, -⟩ | ⟨pv, s', b, rest, took⟩
  · subst zero
    exact absurd pos (Nat.lt_irrefl 0)
  · have small := carve_eq_none_iff.mp refused
    rw [whole] at small
    exact absurd (small _ List.mem_cons_self) (Nat.not_lt.mpr fits)
  · have start := carve_start 32 (requiredSize xWantedSize.toNat) a.free
    rw [took.carved, whole, List.find?_cons_of_pos (by simpa using fits)] at start
    refine ⟨pv, s', took.called, took.pointer.trans ?_⟩
    exact congrArg (· + 16) (Option.some.inj start)

/-- Three blocks, of which two are freed at the same time; the last one freed lies between two
free blocks and is merged with both. -/
def drainEvents : List Event :=
  [.malloc 10, .malloc 100, .malloc 40, .freeMark 0x20000020, .freeMark 0x200000c0,
    .freeInsert 0x20000020, .store 0x20000040 7, .freeInsert 0x200000c0, .freeMark 0x20000040,
    .freeInsert 0x20000040]

theorem freed_heap_whole_sample : ∃ p pv s',
    (program sampleLayout).run (Program.boot sampleLayout fun _ => 0xa5) drainEvents = some p ∧
      FreeList sampleLayout (p.heap.initialised sampleLayout).mem [⟨0x20000010, 32736⟩] ∧
      pvPortMalloc sampleLayout loopFuel 32000 p.heap = some (pv, s') ∧ pv.toNat = 0x20000020 := by
  have reached : ((program sampleLayout).run (Program.boot sampleLayout fun _ => 0xa5)
      drainEvents).map (fun p => (p.live, p.freeing)) = some ([], []) := by decide +kernel
  obtain ⟨p, ran, held⟩ := Option.map_eq_some_iff.mp reached
  rw [Prod.mk.injEq] at held
  obtain ⟨whole, serves⟩ := freed_heap_whole sampleLayout _ ran held
  obtain ⟨pv, s', called, pointer⟩ := serves 32000 (by decide) (by decide)
  exact ⟨p, pv, s', ran, whole, called, pointer⟩

/-- Freeing what was just allocated gives the free list and the count of its bytes back. -/
theorem free_after_malloc (layout : Layout) (mem : Bytes) {es : List Event} {p : Program}
    (ran : (program layout).run (Program.boot layout mem) es = some p) {xWantedSize pv : Word}
    {s' : State} (called : pvPortMalloc layout loopFuel xWantedSize p.heap = some (pv, s')) :
    ∃ free s'', FreeList layout (p.heap.initialised layout).mem free ∧
      vPortFree layout loopFuel pv s' = some s'' ∧ FreeList layout s''.mem free ∧
      s''.xFreeBytesRemaining = (p.heap.initialised layout).xFreeBytesRemaining := by
  obtain ⟨a, rep⟩ := Represents.reached ran
  have ready := rep.initialised.1
  rcases rep.malloc_cases xWantedSize with ⟨-, refused⟩ | ⟨pv', t, b, rest, took⟩
  · rw [refused] at called
    cases called
    exact ⟨a.free, _, ready.list, rfl, ready.list, rfl⟩
  · rw [took.called] at called
    cases called
    obtain ⟨mem', s'', -, freed, ready', -⟩ :=
      took.rep.vPortFree (x := ⟨pv, xWantedSize⟩) List.mem_cons_self
    have size := took.allocated.size
    have bound := carve_size took.carved
    have total := total_carve took.carved
    have few := ready.list.total_le.1
    have start : pv.toNat - 16 = b.start := by
      have := took.pointer
      omega
    have taken : block s'.mem pv = b := by
      rw [block, start, size, Nat.add_mod_right, Nat.mod_eq_of_lt (by omega)]
    have positive : 0 < requiredSize xWantedSize.toNat := Nat.succ_pos _
    have back := rep.tiles.separated.insert_carve positive took.carved
    simp only [taken, back] at ready'
    exact ⟨a.free, s'', ready.list, freed, ready'.list,
      BitVec.eq_of_toNat_eq (ready'.remaining.trans ready.remaining.symm)⟩

theorem free_after_malloc_sample : ∃ p pv s' s'',
    (program sampleLayout).run (Program.boot sampleLayout fun _ => 0) sampleEvents = some p ∧
      pvPortMalloc sampleLayout loopFuel 16 p.heap = some (pv, s') ∧
      vPortFree sampleLayout loopFuel pv s' = some s'' := by
  obtain ⟨p, ran, -⟩ := sample_ran 0 (Or.inl rfl)
  obtain ⟨a, rep⟩ := Represents.reached ran
  obtain ⟨pv, s', called⟩ := rep.malloc_returns 16
  obtain ⟨-, s'', -, freed, -⟩ := free_after_malloc sampleLayout _ ran called
  exact ⟨p, pv, s', s'', ran, called, freed⟩

/-- However the heap is fragmented, a request is met when what the tasks hold is little enough:
each allocation costs at most its own block and makes one more gap. -/
theorem malloc_guaranteed (layout : Layout) (mem : Bytes) {es : List Event} {p : Program}
    (ran : (program layout).run (Program.boot layout mem) es = some p) (quiet : p.freeing = [])
    {xWantedSize : Word} (pos : 0 < xWantedSize.toNat)
    (room : (p.live.map fun x => requiredSize x.xWantedSize.toNat + 32).sum +
      (p.live.length + 1) * (requiredSize xWantedSize.toNat - 1) < 32736) :
    ∃ pv s', pvPortMalloc layout loopFuel xWantedSize p.heap = some (pv, s') ∧ pv ≠ null := by
  obtain ⟨a, rep⟩ := Represents.reached ran
  rcases rep.malloc_cases xWantedSize with ⟨zero | refused, -⟩ | ⟨pv, s', b, rest, took⟩
  · subst zero
    exact absurd pos (Nat.lt_irrefl 0)
  · have range := layout.range
    have blocks : p.blocks = p.live.map fun x => block p.heap.mem x.pv := by
      rw [Program.blocks, Program.pointers, quiet, List.append_nil, List.map_map]
      rfl
    have used := Arena.total_perm rep.used
    have count := rep.used.length_eq
    have held := total_map_le fun x live => (rep.live x live).tight
    rw [blocks] at used count
    rw [List.length_map] at count
    have total := rep.tiles.total
    refine absurd refused (rep.tiles.carve_of_total ?_)
    rw [count]
    omega
  · exact ⟨pv, s', took.called, took.nonnull⟩

theorem malloc_guaranteed_sample : ∃ p pv s',
    (program sampleLayout).run (Program.boot sampleLayout fun _ => 0) sampleEvents = some p ∧
      pvPortMalloc sampleLayout loopFuel 16000 p.heap = some (pv, s') ∧ pv ≠ null := by
  obtain ⟨p, ran, live, quiet, -⟩ := sample_ran 0 (Or.inl rfl)
  obtain ⟨pv, s', called, nonnull⟩ := malloc_guaranteed sampleLayout _ ran quiet
    (by decide : 0 < (16000 : Word).toNat) (by rw [live]; decide)
  exact ⟨p, pv, s', ran, called, nonnull⟩

/-! ### `pvPortCalloc` -/

theorem heapMultiplyWillOverflow_eq (a b : Word) :
    heapMultiplyWillOverflow a b = decide (2 ^ 32 ≤ a.toNat * b.toNat) := by
  have max : heapSizeMax.toNat = 2 ^ 32 - 1 := rfl
  have zero : (0 : Word).toNat = 0 := rfl
  rw [heapMultiplyWillOverflow, Bool.eq_iff_iff]
  simp only [Bool.and_eq_true, decide_eq_true_eq, gt_iff_lt, BitVec.lt_def, BitVec.toNat_udiv, max, zero]
  constructor
  · rintro ⟨pos, large⟩
    have := (Nat.div_lt_iff_lt_mul pos).mp large
    rw [Nat.mul_comm] at this
    omega
  · intro large
    have pos : 0 < a.toNat := by
      refine Nat.pos_of_ne_zero fun zero => ?_
      rw [zero, Nat.zero_mul] at large
      omega
    refine ⟨pos, (Nat.div_lt_iff_lt_mul pos).mpr ?_⟩
    rw [Nat.mul_comm]
    omega

/-- The stores of a loop over an area -/
def storeAll (addr : Nat) : List UInt8 → List Event
  | [] => []
  | byte :: bytes => .store addr byte :: storeAll (addr + 1) bytes

theorem run_storeAll {bytes : List UInt8} {addr : Nat} (p : Program)
    (writable : ∀ k < bytes.length, p.Writable layout (addr + k)) :
    (program layout).run p (storeAll addr bytes) =
      some { p with heap := { p.heap with mem := ByteMemory.write p.heap.mem addr bytes } } := by
  induction bytes generalizing p addr with
  | nil => rfl
  | cons byte bytes ih =>
    refine ((program layout).run_cons_iff _ _ _ _).mpr ⟨_, if_pos (writable 0 (by simp)), ?_⟩
    refine ih _ fun k inside => ?_
    have later := writable (k + 1) (by simpa using inside)
    rwa [Nat.add_comm k 1, ← Nat.add_assoc] at later

/-- `pvPortCalloc` refuses exactly the products that overflow. Otherwise it is `pvPortMalloc` of
the product and, where that succeeds, the stores of that many zeros, which the caller may make. -/
theorem calloc_spec (layout : Layout) (mem : Bytes) {es : List Event} {p : Program}
    (ran : (program layout).run (Program.boot layout mem) es = some p) (xNum xSize : Word) :
    (2 ^ 32 ≤ xNum.toNat * xSize.toNat ∧
      pvPortCalloc layout loopFuel xNum xSize p.heap = some (null, p.heap)) ∨
    (xNum.toNat * xSize.toNat < 2 ^ 32 ∧ ∃ pv s' q,
      pvPortCalloc layout loopFuel xNum xSize p.heap = some (pv, s') ∧
      (program layout).run p (.malloc (xNum * xSize) ::
        if pv = null then [] else
          storeAll pv.toNat (List.replicate (xNum.toNat * xSize.toNat) 0)) = some q ∧
      q.heap = s' ∧ (pv ≠ null → ⟨pv, xNum * xSize⟩ ∈ q.live ∧
        ∀ k < xNum.toNat * xSize.toNat, s'.mem (pv.toNat + k) = 0)) := by
  obtain ⟨a, rep⟩ := Represents.reached ran
  have overflow := heapMultiplyWillOverflow_eq xNum xSize
  by_cases large : 2 ^ 32 ≤ xNum.toNat * xSize.toNat
  · refine Or.inl ⟨large, ?_⟩
    rw [decide_eq_true large] at overflow
    rw [pvPortCalloc, if_pos overflow]
  · refine Or.inr ⟨Nat.lt_of_not_le large, ?_⟩
    rw [decide_eq_false large] at overflow
    have product : (xNum * xSize).toNat = xNum.toNat * xSize.toNat := by
      rw [BitVec.toNat_mul, Nat.mod_eq_of_lt (Nat.lt_of_not_le large)]
    have fits : ¬ heapMultiplyWillOverflow xNum xSize = true := by simp [overflow]
    simp only [pvPortCalloc, if_neg fits]
    rcases rep.malloc_cases (xNum * xSize) with ⟨-, called⟩ | ⟨pv, s', b, rest, took⟩
    · rw [called]
      refine ⟨null, p.heap.initialised layout, { p with heap := p.heap.initialised layout }, by simp,
        ?_, rfl, fun nonnull => absurd rfl nonnull⟩
      refine ((program layout).run_cons_iff _ _ _ _).mpr
        ⟨{ p with heap := p.heap.initialised layout }, ?_, by simp⟩
      rw [program_step, Program.step, called]
      rfl
    · rw [took.called, Option.map_some]
      simp only [if_pos took.nonnull, product]
      have writable : ∀ k < (List.replicate (xNum.toNat * xSize.toNat) (0 : UInt8)).length,
          Program.Writable layout { p with heap := s', live := ⟨pv, xNum * xSize⟩ :: p.live }
            (pv.toNat + k) := by
        intro k inside
        refine Or.inl ⟨⟨pv, xNum * xSize⟩, List.mem_cons_self, Nat.le_add_right _ _, ?_⟩
        rw [List.length_replicate] at inside
        rw [product]
        exact Nat.add_lt_add_left inside _
      refine ⟨pv, _, { p with
        heap := { s' with
          mem := ByteMemory.write s'.mem pv.toNat (List.replicate (xNum.toNat * xSize.toNat) 0) }
        live := ⟨pv, xNum * xSize⟩ :: p.live }, rfl, ?_, rfl,
        fun _ => ⟨List.mem_cons_self, fun k inside => ?_⟩⟩
      · rw [if_neg took.nonnull]
        refine ((program layout).run_cons_iff _ _ _ _).mpr ⟨_, ?_, run_storeAll _ writable⟩
        rw [program_step, Program.step, took.called, Option.map_some]
        simp only [if_neg took.nonnull]
      · exact ByteMemory.write_replicate inside

/-- An overflowing product is refused, and five times eight bytes are zeroed in memory that held
something else. -/
theorem calloc_spec_sample : ∃ p pv s',
    (program sampleLayout).run (Program.boot sampleLayout fun _ => 0xa5) sampleEvents = some p ∧
      pvPortCalloc sampleLayout loopFuel 0x10000 0x10000 p.heap = some (null, p.heap) ∧
      pvPortCalloc sampleLayout loopFuel 5 8 p.heap = some (pv, s') ∧ pv ≠ null ∧
      ∀ k < 40, p.heap.mem (pv.toNat + k) = 0xa5 ∧ s'.mem (pv.toNat + k) = 0 := by
  have reached : ((program sampleLayout).run (Program.boot sampleLayout fun _ => 0xa5)
      sampleEvents).bind (fun p => (pvPortCalloc sampleLayout loopFuel 5 8 p.heap).map
        fun r : Word × State => (r.1, decide (∀ k : Nat, k < 40 → p.heap.mem (r.1.toNat + k) = 0xa5))) =
        some (0x200000c0, true) := by decide +kernel
  obtain ⟨p, ran, returned⟩ := Option.bind_eq_some_iff.mp reached
  obtain ⟨⟨pv, s'⟩, called, result⟩ := Option.map_eq_some_iff.mp returned
  simp only [Prod.mk.injEq, decide_eq_true_eq] at result
  obtain ⟨pointer, before⟩ := result
  have nonnull : pv ≠ null := by
    rw [pointer]
    decide
  have refused : pvPortCalloc sampleLayout loopFuel 0x10000 0x10000 p.heap =
      some (null, p.heap) := by
    rcases calloc_spec sampleLayout _ ran 0x10000 0x10000 with ⟨-, refused⟩ | ⟨small, -⟩
    · exact refused
    · exact absurd small (by decide)
  refine ⟨p, pv, s', ran, refused, called, nonnull, fun k inside => ⟨before k inside, ?_⟩⟩
  -- forty bytes do not overflow, so they are allocated and zeroed
  rcases calloc_spec sampleLayout _ ran 5 8 with ⟨large, -⟩ | ⟨-, pv', t, q, called', -, -, zeroed⟩
  · exact absurd large (by decide)
  · rw [called'] at called
    cases called
    exact (zeroed nonnull).2 k inside

end WchLwip.Heap
