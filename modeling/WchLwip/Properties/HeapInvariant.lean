import WchLwip.Properties.HeapCalls

/-! The allocator refines an arena.

The used spans are the blocks behind the pointers that the tasks hold, as their
headers have them, and the free spans are the list that is threaded through memory. -/
namespace WchLwip.Heap

open Span

/-- The block behind a pointer that was handed out -/
def block (mem : Bytes) (pv : Word) : Span :=
  ⟨pv.toNat - 16, sizeAt mem (pv.toNat - 16) % 2 ^ 31⟩

def Program.pointers (p : Program) : List Word := p.live.map Allocation.pv ++ p.freeing

def Program.blocks (p : Program) : List Span := p.pointers.map (block p.heap.mem)

/-- Nothing has been allocated, and `xStart` and the counters are zero. -/
structure Fresh (layout : Layout) (s : State) : Prop where
  notInit : s.pxEnd = null
  start : nextAt s.mem layout.xStart.toNat = 0
  remaining : s.xFreeBytesRemaining = 0
  minimum : s.xMinimumEverFreeBytesRemaining = 0

/-- The header in front of a pointer that a task holds: it is linked to nothing. -/
def Header (mem : Bytes) (pv : Word) : Prop := 16 ≤ pv.toNat ∧ nextAt mem (pv.toNat - 16) = 0

/-- The block of an allocation is marked, and is as large as required. -/
structure Marked (mem : Bytes) (x : Allocation) : Prop where
  bit : 2 ^ 31 ≤ sizeAt mem (x.pv.toNat - 16)
  pos : 0 < x.xWantedSize.toNat
  large : requiredSize x.xWantedSize.toNat ≤ (block mem x.pv).size
  tight : (block mem x.pv).size ≤ requiredSize x.xWantedSize.toNat + 32

/-- What the tasks hold and what is threaded through memory divide the heap. -/
structure Represents (layout : Layout) (p : Program) (a : Arena) : Prop where
  tiles : a.Tiles layout.low layout.marker
  used : a.used.Perm p.blocks
  aligned : ∀ t ∈ a.used ++ a.free, t.start % 16 = 0 ∧ t.stop % 16 = 0 ∧ 32 ≤ t.size
  headers : ∀ pv ∈ p.pointers, Header p.heap.mem pv
  live : ∀ x ∈ p.live, Marked p.heap.mem x
  freeing : ∀ pv ∈ p.freeing, sizeAt p.heap.mem (pv.toNat - 16) < 2 ^ 31
  heap : Ready layout p.heap a.free ∨ Fresh layout p.heap ∧ a.used = []

variable {layout : Layout} {p q : Program} {a : Arena} {s : State} {mem mem' : Bytes} {pv : Word}
  {t : Span} {x : Nat}

/-! ### What is where -/

/-- The header in front of the pointer is the same in both memories. -/
def SameHeader (mem mem' : Bytes) (pv : Word) : Prop :=
  ∀ a, pv.toNat - 16 ≤ a → a < pv.toNat - 16 + 8 → mem' a = mem a

theorem SameHeader.nextAt (same : SameHeader mem mem' pv) :
    nextAt mem' (pv.toNat - 16) = nextAt mem (pv.toNat - 16) :=
  nextAt_congr fun a low high => same a low (by omega)

theorem SameHeader.sizeAt (same : SameHeader mem mem' pv) :
    sizeAt mem' (pv.toNat - 16) = sizeAt mem (pv.toNat - 16) :=
  sizeAt_congr same

theorem SameHeader.block (same : SameHeader mem mem' pv) : block mem' pv = block mem pv := by
  rw [Heap.block, Heap.block, same.sizeAt]

theorem SameHeader.marked {y : Allocation} (same : SameHeader mem mem' y.pv) (marked : Marked mem y) :
    Marked mem' y := by
  refine ⟨?_, marked.pos, ?_, ?_⟩
  · rw [same.sizeAt]
    exact marked.bit
  · rw [same.block]
    exact marked.large
  · rw [same.block]
    exact marked.tight

theorem SameHeader.header (same : SameHeader mem mem' pv) (header : Header mem pv) :
    Header mem' pv :=
  ⟨header.1, same.nextAt.trans header.2⟩

theorem Represents.block_used (rep : Represents layout p a) (held : pv ∈ p.pointers) :
    block p.heap.mem pv ∈ a.used :=
  rep.used.mem_iff.mpr (List.mem_map_of_mem held)

/-- The block behind a pointer lies in the heap, and its header is in it. -/
theorem Represents.block_bounds (rep : Represents layout p a) (held : pv ∈ p.pointers) :
    16 ≤ pv.toNat ∧ pv.toNat % 16 = 0 ∧ layout.low ≤ pv.toNat - 16 ∧
      (block p.heap.mem pv).stop ≤ layout.marker ∧ 32 ≤ (block p.heap.mem pv).size := by
  have used := rep.block_used held
  have within := rep.tiles.within (Or.inr used)
  have aligned := rep.aligned _ (List.mem_append_left _ used)
  have header := (rep.headers pv held).1
  simp only [block] at *
  omega

/-- What is in a used block is neither free nor outside of the heap. -/
theorem Represents.untouched (rep : Represents layout p a) (used : t ∈ a.used)
    (inside : t.Contains x) : Untouched layout a.free x := by
  have range := layout.range
  have within := rep.tiles.within (Or.inr used)
  refine ⟨fun free => rep.tiles.not_covers_used free ⟨t, used, inside⟩, ?_⟩
  simp only [Contains] at inside
  omega

/-- The blocks behind the pointers are apart. -/
theorem Represents.apart (rep : Represents layout p a) : p.blocks.Pairwise Apart :=
  rep.tiles.apart.perm rep.used fun apart => apart.symm

theorem Represents.nodup (rep : Represents layout p a) : p.pointers.Nodup := by
  have distinct : p.blocks.Nodup := by
    refine rep.apart.imp_of_mem fun {s t} first second apart equal => ?_
    have size := rep.tiles.sizes s (rep.used.mem_iff.mpr first)
    subst equal
    simp only [Apart, stop] at apart
    omega
  exact List.Nodup.of_map _ distinct

theorem Represents.blocks_apart (rep : Represents layout p a) (held : pv ∈ p.pointers) {pv' : Word}
    (other : pv' ∈ p.pointers) (different : pv ≠ pv') :
    (block p.heap.mem pv).Apart (block p.heap.mem pv') :=
  have : Std.Symm fun v w => (block p.heap.mem v).Apart (block p.heap.mem w) :=
    ⟨fun _ _ apart => apart.symm⟩
  (List.pairwise_map.mp rep.apart).forall held other different

/-- Writing in one block leaves the headers of the others alone. -/
theorem Represents.sameHeader (rep : Represents layout p a) (held : pv ∈ p.pointers)
    {pv' : Word} (other : pv' ∈ p.pointers) (different : pv' ≠ pv)
    (same : ∀ x, ¬ (block p.heap.mem pv).Contains x → mem' x = p.heap.mem x) :
    SameHeader p.heap.mem mem' pv' := by
  intro x low high
  apply same
  have bounds := rep.block_bounds other
  refine (rep.blocks_apart other held different).not_contains ⟨low, ?_⟩
  simp only [block, stop] at *
  omega

/-- A change that leaves the list and the headers of what is held as they are. -/
theorem Represents.congr (rep : Represents layout p a)
    (headers : ∀ pv ∈ p.pointers, SameHeader p.heap.mem s.mem pv)
    (heap : Ready layout s a.free ∨ Fresh layout s ∧ a.used = []) :
    Represents layout { p with heap := s } a := by
  have blocks : Program.blocks { p with heap := s } = p.blocks :=
    List.map_congr_left fun pv held => (headers pv held).block
  have used : a.used.Perm (Program.blocks { p with heap := s }) := by
    rw [blocks]
    exact rep.used
  refine ⟨rep.tiles, used, rep.aligned, fun pv held => ?_, fun y held => ?_,
    fun pv held => ?_, heap⟩
  · exact (headers pv held).header (rep.headers pv held)
  · have among : y.pv ∈ p.pointers := List.mem_append_left _ (List.mem_map_of_mem held)
    exact (headers _ among).marked (rep.live y held)
  · rw [(headers pv (List.mem_append_right _ held)).sizeAt]
    exact rep.freeing pv held

/-! ### The first call -/

theorem Represents.boot (layout : Layout) (mem : Bytes) :
    Represents layout (Program.boot layout mem) (Arena.whole layout.low layout.marker) := by
  have range := layout.range
  have low := layout.low_bounds
  have marker := layout.marker_bounds
  have zero : nextAt (Program.boot layout mem).heap.mem layout.xStart.toNat = 0 := by
    have cells (k : Nat) (inside : k < 8) :
        (Program.boot layout mem).heap.mem (layout.xStart.toNat + k) = 0 :=
      ByteMemory.write_replicate inside
    have first : (Program.boot layout mem).heap.mem layout.xStart.toNat = 0 := cells 0 (by omega)
    rw [nextAt, WordMemory.load, cells 1 (by omega), cells 2 (by omega), cells 3 (by omega), first]
    rfl
  refine ⟨Arena.Tiles.whole (by omega), .nil, ?_, ?_, ?_, ?_, Or.inr ⟨⟨rfl, zero, rfl, rfl⟩, rfl⟩⟩
  · simp only [Arena.whole, List.nil_append, List.mem_singleton, forall_eq, stop]
    omega
  all_goals simp [Program.pointers, Program.boot]

/-- What `pvPortMalloc` begins with. -/
def State.initialised (layout : Layout) (s : State) : State :=
  if s.pxEnd = null then prvHeapInit layout s else s

theorem pvPortMalloc_initialised (layout : Layout) (fuel : Nat) (xWantedSize : Word) (s : State) :
    pvPortMalloc layout fuel xWantedSize (s.initialised layout) =
      pvPortMalloc layout fuel xWantedSize s := by
  unfold State.initialised
  split
  next notInit =>
    have done := (prvHeapInit_ready layout s).pxEnd_ne_null
    simp only [pvPortMalloc, if_pos notInit, if_neg done]
  next => rfl

theorem Represents.initialised (rep : Represents layout p a) :
    Ready layout (p.heap.initialised layout) a.free ∧
      Represents layout { p with heap := p.heap.initialised layout } a := by
  rcases rep.heap with ready | ⟨fresh, unused⟩
  · have same : p.heap.initialised layout = p.heap := if_neg ready.pxEnd_ne_null
    rw [same]
    exact ⟨ready, rep⟩
  · have range := layout.range
    have initialised : p.heap.initialised layout = prvHeapInit layout p.heap := if_pos fresh.notInit
    have ready : Ready layout (p.heap.initialised layout) a.free := by
      rw [initialised, rep.tiles.free_of_unused (by omega) unused]
      exact prvHeapInit_ready layout p.heap
    have none : p.pointers = [] := by
      have blocks := rep.used
      rw [unused] at blocks
      exact List.map_eq_nil_iff.mp blocks.symm.eq_nil
    refine ⟨ready, rep.congr (fun pv held => ?_) (Or.inl ready)⟩
    rw [none] at held
    cases held

/-! ### What the calls keep -/

/-- A call that finds a block divides the heap anew. -/
theorem Represents.malloc {xWantedSize : Word} {b : Span} {rest : List Span}
    (rep : Represents layout p a) (ready : Ready layout p.heap a.free)
    (pos : 0 < xWantedSize.toNat)
    (carved : carve 32 (requiredSize xWantedSize.toNat) a.free = some (b, rest)) :
    ∃ pv s', pvPortMalloc layout loopFuel xWantedSize p.heap = some (pv, s') ∧
      pv.toNat = b.start + 16 ∧ Allocated layout p.heap s' a.free rest b ∧
      Represents layout { p with heap := s', live := ⟨pv, xWantedSize⟩ :: p.live }
        ⟨rest, b :: a.used⟩ := by
  obtain ⟨pv, s', called, pointer, allocated⟩ :=
    ready.malloc_some pos carved ready.list.total_le.2
  refine ⟨pv, s', called, pointer, allocated, ?_⟩
  have smallest : 32 ≤ requiredSize xWantedSize.toNat := Nat.le_add_left _ _
  have sizes := carve_size carved
  have bound := ready.list.total_le.1
  have shares := total_carve carved
  have start : pv.toNat - 16 = b.start := by omega
  have headers : ∀ pv' ∈ p.pointers, SameHeader p.heap.mem s'.mem pv' := by
    intro pv' held x low high
    have bounds := rep.block_bounds held
    refine allocated.untouched x (rep.untouched (rep.block_used held) ⟨low, ?_⟩)
    simp only [block, stop] at *
    omega
  have taken : block s'.mem pv = b := by
    rw [block, start, allocated.size, Nat.add_mod_right, Nat.mod_eq_of_lt (by omega)]
  have aligned : ∀ t ∈ b :: rest, t.start % 16 = 0 ∧ t.stop % 16 = 0 ∧ 32 ≤ t.size := by
    have free : ∀ t ∈ a.free, t.start % 16 = 0 ∧ t.stop % 16 = 0 ∧ 32 ≤ t.size :=
      fun t member => rep.aligned t (List.mem_append_right _ member)
    refine forall_carve (fun x => x % 16 = 0) smallest (Nat.le_refl 32) (fun t member => ?_) free carved
    have := free t member
    simp only [requiredSize]
    omega
  refine ⟨rep.tiles.take (by omega) carved, ?_, ?_, ?_, ?_, ?_, Or.inl allocated.ready⟩
  · have blocks : Program.blocks { p with heap := s', live := ⟨pv, xWantedSize⟩ :: p.live } =
        b :: p.blocks := by
      refine List.cons_eq_cons.mpr ⟨taken, List.map_congr_left fun pv' held => ?_⟩
      exact (headers pv' held).block
    rw [blocks]
    exact rep.used.cons b
  · intro t member
    simp only [List.cons_append, List.mem_cons, List.mem_append] at member
    rcases member with rfl | used | free
    · exact aligned t List.mem_cons_self
    · exact rep.aligned t (List.mem_append_left _ used)
    · exact aligned t (List.mem_cons_of_mem _ free)
  · have header : 16 ≤ pv.toNat := by omega
    refine List.forall_mem_cons.mpr ⟨⟨header, ?_⟩, fun pv' held =>
      (headers pv' held).header (rep.headers pv' held)⟩
    exact (congrArg (nextAt s'.mem) start).trans allocated.link
  · refine List.forall_mem_cons.mpr ⟨⟨?_, pos, ?_, ?_⟩, fun y held =>
      (headers y.pv (List.mem_append_left _ (List.mem_map_of_mem held))).marked (rep.live y held)⟩
    · simp only [start, allocated.size]
      exact Nat.le_add_left _ _
    · rw [taken]
      exact sizes.1
    · rw [taken]
      exact sizes.2
  · intro pv' held
    rw [(headers pv' (List.mem_append_right _ held)).sizeAt]
    exact rep.freeing pv' held

/-- Where something is held, the heap is initialised. -/
theorem Represents.ready (rep : Represents layout p a) (held : pv ∈ p.pointers) :
    Ready layout p.heap a.free := by
  rcases rep.heap with ready | ⟨-, unused⟩
  · exact ready
  · have used := rep.block_used held
    rw [unused] at used
    cases used

/-- What is held after the first half of a call of `vPortFree`. -/
def Program.marked (p : Program) (pv : Word) (mem : Bytes) : Program where
  heap := p.heap.withMem mem
  live := p.live.filter fun x => x.pv ≠ pv
  freeing := pv :: p.freeing

/-- One pointer is moved from the live ones to those that are being freed. -/
theorem Represents.marked_pointers (rep : Represents layout p a) (held : pv ∈ p.live.map Allocation.pv)
    (mem : Bytes) : (p.marked pv mem).pointers.Perm p.pointers := by
  have distinct : (p.live.map Allocation.pv).Nodup := (List.nodup_append.mp rep.nodup).1
  have left : (p.live.filter fun x => x.pv ≠ pv).map Allocation.pv =
      (p.live.map Allocation.pv).erase pv := by
    rw [distinct.erase_eq_filter, List.filter_map]
    refine congrArg _ (List.filter_congr fun x _ => ?_)
    simp only [Function.comp_apply, decide_not, bne, beq_eq_decide]
  have moved : (p.marked pv mem).pointers =
      (p.live.map Allocation.pv).erase pv ++ pv :: p.freeing := congrArg (· ++ pv :: p.freeing) left
  rw [moved]
  refine List.perm_middle.trans ?_
  exact ((List.perm_cons_erase held).symm.append_right p.freeing)

theorem Represents.freeMark (rep : Represents layout p a) (held : pv ∈ p.live.map Allocation.pv) :
    ∃ mem', Heap.freeMark pv p.heap = some (p.heap.withMem mem') ∧
      Represents layout (p.marked pv mem') a ∧ block mem' pv = block p.heap.mem pv ∧
      ∀ x, x < pv.toNat - 16 ∨ pv.toNat ≤ x → mem' x = p.heap.mem x := by
  have among : pv ∈ p.pointers := List.mem_append_left _ held
  obtain ⟨y, live, rfl⟩ := List.mem_map.mp held
  have bounds := rep.block_bounds among
  have isMarked := rep.live y live
  have ready := rep.ready among
  obtain ⟨mem, called, size, kept⟩ := freeMark_some bounds.1 isMarked.bit (rep.headers _ among).2
  have word : sizeAt p.heap.mem (y.pv.toNat - 16) < 2 ^ 32 := BitVec.isLt _
  have bit := isMarked.bit
  have outsideBlock : ∀ x, ¬ (block p.heap.mem y.pv).Contains x → mem x = p.heap.mem x := by
    intro x outside
    apply kept
    simp only [Contains, block, stop] at *
    omega
  have headers : ∀ pv' ∈ p.pointers, pv' ≠ y.pv → SameHeader p.heap.mem mem pv' :=
    fun pv' other different => rep.sameHeader among other different outsideBlock
  have link : nextAt mem (y.pv.toNat - 16) = nextAt p.heap.mem (y.pv.toNat - 16) :=
    nextAt_congr fun x low high => kept x (by omega)
  have blocks : ∀ pv' ∈ p.pointers, block mem pv' = block p.heap.mem pv' := by
    intro pv' other
    by_cases same : pv' = y.pv
    · have cleared : (sizeAt p.heap.mem (y.pv.toNat - 16) - 2 ^ 31) % 2 ^ 31 =
          sizeAt p.heap.mem (y.pv.toNat - 16) % 2 ^ 31 := by omega
      simp only [same, block, size, cleared]
    · exact (headers pv' other same).block
  have perm := rep.marked_pointers held mem
  have used : a.used.Perm (p.marked y.pv mem).blocks := by
    have unchanged : p.blocks = p.pointers.map (block mem) :=
      List.map_congr_left fun pv' other => (blocks pv' other).symm
    exact (rep.used.trans (.of_eq unchanged)).trans (perm.symm.map (block mem))
  refine ⟨mem, called, ?_, blocks _ among, fun x outside => kept x (by omega)⟩
  refine ⟨rep.tiles, used, rep.aligned, fun pv' other => ?_, fun z other => ?_, ?_, Or.inl ⟨ready.atEnd,
    ready.list.congr fun x place => outsideBlock x fun inside => ?_, ready.remaining⟩⟩
  · have other := perm.mem_iff.mp other
    by_cases same : pv' = y.pv
    · subst same
      exact ⟨bounds.1, link.trans (rep.headers _ other).2⟩
    · exact (headers pv' other same).header (rep.headers pv' other)
  · obtain ⟨live', different⟩ := List.mem_filter.mp other
    exact (headers z.pv (List.mem_append_left _ (List.mem_map_of_mem live'))
      (of_decide_eq_true different)).marked (rep.live z live')
  · have cleared : sizeAt mem (y.pv.toNat - 16) < 2 ^ 31 := by omega
    refine List.forall_mem_cons.mpr ⟨cleared, fun pv' other => ?_⟩
    have member : pv' ∈ p.pointers := List.mem_append_right _ other
    have different : pv' ≠ y.pv := by
      rintro rfl
      exact (List.nodup_append.mp rep.nodup).2.2 _ held _ other rfl
    exact (headers pv' member different).sizeAt.trans_lt (rep.freeing pv' other)
  · -- the block is not where the list is
    have range := layout.range
    obtain ⟨uncovered, -⟩ := rep.untouched (rep.block_used among) inside
    rcases place with free | place
    · exact uncovered free
    · simp only [Contains, block, stop] at *
      omega

/-- What is held after the second half. -/
def Program.freed (p : Program) (pv : Word) (s : State) : Program :=
  { p with heap := s, freeing := p.freeing.erase pv }

theorem Program.freed_pointers (p : Program) (held : pv ∈ p.freeing) (s : State) :
    p.pointers.Perm (pv :: (p.freed pv s).pointers) :=
  ((List.perm_cons_erase held).append_left _).trans List.perm_middle

theorem Represents.freeInsert (rep : Represents layout p a) (held : pv ∈ p.freeing) :
    ∃ s', Heap.freeInsert layout loopFuel pv p.heap = some s' ∧
      Freed layout p.heap s' a.free (block p.heap.mem pv) ∧
      Represents layout (p.freed pv s')
        ⟨Span.insert (block p.heap.mem pv) a.free, a.used.erase (block p.heap.mem pv)⟩ := by
  have among : pv ∈ p.pointers := List.mem_append_right _ held
  have bounds := rep.block_bounds among
  have used := rep.block_used among
  have ready := rep.ready among
  have size : sizeAt p.heap.mem (pv.toNat - 16) = (block p.heap.mem pv).size :=
    (Nat.mod_eq_of_lt (rep.freeing pv held)).symm
  obtain ⟨s', called, freed⟩ := ready.freeInsert (b := block p.heap.mem pv) bounds.1 rfl size
    ⟨bounds.2.2.1, bounds.2.2.2.1, by omega⟩ (rep.tiles.disjoint _ used) ready.list.total_le.2
  refine ⟨s', called, freed, ?_⟩
  have perm := p.freed_pointers held s'
  have absent : pv ∉ (p.freed pv s').pointers :=
    (List.nodup_cons.mp (perm.nodup_iff.mp rep.nodup)).1
  have others : ∀ pv' ∈ (p.freed pv s').pointers, pv' ∈ p.pointers ∧ pv' ≠ pv := fun pv' other =>
    ⟨perm.mem_iff.mpr (List.mem_cons_of_mem _ other), fun same => absent (same ▸ other)⟩
  have headers : ∀ pv' ∈ (p.freed pv s').pointers, SameHeader p.heap.mem s'.mem pv' := by
    intro pv' other x low high
    obtain ⟨member, different⟩ := others pv' other
    have bounds' := rep.block_bounds member
    have inside : (block p.heap.mem pv').Contains x := by
      refine ⟨low, ?_⟩
      simp only [block, stop] at *
      omega
    obtain ⟨uncovered, away⟩ := rep.untouched (rep.block_used member) inside
    refine freed.untouched x ⟨?_, away⟩
    rw [covers_cons, not_or]
    exact ⟨(rep.blocks_apart member among different).not_contains inside, uncovered⟩
  refine ⟨rep.tiles.give used, ?_, fun t member => ?_, fun pv' other => ?_, fun y live => ?_,
    fun pv' other => ?_, Or.inl freed.ready⟩
  · have blocks : (p.freed pv s').blocks = (p.freed pv s').pointers.map (block p.heap.mem) :=
      List.map_congr_left fun pv' other => (headers pv' other).block
    have before : a.used.Perm
        (block p.heap.mem pv :: (p.freed pv s').pointers.map (block p.heap.mem)) :=
      rep.used.trans (perm.map _)
    have after := before.erase (block p.heap.mem pv)
    rw [List.erase_cons_head] at after
    rw [blocks]
    exact after
  · rcases List.mem_append.mp member with still | free
    · exact rep.aligned t (List.mem_append_left _ (List.mem_of_mem_erase still))
    · refine forall_insert (fun x => x % 16 = 0) 32 (fun u there => ?_) t free
      rcases List.mem_cons.mp there with rfl | there
      · exact rep.aligned _ (List.mem_append_left _ used)
      · exact rep.aligned u (List.mem_append_right _ there)
  · exact (headers pv' other).header (rep.headers pv' (others pv' other).1)
  · have other : y.pv ∈ (p.freed pv s').pointers :=
      List.mem_append_left _ (List.mem_map_of_mem live)
    exact (headers y.pv other).marked (rep.live y live)
  · have same := (headers pv' (List.mem_append_right _ other)).sizeAt
    exact same.trans_lt (rep.freeing pv' (List.mem_of_mem_erase other))

/-! ### What the tasks may write -/

/-- An address where a task may write: behind the header of what it holds, or not the allocator's. -/
def Program.Writable (layout : Layout) (p : Program) (addr : Nat) : Prop :=
  (∃ y ∈ p.live, y.Contains addr) ∨ ¬ layout.Owns addr

theorem Represents.writable_cases {addr : Nat} (rep : Represents layout p a)
    (writable : p.Writable layout addr) : (¬ layout.Owns addr) ∨
      ∃ pv ∈ p.live.map Allocation.pv, (block p.heap.mem pv).Contains addr ∧ pv.toNat ≤ addr := by
  rcases writable with ⟨y, live, inside⟩ | outside
  · have large := (rep.live y live).large
    refine Or.inr ⟨y.pv, List.mem_map_of_mem live, ?_, inside.1⟩
    simp only [requiredSize, Allocation.Contains, Contains, block, stop] at *
    omega
  · exact Or.inl outside

/-- It is in no free block, nor in `xStart` or the end marker. -/
theorem Represents.writable_outside {addr : Nat} (rep : Represents layout p a)
    (writable : p.Writable layout addr) : ¬ Covers a.free addr ∧
      (addr < layout.xStart.toNat ∨ layout.xStart.toNat + 8 ≤ addr) ∧
      (addr < layout.marker ∨ layout.marker + 8 ≤ addr) := by
  have range := layout.range
  have low := layout.low_bounds
  have marker := layout.marker_bounds
  have total : configTotalHeapSize.toNat = 32768 := rfl
  rcases rep.writable_cases writable with outside | ⟨pv, held, inside, -⟩
  · simp only [Layout.Owns, total] at outside
    refine ⟨?_, by omega, by omega⟩
    rintro ⟨t, free, inside⟩
    have within := rep.tiles.within (Or.inl free)
    simp only [Contains] at inside
    omega
  · have among := List.mem_append_left p.freeing held
    have bounds := rep.block_bounds among
    refine ⟨(rep.untouched (rep.block_used among) inside).1, ?_⟩
    simp only [Contains, block, stop] at *
    omega

/-- It is in no header, and in no block that is being freed. -/
theorem Represents.writable_held {addr : Nat} (rep : Represents layout p a)
    (writable : p.Writable layout addr) :
    (∀ pv ∈ p.pointers, addr < pv.toNat - 16 ∨ pv.toNat ≤ addr) ∧
      ∀ pv ∈ p.freeing, ¬ (block p.heap.mem pv).Contains addr := by
  have low := layout.low_bounds
  have marker := layout.marker_bounds
  have total : configTotalHeapSize.toNat = 32768 := rfl
  rcases rep.writable_cases writable with outside | ⟨pv, live, inside, behind⟩
  · have away : ∀ pv ∈ p.pointers, ¬ (block p.heap.mem pv).Contains addr := by
      intro pv held there
      have bounds := rep.block_bounds held
      have start : (block p.heap.mem pv).start = pv.toNat - 16 := rfl
      simp only [Layout.Owns, total, Contains, start] at *
      omega
    refine ⟨fun pv held => ?_, fun pv held => away pv (List.mem_append_right _ held)⟩
    have bounds := rep.block_bounds held
    have := away pv held
    simp only [Contains, block, stop] at *
    omega
  · have among := List.mem_append_left p.freeing live
    have away : ∀ pv' ∈ p.pointers, pv ≠ pv' → ¬ (block p.heap.mem pv').Contains addr :=
      fun pv' held different => (rep.blocks_apart among held different).not_contains inside
    refine ⟨fun pv' held => ?_, fun pv' held => away pv' (List.mem_append_right _ held) ?_⟩
    · by_cases same : pv = pv'
      · exact Or.inr (same ▸ behind)
      · have bounds := rep.block_bounds held
        have := away pv' held same
        simp only [Contains, block, stop] at *
        omega
    · rintro rfl
      exact (List.nodup_append.mp rep.nodup).2.2 _ live _ held rfl

/-- What a task may write is not what the allocator reads. -/
theorem Represents.store {addr : Nat} {byte : UInt8} (rep : Represents layout p a)
    (writable : p.Writable layout addr) :
    Represents layout
      { p with heap := { p.heap with mem := Function.update p.heap.mem addr byte } } a := by
  obtain ⟨uncovered, start, marker⟩ := rep.writable_outside writable
  obtain ⟨headers, -⟩ := rep.writable_held writable
  have kept : ∀ x, x ≠ addr → Function.update p.heap.mem addr byte x = p.heap.mem x :=
    fun x other => Function.update_of_ne other _ _
  refine rep.congr (fun pv held x lower upper => kept x ?_) ?_
  · rintro rfl
    have := headers pv held
    have := (rep.headers pv held).1
    omega
  · rcases rep.heap with ready | ⟨fresh, unused⟩
    · refine Or.inl ⟨ready.atEnd, ready.list.congr fun x there => kept x ?_, ready.remaining⟩
      rintro rfl
      rcases there with free | there
      · exact uncovered free
      · omega
    · refine Or.inr ⟨⟨fresh.notInit, ?_, fresh.remaining, fresh.minimum⟩, unused⟩
      rw [← fresh.start]
      exact nextAt_congr fun x lower upper => kept x (by omega)

/-! ### Refinement -/

/-- What a call that hands out a pointer does, and where the pointer is. -/
structure Took (layout : Layout) (p : Program) (a : Arena) (xWantedSize pv : Word) (s' : State)
    (b : Span) (rest : List Span) : Prop where
  pos : 0 < xWantedSize.toNat
  carved : carve 32 (requiredSize xWantedSize.toNat) a.free = some (b, rest)
  called : pvPortMalloc layout loopFuel xWantedSize p.heap = some (pv, s')
  pointer : pv.toNat = b.start + 16
  allocated : Allocated layout (p.heap.initialised layout) s' a.free rest b
  rep : Represents layout { p with heap := s', live := ⟨pv, xWantedSize⟩ :: p.live }
    ⟨rest, b :: a.used⟩

theorem Took.nonnull {xWantedSize : Word} {b : Span} {rest : List Span}
    (took : Took layout p a xWantedSize pv s b rest) : pv ≠ null := by
  have pointer := took.pointer
  rintro rfl
  have zero : null.toNat = 0 := rfl
  omega

/-- A call is refused, and then initialises the heap at most; or it takes a block. -/
theorem Represents.malloc_cases (rep : Represents layout p a) (xWantedSize : Word) :
    ((xWantedSize = 0 ∨ carve 32 (requiredSize xWantedSize.toNat) a.free = none) ∧
      pvPortMalloc layout loopFuel xWantedSize p.heap =
        some (null, p.heap.initialised layout)) ∨
    ∃ pv s' b rest, Took layout p a xWantedSize pv s' b rest := by
  obtain ⟨ready, rep'⟩ := rep.initialised
  have same := pvPortMalloc_initialised layout loopFuel xWantedSize p.heap
  by_cases zero : xWantedSize = 0
  · refine Or.inl ⟨Or.inl zero, ?_⟩
    rw [← same, zero]
    exact ready.malloc_zero
  · have pos : 0 < xWantedSize.toNat :=
      Nat.pos_of_ne_zero fun none => zero (BitVec.eq_of_toNat_eq none)
    cases carved : carve 32 (requiredSize xWantedSize.toNat) a.free with
    | none =>
      refine Or.inl ⟨Or.inr rfl, ?_⟩
      rw [← same]
      exact ready.malloc_none pos carved ready.list.total_le.2
    | some taken =>
      obtain ⟨b, rest⟩ := taken
      obtain ⟨pv, s', called, pointer, allocated, rep''⟩ := rep'.malloc ready pos carved
      exact Or.inr ⟨pv, s', b, rest, pos, carved, same.symm.trans called, pointer, allocated, rep''⟩

theorem Represents.malloc_returns (rep : Represents layout p a) (xWantedSize : Word) :
    ∃ pv s', pvPortMalloc layout loopFuel xWantedSize p.heap = some (pv, s') := by
  rcases rep.malloc_cases xWantedSize with ⟨-, called⟩ | ⟨pv, s', b, rest, took⟩
  · exact ⟨_, _, called⟩
  · exact ⟨pv, s', took.called⟩

/-- What the arena is seen to do. -/
def Program.arenaEvent (p : Program) : Event → Option Arena.Event
  | .malloc xWantedSize =>
    if xWantedSize = 0 then none else some (.take (requiredSize xWantedSize.toNat))
  | .freeMark _ => none
  | .freeInsert pv => some (.give (block p.heap.mem pv))
  | .store _ _ => none

/-- Everything that a step can do. -/
inductive Stepped (layout : Layout) (p : Program) (a : Arena) : Event → Program → Prop where
  | refused (xWantedSize : Word)
      (refused : xWantedSize = 0 ∨ carve 32 (requiredSize xWantedSize.toNat) a.free = none) :
      Stepped layout p a (.malloc xWantedSize) { p with heap := p.heap.initialised layout }
  | took {xWantedSize pv : Word} {s' : State} {b : Span} {rest : List Span}
      (took : Took layout p a xWantedSize pv s' b rest) :
      Stepped layout p a (.malloc xWantedSize)
        { p with heap := s', live := ⟨pv, xWantedSize⟩ :: p.live }
  | marked {pv : Word} {mem' : Bytes} (held : pv ∈ p.live.map Allocation.pv)
      (rep : Represents layout (p.marked pv mem') a)
      (kept : ∀ x, x < pv.toNat - 16 ∨ pv.toNat ≤ x → mem' x = p.heap.mem x) :
      Stepped layout p a (.freeMark pv) (p.marked pv mem')
  | freed {pv : Word} {s' : State} (held : pv ∈ p.freeing)
      (freed : Freed layout p.heap s' a.free (block p.heap.mem pv))
      (rep : Represents layout (p.freed pv s')
        ⟨Span.insert (block p.heap.mem pv) a.free, a.used.erase (block p.heap.mem pv)⟩) :
      Stepped layout p a (.freeInsert pv) (p.freed pv s')
  | stored {addr : Nat} {byte : UInt8} (writable : p.Writable layout addr) :
      Stepped layout p a (.store addr byte)
        { p with heap := { p.heap with mem := Function.update p.heap.mem addr byte } }

theorem Represents.stepped {e : Event} (rep : Represents layout p a)
    (stepped : p.step layout e = some q) : Stepped layout p a e q := by
  cases e with
  | malloc xWantedSize =>
    rw [Program.step] at stepped
    rcases rep.malloc_cases xWantedSize with ⟨refused, called⟩ | ⟨pv, s', b, rest, took⟩
    · rw [called] at stepped
      cases stepped
      exact .refused xWantedSize refused
    · rw [took.called, Option.map_some] at stepped
      simp only [if_neg took.nonnull] at stepped
      cases stepped
      exact .took took
  | freeMark pv =>
    rw [Program.step] at stepped
    split at stepped
    next live =>
      have held : pv ∈ p.live.map Allocation.pv := by simpa using live
      obtain ⟨mem', called, rep', -, kept⟩ := rep.freeMark held
      rw [called] at stepped
      cases stepped
      exact .marked held rep' kept
    next => cases stepped
  | freeInsert pv =>
    rw [Program.step] at stepped
    split at stepped
    next held =>
      obtain ⟨s', called, freed, rep'⟩ := rep.freeInsert held
      rw [called] at stepped
      cases stepped
      exact .freed held freed rep'
    next => cases stepped
  | store addr byte =>
    rw [Program.step] at stepped
    split at stepped
    next writable =>
      cases stepped
      exact .stored writable
    next => cases stepped

theorem Represents.step {e : Event} (rep : Represents layout p a)
    (stepped : p.step layout e = some q) :
    ∃ b, (Arena.machine 32).stutter a (p.arenaEvent e) = some b ∧ Represents layout q b := by
  cases rep.stepped stepped with
  | refused xWantedSize refused =>
    refine ⟨a, ?_, rep.initialised.2⟩
    rw [Program.arenaEvent]
    split
    next => rfl
    next nonzero =>
      have positive : 0 < requiredSize xWantedSize.toNat := Nat.succ_pos _
      simp only [Lts.stutter_some, Arena.machine, Arena.step, if_pos positive,
        refused.resolve_left nonzero]
  | @took xWantedSize pv s' b rest took =>
    refine ⟨⟨rest, b :: a.used⟩, ?_, took.rep⟩
    have nonzero : xWantedSize ≠ 0 := by
      rintro rfl
      exact Nat.lt_irrefl 0 took.pos
    have positive : 0 < requiredSize xWantedSize.toNat := Nat.succ_pos _
    simp only [Program.arenaEvent, if_neg nonzero, Lts.stutter_some, Arena.machine, Arena.step,
      if_pos positive, took.carved]
  | marked held rep' kept => exact ⟨a, rfl, rep'⟩
  | @freed pv s' held freed rep' =>
    refine ⟨_, ?_, rep'⟩
    have used := rep.block_used (List.mem_append_right _ held)
    simp only [Program.arenaEvent, Lts.stutter_some, Arena.machine, Arena.step, if_pos used]
  | stored writable => exact ⟨a, rfl, rep.store writable⟩

/-- The allocator, with the tasks that use it, is an arena. -/
def arenaRefinement (layout : Layout) : Lts.Refinement (program layout) (Arena.machine 32) where
  rel := Represents layout
  event := Program.arenaEvent
  step _ _ _ _ rep stepped := rep.step stepped

/-- In every state that the tasks can reach, the heap is divided. -/
theorem Represents.reached {es : List Event} (ran : (program layout).run (Program.boot layout mem) es =
    some p) : ∃ a, Represents layout p a := by
  obtain ⟨a, -, rep⟩ := (arenaRefinement layout).run (Represents.boot layout mem) ran
  exact ⟨a, rep⟩

/-- The free list in memory and the blocks that the tasks hold are, after every run, those of an
arena that has served the same requests. -/
theorem heap_refines_arena (layout : Layout) (mem : Bytes) {es : List Event} {p : Program}
    (ran : (program layout).run (Program.boot layout mem) es = some p) :
    ∃ a, (Arena.machine 32).run (Arena.whole layout.low layout.marker)
        ((program layout).log (arenaRefinement layout).visible [] (Program.boot layout mem) es) =
          some a ∧ Represents layout p a :=
  (arenaRefinement layout).run (Represents.boot layout mem) ran

/-! ### A run -/

def sampleLayout : Layout :=
  ⟨0x20000008, 0x20010000, by decide, by decide, by decide, by decide⟩

/-- The second block is in use, and the first has been freed. -/
def sampleEvents : List Event :=
  [.malloc 10, .malloc 100, .store 0x20000040 7, .freeMark 0x20000020, .freeInsert 0x20000020]

theorem sample_ran (byte : UInt8) (known : byte = 0 ∨ byte = 0xa5) : ∃ p,
    (program sampleLayout).run (Program.boot sampleLayout fun _ => byte) sampleEvents = some p ∧
      p.live = [⟨0x20000040, 100⟩] ∧ p.freeing = [] ∧ p.blocks = [⟨0x20000030, 128⟩] ∧
      p.heap.pxEnd = 0x20007ff0 := by
  have reached : ((program sampleLayout).run (Program.boot sampleLayout fun _ => byte)
      sampleEvents).map (fun p => (p.live, p.freeing, p.blocks, p.heap.pxEnd)) =
        some ([⟨0x20000040, 100⟩], [], [⟨0x20000030, 128⟩], 0x20007ff0) := by
    rcases known with rfl | rfl <;> decide +kernel
  obtain ⟨p, ran, same⟩ := Option.map_eq_some_iff.mp reached
  simp only [Prod.mk.injEq] at same
  exact ⟨p, ran, same⟩

theorem heap_refines_arena_sample : ∃ p a,
    (program sampleLayout).run (Program.boot sampleLayout fun _ => 0) sampleEvents = some p ∧
      Represents sampleLayout p a := by
  obtain ⟨p, ran, -⟩ := sample_ran 0 (Or.inl rfl)
  obtain ⟨a, -, rep⟩ := heap_refines_arena sampleLayout _ ran
  exact ⟨p, a, ran, rep⟩

end WchLwip.Heap
