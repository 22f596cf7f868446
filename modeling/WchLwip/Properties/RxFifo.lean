import WchLwip.Library.RingQueue
import WchLwip.Model.RxRing

/-! The receive ring is a FIFO of descriptors.

The invariant relates the history of a run to the ring: the descriptors that the
DMA closed are those given back so far followed by a queue, and that queue is
what the ring holds from the descriptor after the last one given back. Giving a
descriptor back and advancing `DMARxDescToGet` are two statements, so between
them the cursor is one descriptor behind the queue. -/
namespace WchLwip

open Mask RingQueue

/-! ### What a step of the DMA does -/

theorem Rx.dmaRuns_iff (rx : Rx) :
    rx.dmaRuns = true ↔ rx.dmaSuspended = false ∧ rx.dmaOwns = true := by
  simp only [Rx.dmaRuns, Bool.and_eq_true, Bool.not_eq_true']

theorem Rx.dmaStore_frame {rx rx' : Rx} {k : Nat} {byte : UInt8}
    (stored : rx.dmaStore k byte = some rx') :
    rx.dmaRuns = true ∧
      k < ((rx.dmaRxDscrTab rx.dmaPos).controlBufferSize &&& ethDmaRxDescRbs1).toNat ∧
      rx' = { rx with
        rxBuff := Function.update rx.rxBuff
          ((rx.dmaRxDscrTab rx.dmaPos).buffer1Addr + k) byte } := by
  simp only [Rx.dmaStore] at stored
  split at stored <;> cases stored
  next allowed => exact ⟨allowed.1, allowed.2, rfl⟩

theorem Rx.dmaClose_frame {rx rx' : Rx} {status : Word} (closed : rx.dmaClose status = some rx') :
    rx.dmaRuns = true ∧
      rx' = { rx with
        dmaRxDscrTab := Function.update rx.dmaRxDscrTab rx.dmaPos
          { rx.dmaRxDscrTab rx.dmaPos with status := closedStatus status }
        dmaPos := (rx.dmaRxDscrTab rx.dmaPos).buffer2NextDescAddr } := by
  simp only [Rx.dmaClose] at closed
  split at closed <;> cases closed
  next runs => exact ⟨runs, rfl⟩

theorem Rx.dmaSuspend_frame {rx rx' : Rx} (suspended : rx.dmaSuspend = some rx') :
    rx.dmaOwns = false ∧ rx' = { rx with dmaSuspended := true } := by
  simp only [Rx.dmaSuspend] at suspended
  split at suspended <;> cases suspended
  next fetched =>
    simp only [Bool.and_eq_true, Bool.not_eq_true'] at fetched
    exact ⟨fetched.2, rfl⟩

/-! ### The ring as a queue of closed descriptors -/

/-- A descriptor that the CPU owns holds its index and its status. -/
def rxCell (tab : DescTab) (i : Nat) : Option (Nat × Word) :=
  if isSet (tab i).status ethDmaRxDescOwn then none else some (i, (tab i).status)

/-- What the initialiser wrote into the `n` descriptors and nothing changes later. -/
structure RxLayout (n : Nat) (tab : DescTab) : Prop where
  next : ∀ i < n, (tab i).buffer2NextDescAddr = (i + 1) % n
  addr : ∀ i < n, (tab i).buffer1Addr = i * ethMaxPacketSize
  size : ∀ i < n, (tab i).controlBufferSize =
    ethDmaRxDescRch ||| BitVec.ofNat 32 ethMaxPacketSize

theorem rxCell_eq_none_iff (tab : DescTab) (i : Nat) :
    rxCell tab i = none ↔ isSet (tab i).status ethDmaRxDescOwn = true := by
  unfold rxCell
  split <;> simp_all

theorem rxCell_of_cpu {tab : DescTab} {i : Nat}
    (cpu : isSet (tab i).status ethDmaRxDescOwn = false) :
    rxCell tab i = some (i, (tab i).status) := by
  simp [rxCell, cpu]

theorem rxCell_init (n : Nat) (tab : DescTab) (i : Nat) (inside : i < n) :
    rxCell (initChain n (rxChainEntry n) tab) i = none := by
  have owned : isSet ethDmaRxDescOwn ethDmaRxDescOwn = true := by decide
  rw [rxCell_eq_none_iff, initChain_apply, if_pos inside]
  exact owned

theorem RxLayout.init (n : Nat) (tab : DescTab) : RxLayout n (initChain n (rxChainEntry n) tab) where
  next i inside := by
    rw [initChain_apply, if_pos inside]
    exact nextDesc_eq n i inside
  addr i inside := by
    rw [initChain_apply, if_pos inside]
    rfl
  size i inside := by
    rw [initChain_apply, if_pos inside]
    rfl

theorem RxLayout.setStatus {n : Nat} {tab : DescTab} (layout : RxLayout n tab) (k : Nat)
    (status : Word) :
    RxLayout n (Function.update tab k { tab k with status := status }) where
  next i inside := by
    by_cases same : i = k
    · subst same
      simpa using layout.next i inside
    · simpa [Function.update_of_ne same] using layout.next i inside
  addr i inside := by
    by_cases same : i = k
    · subst same
      simpa using layout.addr i inside
    · simpa [Function.update_of_ne same] using layout.addr i inside
  size i inside := by
    by_cases same : i = k
    · subst same
      simpa using layout.size i inside
    · simpa [Function.update_of_ne same] using layout.size i inside

theorem rxCell_giveBack (tab : DescTab) (k : Nat) :
    rxCell (Function.update tab k
      { tab k with status := (tab k).status ||| ethDmaRxDescOwn }) =
    Function.update (rxCell tab) k none := by
  funext i
  by_cases same : i = k
  · subst same
    simp [rxCell, isSet_or_self _ ethDmaRxDescOwn (by decide)]
  · simp [rxCell, Function.update_of_ne same]

theorem rxCell_close (tab : DescTab) (k : Nat) (status : Word) :
    rxCell (Function.update tab k { tab k with status := closedStatus status }) =
    Function.update (rxCell tab) k (some (k, closedStatus status)) := by
  funext i
  by_cases same : i = k
  · subst same
    simp [rxCell, closedStatus, isSet_writeOneToClear_self]
  · simp [rxCell, Function.update_of_ne same]

/-! ### The invariant -/

/-- A call between giving its descriptor back and advancing the cursor. -/
def RxPc.behind : Option RxPc → Nat
  | some (.advance _) => 1
  | _ => 0

/-- A call that consumed its descriptor and did not give it back yet. -/
def RxPc.taken : Option RxPc → Nat
  | some (.giveBack _) => 1
  | _ => 0

/-- A call that tested a descriptor and found that the CPU owns it. -/
def RxPc.working : Option RxPc → Prop
  | some .readStatus | some (.giveBack _) => True
  | _ => False

structure RxAt (n : Nat) (log : RxLog) (q : List (Nat × Word)) (s : RxRing) : Prop where
  pos : 0 < n
  layout : RxLayout n s.rx.dmaRxDscrTab
  closed : log.closed = log.given ++ q
  holds : Holds n (rxCell s.rx.dmaRxDscrTab) log.given.length q
  dma : s.rx.dmaPos = log.closed.length % n
  getLt : s.rx.dmaRxDescToGet < n
  get : (s.rx.dmaRxDescToGet + RxPc.behind s.pc) % n = log.given.length % n
  consumed : log.consumed = log.given ++ q.take (RxPc.taken s.pc)
  work : RxPc.working s.pc → q ≠ []

theorem RxAt.init {n : Nat} (pos : 0 < n) (tab : DescTab) (rxBuff : Bytes) :
    RxAt n RxLog.empty [] (RxRing.init tab rxBuff n) where
  pos := pos
  layout := RxLayout.init n tab
  closed := rfl
  holds := Holds.empty (rxCell_init n tab)
  dma := (Nat.zero_mod n).symm
  getLt := pos
  get := rfl
  consumed := rfl
  work := False.elim

section Invariant

variable {n : Nat} {log : RxLog} {q : List (Nat × Word)} {s t : RxRing}

theorem RxAt.dmaLt (inv : RxAt n log q s) : s.rx.dmaPos < n := by
  rw [inv.dma]
  exact Nat.mod_lt _ inv.pos

theorem RxAt.tail (inv : RxAt n log q s) :
    s.rx.dmaPos = (log.given.length + q.length) % n := by
  rw [inv.dma, inv.closed, List.length_append]

/-- Outside the gap the cursor names the first closed descriptor. -/
theorem RxAt.get_eq (inv : RxAt n log q s) (caught : RxPc.behind s.pc = 0) :
    s.rx.dmaRxDescToGet = log.given.length % n := by
  have cursor := inv.get
  rwa [caught, Nat.add_zero, Nat.mod_eq_of_lt inv.getLt] at cursor

theorem RxAt.head (inv : RxAt n log q s) (caught : RxPc.behind s.pc = 0) :
    rxCell s.rx.dmaRxDscrTab s.rx.dmaRxDescToGet = q.head? := by
  rw [inv.get_eq caught]
  exact inv.holds.head inv.pos

/-- The test of `DMARxDescToGet` finds out whether anything is closed. -/
theorem RxAt.own_iff (inv : RxAt n log q s) (caught : RxPc.behind s.pc = 0) :
    isSet s.rx.toGet.status ethDmaRxDescOwn = true ↔ q = [] := by
  rw [Rx.toGet, ← rxCell_eq_none_iff, inv.head caught, List.head?_eq_none_iff]

/-- A call at work holds a descriptor of the CPU, so the DMA cannot close it again. -/
theorem RxAt.cpu_of_working (inv : RxAt n log q s) (working : RxPc.working s.pc)
    (caught : RxPc.behind s.pc = 0) : isSet s.rx.toGet.status ethDmaRxDescOwn = false := by
  rw [Bool.eq_false_iff]
  exact fun own => inv.work working ((inv.own_iff caught).mp own)

/-- A call at work holds the head of the queue. -/
theorem RxAt.head_of_working (inv : RxAt n log q s) (working : RxPc.working s.pc)
    (caught : RxPc.behind s.pc = 0) :
    ∃ rest, q = (s.rx.dmaRxDescToGet, s.rx.toGet.status) :: rest := by
  have first := inv.head caught
  rw [rxCell_of_cpu (inv.cpu_of_working working caught)] at first
  exact List.head?_eq_some_iff.mp first.symm

/-- The DMA owns its descriptor exactly while the ring has room. -/
theorem RxAt.dmaOwns_iff (inv : RxAt n log q s) : s.rx.dmaOwns = true ↔ q.length < n := by
  rw [Rx.dmaOwns, ← rxCell_eq_none_iff, inv.tail]
  exact inv.holds.tail_eq_none_iff inv.pos

/-! ### One statement -/

/-- A statement that changes neither the descriptors nor a cursor, at a call that does not
work on a descriptor. -/
private theorem RxAt.keep (inv : RxAt n log q s) (table : t.rx.dmaRxDscrTab = s.rx.dmaRxDscrTab)
    (cursor : t.rx.dmaRxDescToGet = s.rx.dmaRxDescToGet) (dma : t.rx.dmaPos = s.rx.dmaPos)
    (behind : RxPc.behind t.pc = RxPc.behind s.pc) (taken : RxPc.taken t.pc = RxPc.taken s.pc)
    (work : RxPc.working t.pc → q ≠ []) : RxAt n log q t where
  pos := inv.pos
  layout := table ▸ inv.layout
  closed := inv.closed
  holds := table ▸ inv.holds
  dma := dma ▸ inv.dma
  getLt := cursor ▸ inv.getLt
  get := by rw [cursor, behind, inv.get]
  consumed := by rw [taken, inv.consumed]
  work := work

private theorem RxAt.testOwn_stmt {rx : Rx} (inv : RxAt n log q ⟨rx, some .testOwn⟩) (dmasr : Word)
    {result : Word × Rx × RxPc}
    (stepped : ethRxPktChainMode dmasr rx .testOwn = some result) :
    RxAt n log q ⟨result.2.1, some result.2.2⟩ := by
  simp only [ethRxPktChainMode] at stepped
  split at stepped
  next owned =>
    cases stepped
    exact inv.keep rfl rfl rfl rfl rfl False.elim
  next free =>
    -- the call goes on to work on a descriptor, so there has to be one
    cases stepped
    exact inv.keep rfl rfl rfl rfl rfl fun _ empty =>
      free ((inv.own_iff rfl).mpr empty)

private theorem RxAt.readStatus_stmt {rx : Rx} (inv : RxAt n log q ⟨rx, some .readStatus⟩)
    (frame : FrameTypeDef) :
    RxAt n { log with consumed := log.consumed ++ [(rx.dmaRxDescToGet, rx.toGet.status)] } q
      ⟨rx, some (.giveBack frame)⟩ := by
  -- the descriptor read is the head of the queue, and nothing was taken from it before
  obtain ⟨rest, head⟩ := inv.head_of_working trivial rfl
  have before : log.consumed = log.given := by simpa [RxPc.taken] using inv.consumed
  exact {
    pos := inv.pos
    layout := inv.layout
    closed := inv.closed
    holds := inv.holds
    dma := inv.dma
    getLt := inv.getLt
    get := inv.get
    consumed := by simp [before, head, RxPc.taken]
    work := fun _ => inv.work trivial }

private theorem RxAt.giveBack_stmt {rx : Rx} {frame back : FrameTypeDef}
    (inv : RxAt n log q ⟨rx, some (.giveBack frame)⟩) :
    ∃ rest, RxAt n
      { log with given := log.given ++ [(rx.dmaRxDescToGet, rx.toGet.status)] } rest
      ⟨{ rx with
        dmaRxDscrTab := Function.update rx.dmaRxDscrTab rx.dmaRxDescToGet
          { rx.toGet with status := rx.toGet.status ||| ethDmaRxDescOwn } },
        some (.advance back)⟩ := by
  obtain ⟨rest, head⟩ := inv.head_of_working trivial rfl
  have cursor := inv.get_eq rfl
  have held := inv.holds
  rw [head] at held
  refine ⟨rest, ?_⟩
  exact {
    pos := inv.pos
    layout := inv.layout.setStatus _ _
    closed := by simp [inv.closed, head]
    holds := by
      -- the head leaves the queue, so its cell is the one that becomes empty
      simp only [Rx.toGet, rxCell_giveBack, List.length_append, List.length_singleton]
      rw [show rx.dmaRxDescToGet = log.given.length % n from cursor]
      exact held.pop
    dma := inv.dma
    getLt := inv.getLt
    get := by
      simp only [RxPc.behind, List.length_append, List.length_singleton]
      rw [show rx.dmaRxDescToGet = log.given.length % n from cursor, succ_mod]
    consumed := by simpa [RxPc.taken, head] using inv.consumed
    work := False.elim }

private theorem RxAt.advance_stmt {rx : Rx} {frame : FrameTypeDef}
    (inv : RxAt n log q ⟨rx, some (.advance frame)⟩) :
    RxAt n log q
      ⟨{ rx with dmaRxDescToGet := rx.toGet.buffer2NextDescAddr }, some (.ret frame)⟩ := by
  have next : rx.toGet.buffer2NextDescAddr = (rx.dmaRxDescToGet + 1) % n :=
    inv.layout.next _ inv.getLt
  exact {
    pos := inv.pos
    layout := inv.layout
    closed := inv.closed
    holds := inv.holds
    dma := inv.dma
    getLt := by
      rw [next]
      exact Nat.mod_lt _ inv.pos
    get := by
      rw [next]
      simpa [RxPc.behind] using inv.get
    consumed := inv.consumed
    work := False.elim }

theorem RxAt.stmt (inv : RxAt n log q s) {dmasr : Word}
    (stepped : RxRing.step s (.stmt dmasr) = some t) :
    ∃ q', RxAt n (log.record s (.stmt dmasr)) q' t := by
  obtain ⟨rx, pc⟩ := s
  simp only [RxRing.step, Option.bind_eq_some_iff, Option.map_eq_some_iff] at stepped
  obtain ⟨pc, rfl, result, ran, rfl⟩ := stepped
  cases pc with
  | testOwn => exact ⟨q, inv.testOwn_stmt dmasr ran⟩
  | testRbus =>
    simp only [ethRxPktChainMode] at ran
    split at ran <;> cases ran <;> exact ⟨q, inv.keep rfl rfl rfl rfl rfl False.elim⟩
  | clearRbus =>
    cases ran
    exact ⟨q, inv.keep rfl rfl rfl rfl rfl False.elim⟩
  | pollDemand =>
    cases ran
    exact ⟨q, inv.keep rfl rfl rfl rfl rfl False.elim⟩
  | readStatus =>
    cases ran
    exact ⟨q, inv.readStatus_stmt _⟩
  | giveBack frame =>
    cases ran
    exact inv.giveBack_stmt
  | advance frame =>
    cases ran
    exact ⟨q, inv.advance_stmt⟩
  | ret frame => cases ran

/-! ### One step of the DMA -/

theorem RxAt.close (inv : RxAt n log q s) {status : Word}
    (stepped : RxRing.step s (.dmaClose status) = some t) :
    RxAt n (log.record s (.dmaClose status)) (q ++ [(s.rx.dmaPos, closedStatus status)]) t := by
  simp only [RxRing.step, Option.map_eq_some_iff] at stepped
  obtain ⟨rx, closed, rfl⟩ := stepped
  obtain ⟨runs, rfl⟩ := Rx.dmaClose_frame closed
  have room := inv.dmaOwns_iff.mp (s.rx.dmaRuns_iff.mp runs).2
  exact {
    pos := inv.pos
    layout := inv.layout.setStatus _ _
    closed := by simp [RxLog.record, inv.closed]
    holds := by
      -- the DMA stands right behind the queue
      have pushed := inv.holds.push room (s.rx.dmaPos, closedStatus status)
      rw [← inv.tail] at pushed
      simpa only [RxLog.record, rxCell_close] using pushed
    dma := by
      simp only [RxLog.record, List.length_append, List.length_singleton]
      rw [inv.layout.next _ inv.dmaLt, inv.dma, succ_mod]
    getLt := inv.getLt
    get := inv.get
    consumed := by
      -- the call at work holds the head, which a new tail does not move
      simp only [RxLog.record, inv.consumed]
      rcases pcCase : RxPc.taken s.pc with _ | k
      · simp
      · have working : RxPc.working s.pc := by
          revert pcCase
          rcases s.pc with _ | pc
          · simp [RxPc.taken]
          · cases pc <;> simp [RxPc.taken, RxPc.working]
        have one : k = 0 := by
          revert pcCase
          rcases s.pc with _ | pc
          · simp [RxPc.taken]
          · cases pc <;> simp [RxPc.taken]
        subst one
        obtain ⟨first, rest, rfl⟩ := List.exists_cons_of_ne_nil (inv.work working)
        simp
    work := fun _ => by simp }

theorem RxAt.step (inv : RxAt n log q s) {e : RxEvent} (stepped : RxRing.step s e = some t) :
    ∃ q', RxAt n (log.record s e) q' t := by
  cases e with
  | call =>
    simp only [RxRing.step] at stepped
    split at stepped
    next idle =>
      cases stepped
      exact ⟨q, inv.keep rfl rfl rfl (by rw [idle]; rfl) (by rw [idle]; rfl) False.elim⟩
    next => cases stepped
  | stmt dmasr => exact inv.stmt stepped
  | ret =>
    simp only [RxRing.step] at stepped
    split at stepped
    next frame returning =>
      cases stepped
      exact ⟨q, inv.keep rfl rfl rfl (by rw [returning]; rfl) (by rw [returning]; rfl) False.elim⟩
    next => cases stepped
  | dmaStore k byte =>
    simp only [RxRing.step, Option.map_eq_some_iff] at stepped
    obtain ⟨rx, stored, rfl⟩ := stepped
    obtain ⟨-, -, rfl⟩ := Rx.dmaStore_frame stored
    exact ⟨q, inv.keep rfl rfl rfl rfl rfl inv.work⟩
  | dmaClose status => exact ⟨_, inv.close stepped⟩
  | dmaSuspend =>
    simp only [RxRing.step, Option.map_eq_some_iff] at stepped
    obtain ⟨rx, suspended, rfl⟩ := stepped
    obtain ⟨-, rfl⟩ := Rx.dmaSuspend_frame suspended
    exact ⟨q, inv.keep rfl rfl rfl rfl rfl inv.work⟩

end Invariant

theorem RxAt.run {n : Nat} (pos : 0 < n) (tab : DescTab) (rxBuff : Bytes) {es : List RxEvent}
    {s : RxRing} (ran : rxRing.run (RxRing.init tab rxBuff n) es = some s) :
    ∃ q, RxAt n (rxRing.log RxLog.record RxLog.empty (RxRing.init tab rxBuff n) es) q s :=
  rxRing.log_invariant RxLog.record (fun log s => ∃ q, RxAt n log q s)
    (fun _ _ _ _ ⟨_, inv⟩ stepped => inv.step stepped) ⟨[], RxAt.init pos tab rxBuff⟩ ran

/-! ### The FIFO -/

/-- A call that tested `DMARxDescToGet` and found that the DMA owns it. -/
def RxPc.refused : Option RxPc → Prop
  | some .testRbus | some .clearRbus | some .pollDemand => True
  | some (.ret frame) => frame.descriptor = none
  | _ => False

/-- A bound on the statements that a call still has to execute. -/
def RxPc.left : RxPc → Nat
  | .testOwn => 4
  | .testRbus | .readStatus => 3
  | .clearRbus | .giveBack _ => 2
  | .pollDemand | .advance _ => 1
  | .ret _ => 0

/-- The ring as a FIFO, in terms of the history `log` of the run that led to the state. -/
structure RxFifo (n : Nat) (log : RxLog) (s : RxRing) : Prop where
  /-- The `k`-th descriptor consumed is the `k`-th one closed, with the status it was closed
  with. -/
  order : log.consumed <+: log.closed
  /-- Descriptors are given back in the order they were consumed, at most one is still to be,
  and none between calls. -/
  given : log.given <+: log.consumed
  pending : log.consumed.length ≤ log.given.length + 1
  settled : s.pc = none → log.given = log.consumed
  /-- The test succeeds exactly when a closed descriptor waits. -/
  test : s.pc = some .testOwn →
    (isSet s.rx.toGet.status ethDmaRxDescOwn = true ↔ log.closed = log.consumed)
  /-- The test that fails changes nothing and leads into the refusing branch. -/
  refuse : s.pc = some .testOwn → isSet s.rx.toGet.status ethDmaRxDescOwn = true →
    ∀ dmasr t, rxRing.step s (.stmt dmasr) = some t → t.rx = s.rx ∧ RxPc.refused t.pc
  /-- That branch is left by the return alone, and its statements touch neither a descriptor
  nor `DMARxDescToGet`. -/
  refused : RxPc.refused s.pc → ∀ e t, rxRing.step s e = some t →
    (e = .ret ∨ RxPc.refused t.pc) ∧ t.rx.dmaRxDescToGet = s.rx.dmaRxDescToGet ∧
      ∀ dmasr, e = .stmt dmasr → t.rx.dmaRxDscrTab = s.rx.dmaRxDscrTab
  /-- The test that succeeds changes nothing either and leads to the read, whatever the rest of
  the status says. -/
  accept : s.pc = some .testOwn → isSet s.rx.toGet.status ethDmaRxDescOwn = false →
    ∀ dmasr, rxRing.step s (.stmt dmasr) = some ⟨s.rx, some .readStatus⟩
  /-- The read consumes the first descriptor closed that was not consumed yet. -/
  consume : s.pc = some .readStatus →
    log.closed[log.consumed.length]? = some (s.rx.dmaRxDescToGet, s.rx.toGet.status) ∧
    ∀ dmasr,
      (log.record s (.stmt dmasr)).consumed =
        log.consumed ++ [(s.rx.dmaRxDescToGet, s.rx.toGet.status)] ∧
      rxRing.step s (.stmt dmasr) = some ⟨s.rx, some (.giveBack (frameOf s.rx.toGet))⟩
  /-- The same call gives that descriptor back: it sets `OWN` there and changes nothing else. -/
  giveBack : ∀ frame, s.pc = some (.giveBack frame) →
    log.consumed = log.given ++ [(s.rx.dmaRxDescToGet, s.rx.toGet.status)] ∧
    isSet s.rx.toGet.status ethDmaRxDescOwn = false ∧
    ∀ dmasr, (log.record s (.stmt dmasr)).given = log.consumed ∧
      rxRing.step s (.stmt dmasr) = some
        ⟨{ s.rx with
          dmaRxDscrTab := Function.update s.rx.dmaRxDscrTab s.rx.dmaRxDescToGet
            { s.rx.toGet with status := s.rx.toGet.status ||| ethDmaRxDescOwn } },
          some (.advance { frame with descriptor := some s.rx.dmaRxDescToGet })⟩
  /-- Then it moves `DMARxDescToGet` to the successor and returns the frame. -/
  advance : ∀ frame, s.pc = some (.advance frame) →
    ∀ dmasr, rxRing.step s (.stmt dmasr) = some
      ⟨{ s.rx with dmaRxDescToGet := (s.rx.dmaRxDescToGet + 1) % n }, some (.ret frame)⟩
  /-- A call executes one statement after the other until it returns, and only a statement or
  the return moves it: the DMA leaves its place and its cursor alone. -/
  progress : ∀ pc, s.pc = some pc → 0 < pc.left →
    ∀ dmasr, ∃ rx next, rxRing.step s (.stmt dmasr) = some ⟨rx, some next⟩ ∧ next.left < pc.left
  returns : ∀ pc, s.pc = some pc → pc.left = 0 → rxRing.step s .ret = some ⟨s.rx, none⟩
  dma : ∀ e t, rxRing.step s e = some t →
    (∃ dmasr, e = .stmt dmasr) ∨ t.rx.dmaRxDescToGet = s.rx.dmaRxDescToGet ∧
      (e = .call ∨ e = .ret ∨ t.pc = s.pc)
  /-- Between calls the cursors are the two ends of the arc, whose length is at most `n`. -/
  ends : s.pc = none → s.rx.dmaRxDescToGet = log.consumed.length % n ∧
    s.rx.dmaPos = log.closed.length % n ∧ log.closed.length ≤ log.consumed.length + n
  arc : s.pc = none → ∀ i < n,
    (isSet (s.rx.dmaRxDscrTab i).status ethDmaRxDescOwn = false ↔
      ∃ k, log.consumed.length ≤ k ∧ k < log.closed.length ∧ i = k % n)

private theorem refuse_stmt {s t : RxRing} (testing : s.pc = some .testOwn)
    (owned : isSet s.rx.toGet.status ethDmaRxDescOwn = true) {dmasr : Word}
    (stepped : rxRing.step s (.stmt dmasr) = some t) : t.rx = s.rx ∧ RxPc.refused t.pc := by
  simp only [rxRing_step, RxRing.step, testing, Option.bind_some, ethRxPktChainMode, owned, if_true,
    Option.map_some, Option.some.injEq] at stepped
  subst stepped
  exact ⟨rfl, trivial⟩

private theorem refused_stmt {rx : Rx} {pc : RxPc} {t : RxRing}
    (refused : RxPc.refused (some pc)) {dmasr : Word}
    (stepped : rxRing.step ⟨rx, some pc⟩ (.stmt dmasr) = some t) :
    RxPc.refused t.pc ∧ t.rx.dmaRxDescToGet = rx.dmaRxDescToGet ∧
      t.rx.dmaRxDscrTab = rx.dmaRxDscrTab := by
  simp only [rxRing_step, RxRing.step, Option.bind_some, Option.map_eq_some_iff] at stepped
  obtain ⟨result, ran, rfl⟩ := stepped
  cases pc with
  | testRbus =>
    simp only [ethRxPktChainMode] at ran
    split at ran <;> cases ran
    · exact ⟨trivial, rfl, rfl⟩
    · exact ⟨rfl, rfl, rfl⟩
  | clearRbus =>
    cases ran
    exact ⟨trivial, rfl, rfl⟩
  | pollDemand =>
    cases ran
    exact ⟨rfl, rfl, rfl⟩
  | ret frame => cases ran
  | testOwn => exact refused.elim
  | readStatus => exact refused.elim
  | giveBack frame => exact refused.elim
  | advance frame => exact refused.elim

/-- An event that is no statement leaves `DMARxDescToGet` alone, and a call where it is. -/
private theorem quiet_step {s t : RxRing} {e : RxEvent} (stepped : rxRing.step s e = some t) :
    (∃ dmasr, e = .stmt dmasr) ∨ t.rx.dmaRxDescToGet = s.rx.dmaRxDescToGet ∧
      (e = .call ∨ e = .ret ∨ t.pc = s.pc) := by
  cases e with
  | stmt dmasr => exact Or.inl ⟨dmasr, rfl⟩
  | call =>
    simp only [rxRing_step, RxRing.step] at stepped
    split at stepped <;> cases stepped
    exact Or.inr ⟨rfl, Or.inl rfl⟩
  | ret =>
    simp only [rxRing_step, RxRing.step] at stepped
    split at stepped <;> cases stepped
    exact Or.inr ⟨rfl, Or.inr (Or.inl rfl)⟩
  | dmaStore k byte =>
    simp only [rxRing_step, RxRing.step, Option.map_eq_some_iff] at stepped
    obtain ⟨rx, stored, rfl⟩ := stepped
    obtain ⟨-, -, rfl⟩ := Rx.dmaStore_frame stored
    exact Or.inr ⟨rfl, Or.inr (Or.inr rfl)⟩
  | dmaClose status =>
    simp only [rxRing_step, RxRing.step, Option.map_eq_some_iff] at stepped
    obtain ⟨rx, closed, rfl⟩ := stepped
    obtain ⟨-, rfl⟩ := Rx.dmaClose_frame closed
    exact Or.inr ⟨rfl, Or.inr (Or.inr rfl)⟩
  | dmaSuspend =>
    simp only [rxRing_step, RxRing.step, Option.map_eq_some_iff] at stepped
    obtain ⟨rx, suspended, rfl⟩ := stepped
    obtain ⟨-, rfl⟩ := Rx.dmaSuspend_frame suspended
    exact Or.inr ⟨rfl, Or.inr (Or.inr rfl)⟩

private theorem refused_step {s t : RxRing} (refused : RxPc.refused s.pc) {e : RxEvent}
    (stepped : rxRing.step s e = some t) :
    (e = .ret ∨ RxPc.refused t.pc) ∧ t.rx.dmaRxDescToGet = s.rx.dmaRxDescToGet ∧
      ∀ dmasr, e = .stmt dmasr → t.rx.dmaRxDscrTab = s.rx.dmaRxDscrTab := by
  by_cases statement : ∃ dmasr, e = .stmt dmasr
  · obtain ⟨dmasr, rfl⟩ := statement
    obtain ⟨rx, _ | pc⟩ := s
    · exact refused.elim
    obtain ⟨later, cursor, table⟩ := refused_stmt refused stepped
    exact ⟨Or.inr later, cursor, fun _ _ => table⟩
  · obtain ⟨cursor, moved⟩ := (quiet_step stepped).resolve_left statement
    refine ⟨?_, cursor, fun dmasr same => absurd ⟨dmasr, same⟩ statement⟩
    rcases moved with rfl | rfl | same
    · -- a call begins only where none is in progress
      simp only [rxRing_step, RxRing.step] at stepped
      split at stepped <;> cases stepped
      next idle =>
        rw [idle] at refused
        exact refused.elim
    · exact Or.inl rfl
    · exact Or.inr (same ▸ refused)

/-- Every statement but the return leads on to one that is nearer to it. -/
private theorem RxPc.left_stmt (dmasr : Word) (rx : Rx) {pc : RxPc} (running : 0 < pc.left) :
    ∃ result, ethRxPktChainMode dmasr rx pc = some result ∧ result.2.2.left < pc.left := by
  cases pc with
  | testOwn =>
    -- either branch has three statements more at most
    simp only [ethRxPktChainMode]
    split <;> exact ⟨_, rfl, by simp [RxPc.left]⟩
  | testRbus =>
    simp only [ethRxPktChainMode]
    split <;> exact ⟨_, rfl, by simp [RxPc.left]⟩
  | ret frame => exact absurd running (Nat.lt_irrefl 0)
  | clearRbus => exact ⟨_, rfl, by simp [RxPc.left]⟩
  | pollDemand => exact ⟨_, rfl, by simp [RxPc.left]⟩
  | readStatus => exact ⟨_, rfl, by simp [RxPc.left]⟩
  | giveBack frame => exact ⟨_, rfl, by simp [RxPc.left]⟩
  | advance frame => exact ⟨_, rfl, by simp [RxPc.left]⟩

private theorem RxRing.progress {s : RxRing} {pc : RxPc} (at_pc : s.pc = some pc)
    (running : 0 < pc.left) (dmasr : Word) :
    ∃ rx next, rxRing.step s (.stmt dmasr) = some ⟨rx, some next⟩ ∧ next.left < pc.left := by
  obtain ⟨⟨dmasr', rx, next⟩, ran, nearer⟩ := RxPc.left_stmt dmasr s.rx running
  refine ⟨rx, next, ?_, nearer⟩
  simp only [rxRing_step, RxRing.step, at_pc, Option.bind_some, ran, Option.map_some]

private theorem RxRing.returns {s : RxRing} {pc : RxPc} (at_pc : s.pc = some pc) (done : pc.left = 0) :
    rxRing.step s .ret = some ⟨s.rx, none⟩ := by
  cases pc with
  | ret frame => simp only [rxRing_step, RxRing.step, at_pc]
  | testOwn => cases done
  | testRbus => cases done
  | clearRbus => cases done
  | pollDemand => cases done
  | readStatus => cases done
  | giveBack frame => cases done
  | advance frame => cases done

section Consumer

variable {n : Nat} {log : RxLog} {q : List (Nat × Word)} {s : RxRing}

theorem RxAt.settled (inv : RxAt n log q s) (none_taken : RxPc.taken s.pc = 0) :
    log.consumed = log.given := by
  have consumed := inv.consumed
  rwa [none_taken, List.take_zero, List.append_nil] at consumed

/-- The descriptor that a call is about to read is the first one closed and not consumed. -/
theorem RxAt.next_closed (inv : RxAt n log q s) (reading : s.pc = some .readStatus) :
    log.closed[log.consumed.length]? = some (s.rx.dmaRxDescToGet, s.rx.toGet.status) := by
  obtain ⟨rest, head⟩ := inv.head_of_working (by rw [reading]; trivial) (by rw [reading]; rfl)
  rw [inv.settled (by rw [reading]; rfl), inv.closed, head]
  simp

/-- The descriptor that a call is about to give back is the one that it consumed. -/
theorem RxAt.consumed_last (inv : RxAt n log q s) {frame : FrameTypeDef}
    (giving : s.pc = some (.giveBack frame)) :
    log.consumed = log.given ++ [(s.rx.dmaRxDescToGet, s.rx.toGet.status)] := by
  obtain ⟨rest, head⟩ := inv.head_of_working (by rw [giving]; trivial) (by rw [giving]; rfl)
  rw [inv.consumed, giving, head]
  rfl

theorem RxAt.fifo (inv : RxAt n log q s) : RxFifo n log s where
  order := by
    rw [inv.consumed, inv.closed]
    exact (List.prefix_append_right_inj _).mpr (List.take_prefix _ _)
  given := by
    rw [inv.consumed]
    exact List.prefix_append _ _
  pending := by
    have one : RxPc.taken s.pc ≤ 1 := by
      unfold RxPc.taken
      split <;> omega
    rw [inv.consumed, List.length_append, List.length_take]
    omega
  settled idle := (inv.settled (by rw [idle]; rfl)).symm
  test testing := by
    rw [inv.own_iff (by rw [testing]; rfl), inv.settled (by rw [testing]; rfl), inv.closed,
      List.append_right_eq_self]
  refuse testing owned _ _ := refuse_stmt testing owned
  refused refusing _ _ := refused_step refusing
  accept testing closed dmasr := by
    simp only [rxRing_step, RxRing.step, testing, Option.bind_some, ethRxPktChainMode, closed,
      if_false, Bool.false_eq_true, Option.map_some]
  consume reading := by
    refine ⟨inv.next_closed reading, fun dmasr => ⟨?_, ?_⟩⟩
    · simp only [RxLog.record, reading]
    · simp only [rxRing_step, RxRing.step, reading, Option.bind_some, ethRxPktChainMode,
        Option.map_some]
  giveBack frame giving := by
    have cpu := inv.cpu_of_working (by rw [giving]; trivial) (by rw [giving]; rfl)
    refine ⟨inv.consumed_last giving, cpu, fun dmasr => ⟨?_, ?_⟩⟩
    · rw [inv.consumed_last giving]
      simp only [RxLog.record, giving]
    · simp only [rxRing_step, RxRing.step, giving, Option.bind_some, ethRxPktChainMode,
        Option.map_some]
  advance frame moving dmasr := by
    have next : s.rx.toGet.buffer2NextDescAddr = (s.rx.dmaRxDescToGet + 1) % n :=
      inv.layout.next _ inv.getLt
    simp only [rxRing_step, RxRing.step, moving, Option.bind_some, ethRxPktChainMode,
      Option.map_some, next]
  progress _ at_pc running dmasr := RxRing.progress at_pc running dmasr
  returns _ at_pc done := RxRing.returns at_pc done
  dma _ _ stepped := quiet_step stepped
  ends idle := by
    have size : log.closed.length = log.given.length + q.length := by
      rw [inv.closed, List.length_append]
    have bound := inv.holds.le
    rw [inv.settled (by rw [idle]; rfl)]
    exact ⟨inv.get_eq (by rw [idle]; rfl), inv.dma, by omega⟩
  arc idle i inside := by
    have size : log.closed.length = log.given.length + q.length := by
      rw [inv.closed, List.length_append]
    rw [inv.settled (by rw [idle]; rfl), size, ← inv.holds.ne_none_iff inside, ne_eq,
      rxCell_eq_none_iff, Bool.not_eq_true]

end Consumer

/-- Every run of calls, interleaved statement by statement with the DMA, keeps the FIFO. -/
theorem rx_ring_is_fifo (n : Nat) (pos : 0 < n) (tab : DescTab) (rxBuff : Bytes)
    (es : List RxEvent) (s : RxRing)
    (ran : rxRing.run (RxRing.init tab rxBuff n) es = some s) :
    RxFifo n (rxRing.log RxLog.record RxLog.empty (RxRing.init tab rxBuff n) es) s := by
  obtain ⟨q, inv⟩ := RxAt.run pos tab rxBuff ran
  exact inv.fifo

/-- The DMA fills a ring of two, with a good frame and one in error, and is suspended. Two calls
consume them, a third one finds nothing and resumes the DMA, which goes round to the first
descriptor. It closes the second one while the fourth call is at work on the first. -/
def rxSample : List RxEvent :=
  [.dmaStore 0 0xAB, .dmaClose 0x00400300, .dmaClose 0x00408300, .dmaSuspend,
    .call, .stmt 0, .stmt 0, .stmt 0, .stmt 0, .ret,
    .call, .stmt 0, .stmt 0, .stmt 0, .stmt 0, .ret,
    .call, .stmt 0, .stmt ethDmasrRbus, .stmt ethDmasrRbus, .stmt 0, .ret,
    .dmaClose 0x00500300, .call, .stmt 0, .stmt 0, .dmaClose 0x00600300, .stmt 0, .stmt 0, .ret]

/-- Three descriptors consumed in order on a ring of two, the fourth one waits. -/
theorem rx_ring_is_fifo_sample : ∃ s,
    rxRing.run (RxRing.init (fun _ => ⟨0, 0, 0, 0⟩) (fun _ => 0) 2) rxSample = some s ∧
    RxFifo 2 (rxRing.log RxLog.record RxLog.empty
      (RxRing.init (fun _ => ⟨0, 0, 0, 0⟩) (fun _ => 0) 2) rxSample) s ∧
    (rxRing.log RxLog.record RxLog.empty
      (RxRing.init (fun _ => ⟨0, 0, 0, 0⟩) (fun _ => 0) 2) rxSample).consumed =
        [(0, 0x00400300), (1, 0x00408300), (0, 0x00500300)] ∧
    s.rx.dmaRxDescToGet = 1 := by
  refine ⟨_, rfl, rx_ring_is_fifo 2 (by decide) _ _ _ _ rfl, ?_, ?_⟩ <;> decide +kernel

end WchLwip
