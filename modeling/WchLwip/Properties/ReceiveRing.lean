import WchLwip.Properties.Handler

/-! The receive ring under the interrupt handler: frames left behind, and a suspended DMA.

One entry of the handler consumes one descriptor for one `R`. The descriptors
that wait are therefore counted by the flag, by the call in progress, and by the
descriptors that were closed without raising the flag. -/
namespace WchLwip

open Mask

variable {s t : Driver}

/-! ### Frames left behind -/

/-- A descriptor is closed as the last one of its frame, and while `R` is clear. -/
def drainGuard (s : Driver) : DriverEvent → Bool
  | .rxClose status => isSet status ethDmaRxDescLs && !isSet s.dmasr ethDmaItR
  | _ => true

/-- The descriptors that the call in progress is still to give back. -/
def IrqPc.consuming : IrqPc → Nat
  | .rxPkt .testOwn | .rxPkt .readStatus | .rxPkt (.giveBack _) => 1
  | _ => 0

/-- The statements of the branch for a descriptor that the DMA owns. -/
def IrqPc.refusing : IrqPc → Prop
  | .rxPkt .testRbus | .rxPkt .clearRbus | .rxPkt .pollDemand => True
  | _ => False

/-- The descriptors that wait, after `missed` of them were closed outside the guard. -/
structure Backlog (n : Nat) (log : RxLog) (missed : Nat) (s : Driver) : Prop where
  ring : ∃ q, RxAt n log q s.rxRing
  flagged : s.irq = .clearR → isSet s.dmasr ethDmaItR = true
  served : ¬ s.irq.refusing
  count : log.closed.length =
    log.given.length + (isSet s.dmasr ethDmaItR).toNat + s.irq.consuming + missed

section Backlog

variable {n missed : Nat} {log : RxLog}

/-- A step that closes and consumes nothing and leaves `R` alone. -/
private theorem Backlog.keep {log' : RxLog} (held : Backlog n log missed s)
    (ring : ∃ q, RxAt n log' q t.rxRing) (closed : log'.closed.length = log.closed.length)
    (given : log'.given.length + t.irq.consuming = log.given.length + s.irq.consuming)
    (flag : isSet t.dmasr ethDmaItR = isSet s.dmasr ethDmaItR)
    (flagged : t.irq = .clearR → isSet s.dmasr ethDmaItR = true) (served : ¬ t.irq.refusing) :
    Backlog n log' missed t where
  ring := ring
  flagged waiting := flag ▸ flagged waiting
  served := served
  count := by
    have count := held.count
    rw [closed, flag]
    omega

/-- A step that leaves the handler and `R` alone, and closes nothing. -/
private theorem Backlog.elsewhere (held : Backlog n log missed s)
    (ring : ∃ q, RxAt n log q t.rxRing) (irq : t.irq = s.irq)
    (flag : isSet t.dmasr ethDmaItR = isSet s.dmasr ethDmaItR) : Backlog n log missed t := by
  refine held.keep ring rfl ?_ flag ?_ ?_ <;> rw [irq]
  · exact held.flagged
  · exact held.served

/-- A call that has not given its descriptor back finds one that the CPU owns. -/
private theorem Backlog.head_free (held : Backlog n log missed s)
    (testing : s.irq = .rxPkt .testOwn) : isSet s.rx.toGet.status ethDmaRxDescOwn = false := by
  obtain ⟨q, inv⟩ := held.ring
  have count := held.count
  have waiting : q ≠ [] := by
    rintro rfl
    -- with nothing waiting the call would have nothing to give back
    rw [inv.closed, List.append_nil, testing] at count
    simp only [IrqPc.consuming] at count
    omega
  have caught : RxPc.behind s.rxRing.pc = 0 := by
    simp [Driver.rxRing, testing, IrqPc.rxCall, RxPc.behind]
  exact Bool.eq_false_iff.mpr fun owned => waiting ((inv.own_iff caught).mp owned)

private theorem backlog_rxPkt (held : Backlog n log missed s) {pc : RxPc}
    (running : s.irq = .rxPkt pc) (stepped : s.irqStmt = some t)
    (ring : ∃ q, RxAt n (rxHistory log s .irq) q t.rxRing) :
    Backlog n (rxHistory log s .irq) missed t := by
  obtain ⟨closed, given⟩ := rxHistory_irq log s
  rw [running] at given
  have closed : (rxHistory log s .irq).closed.length = log.closed.length := by rw [closed]
  obtain ⟨dmasr, rx, tx, irq, out⟩ := s
  cases running
  cases pc with
  | testOwn =>
    -- the flag stands for a closed descriptor, so the test finds it
    have free := held.head_free rfl
    simp only [Driver.irqStmt, ethRxPktChainMode, free, if_false, Bool.false_eq_true,
      Option.map_some] at stepped
    cases stepped
    exact held.keep ring closed (by rw [given]; rfl) rfl (fun same => by cases same) id
  | readStatus =>
    cases stepped
    exact held.keep ring closed (by rw [given]; rfl) rfl (fun same => by cases same) id
  | giveBack frame =>
    cases stepped
    exact held.keep ring closed (by rw [given]; rfl) rfl (fun same => by cases same) id
  | advance frame =>
    cases stepped
    exact held.keep ring closed (by rw [given]; rfl) rfl (fun same => by cases same) id
  | ret frame =>
    cases stepped
    exact held.keep ring closed (by rw [given]; rfl) rfl (fun same => by cases same) id
  | testRbus => exact absurd trivial held.served
  | clearRbus => exact absurd trivial held.served
  | pollDemand => exact absurd trivial held.served

/-- A statement outside a call that moves the handler between places where it consumes
nothing. -/
private theorem Backlog.move {next : IrqPc} {dmasr : Word} (held : Backlog n log missed s)
    (ring : ∃ q, RxAt n (rxHistory log s .irq) q (Driver.rxRing { s with irq := next }))
    (gives : s.irq.gives = 0) (outside : s.irq.consuming = 0) (outside' : next.consuming = 0)
    (flag : isSet dmasr ethDmaItR = isSet s.dmasr ethDmaItR)
    (flagged : next = .clearR → isSet s.dmasr ethDmaItR = true) (served : ¬ next.refusing) :
    Backlog n (rxHistory log s .irq) missed { s with dmasr := dmasr, irq := next } := by
  obtain ⟨closed, given⟩ := rxHistory_irq log s
  exact held.keep ring (congrArg _ closed) (by simp only [given, gives, outside, outside']) flag
    flagged served

/-- Clearing `R` commits the handler to one call. -/
private theorem backlog_clearR (held : Backlog n log missed s) (waiting : s.irq = .clearR)
    (stepped : s.irqStmt = some t)
    (ring : ∃ q, RxAt n (rxHistory log s .irq) q t.rxRing) :
    Backlog n (rxHistory log s .irq) missed t := by
  obtain ⟨closed, given⟩ := rxHistory_irq log s
  have raised := held.flagged waiting
  have count := held.count
  simp only [Driver.irqStmt, waiting, Option.some.injEq] at stepped
  subst stepped
  rw [waiting] at given count
  refine ⟨ring, (fun same => by cases same), id, ?_⟩
  rw [closed, given, count, raised]
  simp [isSet_writeOneToClear_self, IrqPc.gives, IrqPc.consuming]

private theorem backlog_irq (held : Backlog n log missed s) (stepped : s.irqStmt = some t)
    (ring : ∃ q, RxAt n (rxHistory log s .irq) q t.rxRing) :
    Backlog n (rxHistory log s .irq) missed t := by
  cases pc : s.irq with
  | rxPkt call => exact backlog_rxPkt held pc stepped ring
  | clearR => exact backlog_clearR held pc stepped ring
  | testR =>
    simp only [Driver.irqStmt, pc, Option.some.injEq] at stepped
    subst stepped
    by_cases raised : isSet s.dmasr ethDmaItR = true
    · simp only [raised, if_true] at ring ⊢
      exact held.move ring (by rw [pc]; rfl) (by rw [pc]; rfl) rfl rfl (fun _ => raised) id
    · simp only [raised, if_false, Bool.false_eq_true] at ring ⊢
      exact held.move ring (by rw [pc]; rfl) (by rw [pc]; rfl) rfl rfl (fun same => by cases same) id
  | testT =>
    simp only [Driver.irqStmt, pc, Option.some.injEq] at stepped
    subst stepped
    by_cases raised : isSet s.dmasr ethDmaItT = true
    · simp only [raised, if_true] at ring ⊢
      exact held.move ring (by rw [pc]; rfl) (by rw [pc]; rfl) rfl rfl (fun same => by cases same) id
    · simp only [raised, if_false, Bool.false_eq_true] at ring ⊢
      exact held.move ring (by rw [pc]; rfl) (by rw [pc]; rfl) rfl rfl (fun same => by cases same) id
  | copy frame lens filled =>
    obtain ⟨same, next | ⟨lens', filled', next⟩⟩ := irqStmt_copy pc stepped <;>
    · rw [same, next] at ring ⊢
      exact held.move ring (by rw [pc]; rfl) (by rw [pc]; rfl) rfl rfl (fun same => by cases same) id
  | free =>
    simp only [Driver.irqStmt, pc, Option.some.injEq] at stepped
    subst stepped
    exact held.move ring (by rw [pc]; rfl) (by rw [pc]; rfl) rfl rfl (fun same => by cases same) id
  | clearT =>
    simp only [Driver.irqStmt, pc, Option.some.injEq] at stepped
    subst stepped
    exact held.move ring (by rw [pc]; rfl) (by rw [pc]; rfl) rfl
      (isSet_writeOneToClear_disjoint _ _ _ (by decide)) (fun same => by cases same) id
  | clearNis =>
    simp only [Driver.irqStmt, pc, Option.some.injEq] at stepped
    subst stepped
    exact held.move ring (by rw [pc]; rfl) (by rw [pc]; rfl) rfl
      (isSet_writeOneToClear_disjoint _ _ _ (by decide)) (fun same => by cases same) id
  | idle => simp [Driver.irqStmt, pc] at stepped
  | alloc frame => simp [Driver.irqStmt, pc] at stepped
  | input filled => simp [Driver.irqStmt, pc] at stepped

private theorem backlog_close (held : Backlog n log missed s) {status : Word}
    (stepped : driver.step s (.rxClose status) = some t)
    (ring : ∃ q, RxAt n (rxHistory log s (.rxClose status)) q t.rxRing) :
    Backlog n (rxHistory log s (.rxClose status))
      (Lts.countMiss (fun s e => drainGuard s e = true) missed s (.rxClose status)) t := by
  obtain ⟨closed, given⟩ := rxHistory_close log s status
  have count := held.count
  obtain ⟨rx, -, rfl⟩ := rxClose_frame stepped
  have raised : isSet (s.dmasr ||| (ethDmaItR ||| ethDmaItNis)) ethDmaItR = true :=
    isSet_or_within _ _ _ (by decide) (by decide)
  refine ⟨ring, fun waiting => ?_, held.served, ?_⟩
  · -- raising `R` keeps a handler that is about to clear it right
    by_cases last : isSet status ethDmaRxDescLs = true
    · rw [if_pos last]
      exact raised
    · rw [if_neg last]
      exact held.flagged waiting
  · rw [closed, given, count]
    unfold Lts.countMiss
    -- the flag counts the descriptor exactly when the guard holds
    cases last : isSet status ethDmaRxDescLs <;> cases before : isSet s.dmasr ethDmaItR <;>
      simp [drainGuard, last, before, raised] <;> omega

theorem Backlog.step {e : DriverEvent} (held : Backlog n log missed s)
    (stepped : driver.step s e = some t) :
    Backlog n (rxHistory log s e)
      (Lts.countMiss (fun s e => drainGuard s e = true) missed s e) t := by
  have ring := RxAt.driver_step held.ring stepped
  cases e with
  | irq => exact backlog_irq held stepped ring
  | rxClose status => exact backlog_close held stepped ring
  | irqEnter =>
    obtain ⟨idle, rfl⟩ := irqEnter_frame stepped
    exact held.keep ring rfl (by rw [idle]; rfl) rfl (fun same => by cases same) id
  | pbufAlloc answer =>
    obtain ⟨frame, waiting, -, rfl⟩ := pbufAlloc_frame stepped
    cases answer <;>
      exact held.keep ring rfl (by rw [waiting]; rfl) rfl (fun same => by cases same) id
  | netifInput err =>
    obtain ⟨filled, waiting, rfl⟩ := netifInput_frame stepped
    by_cases accepted : err = errOk
    · simp only [accepted, if_true] at ring ⊢
      exact held.keep ring rfl (by rw [waiting]; rfl) rfl (fun same => by cases same) id
    · simp only [accepted, if_false] at ring ⊢
      exact held.keep ring rfl (by rw [waiting]; rfl) rfl (fun same => by cases same) id
  | output p =>
    obtain ⟨-, rfl⟩ := output_frame stepped
    exact held.elsewhere ring rfl rfl
  | thread =>
    obtain ⟨-, irq, flags⟩ := threadStmt_frame stepped
    exact held.elsewhere ring irq (flags _ (by decide))
  | rxSuspend =>
    obtain ⟨rx, -, rfl⟩ := rxSuspend_frame stepped
    exact held.elsewhere ring rfl (isSet_or_disjoint _ _ _ (by decide))
  | txFetch =>
    obtain ⟨tx, -, rfl⟩ := txFetch_frame stepped
    refine held.elsewhere ring rfl ?_
    by_cases suspended : tx.dma = .suspended
    · rw [if_pos suspended]
      exact isSet_or_disjoint _ _ _ (by decide)
    · rw [if_neg suspended]
  | txDone report =>
    obtain ⟨tx, -, rfl⟩ := txDone_frame stepped
    exact held.elsewhere ring rfl (isSet_or_disjoint _ _ _ (by decide))
  | rxStore k byte | txRead =>
    simp only [driver_step, Driver.step, Option.map_eq_some_iff] at stepped
    obtain ⟨half, -, rfl⟩ := stepped
    exact held.elsewhere ring rfl rfl

end Backlog

theorem Backlog.init {n : Nat} (pos : 0 < n) (memory : Memory) (txBuffCount : Nat) :
    Backlog n RxLog.empty 0 (Driver.init memory n txBuffCount) where
  ring := RxAt.driver_init pos memory txBuffCount
  flagged waiting := by cases waiting
  served := id
  count := by
    have clear : isSet 0#32 ethDmaItR = false := isSet_zero _
    simp [RxLog.empty, Driver.init, IrqPc.consuming, clear]

theorem Backlog.run {n m : Nat} (pos : 0 < n) (memory : Memory) {es : List DriverEvent}
    (ran : driver.run (Driver.init memory n m) es = some s) :
    Backlog n (driver.log rxHistory RxLog.empty (Driver.init memory n m) es)
      (driver.outside (fun s e => drainGuard s e = true) (Driver.init memory n m) es) s := by
  have held := driver.log_invariant
    (fun (p : RxLog × Nat) s e => (rxHistory p.1 s e,
      Lts.countMiss (fun s e => drainGuard s e = true) p.2 s e))
    (fun p s => Backlog n p.1 p.2 s) (fun _ _ _ _ held stepped => held.step stepped)
    (h := (RxLog.empty, 0)) (Backlog.init pos memory m) ran
  rwa [driver.log_prod] at held

/-- Outside the handler and with `R` clear, the DMA owns the descriptor at `DMARxDescToGet`
exactly when every descriptor so far was closed as the last one of its frame and while `R` was
clear. -/
theorem drained_exactly_when_flagged (memory : Memory) (rxBuffCount txBuffCount : Nat)
    (pos : 0 < rxBuffCount) (es : List DriverEvent) (s : Driver)
    (ran : driver.run (Driver.init memory rxBuffCount txBuffCount) es = some s)
    (idle : s.irq = .idle) (clear : isSet s.dmasr ethDmaItR = false) :
    isSet s.rx.toGet.status ethDmaRxDescOwn = true ↔
      driver.Guarded (fun s e => drainGuard s e = true)
        (Driver.init memory rxBuffCount txBuffCount) es := by
  have held := Backlog.run pos memory ran
  obtain ⟨q, inv⟩ := held.ring
  have count := held.count
  have caught : RxPc.behind s.rxRing.pc = 0 := by
    simp [Driver.rxRing, idle, IrqPc.rxCall, RxPc.behind]
  rw [inv.closed, List.length_append, clear, idle] at count
  -- outside the handler and with `R` clear, only the missed descriptors are left
  have waiting : q.length =
      driver.outside (fun s e => drainGuard s e = true)
        (Driver.init memory rxBuffCount txBuffCount) es := by
    simp only [IrqPc.consuming, Bool.toNat_false] at count
    omega
  rw [← driver.outside_eq_zero_iff _ ran, ← waiting, List.length_eq_zero_iff]
  exact inv.own_iff caught

/-- One frame, received by one entry of the handler. -/
theorem drained_after_one_frame : ∃ s,
    driver.run (Driver.init Memory.cleared ethRxBufNb ethTxBufNb)
      [.rxClose 0x00400300, .irqEnter, .irq, .irq, .irq, .irq, .irq, .irq, .irq, .pbufAlloc none,
        .irq, .irq] = some s ∧
    (isSet s.rx.toGet.status ethDmaRxDescOwn = true ↔
      driver.Guarded (fun s e => drainGuard s e = true)
        (Driver.init Memory.cleared ethRxBufNb ethTxBufNb)
        [.rxClose 0x00400300, .irqEnter, .irq, .irq, .irq, .irq, .irq, .irq, .irq, .pbufAlloc none,
          .irq, .irq]) :=
  ⟨_, rfl, drained_exactly_when_flagged _ _ _ (by decide) _ _ rfl rfl (by decide)⟩

/-- Two frames are closed before the handler runs, and it consumes one. -/
theorem frame_left_behind : ∃ s,
    driver.run (Driver.init Memory.cleared ethRxBufNb ethTxBufNb)
      [.rxClose 0x00400300, .rxClose 0x00400300, .irqEnter, .irq, .irq, .irq, .irq, .irq, .irq,
        .irq, .pbufAlloc none, .irq, .irq] = some s ∧
    s.irq = .idle ∧ isSet s.dmasr ethDmaItR = false ∧
    isSet s.rx.toGet.status ethDmaRxDescOwn = false := by
  refine ⟨_, rfl, rfl, ?_, ?_⟩ <;> decide

/-! ### A suspended DMA -/

/-- Outside the handler a suspended receive DMA waits at a descriptor that the CPU owns. -/
def Driver.ReceiveResumed (s : Driver) : Prop :=
  s.irq = .idle → s.rx.dmaSuspended = true → s.rx.dmaOwns = false

/-- No descriptor is given back while the DMA is suspended. -/
def resumeGuard (s : Driver) : DriverEvent → Prop
  | .irq => s.irq.gives = 1 → s.rx.dmaSuspended = false
  | _ => True

/-- The DMA suspends at a descriptor that it does not own. -/
def Rx.Starved (rx : Rx) : Prop := rx.dmaSuspended = true → rx.dmaOwns = false

private theorem starved_rxPkt {dmasr : Word} {rx : Rx} {pc : RxPc} {result : Word × Rx × RxPc}
    (starved : rx.Starved) (guarded : (IrqPc.rxPkt pc).gives = 1 → rx.dmaSuspended = false)
    (ran : ethRxPktChainMode dmasr rx pc = some result) : result.2.1.Starved := by
  cases pc with
  | testOwn =>
    simp only [ethRxPktChainMode] at ran
    split at ran <;> cases ran <;> exact starved
  | testRbus =>
    simp only [ethRxPktChainMode] at ran
    split at ran <;> cases ran <;> exact starved
  | clearRbus =>
    cases ran
    exact starved
  | pollDemand =>
    cases ran
    exact fun resumed => absurd resumed Bool.false_ne_true
  | readStatus =>
    cases ran
    exact starved
  | giveBack frame =>
    -- the one statement that sets `OWN`, and the guard keeps the DMA running there
    cases ran
    exact fun suspended => absurd ((guarded rfl).symm.trans suspended) Bool.false_ne_true
  | advance frame =>
    cases ran
    exact starved
  | ret frame => cases ran

/-- Outside a call the handler leaves the receive ring alone. -/
theorem irqStmt_rx (stepped : s.irqStmt = some t) (outside : s.irq.rxCall = none) :
    t.rx = s.rx := by
  obtain ⟨dmasr, rx, tx, irq, out⟩ := s
  cases irq with
  | rxPkt pc => cases outside
  | copy frame lens filled =>
    obtain ⟨same, -⟩ := irqStmt_copy rfl stepped
    rw [same]
  | idle => cases stepped
  | alloc frame => cases stepped
  | input filled => cases stepped
  | testR => cases stepped; rfl
  | clearR => cases stepped; rfl
  | free => cases stepped; rfl
  | testT => cases stepped; rfl
  | clearT => cases stepped; rfl
  | clearNis => cases stepped; rfl

private theorem starved_irq (starved : s.rx.Starved) (guarded : resumeGuard s .irq)
    (stepped : s.irqStmt = some t) : t.rx.Starved := by
  cases calling : s.irq.rxCall with
  | none =>
    rw [irqStmt_rx stepped calling]
    exact starved
  | some pc =>
    have running : s.irq = .rxPkt pc := by
      cases irq : s.irq <;> simp_all [IrqPc.rxCall]
    obtain ⟨frame, -, rfl⟩ | ⟨result, ran, rfl⟩ := irqStmt_call running stepped
    · exact starved
    · exact starved_rxPkt starved (running ▸ guarded) ran

private theorem starved_step {e : DriverEvent} (starved : s.rx.Starved)
    (guarded : resumeGuard s e) (stepped : driver.step s e = some t) : t.rx.Starved := by
  cases e with
  | irq => exact starved_irq starved guarded stepped
  | irqEnter =>
    obtain ⟨-, rfl⟩ := irqEnter_frame stepped
    exact starved
  | pbufAlloc answer =>
    obtain ⟨frame, -, -, rfl⟩ := pbufAlloc_frame stepped
    exact starved
  | netifInput err =>
    obtain ⟨filled, -, rfl⟩ := netifInput_frame stepped
    exact starved
  | output p =>
    obtain ⟨-, rfl⟩ := output_frame stepped
    exact starved
  | thread =>
    obtain ⟨rx, -, -⟩ := threadStmt_frame stepped
    rw [rx]
    exact starved
  | rxStore k byte =>
    obtain ⟨rx, stored, rfl⟩ := rxStore_frame stepped
    obtain ⟨-, -, rfl⟩ := Rx.dmaStore_frame stored
    exact starved
  | rxClose status =>
    obtain ⟨rx, closed, rfl⟩ := rxClose_frame stepped
    obtain ⟨runs, rfl⟩ := Rx.dmaClose_frame closed
    -- a DMA that closes a descriptor is not suspended
    intro suspended
    exact absurd ((s.rx.dmaRuns_iff.mp runs).1.symm.trans suspended) Bool.false_ne_true
  | rxSuspend =>
    obtain ⟨rx, suspends, rfl⟩ := rxSuspend_frame stepped
    obtain ⟨free, rfl⟩ := Rx.dmaSuspend_frame suspends
    exact fun _ => free
  | txFetch | txRead | txDone report =>
    simp only [driver_step, Driver.step, Option.map_eq_some_iff] at stepped
    obtain ⟨tx, -, rfl⟩ := stepped
    exact starved

/-- The handler has given its descriptor back and not yet ended, or it has ended. -/
def IrqPc.gaveBack : IrqPc → Prop
  | .testR | .clearR | .rxPkt .testOwn | .rxPkt .testRbus | .rxPkt .clearRbus
  | .rxPkt .pollDemand | .rxPkt .readStatus | .rxPkt (.giveBack _) => False
  | _ => True

/-- The DMA stays suspended at a descriptor that it owns again. -/
def Driver.Stalled (s : Driver) : Prop :=
  s.rx.dmaSuspended = true ∧ s.rx.dmaOwns = true ∧ s.irq.gaveBack

private theorem stalled_irq (stalled : s.Stalled) (stepped : s.irqStmt = some t) : t.Stalled := by
  obtain ⟨dmasr, rx, tx, irq, out⟩ := s
  obtain ⟨suspended, owned, past⟩ := stalled
  cases irq with
  | rxPkt pc =>
    cases pc with
    | advance frame => cases stepped; exact ⟨suspended, owned, trivial⟩
    | ret frame => cases stepped; exact ⟨suspended, owned, trivial⟩
    | _ => exact past.elim
  | copy frame lens filled =>
    obtain ⟨same, next | ⟨lens', filled', next⟩⟩ := irqStmt_copy rfl stepped <;>
    · rw [same, next]
      exact ⟨suspended, owned, trivial⟩
  | testT =>
    cases stepped
    refine ⟨suspended, owned, ?_⟩
    simp only
    split <;> trivial
  | free => cases stepped; exact ⟨suspended, owned, trivial⟩
  | clearT => cases stepped; exact ⟨suspended, owned, trivial⟩
  | clearNis => cases stepped; exact ⟨suspended, owned, trivial⟩
  | testR => exact past.elim
  | clearR => exact past.elim
  | idle => cases stepped
  | alloc frame => cases stepped
  | input filled => cases stepped

private theorem stalled_kept (s : Driver) (e : DriverEvent) (t : Driver) (stalled : s.Stalled)
    (own : e.Handler) (stepped : driver.step s e = some t) : t.Stalled := by
  cases own with
  | irq => exact stalled_irq stalled stepped
  | pbufAlloc =>
    obtain ⟨frame, -, -, rfl⟩ := pbufAlloc_frame stepped
    exact ⟨stalled.1, stalled.2.1, trivial⟩
  | netifInput =>
    obtain ⟨filled, -, rfl⟩ := netifInput_frame stepped
    exact ⟨stalled.1, stalled.2.1, trivial⟩

/-- A stalled DMA is past the point where the call in progress gives its descriptor back. -/
private theorem stalled_guarded (s : Driver) (e : DriverEvent) (stalled : s.Stalled)
    (own : e.Handler) : resumeGuard s e := by
  cases own with
  | irq =>
    intro gives
    obtain ⟨frame, giving⟩ := (gives_eq_one_iff s.irq).mp gives
    have past := stalled.2.2
    rw [giving] at past
    exact past.elim
  | pbufAlloc => trivial
  | netifInput => trivial

/-- A suspended DMA has filled the ring, so it waits at `DMARxDescToGet`. -/
private theorem RxAt.get_eq_dma {n : Nat} {log : RxLog} {q : List (Nat × Word)} {r : RxRing}
    (inv : RxAt n log q r) (caught : RxPc.behind r.pc = 0) (starved : r.rx.dmaOwns = false) :
    r.rx.dmaPos = r.rx.dmaRxDescToGet := by
  -- a DMA without a descriptor of its own has closed all of them
  have full : q.length = n := by
    refine Nat.le_antisymm inv.holds.le (Nat.le_of_not_lt fun room => ?_)
    exact Bool.false_ne_true (starved.symm.trans (inv.dmaOwns_iff.mpr room))
  rw [inv.tail, inv.get_eq caught, full, Nat.add_mod_right]

/-- A descriptor given back to a suspended DMA is the one it is suspended at. -/
private theorem giveBack_stalls {n : Nat} {log : RxLog} (ring : ∃ q, RxAt n log q s.rxRing)
    (starved : s.rx.Starved) {frame : FrameTypeDef} (giving : s.irq = .rxPkt (.giveBack frame))
    (suspended : s.rx.dmaSuspended = true) (stepped : driver.step s .irq = some t) :
    t.Stalled := by
  obtain ⟨q, inv⟩ := ring
  have caught : RxPc.behind s.rxRing.pc = 0 := by
    simp [Driver.rxRing, giving, IrqPc.rxCall, RxPc.behind]
  have same : s.rx.dmaPos = s.rx.dmaRxDescToGet := inv.get_eq_dma caught (starved suspended)
  simp only [driver_step, Driver.step, Driver.irqStmt, giving, ethRxPktChainMode,
    Option.map_some, Option.some.injEq] at stepped
  subst stepped
  refine ⟨suspended, ?_, trivial⟩
  simp [Rx.dmaOwns, same, isSet_or_self _ ethDmaRxDescOwn (by decide)]

private theorem starved_run {memory : Memory} {n m : Nat} {es : List DriverEvent}
    (guarded : driver.Guarded resumeGuard (Driver.init memory n m) es)
    (ran : driver.run (Driver.init memory n m) es = some s) : s.rx.Starved := by
  have start : (Driver.init memory n m).rx.Starved :=
    fun suspended => absurd suspended Bool.false_ne_true
  exact driver.guarded_invariant resumeGuard (fun s => s.rx.Starved)
    (fun _ _ _ starved guarded stepped => starved_step starved guarded stepped) start guarded ran

/-- The DMA is resumed in the runs that never give a descriptor back while it is suspended, and
giving one back to a suspended DMA once is enough to leave it stalled. -/
theorem resumed_exactly_when_running (memory : Memory) (rxBuffCount txBuffCount : Nat)
    (pos : 0 < rxBuffCount) :
    driver.ExactGuard (Driver.init memory rxBuffCount txBuffCount) (fun _ => True) resumeGuard
      (fun _ s => s.ReceiveResumed) where
  sound es s ran _ guarded := fun _ => starved_run guarded ran
  tight es e s t ran _ guarded stepped unguarded := by
    have ring := (Backlog.run pos memory ran).ring
    cases e with
    | irq =>
      simp only [resumeGuard, Classical.not_imp, Bool.not_eq_false] at unguarded
      obtain ⟨gives, suspended⟩ := unguarded
      obtain ⟨frame, giving⟩ := (gives_eq_one_iff s.irq).mp gives
      have stalled := giveBack_stalls ring (starved_run guarded ran) giving suspended stepped
      obtain ⟨fs, u, rest, own, idle, suspended, owned, -⟩ :=
        handler_finishes Driver.Stalled stalled_kept (backed_step (backed_run ran) stepped) stalled
      have guarded : driver.Guarded resumeGuard t fs :=
        driver.guarded_of_invariant resumeGuard Driver.Stalled DriverEvent.Handler stalled_kept
          stalled_guarded stalled own
      -- at the end of the handler the DMA still waits, at a descriptor that it owns
      refine ⟨fs, u, rest, fun _ _ => trivial, guarded, fun resumed => ?_⟩
      exact Bool.false_ne_true ((resumed idle suspended).symm.trans owned)
    | _ => exact absurd trivial unguarded

theorem resumed_exactly_when_running_here :
    driver.ExactGuard (Driver.init Memory.cleared ethRxBufNb ethTxBufNb) (fun _ => True)
      resumeGuard (fun _ s => s.ReceiveResumed) :=
  resumed_exactly_when_running Memory.cleared ethRxBufNb ethTxBufNb (by decide)

/-- The ring fills, the DMA suspends, and one entry of the handler frees one descriptor. -/
theorem receive_stalled : ∃ s,
    driver.run (Driver.init Memory.cleared ethRxBufNb ethTxBufNb)
      [.rxClose 0x00400300, .rxClose 0x00400300, .rxClose 0x00400300, .rxClose 0x00400300,
        .rxSuspend, .irqEnter, .irq, .irq, .irq, .irq, .irq, .irq, .irq, .pbufAlloc none, .irq,
        .irq] = some s ∧
    ¬ s.ReceiveResumed := by
  refine ⟨_, rfl, fun resumed => ?_⟩
  exact absurd (resumed rfl rfl) (by decide)

end WchLwip
