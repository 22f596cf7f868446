import WchLwip.Model.Driver
import WchLwip.Properties.RxFifo
import WchLwip.Properties.TxFifo

/-! The driver runs the two rings, and what its components leave alone.

A step of the driver is a step of the receive ring or leaves it as it is, and
the same holds of the transmit ring, so both ring invariants hold in every run
of the driver. -/
namespace WchLwip

open Mask

variable {s t : Driver}

/-! ### What each component leaves alone -/

/-- Inside a call of `ETH_RxPkt_ChainMode` the handler takes its statements. -/
theorem irqStmt_rxPkt (pc : RxPc) (running : s.irq = .rxPkt pc) (busy : ∀ frame, pc ≠ .ret frame) :
    s.irqStmt = (ethRxPktChainMode s.dmasr s.rx pc).map fun result =>
      { s with dmasr := result.1, rx := result.2.1, irq := .rxPkt result.2.2 } := by
  unfold Driver.irqStmt
  rw [running]
  cases pc with
  | ret frame => exact absurd rfl (busy frame)
  | _ => rfl

/-- The handler returns from the call or takes one of its statements. -/
theorem irqStmt_call {pc : RxPc} (running : s.irq = .rxPkt pc) (stepped : s.irqStmt = some t) :
    (∃ frame, pc = .ret frame ∧ t = { s with irq := .alloc frame }) ∨
      ∃ result, ethRxPktChainMode s.dmasr s.rx pc = some result ∧
        t = { s with dmasr := result.1, rx := result.2.1, irq := .rxPkt result.2.2 } := by
  by_cases returning : ∃ frame, pc = .ret frame
  · obtain ⟨frame, rfl⟩ := returning
    simp only [Driver.irqStmt, running, Option.some.injEq] at stepped
    exact Or.inl ⟨frame, rfl, stepped.symm⟩
  · rw [irqStmt_rxPkt pc running fun frame same => returning ⟨frame, same⟩,
      Option.map_eq_some_iff] at stepped
    obtain ⟨result, ran, rfl⟩ := stepped
    exact Or.inr ⟨result, ran, rfl⟩

/-- A statement of the copy loop moves the handler inside the loop or out of it. -/
theorem irqStmt_copy {frame : FrameTypeDef} {lens : List Nat} {filled : List UInt8}
    (running : s.irq = .copy frame lens filled) (stepped : s.irqStmt = some t) :
    t = { s with irq := t.irq } ∧
      (t.irq = .input filled ∨ ∃ lens' filled', t.irq = .copy frame lens' filled') := by
  simp only [Driver.irqStmt, running] at stepped
  rcases lens with _ | ⟨_ | k, lens⟩
  · cases stepped
    exact ⟨rfl, Or.inl rfl⟩
  · cases stepped
    exact ⟨rfl, Or.inr ⟨_, _, rfl⟩⟩
  · simp only [Option.map_eq_some_iff] at stepped
    obtain ⟨buffer, -, rfl⟩ := stepped
    exact ⟨rfl, Or.inr ⟨_, _, rfl⟩⟩

/-- A statement of `ETH_RxPkt_ChainMode` writes no bit of `DMASR` but `RBUS`. -/
theorem rxPkt_dmasr {dmasr : Word} {rx : Rx} {pc : RxPc} {result : Word × Rx × RxPc}
    (ran : ethRxPktChainMode dmasr rx pc = some result) {mask : Word}
    (other : ethDmasrRbus &&& mask = 0) : isSet result.1 mask = isSet dmasr mask := by
  cases pc with
  | testOwn =>
    simp only [ethRxPktChainMode] at ran
    split at ran <;> cases ran <;> rfl
  | testRbus =>
    simp only [ethRxPktChainMode] at ran
    split at ran <;> cases ran <;> rfl
  | clearRbus =>
    cases ran
    exact isSet_writeOneToClear_disjoint _ _ _ other
  | pollDemand => cases ran; rfl
  | readStatus => cases ran; rfl
  | giveBack frame => cases ran; rfl
  | advance frame => cases ran; rfl
  | ret frame => cases ran

/-- A statement of `ETH_TxPkt_ChainMode` writes no bit of `DMASR` but `TBUS`. -/
theorem txPkt_dmasr {frameLength : BitVec 16} {dmasr : Word} {tx : Tx} {pc : TxPc}
    {result : Word × Tx × TxPc}
    (ran : ethTxPktChainMode frameLength dmasr tx pc = some result) {mask : Word}
    (other : ethDmasrTbus &&& mask = 0) : isSet result.1 mask = isSet dmasr mask := by
  cases pc with
  | testOwn =>
    simp only [ethTxPktChainMode] at ran
    split at ran <;> cases ran <;> rfl
  | testTbus =>
    simp only [ethTxPktChainMode] at ran
    split at ran <;> cases ran <;> rfl
  | clearTbus =>
    cases ran
    exact isSet_writeOneToClear_disjoint _ _ _ other
  | setSize => cases ran; rfl
  | setSegments => cases ran; rfl
  | setOwn => cases ran; rfl
  | pollDemand => cases ran; rfl
  | advance => cases ran; rfl
  | ret status => cases ran

/-- The handler works on the receive ring and on `DMASR`, where it leaves `TBUS` alone. -/
theorem irqStmt_frame (stepped : s.irqStmt = some t) :
    t.tx = s.tx ∧ t.out = s.out ∧ isSet t.dmasr ethDmasrTbus = isSet s.dmasr ethDmasrTbus := by
  obtain ⟨dmasr, rx, tx, irq, out⟩ := s
  cases irq with
  | clearR =>
    cases stepped
    exact ⟨rfl, rfl, isSet_writeOneToClear_disjoint _ _ _ (by decide)⟩
  | clearT =>
    cases stepped
    exact ⟨rfl, rfl, isSet_writeOneToClear_disjoint _ _ _ (by decide)⟩
  | clearNis =>
    cases stepped
    exact ⟨rfl, rfl, isSet_writeOneToClear_disjoint _ _ _ (by decide)⟩
  | rxPkt pc =>
    obtain ⟨frame, -, rfl⟩ | ⟨result, ran, rfl⟩ := irqStmt_call rfl stepped
    · exact ⟨rfl, rfl, rfl⟩
    · exact ⟨rfl, rfl, rxPkt_dmasr ran (by decide)⟩
  | copy frame lens filled =>
    obtain ⟨same, -⟩ := irqStmt_copy rfl stepped
    rw [same]
    exact ⟨rfl, rfl, rfl⟩
  | idle => cases stepped
  | alloc frame => cases stepped
  | input filled => cases stepped
  | testR => cases stepped; exact ⟨rfl, rfl, rfl⟩
  | free => cases stepped; exact ⟨rfl, rfl, rfl⟩
  | testT => cases stepped; exact ⟨rfl, rfl, rfl⟩

/-- The thread works on the transmit ring and on `DMASR`, where it clears `TBUS` alone. -/
theorem threadStmt_frame (stepped : s.threadStmt = some t) :
    t.rx = s.rx ∧ t.irq = s.irq ∧
      ∀ mask, ethDmasrTbus &&& mask = 0 → isSet t.dmasr mask = isSet s.dmasr mask := by
  obtain ⟨dmasr, rx, tx, irq, out⟩ := s
  cases out with
  | idle => cases stepped
  | copy p buffer rest =>
    rcases rest with _ | ⟨_ | ⟨byte, bytes⟩, rest⟩ <;> cases stepped <;>
      exact ⟨rfl, rfl, fun _ _ => rfl⟩
  | txPkt p pc =>
    cases pc with
    | ret status => cases stepped; exact ⟨rfl, rfl, fun _ _ => rfl⟩
    | _ =>
      simp only [Driver.threadStmt, Option.map_eq_some_iff] at stepped
      obtain ⟨result, ran, rfl⟩ := stepped
      exact ⟨rfl, rfl, fun _ other => txPkt_dmasr ran other⟩
  | ret p err => cases stepped; exact ⟨rfl, rfl, fun _ _ => rfl⟩

theorem pbufAlloc_frame {answer : Option (List Nat)} (stepped : s.pbufAlloc answer = some t) :
    ∃ frame, s.irq = .alloc frame ∧ pbufAllocReturns (inputLen frame) answer = true ∧
      t = { s with irq := afterAlloc frame answer } := by
  simp only [Driver.pbufAlloc] at stepped
  split at stepped
  next frame waiting =>
    split at stepped
    next allowed =>
      cases stepped
      exact ⟨frame, waiting, allowed, rfl⟩
    next => cases stepped
  next => cases stepped

theorem netifInput_frame {err : ErrT} (stepped : s.netifInput err = some t) :
    ∃ filled, s.irq = .input filled ∧
      t = { s with irq := if err = errOk then .testT else .free } := by
  simp only [Driver.netifInput] at stepped
  split at stepped <;> cases stepped
  next filled waiting => exact ⟨filled, waiting, rfl⟩

theorem output_frame {p : PbufChain} (stepped : s.output p = some t) :
    s.out = .idle ∧ t = { s with out := .copy p s.tx.currentTxBufferAddress p.segments } := by
  simp only [Driver.output] at stepped
  split at stepped <;> cases stepped
  next idle => exact ⟨idle, rfl⟩

theorem irqEnter_frame (stepped : s.step .irqEnter = some t) :
    s.irq = .idle ∧ t = { s with irq := .testR } := by
  simp only [Driver.step] at stepped
  split at stepped <;> cases stepped
  next idle => exact ⟨idle, rfl⟩

/-! ### What each step of a DMA changes -/

theorem rxStore_frame {k : Nat} {byte : UInt8} (stepped : s.step (.rxStore k byte) = some t) :
    ∃ rx, s.rx.dmaStore k byte = some rx ∧ t = { s with rx := rx } := by
  simp only [Driver.step, Option.map_eq_some_iff] at stepped
  obtain ⟨rx, stored, rfl⟩ := stepped
  exact ⟨rx, stored, rfl⟩

theorem rxClose_frame {status : Word} (stepped : s.step (.rxClose status) = some t) :
    ∃ rx, s.rx.dmaClose status = some rx ∧
      t = { s with
        rx := rx
        dmasr := if isSet status ethDmaRxDescLs then s.dmasr ||| (ethDmaItR ||| ethDmaItNis)
          else s.dmasr } := by
  simp only [Driver.step, Option.map_eq_some_iff] at stepped
  obtain ⟨rx, closed, rfl⟩ := stepped
  exact ⟨rx, closed, rfl⟩

theorem rxSuspend_frame (stepped : s.step .rxSuspend = some t) :
    ∃ rx, s.rx.dmaSuspend = some rx ∧
      t = { s with rx := rx, dmasr := s.dmasr ||| ethDmasrRbus } := by
  simp only [Driver.step, Option.map_eq_some_iff] at stepped
  obtain ⟨rx, suspended, rfl⟩ := stepped
  exact ⟨rx, suspended, rfl⟩

theorem txFetch_frame (stepped : s.step .txFetch = some t) :
    ∃ tx, s.tx.dmaFetch = some tx ∧
      t = { s with
        tx := tx
        dmasr := if tx.dma = .suspended then s.dmasr ||| ethDmasrTbus else s.dmasr } := by
  simp only [Driver.step, Option.map_eq_some_iff] at stepped
  obtain ⟨tx, fetched, rfl⟩ := stepped
  exact ⟨tx, fetched, rfl⟩

theorem txRead_frame (stepped : s.step .txRead = some t) :
    ∃ tx, s.tx.dmaRead = some tx ∧ t = { s with tx := tx } := by
  simp only [Driver.step, Option.map_eq_some_iff] at stepped
  obtain ⟨tx, read, rfl⟩ := stepped
  exact ⟨tx, read, rfl⟩

theorem txDone_frame {report : Word} (stepped : s.step (.txDone report) = some t) :
    ∃ tx, s.tx.dmaDone report = some tx ∧
      t = { s with tx := tx, dmasr := s.dmasr ||| (ethDmaItT ||| ethDmaItNis) } := by
  simp only [Driver.step, Option.map_eq_some_iff] at stepped
  obtain ⟨tx, done, rfl⟩ := stepped
  exact ⟨tx, done, rfl⟩

/-! ### Simulations -/

private theorem rx_simulated_irq (stepped : s.irqStmt = some t) :
    rxRing.stutter s.rxRing (s.rxEvent .irq) = some t.rxRing := by
  obtain ⟨dmasr, rx, tx, irq, out⟩ := s
  cases irq with
  | rxPkt pc =>
    obtain ⟨frame, rfl, rfl⟩ | ⟨result, ran, rfl⟩ := irqStmt_call rfl stepped
    · rfl
    · cases pc with
      | ret frame => cases ran
      | _ => simp [Driver.rxEvent, Driver.rxRing, RxRing.step, IrqPc.rxCall, ran]
  | testR =>
    cases stepped
    simp only [Driver.rxEvent, Driver.rxRing]
    split <;> rfl
  | testT =>
    cases stepped
    simp only [Driver.rxEvent, Driver.rxRing]
    split <;> rfl
  | copy frame lens filled =>
    obtain ⟨same, next | ⟨lens', filled', next⟩⟩ := irqStmt_copy rfl stepped <;>
    · rw [same, next]
      rfl
  | idle => cases stepped
  | alloc frame => cases stepped
  | input filled => cases stepped
  | clearR => cases stepped; rfl
  | free => cases stepped; rfl
  | clearT => cases stepped; rfl
  | clearNis => cases stepped; rfl

private theorem rx_simulated (s : Driver) (e : DriverEvent) (t : Driver)
    (stepped : driver.step s e = some t) :
    rxRing.stutter s.rxRing (s.rxEvent e) = some t.rxRing := by
  cases e with
  | irq => exact rx_simulated_irq stepped
  | irqEnter =>
    obtain ⟨idle, rfl⟩ := irqEnter_frame stepped
    simp [Driver.rxEvent, Driver.rxRing, IrqPc.rxCall, idle]
  | pbufAlloc answer =>
    obtain ⟨frame, waiting, -, rfl⟩ := pbufAlloc_frame stepped
    cases answer <;> simp [Driver.rxEvent, Driver.rxRing, IrqPc.rxCall, waiting, afterAlloc]
  | netifInput err =>
    obtain ⟨filled, waiting, rfl⟩ := netifInput_frame stepped
    simp only [Driver.rxEvent, Driver.rxRing, waiting]
    split <;> rfl
  | output p =>
    obtain ⟨-, rfl⟩ := output_frame stepped
    rfl
  | thread =>
    obtain ⟨rx, irq, -⟩ := threadStmt_frame stepped
    simp [Driver.rxEvent, Driver.rxRing, rx, irq]
  | rxStore k byte =>
    obtain ⟨rx, stored, rfl⟩ := rxStore_frame stepped
    simp [Driver.rxEvent, Driver.rxRing, RxRing.step, stored]
  | rxClose status =>
    obtain ⟨rx, closed, rfl⟩ := rxClose_frame stepped
    simp [Driver.rxEvent, Driver.rxRing, RxRing.step, closed]
  | rxSuspend =>
    obtain ⟨rx, suspended, rfl⟩ := rxSuspend_frame stepped
    simp [Driver.rxEvent, Driver.rxRing, RxRing.step, suspended]
  | txFetch =>
    obtain ⟨tx, -, rfl⟩ := txFetch_frame stepped
    rfl
  | txRead =>
    obtain ⟨tx, -, rfl⟩ := txRead_frame stepped
    rfl
  | txDone report =>
    obtain ⟨tx, -, rfl⟩ := txDone_frame stepped
    rfl

def rxSim : Lts.Simulation driver rxRing where
  state := Driver.rxRing
  event := Driver.rxEvent
  step := rx_simulated

private theorem tx_simulated_thread (stepped : s.threadStmt = some t) :
    txRing.stutter s.txRing (s.txEvent .thread) = some t.txRing := by
  obtain ⟨dmasr, rx, tx, irq, out⟩ := s
  cases out with
  | idle => cases stepped
  | copy p buffer rest =>
    rcases rest with _ | ⟨_ | ⟨byte, bytes⟩, rest⟩ <;> cases stepped <;> rfl
  | txPkt p pc =>
    cases pc with
    | ret status => cases stepped; rfl
    | _ =>
      simp only [Driver.threadStmt, Option.map_eq_some_iff] at stepped
      obtain ⟨result, ran, rfl⟩ := stepped
      simp [Driver.txEvent, Driver.txRing, TxRing.step, OutPc.txCall, ran]
  | ret p err => cases stepped; rfl

private theorem tx_simulated (s : Driver) (e : DriverEvent) (t : Driver)
    (stepped : driver.step s e = some t) :
    txRing.stutter s.txRing (s.txEvent e) = some t.txRing := by
  cases e with
  | thread => exact tx_simulated_thread stepped
  | irqEnter =>
    obtain ⟨-, rfl⟩ := irqEnter_frame stepped
    rfl
  | irq =>
    obtain ⟨tx, out, -⟩ := irqStmt_frame stepped
    simp [Driver.txEvent, Driver.txRing, tx, out]
  | pbufAlloc answer =>
    obtain ⟨frame, -, -, rfl⟩ := pbufAlloc_frame stepped
    rfl
  | netifInput err =>
    obtain ⟨filled, -, rfl⟩ := netifInput_frame stepped
    rfl
  | output p =>
    obtain ⟨idle, rfl⟩ := output_frame stepped
    simp [Driver.txEvent, Driver.txRing, OutPc.txCall, idle]
  | rxStore k byte =>
    obtain ⟨rx, -, rfl⟩ := rxStore_frame stepped
    rfl
  | rxClose status =>
    obtain ⟨rx, -, rfl⟩ := rxClose_frame stepped
    rfl
  | rxSuspend =>
    obtain ⟨rx, -, rfl⟩ := rxSuspend_frame stepped
    rfl
  | txFetch =>
    obtain ⟨tx, fetched, rfl⟩ := txFetch_frame stepped
    simp [Driver.txEvent, Driver.txRing, TxRing.step, fetched]
  | txRead =>
    obtain ⟨tx, read, rfl⟩ := txRead_frame stepped
    simp [Driver.txEvent, Driver.txRing, TxRing.step, read]
  | txDone report =>
    obtain ⟨tx, done, rfl⟩ := txDone_frame stepped
    simp [Driver.txEvent, Driver.txRing, TxRing.step, done]

def txSim : Lts.Simulation driver txRing where
  state := Driver.txRing
  event := Driver.txEvent
  step := tx_simulated

/-! ### The ring invariants of the driver -/

/-- The history of the receive ring along a run of the driver. -/
def rxHistory : RxLog → Driver → DriverEvent → RxLog := rxSim.record RxLog.record

/-- The history of the transmit ring along a run of the driver. -/
def txHistory : TxLog → Driver → DriverEvent → TxLog := txSim.record TxLog.record

theorem RxAt.driver_step {n : Nat} {log : RxLog} {e : DriverEvent}
    (inv : ∃ q, RxAt n log q s.rxRing) (stepped : driver.step s e = some t) :
    ∃ q, RxAt n (rxHistory log s e) q t.rxRing :=
  rxSim.preserved RxLog.record (fun log s => ∃ q, RxAt n log q s)
    (fun _ _ _ _ ⟨_, inv⟩ stepped => inv.step stepped) log s e t inv stepped

theorem TxAt.driver_step {n : Nat} {log : TxLog} {e : DriverEvent}
    (inv : ∃ q, TxAt n log q s.txRing) (stepped : driver.step s e = some t) :
    ∃ q, TxAt n (txHistory log s e) q t.txRing :=
  txSim.preserved TxLog.record (fun log s => ∃ q, TxAt n log q s)
    (fun _ _ _ _ ⟨_, inv⟩ stepped => inv.step stepped) log s e t inv stepped

theorem RxAt.driver_init {n : Nat} (pos : 0 < n) (memory : Memory) (txBuffCount : Nat) :
    ∃ q, RxAt n RxLog.empty q (Driver.init memory n txBuffCount).rxRing :=
  ⟨[], RxAt.init pos memory.dmaRxDscrTab memory.rxBuff⟩

theorem TxAt.driver_init {n : Nat} (pos : 0 < n) (memory : Memory) (rxBuffCount : Nat) :
    ∃ q, TxAt n TxLog.empty q (Driver.init memory rxBuffCount n).txRing :=
  ⟨[], TxAt.init pos memory.dmaTxDscrTab memory.txBuff⟩

theorem TxAt.driver_run {memory : Memory} {n m : Nat} (pos : 0 < m) {es : List DriverEvent}
    (ran : driver.run (Driver.init memory n m) es = some s) :
    ∃ q, TxAt m (driver.log txHistory TxLog.empty (Driver.init memory n m) es) q s.txRing :=
  driver.log_invariant txHistory (fun log s => ∃ q, TxAt m log q s.txRing)
    (fun _ _ _ _ inv stepped => TxAt.driver_step inv stepped) (TxAt.driver_init pos memory n) ran

/-! ### The history of one step -/

/-- The descriptors that the next statement of the handler gives back. -/
def IrqPc.gives : IrqPc → Nat
  | .rxPkt (.giveBack _) => 1
  | _ => 0

theorem gives_eq_one_iff (irq : IrqPc) :
    irq.gives = 1 ↔ ∃ frame, irq = .rxPkt (.giveBack frame) := by
  constructor
  · intro gives
    cases irq with
    | rxPkt pc =>
      cases pc with
      | giveBack frame => exact ⟨frame, rfl⟩
      | _ => cases gives
    | _ => cases gives
  · rintro ⟨frame, rfl⟩
    rfl

theorem rxHistory_irq (log : RxLog) (s : Driver) :
    (rxHistory log s .irq).closed = log.closed ∧
      (rxHistory log s .irq).given.length = log.given.length + s.irq.gives := by
  obtain ⟨dmasr, rx, tx, irq, out⟩ := s
  cases irq with
  | rxPkt pc =>
    cases pc with
    | giveBack frame =>
      refine ⟨rfl, ?_⟩
      simp [rxHistory, Lts.Simulation.record, rxSim, Driver.rxEvent, RxLog.record, Driver.rxRing,
        IrqPc.rxCall, IrqPc.gives]
    | _ => exact ⟨rfl, rfl⟩
  | _ => exact ⟨rfl, rfl⟩

theorem rxHistory_close (log : RxLog) (s : Driver) (status : Word) :
    (rxHistory log s (.rxClose status)).closed.length = log.closed.length + 1 ∧
      (rxHistory log s (.rxClose status)).given = log.given := by
  simp [rxHistory, Lts.Simulation.record, rxSim, Driver.rxEvent, RxLog.record]

/-- The descriptors that the next statement of the thread hands over. -/
def OutPc.hands : OutPc → Nat
  | .txPkt _ .setOwn => 1
  | _ => 0

theorem txHistory_thread (log : TxLog) (s : Driver) :
    (txHistory log s .thread).handed.length = log.handed.length + s.out.hands ∧
      (txHistory log s .thread).done = log.done := by
  obtain ⟨dmasr, rx, tx, irq, out⟩ := s
  cases out with
  | txPkt p pc =>
    cases pc with
    | setOwn =>
      refine ⟨?_, rfl⟩
      simp [txHistory, Lts.Simulation.record, txSim, Driver.txEvent, TxLog.record, Driver.txRing,
        OutPc.txCall, OutPc.hands]
    | ret status =>
      simp only [txHistory, Lts.Simulation.record, txSim, Driver.txEvent, TxLog.record,
        Driver.txRing, OutPc.txCall]
      split <;> exact ⟨rfl, rfl⟩
    | _ => exact ⟨rfl, rfl⟩
  | copy p buffer rest =>
    rcases rest with _ | ⟨_ | ⟨byte, bytes⟩, rest⟩ <;> exact ⟨rfl, rfl⟩
  | _ => exact ⟨rfl, rfl⟩

theorem txHistory_fetch (log : TxLog) (s : Driver) :
    (txHistory log s .txFetch).handed = log.handed ∧
      (txHistory log s .txFetch).done = log.done := by
  have record : txHistory log s .txFetch = log.record s.txRing .dmaFetch := rfl
  rw [record, TxLog.record]
  by_cases owned : isSet s.txRing.tx.atDma.status ethDmaTxDescOwn = true
  · rw [if_pos owned]
    exact ⟨rfl, rfl⟩
  · rw [if_neg owned]
    exact ⟨rfl, rfl⟩

end WchLwip
