import WchLwip.Library.Commute
import WchLwip.Properties.TransmitResult

/-! The handler preempts `low_level_output`.

Each side works on its own ring, and on its own bits of `DMASR`, so the steps of
one pass those of the other. What is not separated is the completion of a
transmission: the DMA sets `T` and `NIS` for it, and the handler clears them. -/
namespace WchLwip

open Mask

variable {s t : Driver}

/-! ### The two sides -/

/-- The handler and the receive DMA, as against the thread and the transmit DMA. -/
def DriverEvent.receives : DriverEvent → Bool
  | .irqEnter | .irq | .pbufAlloc _ | .netifInput _ | .rxStore _ _ | .rxClose _ | .rxSuspend => true
  | _ => false

/-- The bits of `DMASR` that only the receiving side uses. -/
def receiveBits : Word := ethDmaItR ||| ethDmasrRbus

/-- A step clears and sets the same bits in every state that the receiving side cannot tell
from this one, and changes its own half alone. -/
structure ReceiveLocal (s : Driver) (e : DriverEvent) (t : Driver) (clear set : Word) : Prop where
  own : (clear ||| set) &&& ethDmasrTbus = 0
  quiet : set &&& ethDmaItT = 0
  result : t = { s with dmasr := update s.dmasr clear set, rx := t.rx, irq := t.irq }
  everywhere : ∀ r : Driver, r.rx = s.rx → r.irq = s.irq →
    r.dmasr &&& receiveBits = s.dmasr &&& receiveBits →
    (e = .irq → s.irq = .testT → isSet r.dmasr ethDmaItT = isSet s.dmasr ethDmaItT) →
      driver.step r e = some { r with dmasr := update r.dmasr clear set, rx := t.rx, irq := t.irq }

/-- A statement of `ETH_RxPkt_ChainMode` reads and clears `RBUS` alone. -/
theorem rxPkt_local {dmasr : Word} {rx : Rx} {pc : RxPc} {result : Word × Rx × RxPc}
    (ran : ethRxPktChainMode dmasr rx pc = some result) :
    ∃ clear : Word, clear &&& ethDmasrTbus = 0 ∧ result.1 = update dmasr clear 0 ∧
      ∀ dmasr' : Word, isSet dmasr' ethDmasrRbus = isSet dmasr ethDmasrRbus →
        ethRxPktChainMode dmasr' rx pc = some (update dmasr' clear 0, result.2) := by
  cases pc with
  | clearRbus =>
    cases ran
    exact ⟨ethDmasrRbus, by decide, by simp, fun dmasr' _ => by simp [ethRxPktChainMode]⟩
  | testOwn =>
    simp only [ethRxPktChainMode] at ran ⊢
    refine ⟨0, by decide, ?_, fun dmasr' _ => ?_⟩
    · split at ran <;> cases ran <;> simp
    · split at ran <;> cases ran <;> simp [*]
  | testRbus =>
    simp only [ethRxPktChainMode] at ran ⊢
    refine ⟨0, by decide, ?_, fun dmasr' same => ?_⟩
    · split at ran <;> cases ran <;> simp
    · rw [same]
      split at ran <;> cases ran <;> simp [*]
  | ret frame => cases ran
  | _ =>
    cases ran
    exact ⟨0, by decide, by simp, fun dmasr' _ => by simp [ethRxPktChainMode]⟩

/-- A step that leaves `DMASR` alone. -/
private theorem ReceiveLocal.silent {e : DriverEvent}
    (result : t = { s with rx := t.rx, irq := t.irq })
    (everywhere : ∀ r : Driver, r.rx = s.rx → r.irq = s.irq →
      r.dmasr &&& receiveBits = s.dmasr &&& receiveBits →
      (e = .irq → s.irq = .testT → isSet r.dmasr ethDmaItT = isSet s.dmasr ethDmaItT) →
        driver.step r e = some { r with rx := t.rx, irq := t.irq }) :
    ReceiveLocal s e t 0 0 where
  own := by decide
  quiet := by decide
  result := by simpa using result
  everywhere r rx irq bits test := by simpa using everywhere r rx irq bits test

/-- A statement of the handler that clears bits of `DMASR`. -/
private theorem ReceiveLocal.clears {clear : Word} {next : IrqPc} {e : DriverEvent}
    (own : clear &&& ethDmasrTbus = 0)
    (step : ∀ r : Driver, r.irq = s.irq →
      driver.step r e = some { r with dmasr := writeOneToClear r.dmasr clear, irq := next }) :
    ReceiveLocal s e { s with dmasr := writeOneToClear s.dmasr clear, irq := next } clear 0 where
  own := by simpa using own
  quiet := by decide
  result := by simp
  everywhere r rx irq _ _ := by simpa [rx] using step r irq

private theorem irqStmt_copy_local {frame : FrameTypeDef} {lens : List Nat} {filled : List UInt8}
    (running : s.irq = .copy frame lens filled) (stepped : s.irqStmt = some t) :
    ReceiveLocal s .irq t 0 0 := by
  obtain ⟨same, -⟩ := irqStmt_copy running stepped
  refine .silent (by rw [same]) fun r rx irq _ _ => ?_
  rw [running] at irq
  simp only [Driver.irqStmt, running] at stepped
  simp only [driver_step, Driver.step, Driver.irqStmt, irq]
  rcases lens with _ | ⟨_ | k, lens⟩
  · cases stepped
    simp [← rx]
  · cases stepped
    simp [← rx]
  · simp only [Option.map_eq_some_iff] at stepped
    obtain ⟨buffer, there, rfl⟩ := stepped
    simp [there, ← rx]

private theorem irqStmt_rxPkt_local {pc : RxPc} (running : s.irq = .rxPkt pc)
    (stepped : s.irqStmt = some t) : ∃ clear, ReceiveLocal s .irq t clear 0 := by
  obtain ⟨frame, rfl, rfl⟩ | ⟨result, ran, rfl⟩ := irqStmt_call running stepped
  · refine ⟨0, .silent rfl fun r rx irq _ _ => ?_⟩
    simp [Driver.step, Driver.irqStmt, irq, running, ← rx]
  · obtain ⟨clear, own, cleared, again⟩ := rxPkt_local ran
    have busy : ∀ frame, pc ≠ .ret frame := by
      rintro frame rfl
      cases ran
    refine ⟨clear, by simpa using own, by decide, by simp [cleared], fun r rx irq bits _ => ?_⟩
    rw [running] at irq
    rw [driver_step, Driver.step, irqStmt_rxPkt pc irq busy, rx,
      again r.dmasr (isSet_congr (by decide) bits)]
    rfl

theorem irqStmt_local (stepped : s.irqStmt = some t) :
    ∃ clear set, ReceiveLocal s .irq t clear set := by
  cases running : s.irq with
  | idle | alloc frame | input filled => simp [Driver.irqStmt, running] at stepped
  | copy frame lens filled => exact ⟨0, 0, irqStmt_copy_local running stepped⟩
  | rxPkt pc =>
    obtain ⟨clear, same⟩ := irqStmt_rxPkt_local running stepped
    exact ⟨clear, 0, same⟩
  | testR =>
    simp only [Driver.irqStmt, running, Option.some.injEq] at stepped
    subst stepped
    refine ⟨0, 0, .silent rfl fun r rx irq bits _ => ?_⟩
    have same : isSet r.dmasr ethDmaItR = isSet s.dmasr ethDmaItR := isSet_congr (by decide) bits
    simp [Driver.step, Driver.irqStmt, irq, running, same, ← rx]
  | testT =>
    simp only [Driver.irqStmt, running, Option.some.injEq] at stepped
    subst stepped
    refine ⟨0, 0, .silent rfl fun r rx irq _ test => ?_⟩
    simp [Driver.step, Driver.irqStmt, irq, running, test rfl running, ← rx]
  | free =>
    simp only [Driver.irqStmt, running, Option.some.injEq] at stepped
    subst stepped
    refine ⟨0, 0, .silent rfl fun r rx irq _ _ => ?_⟩
    simp [Driver.step, Driver.irqStmt, irq, running, ← rx]
  | clearR =>
    simp only [Driver.irqStmt, running, Option.some.injEq] at stepped
    subst stepped
    exact ⟨ethDmaItR, 0, .clears (by decide) fun r irq => by
      simp [Driver.step, Driver.irqStmt, irq, running]⟩
  | clearT =>
    simp only [Driver.irqStmt, running, Option.some.injEq] at stepped
    subst stepped
    exact ⟨ethDmaItT, 0, .clears (by decide) fun r irq => by
      simp [Driver.step, Driver.irqStmt, irq, running]⟩
  | clearNis =>
    simp only [Driver.irqStmt, running, Option.some.injEq] at stepped
    subst stepped
    exact ⟨ethDmaItNis, 0, .clears (by decide) fun r irq => by
      simp [Driver.step, Driver.irqStmt, irq, running]⟩

/-- A step of the receive DMA reads no register and does not depend on the handler. -/
structure RxDmaLocal (s : Driver) (e : DriverEvent) (t : Driver) (set : Word) : Prop where
  own : set &&& ethDmasrTbus = 0
  quiet : set &&& ethDmaItT = 0
  result : t = { s with dmasr := update s.dmasr 0 set, rx := t.rx }
  everywhere : ∀ r : Driver, r.rx = s.rx →
    driver.step r e = some { r with dmasr := update r.dmasr 0 set, rx := t.rx }

theorem RxDmaLocal.receive {e : DriverEvent} {set : Word} (dma : RxDmaLocal s e t set) :
    ReceiveLocal s e t 0 set where
  own := by simpa using dma.own
  quiet := dma.quiet
  result := by
    rw [dma.result]
  everywhere r rx irq _ _ := by
    have same : t.irq = r.irq := by rw [dma.result, irq]
    rw [dma.everywhere r rx, same]

theorem rxStore_local {k : Nat} {byte : UInt8} (stepped : s.step (.rxStore k byte) = some t) :
    RxDmaLocal s (.rxStore k byte) t 0 := by
  obtain ⟨rx, stored, rfl⟩ := rxStore_frame stepped
  refine ⟨by decide, by decide, by simp, fun r same => ?_⟩
  simp [Driver.step, same, stored]

theorem rxClose_local {status : Word} (stepped : s.step (.rxClose status) = some t) :
    ∃ set, RxDmaLocal s (.rxClose status) t set := by
  obtain ⟨rx, closed, rfl⟩ := rxClose_frame stepped
  -- `R` and `NIS` come with the last descriptor of a frame
  by_cases last : isSet status ethDmaRxDescLs = true
  · refine ⟨ethDmaItR ||| ethDmaItNis, by decide, by decide, by simp [last], fun r same => ?_⟩
    simp [Driver.step, same, closed, last]
  · refine ⟨0, by decide, by decide, by simp [last], fun r same => ?_⟩
    simp [Driver.step, same, closed, last]

theorem rxSuspend_local (stepped : s.step .rxSuspend = some t) :
    RxDmaLocal s .rxSuspend t ethDmasrRbus := by
  obtain ⟨rx, suspended, rfl⟩ := rxSuspend_frame stepped
  refine ⟨by decide, by decide, by simp, fun r same => ?_⟩
  simp [Driver.step, same, suspended]

/-- Every step of the receiving side is local. -/
theorem receive_local {e : DriverEvent} (side : e.receives = true)
    (stepped : driver.step s e = some t) : ∃ clear set, ReceiveLocal s e t clear set := by
  cases e with
  | irq => exact irqStmt_local stepped
  | irqEnter =>
    obtain ⟨idle, rfl⟩ := irqEnter_frame stepped
    refine ⟨0, 0, .silent rfl fun r rx irq _ _ => ?_⟩
    simp [Driver.step, irq, idle, ← rx]
  | pbufAlloc answer =>
    obtain ⟨frame, waiting, allowed, rfl⟩ := pbufAlloc_frame stepped
    refine ⟨0, 0, .silent rfl fun r rx irq _ _ => ?_⟩
    simp [Driver.step, Driver.pbufAlloc, irq, waiting, allowed, ← rx]
  | netifInput err =>
    obtain ⟨filled, waiting, rfl⟩ := netifInput_frame stepped
    refine ⟨0, 0, .silent rfl fun r rx irq _ _ => ?_⟩
    simp [Driver.step, Driver.netifInput, irq, waiting, ← rx]
  | rxStore k byte => exact ⟨0, 0, (rxStore_local stepped).receive⟩
  | rxClose status =>
    obtain ⟨set, dma⟩ := rxClose_local stepped
    exact ⟨0, set, dma.receive⟩
  | rxSuspend => exact ⟨0, ethDmasrRbus, (rxSuspend_local stepped).receive⟩
  | _ => cases side

/-! ### The transmitting side -/

/-- The bits of `DMASR` that tell of a transmission, and that the handler clears. -/
def doneBits : Word := ethDmaItT ||| ethDmaItNis

/-- The bits of `DMASR` that the transmitting side does not use. -/
def handlerBits : Word := ~~~(ethDmasrTbus ||| doneBits)

/-- The same for the transmitting side; only the completion of a transmission sets bits that the
receiving side uses too. -/
structure TransmitLocal (s : Driver) (e : DriverEvent) (t : Driver) (clear set : Word) : Prop where
  own : (clear ||| set) &&& handlerBits = 0
  quiet : clear &&& doneBits = 0
  pending : (∀ report, e ≠ .txDone report) → (clear ||| set) &&& ~~~ethDmasrTbus = 0
  result : t = { s with dmasr := update s.dmasr clear set, tx := t.tx, out := t.out }
  everywhere : ∀ r : Driver, r.tx = s.tx → r.out = s.out →
    r.dmasr &&& ethDmasrTbus = s.dmasr &&& ethDmasrTbus →
      driver.step r e = some { r with dmasr := update r.dmasr clear set, tx := t.tx, out := t.out }

/-- A statement of `ETH_TxPkt_ChainMode` reads and clears `TBUS` alone. -/
theorem txPkt_local {frameLength : BitVec 16} {dmasr : Word} {tx : Tx} {pc : TxPc}
    {result : Word × Tx × TxPc} (ran : ethTxPktChainMode frameLength dmasr tx pc = some result) :
    ∃ clear : Word, clear &&& ~~~ethDmasrTbus = 0 ∧ result.1 = update dmasr clear 0 ∧
      ∀ dmasr' : Word, isSet dmasr' ethDmasrTbus = isSet dmasr ethDmasrTbus →
        ethTxPktChainMode frameLength dmasr' tx pc = some (update dmasr' clear 0, result.2) := by
  cases pc with
  | clearTbus =>
    cases ran
    exact ⟨ethDmasrTbus, by decide, by simp, fun dmasr' _ => by simp [ethTxPktChainMode]⟩
  | testOwn =>
    simp only [ethTxPktChainMode] at ran ⊢
    refine ⟨0, by decide, ?_, fun dmasr' _ => ?_⟩
    · split at ran <;> cases ran <;> simp
    · split at ran <;> cases ran <;> simp [*]
  | testTbus =>
    simp only [ethTxPktChainMode] at ran ⊢
    refine ⟨0, by decide, ?_, fun dmasr' same => ?_⟩
    · split at ran <;> cases ran <;> simp
    · rw [same]
      split at ran <;> cases ran <;> simp [*]
  | ret status => cases ran
  | _ =>
    cases ran
    exact ⟨0, by decide, by simp, fun dmasr' _ => by simp [ethTxPktChainMode]⟩

/-- A step that uses no bit but `TBUS`. -/
private theorem TransmitLocal.within {e : DriverEvent} {clear set : Word}
    (inside : (clear ||| set) &&& ~~~ethDmasrTbus = 0)
    (result : t = { s with dmasr := update s.dmasr clear set, tx := t.tx, out := t.out })
    (everywhere : ∀ r : Driver, r.tx = s.tx → r.out = s.out →
      isSet r.dmasr ethDmasrTbus = isSet s.dmasr ethDmasrTbus →
        driver.step r e =
          some { r with dmasr := update r.dmasr clear set, tx := t.tx, out := t.out }) :
    TransmitLocal s e t clear set where
  own := and_eq_zero_of_within inside (by decide)
  quiet := by
    have cleared : clear &&& ~~~ethDmasrTbus = 0 := by
      have both : clear &&& ~~~ethDmasrTbus ||| set &&& ~~~ethDmasrTbus = 0 := by
        rw [← BitVec.and_or_distrib_right]
        exact inside
      exact (BitVec.or_eq_zero_iff.mp both).1
    exact and_eq_zero_of_within cleared (by decide)
  pending _ := inside
  result := result
  everywhere r tx out bits := everywhere r tx out (isSet_congr (by decide) bits)

private theorem threadStmt_txPkt_local {p : PbufChain} {pc : TxPc} (running : s.out = .txPkt p pc)
    (stepped : s.threadStmt = some t) : ∃ clear, TransmitLocal s .thread t clear 0 := by
  cases pc with
  | ret status =>
    simp only [Driver.threadStmt, running, Option.some.injEq] at stepped
    subst stepped
    refine ⟨0, .within (by decide) (by simp) fun r tx out _ => ?_⟩
    simp [Driver.step, Driver.threadStmt, out, running, ← tx]
  | _ =>
    simp only [Driver.threadStmt, running, Option.map_eq_some_iff] at stepped
    obtain ⟨result, ran, rfl⟩ := stepped
    obtain ⟨clear, own, cleared, again⟩ := txPkt_local ran
    refine ⟨clear, .within (by simpa using own) (by simp [cleared]) fun r tx out same => ?_⟩
    rw [running] at out
    simp only [driver_step, Driver.step, Driver.threadStmt, out, tx, again r.dmasr same]
    rfl

private theorem threadStmt_local (stepped : s.threadStmt = some t) :
    ∃ clear set, TransmitLocal s .thread t clear set := by
  cases running : s.out with
  | idle => simp [Driver.threadStmt, running] at stepped
  | txPkt p pc =>
    obtain ⟨clear, same⟩ := threadStmt_txPkt_local running stepped
    exact ⟨clear, 0, same⟩
  | ret p err =>
    simp only [Driver.threadStmt, running, Option.some.injEq] at stepped
    subst stepped
    refine ⟨0, 0, .within (by decide) (by simp) fun r tx out _ => ?_⟩
    simp [Driver.step, Driver.threadStmt, out, running, ← tx]
  | copy p buffer rest =>
    simp only [Driver.threadStmt, running] at stepped
    rcases rest with _ | ⟨_ | ⟨byte, bytes⟩, rest⟩ <;>
    · cases stepped
      refine ⟨0, 0, .within (by decide) (by simp) fun r tx out _ => ?_⟩
      simp [Driver.step, Driver.threadStmt, out, running, ← tx]

/-- Every step of the transmitting side is local. -/
theorem transmit_local {e : DriverEvent} (side : e.receives = false)
    (stepped : driver.step s e = some t) : ∃ clear set, TransmitLocal s e t clear set := by
  cases e with
  | thread => exact threadStmt_local stepped
  | output p =>
    obtain ⟨idle, rfl⟩ := output_frame stepped
    refine ⟨0, 0, .within (by decide) (by simp) fun r tx out _ => ?_⟩
    simp [Driver.step, Driver.output, out, idle, tx]
  | txFetch =>
    obtain ⟨tx, fetched, rfl⟩ := txFetch_frame stepped
    by_cases suspended : tx.dma = .suspended
    · refine ⟨0, ethDmasrTbus, .within (by decide) (by simp [suspended]) fun r same out _ => ?_⟩
      simp [Driver.step, same, fetched, suspended, ← out]
    · refine ⟨0, 0, .within (by decide) (by simp [suspended]) fun r same out _ => ?_⟩
      simp [Driver.step, same, fetched, suspended, ← out]
  | txRead =>
    obtain ⟨tx, read, rfl⟩ := txRead_frame stepped
    refine ⟨0, 0, .within (by decide) (by simp) fun r same out _ => ?_⟩
    simp [Driver.step, same, read, ← out]
  | txDone report =>
    obtain ⟨tx, done, rfl⟩ := txDone_frame stepped
    refine ⟨0, ethDmaItT ||| ethDmaItNis, by decide, by decide,
      fun none => absurd rfl (none report), by simp, fun r same out _ => ?_⟩
    simp [Driver.step, same, done, ← out]
  | _ => cases side

/-- A step of the receiving side passes any step of the other side that completes no
transmission. -/
theorem receive_passes : driver.Passes DriverEvent.receives fun e => ∀ report, e ≠ .txDone report := by
  intro s e m f t pending back front stepped next
  obtain ⟨clear, set, first⟩ := transmit_local back stepped
  obtain ⟨clear', set', second⟩ := receive_local front next
  have inside := first.pending pending
  have apart : (clear ||| set) &&& (clear' ||| set') = 0 := and_eq_zero_of_within inside second.own
  have same (mask : Word) (other : mask &&& ethDmasrTbus = 0) : s.dmasr &&& mask = m.dmasr &&& mask := by
    rw [first.result]
    exact (update_and_disjoint (and_eq_zero_of_within inside other)).symm
  have rx : s.rx = m.rx := by rw [first.result]
  have irq : s.irq = m.irq := by rw [first.result]
  have taken := second.everywhere s rx irq (same _ (by decide)) fun _ _ =>
    isSet_congr BitVec.and_self (same ethDmaItT (by decide))
  refine ⟨_, taken, ?_⟩
  have after := first.everywhere
    { s with dmasr := update s.dmasr clear' set', rx := t.rx, irq := t.irq } rfl rfl
    (update_and_disjoint second.own)
  rw [after, second.result, first.result]
  simp only [update_comm _ _ _ _ _ apart]

/-! ### What can be seen of a run -/

/-- The packets passed to `netif->input`, and the number of writes to `DMATPDR`. -/
@[ext] structure CallOutcome where
  inputs : List (List UInt8)
  pollDemands : Nat

def CallOutcome.none : CallOutcome := ⟨[], 0⟩

def IrqPc.passes : IrqPc → DriverEvent → List (List UInt8)
  | .input filled, .netifInput _ => [filled]
  | _, _ => []

def OutPc.demands : OutPc → DriverEvent → Nat
  | .txPkt _ .pollDemand, .thread => 1
  | _, _ => 0

def CallOutcome.record (seen : CallOutcome) (s : Driver) (e : DriverEvent) : CallOutcome :=
  ⟨seen.inputs ++ s.irq.passes e, seen.pollDemands + s.out.demands e⟩

/-- The driver and what was seen of it so far. -/
def seenDriver : Lts (CallOutcome × Driver) DriverEvent := driver.logged CallOutcome.record

theorem passes_of_other (irq : IrqPc) {e : DriverEvent} (other : ∀ err, e ≠ .netifInput err) :
    irq.passes e = [] := by
  cases e with
  | netifInput err => exact absurd rfl (other err)
  | _ => cases irq <;> rfl

theorem passes_of_transmit (irq : IrqPc) {e : DriverEvent} (side : e.receives = false) :
    irq.passes e = [] := by
  apply passes_of_other
  rintro err rfl
  cases side

theorem demands_of_receive (out : OutPc) {e : DriverEvent} (side : e.receives = true) :
    out.demands e = 0 := by
  cases e with
  | thread => cases side
  | _ =>
    rcases out with _ | _ | ⟨_, _ | _ | _ | _ | _ | _ | _ | _ | _⟩ | _ <;> rfl

theorem seen_passes :
    seenDriver.Passes DriverEvent.receives fun e => ∀ report, e ≠ .txDone report := by
  rintro ⟨seen, s⟩ e ⟨seen', m⟩ f ⟨seen'', t⟩ pending back front stepped next
  obtain ⟨here, rfl⟩ := (driver.logged_step_iff _).mp stepped
  obtain ⟨there, rfl⟩ := (driver.logged_step_iff _).mp next
  obtain ⟨m', first, second⟩ := receive_passes s e m f t pending back front here there
  obtain ⟨clear, set, transmitted⟩ := transmit_local back here
  obtain ⟨clear', set', received⟩ := receive_local front first
  -- the handler does not move in the one step, nor the thread in the other
  have irq : m.irq = s.irq := by rw [transmitted.result]
  have out : m'.out = s.out := by rw [received.result]
  refine ⟨(seen.record s f, m'), (driver.logged_step_iff _).mpr ⟨first, rfl⟩,
    (driver.logged_step_iff _).mpr ⟨second, ?_⟩⟩
  simp [CallOutcome.record, passes_of_transmit _ back, demands_of_receive _ front, irq, out]

/-! ### The handler ahead of the call -/

/-- A run of the receiving side alone, from `start` on, beside the whole run. It may have missed
a completed transmission, and then it does not clear `T`. -/
structure Ahead (seen : CallOutcome) (start : Driver) (p q : CallOutcome × Driver) : Prop where
  rx : q.2.rx = p.2.rx
  tx : q.2.tx = start.tx
  out : q.2.out = start.out
  tbus : q.2.dmasr &&& ethDmasrTbus = start.dmasr &&& ethDmasrTbus
  bits : q.2.dmasr &&& handlerBits = p.2.dmasr &&& handlerBits
  lag : q.2.dmasr &&& ethDmaItT = p.2.dmasr &&& ethDmaItT ∨ q.2.dmasr &&& ethDmaItT = 0
  irq : q.2.irq = p.2.irq ∨
    p.2.irq = .clearT ∧ q.2.irq = .clearNis ∧ q.2.dmasr &&& ethDmaItT = 0
  inputs : q.1.inputs = p.1.inputs
  pollDemands : q.1.pollDemands = seen.pollDemands

section Ahead

variable {seen : CallOutcome} {start : Driver} {p q p' : CallOutcome × Driver} {e : DriverEvent}

/-- A step of the transmitting side is left out. -/
private theorem Ahead.transmit (ahead : Ahead seen start p q) (side : e.receives = false)
    (stepped : driver.step p.2 e = some p'.2) (recorded : p.1.record p.2 e = p'.1) :
    Ahead seen start p' q := by
  obtain ⟨clear, set, step⟩ := transmit_local side stepped
  have dmasr : p'.2.dmasr = update p.2.dmasr clear set := by rw [step.result]
  have irq : p'.2.irq = p.2.irq := by rw [step.result]
  have rx : p'.2.rx = p.2.rx := by rw [step.result]
  exact {
    rx := ahead.rx.trans rx.symm
    tx := ahead.tx
    out := ahead.out
    tbus := ahead.tbus
    bits := by
      rw [dmasr, update_and_disjoint step.own]
      exact ahead.bits
    lag := by
      -- the flag may be set, and it is not cleared
      rcases and_one q.2.dmasr with clear_before | set_before
      · exact Or.inr clear_before
      · refine ahead.lag.imp_left fun same => ?_
        have quiet : clear &&& ethDmaItT = 0 := by
          have within : ethDmaItT &&& ~~~doneBits = 0 := by decide
          rw [BitVec.and_comm]
          exact and_eq_zero_of_within within step.quiet
        have held : p.2.dmasr &&& ethDmaItT = ethDmaItT := same.symm.trans set_before
        rw [dmasr, update_and_set held quiet]
        exact set_before
    irq := by
      rw [irq]
      exact ahead.irq
    inputs := by
      rw [← recorded, CallOutcome.record, passes_of_transmit _ side, List.append_nil]
      exact ahead.inputs
    pollDemands := ahead.pollDemands }

/-- A step of the receiving side that both runs take. -/
private theorem Ahead.both (ahead : Ahead seen start p q) (side : e.receives = true)
    (together : q.2.irq = p.2.irq)
    (test : e = .irq → p.2.irq = .testT →
      isSet q.2.dmasr ethDmaItT = isSet p.2.dmasr ethDmaItT)
    (stepped : driver.step p.2 e = some p'.2) (recorded : p.1.record p.2 e = p'.1) :
    ∃ q', seenDriver.step q e = some q' ∧ Ahead seen start p' q' := by
  obtain ⟨clear, set, step⟩ := receive_local side stepped
  have dmasr : p'.2.dmasr = update p.2.dmasr clear set := by rw [step.result]
  have bits : q.2.dmasr &&& receiveBits = p.2.dmasr &&& receiveBits :=
    and_congr_within (by decide) ahead.bits
  have taken := step.everywhere q.2 ahead.rx together bits test
  refine ⟨(q.1.record q.2 e, _), (driver.logged_step_iff _).mpr ⟨taken, rfl⟩, ?_⟩
  exact {
    rx := rfl
    tx := ahead.tx
    out := ahead.out
    tbus := (update_and_disjoint step.own).trans ahead.tbus
    bits := by
      rw [dmasr]
      exact update_congr clear set ahead.bits
    lag := by
      rw [dmasr]
      exact ahead.lag.imp (update_congr clear set) fun before => update_and_clear before step.quiet
    irq := Or.inl rfl
    inputs := by
      rw [← recorded, CallOutcome.record, CallOutcome.record, ahead.inputs, together]
    pollDemands := by
      rw [CallOutcome.record, demands_of_receive _ side, Nat.add_zero]
      exact ahead.pollDemands }

/-- A step of the receive DMA, wherever the two handlers are. -/
private theorem Ahead.dma (ahead : Ahead seen start p q) {set : Word} (side : e.receives = true)
    (step : RxDmaLocal p.2 e p'.2 set) (other : ∀ err, e ≠ .netifInput err)
    (recorded : p.1.record p.2 e = p'.1) :
    ∃ q', seenDriver.step q e = some q' ∧ Ahead seen start p' q' := by
  have dmasr : p'.2.dmasr = update p.2.dmasr 0 set := by rw [step.result]
  have irq : p'.2.irq = p.2.irq := by rw [step.result]
  refine ⟨(q.1.record q.2 e, _),
    (driver.logged_step_iff _).mpr ⟨step.everywhere q.2 ahead.rx, rfl⟩, ?_⟩
  exact {
    rx := rfl
    tx := ahead.tx
    out := ahead.out
    tbus := (update_and_disjoint (by simpa using step.own)).trans ahead.tbus
    bits := by
      rw [dmasr]
      exact update_congr 0 set ahead.bits
    lag := by
      rw [dmasr]
      exact ahead.lag.imp (update_congr 0 set) fun before => update_and_clear before step.quiet
    irq := by
      rw [irq]
      exact ahead.irq.imp_right fun ⟨there, here, before⟩ =>
        ⟨there, here, update_and_clear before step.quiet⟩
    inputs := by
      rw [← recorded, CallOutcome.record, CallOutcome.record, passes_of_other _ other,
        passes_of_other _ other, ahead.inputs]
    pollDemands := by
      rw [CallOutcome.record, demands_of_receive _ side, Nat.add_zero]
      exact ahead.pollDemands }

/-- The test of `T`, where the whole run has seen a completion that the other has not. -/
private theorem Ahead.missed (ahead : Ahead seen start p q) (together : q.2.irq = p.2.irq)
    (testing : p.2.irq = .testT) (raised : isSet p.2.dmasr ethDmaItT = true)
    (clear : q.2.dmasr &&& ethDmaItT = 0) (stepped : driver.step p.2 .irq = some p'.2)
    (recorded : p.1.record p.2 .irq = p'.1) :
    ∃ q', seenDriver.step q .irq = some q' ∧ Ahead seen start p' q' := by
  obtain ⟨seen', t⟩ := p'
  have unset : isSet q.2.dmasr ethDmaItT = false := by
    rw [isSet, clear]
    rfl
  simp only [driver_step, Driver.step, Driver.irqStmt, testing, raised, if_true,
    Option.some.injEq] at stepped
  subst stepped
  have taken : driver.step q.2 .irq = some { q.2 with irq := .clearNis } := by
    simp [Driver.step, Driver.irqStmt, together, testing, unset]
  refine ⟨(q.1.record q.2 .irq, _), (driver.logged_step_iff _).mpr ⟨taken, rfl⟩, ?_⟩
  have nothing (irq : IrqPc) : irq.passes .irq = [] := passes_of_other irq (by simp)
  exact {
    rx := ahead.rx
    tx := ahead.tx
    out := ahead.out
    tbus := ahead.tbus
    bits := ahead.bits
    lag := ahead.lag
    irq := Or.inr ⟨rfl, rfl, clear⟩
    inputs := by
      rw [← recorded, CallOutcome.record, CallOutcome.record, nothing, nothing, ahead.inputs]
    pollDemands := by
      rw [CallOutcome.record, demands_of_receive _ rfl, Nat.add_zero]
      exact ahead.pollDemands }

/-- The clear of `T` is left out where the flag was not seen. -/
private theorem Ahead.caughtUp (ahead : Ahead seen start p q) (there : p.2.irq = .clearT)
    (here : q.2.irq = .clearNis) (clear : q.2.dmasr &&& ethDmaItT = 0)
    (stepped : driver.step p.2 .irq = some p'.2) (recorded : p.1.record p.2 .irq = p'.1) :
    Ahead seen start p' q := by
  obtain ⟨seen', t⟩ := p'
  simp only [driver_step, Driver.step, Driver.irqStmt, there, Option.some.injEq] at stepped
  subst stepped
  exact {
    rx := ahead.rx
    tx := ahead.tx
    out := ahead.out
    tbus := ahead.tbus
    bits := by
      rw [← update_clear, update_and_disjoint (by decide)]
      exact ahead.bits
    lag := Or.inr clear
    irq := Or.inl here
    inputs := by
      rw [← recorded, CallOutcome.record, there]
      simpa [IrqPc.passes] using ahead.inputs
    pollDemands := ahead.pollDemands }

/-- A handler that lags behind is at its last statement but one. -/
private theorem Ahead.together (ahead : Ahead seen start p q) (waiting : p.2.irq ≠ .clearT) :
    q.2.irq = p.2.irq := by
  rcases ahead.irq with same | ⟨there, -, -⟩
  · exact same
  · exact absurd there waiting

/-- The receiving side alone follows each step of the whole run, or leaves it out. -/
theorem Ahead.follow (ahead : Ahead seen start p q) (stepped : seenDriver.step p e = some p') :
    (e.receives = false ∨ e = .irq) ∧ Ahead seen start p' q ∨
      e.receives = true ∧ ∃ q', seenDriver.step q e = some q' ∧ Ahead seen start p' q' := by
  obtain ⟨taken, recorded⟩ := (driver.logged_step_iff _).mp stepped
  cases e with
  | irq =>
    rcases ahead.irq with together | ⟨there, here, clear⟩
    · by_cases missed : p.2.irq = .testT ∧ isSet q.2.dmasr ethDmaItT ≠ isSet p.2.dmasr ethDmaItT
      · obtain ⟨testing, differ⟩ := missed
        rcases ahead.lag with same | clear
        · exact absurd (isSet_congr BitVec.and_self same) differ
        · have raised : isSet p.2.dmasr ethDmaItT = true := by
            by_contra unset
            rw [Bool.not_eq_true] at unset
            apply differ
            rw [unset, isSet, clear]
            rfl
          exact Or.inr ⟨rfl, ahead.missed together testing raised clear taken recorded⟩
      · refine Or.inr ⟨rfl, ahead.both rfl together (fun _ testing => ?_) taken recorded⟩
        by_contra differ
        exact missed ⟨testing, differ⟩
    · exact Or.inl ⟨Or.inr rfl, ahead.caughtUp there here clear taken recorded⟩
  | irqEnter =>
    obtain ⟨idle, -⟩ := irqEnter_frame taken
    have together := ahead.together (by simp [idle])
    exact Or.inr ⟨rfl, ahead.both rfl together (fun same => by cases same) taken recorded⟩
  | pbufAlloc answer =>
    obtain ⟨frame, waiting, -, -⟩ := pbufAlloc_frame taken
    have together := ahead.together (by simp [waiting])
    exact Or.inr ⟨rfl, ahead.both rfl together (fun same => by cases same) taken recorded⟩
  | netifInput err =>
    obtain ⟨filled, waiting, -⟩ := netifInput_frame taken
    have together := ahead.together (by simp [waiting])
    exact Or.inr ⟨rfl, ahead.both rfl together (fun same => by cases same) taken recorded⟩
  | rxStore k byte =>
    exact Or.inr ⟨rfl, ahead.dma rfl (rxStore_local taken) (by simp) recorded⟩
  | rxClose status =>
    obtain ⟨set, step⟩ := rxClose_local taken
    exact Or.inr ⟨rfl, ahead.dma rfl step (by simp) recorded⟩
  | rxSuspend => exact Or.inr ⟨rfl, ahead.dma rfl (rxSuspend_local taken) (by simp) recorded⟩
  | _ => exact Or.inl ⟨Or.inl rfl, ahead.transmit rfl taken recorded⟩

end Ahead

/-! ### The call after the handler -/

/-- A run of the transmitting side alone, from `m` on, beside the whole run. -/
structure Behind (m p q : CallOutcome × Driver) : Prop where
  tx : q.2.tx = p.2.tx
  out : q.2.out = p.2.out
  tbus : q.2.dmasr &&& ethDmasrTbus = p.2.dmasr &&& ethDmasrTbus
  rx : q.2.rx = m.2.rx
  irq : q.2.irq = m.2.irq
  bits : q.2.dmasr &&& handlerBits = m.2.dmasr &&& handlerBits
  inputs : q.1.inputs = m.1.inputs
  pollDemands : q.1.pollDemands = p.1.pollDemands

section Behind

variable {m p q p' : CallOutcome × Driver} {e : DriverEvent}

private theorem Behind.receive (behind : Behind m p q) (side : e.receives = true)
    (stepped : driver.step p.2 e = some p'.2) (recorded : p.1.record p.2 e = p'.1) :
    Behind m p' q := by
  obtain ⟨clear, set, step⟩ := receive_local side stepped
  have dmasr : p'.2.dmasr = update p.2.dmasr clear set := by rw [step.result]
  have tx : p'.2.tx = p.2.tx := by rw [step.result]
  have out : p'.2.out = p.2.out := by rw [step.result]
  exact {
    tx := behind.tx.trans tx.symm
    out := behind.out.trans out.symm
    tbus := by
      rw [dmasr, update_and_disjoint step.own]
      exact behind.tbus
    rx := behind.rx
    irq := behind.irq
    bits := behind.bits
    inputs := behind.inputs
    pollDemands := by
      rw [← recorded, CallOutcome.record, demands_of_receive _ side, Nat.add_zero]
      exact behind.pollDemands }

private theorem Behind.transmit (behind : Behind m p q) (side : e.receives = false)
    (stepped : driver.step p.2 e = some p'.2) (recorded : p.1.record p.2 e = p'.1) :
    ∃ q', seenDriver.step q e = some q' ∧ Behind m p' q' := by
  obtain ⟨clear, set, step⟩ := transmit_local side stepped
  have dmasr : p'.2.dmasr = update p.2.dmasr clear set := by rw [step.result]
  refine ⟨(q.1.record q.2 e, _), (driver.logged_step_iff _).mpr
    ⟨step.everywhere q.2 behind.tx behind.out behind.tbus, rfl⟩, ?_⟩
  exact {
    tx := rfl
    out := rfl
    tbus := by
      rw [dmasr]
      exact update_congr clear set behind.tbus
    rx := behind.rx
    irq := behind.irq
    bits := (update_and_disjoint step.own).trans behind.bits
    inputs := by
      rw [CallOutcome.record, passes_of_transmit _ side, List.append_nil]
      exact behind.inputs
    pollDemands := by
      rw [← recorded, CallOutcome.record, CallOutcome.record, behind.pollDemands, behind.out] }

/-- The transmitting side alone follows its own steps and leaves out the others. -/
theorem Behind.follow (behind : Behind m p q) (stepped : seenDriver.step p e = some p') :
    (!e.receives) = false ∧ Behind m p' q ∨
      (!e.receives) = true ∧ ∃ q', seenDriver.step q e = some q' ∧ Behind m p' q' := by
  obtain ⟨taken, recorded⟩ := (driver.logged_step_iff _).mp stepped
  cases side : e.receives with
  | true => exact Or.inl ⟨rfl, behind.receive side taken recorded⟩
  | false => exact Or.inr ⟨rfl, behind.transmit side taken recorded⟩

end Behind

/-! ### All handler runs before the call -/

/-- The same rings, handler, thread, packets and poll demands, and the same `DMASR` but for the
flags of a completed transmission. -/
structure SameOutcome (seen : CallOutcome) (t : Driver) (seen' : CallOutcome) (u : Driver) :
    Prop where
  tx : u.tx = t.tx
  rx : u.rx = t.rx
  out : u.out = t.out
  dmasr : u.dmasr &&& ~~~doneBits = t.dmasr &&& ~~~doneBits
  seen : seen' = seen

/-- The external events of the handler runs, and their statements but for those left out. -/
def HandlerRuns : List DriverEvent → List DriverEvent → Prop :=
  Lts.Thinned (fun e => e.receives = false ∨ e = .irq) fun e => e.receives = true

/-- The handler runs come first, and the call with its DMA events follows. -/
theorem handler_first {seen seen' : CallOutcome} {es : List DriverEvent}
    (ran : seenDriver.run (seen, s) es = some (seen', t)) (ended : t.irq = .idle) :
    ∃ hs m u, HandlerRuns es hs ∧ seenDriver.run (seen, s) hs = some m ∧ m.2.irq = .idle ∧
      seenDriver.run m (es.filter fun e => !e.receives) = some u ∧
      SameOutcome seen' t u.1 u.2 := by
  have start : Ahead seen s (seen, s) (seen, s) :=
    ⟨rfl, rfl, rfl, rfl, rfl, Or.inl rfl, Or.inl rfl, rfl, rfl⟩
  obtain ⟨hs, m, runs, first, ahead⟩ :=
    seenDriver.run_thinned (Ahead seen s) (fun _ _ _ _ ahead stepped => ahead.follow stepped) start ran
  have idle : m.2.irq = .idle := (ahead.together (by simp [ended])).trans ended
  have between : Behind m (seen, s) m :=
    ⟨ahead.tx, ahead.out, ahead.tbus, rfl, rfl, rfl, rfl, ahead.pollDemands⟩
  obtain ⟨ts, u, calls, second, behind⟩ :=
    seenDriver.run_thinned (Behind m) (fun _ _ _ _ behind stepped => behind.follow stepped) between ran
  rw [calls.eq_filter] at second
  refine ⟨hs, m, u, runs, first, idle, second, behind.tx, behind.rx.trans ahead.rx, behind.out, ?_, ?_⟩
  · -- the bits of the handler from the one run, and `TBUS` from the other
    have mask : handlerBits ||| ethDmasrTbus = ~~~doneBits := by decide
    have both := and_or_congr (behind.bits.trans ahead.bits) behind.tbus
    rwa [mask] at both
  · exact CallOutcome.ext (behind.inputs.trans ahead.inputs) behind.pollDemands

/-- The call leaves the handler where it was. -/
private theorem transmit_run_irq {es : List DriverEvent} (calls : ∀ e ∈ es, e.receives = false)
    (ran : driver.run s es = some t) : t.irq = s.irq := by
  induction es generalizing s with
  | nil =>
    cases ran
    rfl
  | cons e es ih =>
    obtain ⟨side, rest⟩ := List.forall_mem_cons.mp calls
    obtain ⟨m, stepped, ran⟩ := (driver.run_cons_iff s t e es).mp ran
    obtain ⟨clear, set, step⟩ := transmit_local side stepped
    have same : m.irq = s.irq := by rw [step.result]
    exact (ih rest ran).trans same

/-- Whatever the places at which the handler preempts a call, all its runs may as well take place
before the call. Nothing but the flags of a completed transmission tells the two orders apart,
and not even these where no transmission is completed meanwhile. -/
theorem preemption_unobservable (s t : Driver) (es : List DriverEvent)
    (ran : driver.run s es = some t) (ended : t.irq = .idle) :
    ((∀ e ∈ es, ∀ report, e ≠ .txDone report) → ∃ m,
      driver.run s (es.filter DriverEvent.receives) = some m ∧ m.irq = .idle ∧
      driver.run m (es.filter fun e => !e.receives) = some t ∧
      driver.log CallOutcome.record .none s
        (es.filter DriverEvent.receives ++ es.filter fun e => !e.receives) =
          driver.log CallOutcome.record .none s es) ∧
    ∃ hs m u, HandlerRuns es hs ∧ driver.run s hs = some m ∧ m.irq = .idle ∧
      driver.run m (es.filter fun e => !e.receives) = some u ∧
      SameOutcome (driver.log CallOutcome.record .none s es) t
        (driver.log CallOutcome.record .none s (hs ++ es.filter fun e => !e.receives)) u := by
  have seen : seenDriver.run (.none, s) es =
      some (driver.log CallOutcome.record .none s es, t) :=
    (driver.logged_run_iff _).mpr ⟨ran, rfl⟩
  constructor
  · intro pending
    obtain ⟨sorted, same⟩ := (driver.logged_run_iff _).mp (seen_passes.run_filter pending seen)
    obtain ⟨m, first, second⟩ := (driver.run_append_iff s t _ _).mp sorted
    have calls : ∀ e ∈ es.filter fun e => !e.receives, e.receives = false := by
      intro e member
      simpa using (List.mem_filter.mp member).2
    exact ⟨m, first, (transmit_run_irq calls second).symm.trans ended, second, same⟩
  · obtain ⟨hs, ⟨seen', m⟩, ⟨seen'', u⟩, runs, first, idle, second, outcome⟩ :=
      handler_first seen ended
    have before := (driver.logged_run_iff _).mp first
    have after := (driver.logged_run_iff _).mp second
    refine ⟨hs, m, u, runs, before.1, idle, after.1, ?_⟩
    rw [driver.log_append _ _ _ before.1, before.2, after.2]
    exact outcome

/-- The handler takes a frame of one byte from the ring and passes it on. -/
def receiveRun : List DriverEvent :=
  .irqEnter :: List.flatten [List.replicate 7 .irq, [.pbufAlloc (some [1])],
    List.replicate 3 .irq, [.netifInput errOk]]

/-- A call of one byte. A frame is received after the first statement of its copy, and the
handler preempts it there and once more before the descriptor is handed over. -/
def preemptedOutput : List DriverEvent :=
  List.flatten [[.rxStore 0 0xAB, .output oneByte, .thread, .rxClose 0x00050300], receiveRun,
    [.irq, .irq, .thread, .thread, .irqEnter, .irq, .irq, .irq], List.replicate 8 .thread]

/-- The frame of the call is sent before the call returns, another one is received, and one run of
the handler serves both. -/
def servedOutput : List DriverEvent :=
  List.flatten [[.rxStore 0 0xAB, .output oneByte], List.replicate 7 .thread,
    [.rxClose 0x00050300, .txFetch, .txRead, .txDone 0], receiveRun, [.irq, .irq, .irq],
    List.replicate 4 .thread]

def startedDriver : Driver := Driver.init Memory.cleared ethRxBufNb ethTxBufNb

/-- What can be seen of a run from the start. -/
def outcomeOf (es : List DriverEvent) : CallOutcome :=
  driver.log CallOutcome.record .none startedDriver es

private theorem served_runs (es : List DriverEvent)
    (reached : (driver.run startedDriver es).any (fun t => (t.step .irqEnter).isSome &&
      !isSet t.dmasr ethDmaItT && (outcomeOf es).inputs == [[0xAB]]) = true) :
    ∃ t, driver.run startedDriver es = some t ∧ t.irq = .idle ∧
      isSet t.dmasr ethDmaItT = false ∧ (outcomeOf es).inputs = [[0xAB]] := by
  obtain ⟨t, ran, found⟩ := (Option.any_eq_true ..).mp reached
  simp only [Bool.and_eq_true, Bool.not_eq_true', beq_iff_eq, Option.isSome_iff_exists] at found
  -- the handler is only entered where it does not run
  obtain ⟨⟨⟨m, entered⟩, clear⟩, inputs⟩ := found
  exact ⟨t, ran, (irqEnter_frame entered).1, clear, inputs⟩

theorem preemption_unobservable_here :
    (∃ t m, driver.run startedDriver preemptedOutput = some t ∧
      driver.run startedDriver (preemptedOutput.filter DriverEvent.receives) = some m ∧
      m.irq = .idle ∧ driver.run m (preemptedOutput.filter fun e => !e.receives) = some t ∧
      outcomeOf (preemptedOutput.filter DriverEvent.receives ++
        preemptedOutput.filter fun e => !e.receives) = outcomeOf preemptedOutput ∧
      (outcomeOf preemptedOutput).inputs = [[0xAB]]) ∧
    ∃ t hs m u, driver.run startedDriver servedOutput = some t ∧
      HandlerRuns servedOutput hs ∧ driver.run startedDriver hs = some m ∧ m.irq = .idle ∧
      driver.run m (servedOutput.filter fun e => !e.receives) = some u ∧
      SameOutcome (outcomeOf servedOutput) t
        (outcomeOf (hs ++ servedOutput.filter fun e => !e.receives)) u ∧
      (outcomeOf servedOutput).inputs = [[0xAB]] ∧ isSet t.dmasr ethDmaItT = false := by
  constructor
  · obtain ⟨t, ran, ended, -, inputs⟩ := served_runs preemptedOutput (by decide +kernel)
    obtain ⟨m, first, idle, second, same⟩ :=
      (preemption_unobservable _ t preemptedOutput ran ended).1
        (by simp [preemptedOutput, receiveRun])
    exact ⟨t, m, ran, first, idle, second, same, inputs⟩
  · obtain ⟨t, ran, ended, clear, inputs⟩ := served_runs servedOutput (by decide +kernel)
    obtain ⟨hs, m, u, runs, first, idle, second, same⟩ :=
      (preemption_unobservable _ t servedOutput ran ended).2
    exact ⟨t, hs, m, u, ran, runs, first, idle, second, same, inputs, clear⟩

/-! ### The flag that tells the orders apart -/

/-- Nothing but the handler clears `T`. -/
private theorem done_kept {e : DriverEvent} (other : e ≠ .irq)
    (stepped : driver.step s e = some t) (raised : isSet s.dmasr ethDmaItT = true) :
    isSet t.dmasr ethDmaItT = true := by
  cases e with
  | irq => exact absurd rfl other
  | irqEnter =>
    obtain ⟨-, rfl⟩ := irqEnter_frame stepped
    exact raised
  | pbufAlloc answer =>
    obtain ⟨frame, -, -, rfl⟩ := pbufAlloc_frame stepped
    exact raised
  | netifInput err =>
    obtain ⟨filled, -, rfl⟩ := netifInput_frame stepped
    exact raised
  | output p =>
    obtain ⟨-, rfl⟩ := output_frame stepped
    exact raised
  | thread =>
    obtain ⟨-, -, same⟩ := threadStmt_frame stepped
    rw [same _ (by decide)]
    exact raised
  | rxStore k byte =>
    obtain ⟨rx, -, rfl⟩ := rxStore_frame stepped
    exact raised
  | rxClose status =>
    obtain ⟨rx, -, rfl⟩ := rxClose_frame stepped
    simp only
    split
    · exact isSet_or_left _ _ _ raised
    · exact raised
  | rxSuspend =>
    obtain ⟨rx, -, rfl⟩ := rxSuspend_frame stepped
    exact isSet_or_left _ _ _ raised
  | txFetch =>
    obtain ⟨tx, -, rfl⟩ := txFetch_frame stepped
    simp only
    split
    · exact isSet_or_left _ _ _ raised
    · exact raised
  | txRead =>
    obtain ⟨tx, -, rfl⟩ := txRead_frame stepped
    exact raised
  | txDone report =>
    obtain ⟨tx, -, rfl⟩ := txDone_frame stepped
    exact isSet_or_left _ _ _ raised

private theorem done_raised {report : Word} (stepped : driver.step s (.txDone report) = some t) :
    isSet t.dmasr ethDmaItT = true := by
  obtain ⟨tx, -, rfl⟩ := txDone_frame stepped
  exact isSet_or_within _ _ _ (by decide) (by decide)

private theorem done_run {ts : List DriverEvent} (calls : ∀ e ∈ ts, e ≠ .irq)
    (ran : driver.run s ts = some t)
    (done : isSet s.dmasr ethDmaItT = true ∨ ∃ report, .txDone report ∈ ts) :
    isSet t.dmasr ethDmaItT = true := by
  induction ts generalizing s with
  | nil =>
    cases ran
    exact done.elim id fun ⟨_, member⟩ => by cases member
  | cons e ts ih =>
    obtain ⟨other, rest⟩ := List.forall_mem_cons.mp calls
    obtain ⟨m, stepped, ran⟩ := (driver.run_cons_iff s t e ts).mp ran
    refine ih rest ran ?_
    rcases done with raised | ⟨report, member⟩
    · exact Or.inl (done_kept other stepped raised)
    · rcases List.mem_cons.mp member with rfl | later
      · exact Or.inl (done_raised stepped)
      · exact Or.inr ⟨report, later⟩

/-- The transmit DMA has nothing to send. -/
structure Unsent (tx : Tx) : Prop where
  free : isSet tx.atDma.status ethDmaTxDescOwn = false
  rests : ∀ sent, tx.dma ≠ .busy sent

/-- Without the thread, nothing is sent. -/
private theorem unsent_step {e : DriverEvent} (unsent : Unsent s.tx) (apart : e ≠ .thread)
    (stepped : driver.step s e = some t) : Unsent t.tx ∧ ∀ report, e ≠ .txDone report := by
  cases e with
  | thread => exact absurd rfl apart
  | output p =>
    obtain ⟨-, rfl⟩ := output_frame stepped
    exact ⟨unsent, fun _ => by simp⟩
  | txFetch =>
    obtain ⟨tx, fetched, rfl⟩ := txFetch_frame stepped
    obtain ⟨-, rfl⟩ := Tx.dmaFetch_frame fetched
    have free := unsent.free
    exact ⟨⟨free, by simp [free]⟩, fun _ => by simp⟩
  | txRead =>
    obtain ⟨tx, read, -⟩ := txRead_frame stepped
    obtain ⟨sent, busy, -, -⟩ := Tx.dmaRead_frame read
    exact absurd busy (unsent.rests sent)
  | txDone report =>
    obtain ⟨tx, done, -⟩ := txDone_frame stepped
    obtain ⟨sent, busy, -, -⟩ := Tx.dmaDone_frame done
    exact absurd busy (unsent.rests sent)
  | _ =>
    obtain ⟨clear, set, step⟩ := receive_local rfl stepped
    have same : t.tx = s.tx := by rw [step.result]
    exact ⟨same ▸ unsent, fun _ => by simp⟩

private theorem unsent_run {hs : List DriverEvent} (unsent : Unsent s.tx)
    (apart : ∀ e ∈ hs, e ≠ .thread) (ran : driver.run s hs = some t) :
    ∀ report, .txDone report ∉ hs := by
  induction hs generalizing s with
  | nil => simp
  | cons e hs ih =>
    obtain ⟨first, rest⟩ := List.forall_mem_cons.mp apart
    obtain ⟨m, stepped, ran⟩ := (driver.run_cons_iff s t e hs).mp ran
    obtain ⟨after, pending⟩ := unsent_step unsent first stepped
    intro report member
    rcases List.mem_cons.mp member with rfl | later
    · exact pending report rfl
    · exact ih after rest ran report later

/-- The frame of a call is sent before the call returns, and the handler runs in between. -/
def acknowledgedOutput : List DriverEvent :=
  .output oneByte :: List.replicate 7 .thread ++
    [.txFetch, .txRead, .txDone 0, .irqEnter, .irq, .irq, .irq, .irq] ++ List.replicate 4 .thread

/-- Then `T` is clear in the end; and it is set in the end of every run in which the same
transmission is completed and all runs of the handler precede the call. -/
theorem done_flag_depends_on_order :
    (∃ t, driver.run (Driver.init Memory.cleared ethRxBufNb ethTxBufNb) acknowledgedOutput = some t ∧
      t.irq = .idle ∧ t.out = .idle ∧ isSet t.dmasr ethDmaItT = false) ∧
    ∀ hs ts u, (∀ e ∈ hs, e ≠ .thread ∧ ∀ p, e ≠ .output p) → (∀ e ∈ ts, e ≠ .irq) →
      .txDone 0 ∈ hs ++ ts →
      driver.run (Driver.init Memory.cleared ethRxBufNb ethTxBufNb) (hs ++ ts) = some u →
        isSet u.dmasr ethDmaItT = true := by
  constructor
  · have reached : (driver.run (Driver.init Memory.cleared ethRxBufNb ethTxBufNb)
        acknowledgedOutput).any (fun t => (t.step .irqEnter).isSome && (t.output oneByte).isSome &&
          !isSet t.dmasr ethDmaItT) = true := by
      decide +kernel
    obtain ⟨t, ran, found⟩ := (Option.any_eq_true ..).mp reached
    simp only [Bool.and_eq_true, Bool.not_eq_true', Option.isSome_iff_exists] at found
    obtain ⟨⟨⟨m, entered⟩, ⟨n, called⟩⟩, clear⟩ := found
    exact ⟨t, ran, (irqEnter_frame entered).1, (output_frame called).1, clear⟩
  · intro hs ts u handlers calls member ran
    obtain ⟨m, first, second⟩ := (driver.run_append_iff _ u hs ts).mp ran
    have unsent : Unsent (Driver.init Memory.cleared ethRxBufNb ethTxBufNb).tx :=
      ⟨by decide, fun sent busy => by cases busy⟩
    have pending := unsent_run unsent (fun e inside => (handlers e inside).1) first
    have later : .txDone 0 ∈ ts := (List.mem_append.mp member).resolve_left (pending 0)
    exact done_run calls second (Or.inr ⟨0, later⟩)

end WchLwip
