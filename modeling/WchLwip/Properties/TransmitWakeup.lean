import WchLwip.Properties.Simulation

/-! The sleeping transmit DMA is woken for every frame handed over.

The DMA sets `TBUS` when it suspends, which it does only with an empty queue. A
call that hands a descriptor over tests `TBUS` afterwards, so it either finds the
flag of a DMA that suspended before, or the DMA will fetch the new descriptor. -/
namespace WchLwip

open Mask

variable {s t : Driver}

/-! ### The invariant -/

/-- The call between handing its descriptor over and the end of its `TBUS` branch. -/
def OutPc.waking : OutPc → Prop
  | .txPkt _ .testTbus | .txPkt _ .clearTbus | .txPkt _ .pollDemand => True
  | _ => False

/-- The call between clearing `TBUS` and its poll demand. -/
def OutPc.polling : OutPc → Prop
  | .txPkt _ .pollDemand => True
  | _ => False

/-- A suspended DMA has its flag up, and nothing to send unless a call is about to test it. -/
structure Asleep (log : TxLog) (dmasr : Word) (out : OutPc) : Prop where
  flagged : ¬ out.polling → isSet dmasr ethDmasrTbus = true
  empty : ¬ out.waking → log.handed.length = log.done.length

structure Wakeup (n : Nat) (log : TxLog) (s : Driver) : Prop where
  ring : ∃ q, TxAt n log q s.txRing
  asleep : s.tx.dma = .suspended → Asleep log s.dmasr s.out

section Wakeup

variable {n : Nat} {log log' : TxLog}

/-- A step that hands nothing over and keeps `TBUS`, while the DMA sleeps. -/
private theorem Asleep.keep {dmasr dmasr' : Word} {out out' : OutPc}
    (held : Asleep log dmasr out) (handed : log'.handed.length = log.handed.length)
    (done : log'.done = log.done)
    (flag : isSet dmasr ethDmasrTbus = true → isSet dmasr' ethDmasrTbus = true)
    (polling : out.polling → out'.polling) (waking : out.waking → out'.waking) :
    Asleep log' dmasr' out' where
  flagged quiet := flag (held.flagged fun polls => quiet (polling polls))
  empty quiet := by
    rw [handed, done]
    exact held.empty fun wakes => quiet (waking wakes)

private theorem asleep_txPkt {p : PbufChain} {pc : TxPc} (running : s.out = .txPkt p pc)
    (held : s.tx.dma = .suspended → Asleep log s.dmasr s.out) (stepped : s.threadStmt = some t)
    (handed : log'.handed.length = log.handed.length + s.out.hands)
    (done : log'.done = log.done) (suspended : t.tx.dma = .suspended) :
    Asleep log' t.dmasr t.out := by
  obtain ⟨dmasr, rx, tx, irq, out⟩ := s
  cases running
  cases pc with
  | testOwn =>
    simp only [Driver.threadStmt, ethTxPktChainMode, Option.map_eq_some_iff] at stepped
    obtain ⟨result, ran, rfl⟩ := stepped
    split at ran <;> cases ran <;> exact (held suspended).keep handed done id False.elim False.elim
  | setSize | setSegments =>
    cases stepped
    exact (held suspended).keep handed done id False.elim False.elim
  | setOwn =>
    -- the queue is no longer empty, and the call is about to test the flag
    cases stepped
    exact ⟨fun _ => (held suspended).flagged id, fun quiet => absurd trivial quiet⟩
  | testTbus =>
    simp only [Driver.threadStmt, ethTxPktChainMode, Option.map_eq_some_iff] at stepped
    obtain ⟨result, ran, rfl⟩ := stepped
    split at ran
    next raised =>
      cases ran
      exact ⟨fun _ => raised, fun quiet => absurd trivial quiet⟩
    next down =>
      -- a sleeping DMA has its flag up, so the test does not miss it
      cases ran
      exact absurd ((held suspended).flagged id) down
  | clearTbus =>
    -- the flag goes down, and the poll demand is the next statement
    cases stepped
    exact ⟨fun quiet => absurd trivial quiet, fun quiet => absurd trivial quiet⟩
  | pollDemand =>
    -- the poll demand ends the sleep
    cases stepped
    simp only [Tx.writeDmatpdr] at suspended
    split at suspended
    next => cases suspended
    next awake => exact absurd suspended awake
  | advance =>
    cases stepped
    exact (held suspended).keep handed done id False.elim False.elim
  | ret status =>
    cases stepped
    exact (held suspended).keep handed done id False.elim False.elim

private theorem asleep_thread (held : s.tx.dma = .suspended → Asleep log s.dmasr s.out)
    (stepped : s.threadStmt = some t) (suspended : t.tx.dma = .suspended) :
    Asleep (txHistory log s .thread) t.dmasr t.out := by
  obtain ⟨handed, done⟩ := txHistory_thread log s
  cases pc : s.out with
  | txPkt p call => exact asleep_txPkt pc held stepped handed done suspended
  | idle => simp [Driver.threadStmt, pc] at stepped
  | ret p err =>
    rw [pc] at handed held
    simp only [Driver.threadStmt, pc, Option.some.injEq] at stepped
    subst stepped
    exact (held suspended).keep handed done id False.elim False.elim
  | copy p buffer rest =>
    rw [pc] at handed held
    rcases rest with _ | ⟨_ | ⟨byte, bytes⟩, rest⟩ <;>
    · simp only [Driver.threadStmt, pc, Option.some.injEq] at stepped
      subst stepped
      exact (held suspended).keep handed done id False.elim False.elim

/-- The DMA suspends with an empty queue. -/
private theorem asleep_fetch (held : Wakeup n log s) {tx : Tx}
    (fetched : s.tx.dmaFetch = some tx) (suspended : tx.dma = .suspended) :
    log.handed.length = log.done.length := by
  obtain ⟨q, inv⟩ := held.ring
  obtain ⟨-, rfl⟩ := Tx.dmaFetch_frame fetched
  by_cases owned : isSet s.tx.atDma.status ethDmaTxDescOwn
  · simp [owned] at suspended
  · rw [inv.handed, inv.empty_of_free (Bool.eq_false_iff.mpr owned), List.append_nil]

theorem Wakeup.step {e : DriverEvent} (held : Wakeup n log s)
    (stepped : driver.step s e = some t) : Wakeup n (txHistory log s e) t := by
  refine ⟨TxAt.driver_step held.ring stepped, fun suspended => ?_⟩
  cases e with
  | thread => exact asleep_thread held.asleep stepped suspended
  | irq =>
    obtain ⟨tx, out, flag⟩ := irqStmt_frame stepped
    rw [tx] at suspended
    exact (held.asleep suspended).keep rfl rfl (flag ▸ id) (out ▸ id) (out ▸ id)
  | irqEnter =>
    obtain ⟨-, rfl⟩ := irqEnter_frame stepped
    exact held.asleep suspended
  | pbufAlloc answer =>
    obtain ⟨frame, -, -, rfl⟩ := pbufAlloc_frame stepped
    exact held.asleep suspended
  | netifInput err =>
    obtain ⟨filled, -, rfl⟩ := netifInput_frame stepped
    exact held.asleep suspended
  | output p =>
    obtain ⟨idle, rfl⟩ := output_frame stepped
    have before := held.asleep suspended
    rw [idle] at before
    exact before.keep rfl rfl id False.elim False.elim
  | rxStore k byte =>
    obtain ⟨rx, -, rfl⟩ := rxStore_frame stepped
    exact held.asleep suspended
  | rxClose status =>
    obtain ⟨rx, -, rfl⟩ := rxClose_frame stepped
    refine (held.asleep suspended).keep rfl rfl (fun flag => ?_) id id
    by_cases last : isSet status ethDmaRxDescLs = true
    · rw [if_pos last]
      exact isSet_or_left _ _ _ flag
    · rw [if_neg last]
      exact flag
  | rxSuspend =>
    obtain ⟨rx, -, rfl⟩ := rxSuspend_frame stepped
    exact (held.asleep suspended).keep rfl rfl (isSet_or_left _ _ _) id id
  | txFetch =>
    obtain ⟨tx, fetched, rfl⟩ := txFetch_frame stepped
    obtain ⟨handed, done⟩ := txHistory_fetch log s
    -- the DMA falls asleep here, which raises its flag
    rw [show tx.dma = .suspended from suspended, if_pos rfl]
    refine ⟨fun _ => isSet_or_self _ _ (by decide), fun _ => ?_⟩
    rw [handed, done]
    exact asleep_fetch held fetched suspended
  | txRead =>
    obtain ⟨tx, read, rfl⟩ := txRead_frame stepped
    obtain ⟨sent, -, -, rfl⟩ := Tx.dmaRead_frame read
    cases suspended
  | txDone report =>
    obtain ⟨tx, done, rfl⟩ := txDone_frame stepped
    obtain ⟨sent, -, -, rfl⟩ := Tx.dmaDone_frame done
    cases suspended

end Wakeup

theorem Wakeup.run {n m : Nat} (pos : 0 < m) (memory : Memory) {es : List DriverEvent}
    (ran : driver.run (Driver.init memory n m) es = some s) :
    Wakeup m (driver.log txHistory TxLog.empty (Driver.init memory n m) es) s := by
  have start : Wakeup m TxLog.empty (Driver.init memory n m) :=
    ⟨TxAt.driver_init pos memory n, fun asleep => by cases asleep⟩
  exact driver.log_invariant txHistory (Wakeup m) (fun _ _ _ _ held stepped => held.step stepped)
    start ran

/-- Outside `ETH_TxPkt_ChainMode` a suspended transmit DMA owns no descriptor. -/
theorem no_transmit_wakeup_lost (memory : Memory) (rxBuffCount txBuffCount : Nat)
    (pos : 0 < txBuffCount) (es : List DriverEvent) (s : Driver)
    (ran : driver.run (Driver.init memory rxBuffCount txBuffCount) es = some s)
    (outside : s.out.txCall = none) (suspended : s.tx.dma = .suspended) :
    ∀ i < txBuffCount, txOwned s.tx.dmaTxDscrTab i = false := by
  have held := Wakeup.run pos memory ran
  obtain ⟨q, inv⟩ := held.ring
  have quiet : ¬ s.out.waking := by
    intro waking
    cases out : s.out with
    | txPkt p pc =>
      rw [out] at outside
      cases outside
    | _ =>
      rw [out] at waking
      exact waking
  have empty := (held.asleep suspended).empty quiet
  -- everything handed over is sent, so the arc of the ring in use is empty
  intro i inside
  have unused : ¬ txCell s.tx.dmaTxDscrTab i ≠ none := by
    intro used
    obtain ⟨k, lower, upper, -⟩ := (inv.holds.ne_none_iff inside).mp used
    rw [inv.handed, List.length_append] at empty
    omega
  exact (txCell_eq_none_iff _ _).mp (not_not.mp unused)

/-- A frame of one byte is handed to a DMA that sleeps, sent, and the DMA sleeps again. -/
theorem no_transmit_wakeup_lost_single : ∃ s,
    driver.run (Driver.init Memory.cleared ethRxBufNb ethTxBufNb)
      [.txFetch, .output ⟨[[7]], by decide, by decide⟩, .thread, .thread, .thread, .thread,
        .thread, .thread, .thread, .thread, .thread, .thread, .thread, .thread, .thread, .txFetch, .txRead,
        .txDone 0, .txFetch] = some s ∧
    ∀ i < ethTxBufNb, txOwned s.tx.dmaTxDscrTab i = false := by
  have reached : (driver.run (Driver.init Memory.cleared ethRxBufNb ethTxBufNb)
      [.txFetch, .output ⟨[[7]], by decide, by decide⟩, .thread, .thread, .thread, .thread,
        .thread, .thread, .thread, .thread, .thread, .thread, .thread, .thread, .thread, .txFetch, .txRead,
        .txDone 0, .txFetch]).any
      (fun s => s.out.txCall = none ∧ s.tx.dma = .suspended) = true := by
    decide +kernel
  obtain ⟨s, ran, facts⟩ := (Option.any_eq_true ..).mp reached
  obtain ⟨outside, suspended⟩ := of_decide_eq_true facts
  exact ⟨s, ran, no_transmit_wakeup_lost _ _ _ (by decide) _ _ ran outside suspended⟩

end WchLwip
