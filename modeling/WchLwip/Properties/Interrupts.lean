import WchLwip.Properties.Handler

/-! Interrupt events and the one clear of `NIS` at the end of the handler.

The handler tests `R` and `T` once each and clears `NIS` last. A completion is
seen when it comes before the test of its flag; after it, the flag stays set
while `NIS` is cleared. -/
namespace WchLwip

open Mask

/-- Outside the handler a pending receive or transmit flag requests the interrupt. -/
def Driver.NoEventLost (s : Driver) : Prop :=
  s.irq = .idle → isSet s.dmasr ethDmaItR = true ∨ isSet s.dmasr ethDmaItT = true →
    isSet s.dmasr ethDmaItNis = true

/-! ### Where the handler stands -/

/-- The handler has tested `R`, and cleared it if it was set. -/
def IrqPc.pastR : IrqPc → Prop
  | .idle | .testR | .clearR => False
  | _ => True

/-- The handler has tested `T`, and cleared it if it was set. -/
def IrqPc.pastT : IrqPc → Prop
  | .clearNis => True
  | _ => False

/-- No frame is completed after the test of its flag and before the handler has ended. -/
def eventGuard (s : Driver) : DriverEvent → Prop
  | .rxClose status => isSet status ethDmaRxDescLs = true → ¬ s.irq.pastR
  | .txDone _ => ¬ s.irq.pastT
  | _ => True

/-! ### Sufficiency -/

/-- The flags that may be set without `NIS` asking for another entry: none before the tests,
and none at all of those that were tested already. -/
structure EventsHeld (dmasr : Word) (irq : IrqPc) : Prop where
  receive : irq.pastR → isSet dmasr ethDmaItR = false
  transmit : irq.pastT → isSet dmasr ethDmaItT = false
  requested : isSet dmasr ethDmaItR = true ∨ isSet dmasr ethDmaItT = true →
    isSet dmasr ethDmaItNis = true

variable {s t : Driver}

/-- A step that writes none of the three flags and moves the handler past no test. -/
private theorem EventsHeld.keep {dmasr dmasr' : Word} {irq irq' : IrqPc}
    (held : EventsHeld dmasr irq)
    (same : ∀ mask ∈ [ethDmaItR, ethDmaItT, ethDmaItNis], isSet dmasr' mask = isSet dmasr mask)
    (receive : irq'.pastR → irq.pastR) (transmit : irq'.pastT → irq.pastT) :
    EventsHeld dmasr' irq' := by
  have sameR := same ethDmaItR (by simp)
  have sameT := same ethDmaItT (by simp)
  have sameNis := same ethDmaItNis (by simp)
  constructor
  · intro past
    rw [sameR]
    exact held.receive (receive past)
  · intro past
    rw [sameT]
    exact held.transmit (transmit past)
  · intro pending
    rw [sameR, sameT] at pending
    rw [sameNis]
    exact held.requested pending

/-- The flags of the interrupt are apart from the mask of another write. -/
private theorem other_flags {mask : Word}
    (apart : mask &&& (ethDmaItR ||| ethDmaItT ||| ethDmaItNis) = 0) :
    ∀ flag ∈ [ethDmaItR, ethDmaItT, ethDmaItNis], mask &&& flag = 0 := by
  have inside (flag : Word) (part : (ethDmaItR ||| ethDmaItT ||| ethDmaItNis) &&& flag = flag) :
      mask &&& flag = 0 := by
    rw [← part, ← BitVec.and_assoc, apart]
    exact BitVec.zero_and
  intro flag member
  simp only [List.mem_cons, List.not_mem_nil, or_false] at member
  rcases member with rfl | rfl | rfl <;> exact inside _ (by decide)

private theorem events_irq (held : EventsHeld s.dmasr s.irq) (stepped : s.irqStmt = some t) :
    EventsHeld t.dmasr t.irq := by
  obtain ⟨dmasr, rx, tx, irq, out⟩ := s
  cases irq with
  | testR =>
    cases stepped
    by_cases pending : isSet dmasr ethDmaItR = true
    · simp only [pending, if_true]
      exact held.keep (fun _ _ => rfl) False.elim False.elim
    · -- the test found the flag down
      simp only [pending, if_false, Bool.false_eq_true]
      exact ⟨fun _ => Bool.eq_false_iff.mpr pending, False.elim, held.requested⟩
  | clearR =>
    cases stepped
    have cleared := isSet_writeOneToClear_self dmasr ethDmaItR
    have other (mask : Word) (apart : ethDmaItR &&& mask = 0) :
        isSet (writeOneToClear dmasr ethDmaItR) mask = isSet dmasr mask :=
      isSet_writeOneToClear_disjoint _ _ _ apart
    refine ⟨fun _ => cleared, False.elim, fun pending => ?_⟩
    -- what is still pending is `T`, which asked for the interrupt before
    rw [cleared, other ethDmaItT (by decide)] at pending
    rw [other ethDmaItNis (by decide)]
    exact held.requested (Or.inr (pending.resolve_left Bool.false_ne_true))
  | testT =>
    cases stepped
    by_cases pending : isSet dmasr ethDmaItT = true
    · simp only [pending, if_true]
      exact held.keep (fun _ _ => rfl) (fun _ => trivial) False.elim
    · simp only [pending, if_false, Bool.false_eq_true]
      exact ⟨fun _ => held.receive trivial, fun _ => Bool.eq_false_iff.mpr pending, held.requested⟩
  | clearT =>
    cases stepped
    have other (mask : Word) (apart : ethDmaItT &&& mask = 0) :
        isSet (writeOneToClear dmasr ethDmaItT) mask = isSet dmasr mask :=
      isSet_writeOneToClear_disjoint _ _ _ apart
    have received : isSet (writeOneToClear dmasr ethDmaItT) ethDmaItR = false := by
      rw [other ethDmaItR (by decide)]
      exact held.receive trivial
    have cleared := isSet_writeOneToClear_self dmasr ethDmaItT
    refine ⟨fun _ => received, fun _ => cleared, fun pending => ?_⟩
    -- nothing is pending between the last clear of a flag and the clear of `NIS`
    rw [received, cleared] at pending
    exact absurd pending (by decide)
  | clearNis =>
    cases stepped
    have other (mask : Word) (apart : ethDmaItNis &&& mask = 0) :
        isSet (writeOneToClear dmasr ethDmaItNis) mask = isSet dmasr mask :=
      isSet_writeOneToClear_disjoint _ _ _ apart
    -- both flags are down, so nothing asks for another entry
    refine ⟨False.elim, False.elim, fun pending => ?_⟩
    rw [other ethDmaItR (by decide), other ethDmaItT (by decide), held.receive trivial,
      held.transmit trivial] at pending
    exact absurd pending (by decide)
  | rxPkt pc =>
    obtain ⟨frame, -, rfl⟩ | ⟨result, ran, rfl⟩ := irqStmt_call rfl stepped
    · exact held.keep (fun _ _ => rfl) (fun _ => trivial) False.elim
    · exact held.keep (fun flag member => rxPkt_dmasr ran (other_flags (by decide) flag member))
        (fun _ => trivial) False.elim
  | copy frame lens filled =>
    obtain ⟨same, next | ⟨lens', filled', next⟩⟩ := irqStmt_copy rfl stepped <;>
    · rw [same, next]
      exact held.keep (fun _ _ => rfl) (fun _ => trivial) False.elim
  | free =>
    cases stepped
    exact held.keep (fun _ _ => rfl) (fun _ => trivial) False.elim
  | idle => cases stepped
  | alloc frame => cases stepped
  | input filled => cases stepped

/-- Raising a flag together with `NIS` is seen by the handler if its test is still ahead. -/
private theorem EventsHeld.raise {dmasr mask : Word} {irq : IrqPc} (held : EventsHeld dmasr irq)
    (receive : irq.pastR → mask &&& ethDmaItR = 0) (transmit : irq.pastT → mask &&& ethDmaItT = 0)
    (summary : ethDmaItNis &&& mask = ethDmaItNis) : EventsHeld (dmasr ||| mask) irq := by
  constructor
  · intro past
    rw [isSet_or_disjoint _ _ _ (receive past)]
    exact held.receive past
  · intro past
    rw [isSet_or_disjoint _ _ _ (transmit past)]
    exact held.transmit past
  · intro _
    exact isSet_or_within _ _ _ summary (by decide)

private theorem pastR_of_pastT {irq : IrqPc} (past : irq.pastT) : irq.pastR := by
  cases irq with
  | clearNis => trivial
  | _ => exact past.elim

private theorem events_step {e : DriverEvent} (held : EventsHeld s.dmasr s.irq)
    (guarded : eventGuard s e) (stepped : driver.step s e = some t) :
    EventsHeld t.dmasr t.irq := by
  cases e with
  | irq => exact events_irq held stepped
  | irqEnter =>
    obtain ⟨idle, rfl⟩ := irqEnter_frame stepped
    exact ⟨False.elim, False.elim, held.requested⟩
  | pbufAlloc answer =>
    obtain ⟨frame, waiting, -, rfl⟩ := pbufAlloc_frame stepped
    rw [waiting] at held
    cases answer <;> exact held.keep (fun _ _ => rfl) (fun _ => trivial) False.elim
  | netifInput err =>
    obtain ⟨filled, waiting, rfl⟩ := netifInput_frame stepped
    rw [waiting] at held
    refine held.keep (fun _ _ => rfl) (fun _ => trivial) fun past => ?_
    by_cases accepted : err = errOk
    · rw [if_pos accepted] at past
      exact past
    · rw [if_neg accepted] at past
      exact past
  | output p =>
    obtain ⟨-, rfl⟩ := output_frame stepped
    exact held
  | thread =>
    obtain ⟨-, irq, flags⟩ := threadStmt_frame stepped
    rw [irq]
    exact held.keep (fun flag member => flags flag (other_flags (by decide) flag member)) id id
  | rxStore k byte | txRead =>
    simp only [driver_step, Driver.step, Option.map_eq_some_iff] at stepped
    obtain ⟨half, -, rfl⟩ := stepped
    exact held
  | rxClose status =>
    obtain ⟨rx, -, rfl⟩ := rxClose_frame stepped
    by_cases last : isSet status ethDmaRxDescLs = true
    · rw [if_pos last]
      -- the test of `R` is still ahead, and that of `T` comes later
      have ahead : ¬ s.irq.pastR := guarded last
      exact held.raise (fun past => absurd past ahead)
        (fun past => absurd (pastR_of_pastT past) ahead) (by decide)
    · rw [if_neg last]
      exact held
  | rxSuspend =>
    obtain ⟨rx, -, rfl⟩ := rxSuspend_frame stepped
    exact held.keep (fun flag member =>
      isSet_or_disjoint _ _ _ (other_flags (by decide) flag member)) id id
  | txFetch =>
    obtain ⟨tx, -, rfl⟩ := txFetch_frame stepped
    by_cases suspended : tx.dma = .suspended
    · rw [if_pos suspended]
      exact held.keep (fun flag member =>
        isSet_or_disjoint _ _ _ (other_flags (by decide) flag member)) id id
    · rw [if_neg suspended]
      exact held
  | txDone report =>
    obtain ⟨tx, -, rfl⟩ := txDone_frame stepped
    -- `R` is not raised here, so the tests of the handler are not in the way
    have ahead : ¬ s.irq.pastT := guarded
    exact held.raise (fun _ => by decide) (fun past => absurd past ahead) (by decide)

/-! ### Necessity -/

/-- `R` was raised too late: it survives the handler, which clears `NIS`. -/
def Driver.ReceiveMissed (s : Driver) : Prop :=
  isSet s.dmasr ethDmaItR = true ∧
    (s.irq.pastR ∨ s.irq = .idle ∧ isSet s.dmasr ethDmaItNis = false)

private theorem missed_irq (missed : s.ReceiveMissed) (stepped : s.irqStmt = some t) :
    t.ReceiveMissed := by
  obtain ⟨dmasr, rx, tx, irq, out⟩ := s
  obtain ⟨raised, late⟩ := missed
  cases irq with
  | clearT =>
    cases stepped
    refine ⟨?_, Or.inl trivial⟩
    rw [isSet_writeOneToClear_disjoint _ _ _ (by decide)]
    exact raised
  | clearNis =>
    cases stepped
    refine ⟨?_, Or.inr ⟨rfl, isSet_writeOneToClear_self _ _⟩⟩
    rw [isSet_writeOneToClear_disjoint _ _ _ (by decide)]
    exact raised
  | testT =>
    cases stepped
    refine ⟨raised, Or.inl ?_⟩
    simp only
    split <;> trivial
  | rxPkt pc =>
    obtain ⟨frame, -, rfl⟩ | ⟨result, ran, rfl⟩ := irqStmt_call rfl stepped
    · exact ⟨raised, Or.inl trivial⟩
    · exact ⟨(rxPkt_dmasr ran (by decide)).trans raised, Or.inl trivial⟩
  | copy frame lens filled =>
    obtain ⟨same, next | ⟨lens', filled', next⟩⟩ := irqStmt_copy rfl stepped <;>
    · rw [same, next]
      exact ⟨raised, Or.inl trivial⟩
  | free =>
    cases stepped
    exact ⟨raised, Or.inl trivial⟩
  | idle => cases stepped
  | alloc frame => cases stepped
  | input filled => cases stepped
  | testR => exact absurd late (by simp [IrqPc.pastR])
  | clearR => exact absurd late (by simp [IrqPc.pastR])

private theorem missed_kept (s : Driver) (e : DriverEvent) (t : Driver) (missed : s.ReceiveMissed)
    (own : e.Handler) (stepped : driver.step s e = some t) : t.ReceiveMissed := by
  cases own with
  | irq => exact missed_irq missed stepped
  | pbufAlloc =>
    obtain ⟨frame, -, -, rfl⟩ := pbufAlloc_frame stepped
    exact ⟨missed.1, Or.inl trivial⟩
  | netifInput =>
    obtain ⟨filled, -, rfl⟩ := netifInput_frame stepped
    exact ⟨missed.1, Or.inl trivial⟩

private theorem missed_dooms (backed : s.irq.Backed) (missed : s.ReceiveMissed) :
    ∃ fs u, driver.run s fs = some u ∧ driver.Guarded eventGuard s fs ∧ ¬ u.NoEventLost := by
  obtain ⟨fs, u, ran, own, idle, raised, late⟩ :=
    handler_finishes Driver.ReceiveMissed missed_kept backed missed
  have guarded : driver.Guarded eventGuard s fs := by
    -- the guard restricts the DMA engines alone
    refine driver.guarded_of_invariant eventGuard (fun _ => True) DriverEvent.Handler
      (fun _ _ _ _ _ _ => trivial) (fun s e _ own => ?_) trivial own
    cases own <;> trivial
  refine ⟨fs, u, ran, guarded, fun kept => ?_⟩
  -- at its end the handler is past every test
  rcases late with past | ⟨-, down⟩
  · rw [idle] at past
    exact past
  · exact Bool.false_ne_true (down.symm.trans (kept idle (Or.inl raised)))

/-- `T` was raised between the test of `T` and the clear of `NIS`. -/
private theorem late_transmit_dooms (raised : isSet s.dmasr ethDmaItT = true)
    (past : s.irq.pastT) :
    ∃ fs u, driver.run s fs = some u ∧ driver.Guarded eventGuard s fs ∧ ¬ u.NoEventLost := by
  -- one statement is left, and it clears `NIS`
  have last : s.irq = .clearNis := by
    cases pc : s.irq with
    | clearNis => rfl
    | _ =>
      rw [pc] at past
      exact past.elim
  refine ⟨[.irq], { s with dmasr := writeOneToClear s.dmasr ethDmaItNis, irq := .idle }, ?_,
    ⟨trivial, fun _ _ => trivial⟩, fun kept => ?_⟩
  · simp [Lts.run, Driver.step, Driver.irqStmt, last]
  · have still : isSet (writeOneToClear s.dmasr ethDmaItNis) ethDmaItT = true := by
      rw [isSet_writeOneToClear_disjoint _ _ _ (by decide)]
      exact raised
    have down := isSet_writeOneToClear_self s.dmasr ethDmaItNis
    exact Bool.false_ne_true (down.symm.trans (kept rfl (Or.inr still)))

private theorem unguarded_dooms {e : DriverEvent} (backed : t.irq.Backed)
    (stepped : driver.step s e = some t) (unguarded : ¬ eventGuard s e) :
    ∃ fs u, driver.run t fs = some u ∧ driver.Guarded eventGuard t fs ∧ ¬ u.NoEventLost := by
  cases e with
  | rxClose status =>
    simp only [eventGuard, Classical.not_imp, not_not] at unguarded
    obtain ⟨last, past⟩ := unguarded
    obtain ⟨rx, -, rfl⟩ := rxClose_frame stepped
    refine missed_dooms backed ⟨?_, Or.inl past⟩
    rw [if_pos last]
    exact isSet_or_within _ _ _ (by decide) (by decide)
  | txDone report =>
    simp only [eventGuard, not_not] at unguarded
    obtain ⟨tx, -, rfl⟩ := txDone_frame stepped
    exact late_transmit_dooms (isSet_or_within _ _ _ (by decide) (by decide)) unguarded
  | _ => exact absurd trivial unguarded

/-! ### The exact condition -/

/-- No event is lost in the runs in which no frame is completed after the test of its flag, and
one completion that comes later is enough to lose one. -/
theorem events_lost_exactly_when_late (memory : Memory) (rxBuffCount txBuffCount : Nat) :
    driver.ExactGuard (Driver.init memory rxBuffCount txBuffCount) (fun _ => True) eventGuard
      (fun _ s => s.NoEventLost) where
  sound es s ran _ guarded := by
    have start : EventsHeld 0 .idle := ⟨False.elim, False.elim, by decide⟩
    have held := driver.guarded_invariant eventGuard (fun s => EventsHeld s.dmasr s.irq)
      (fun _ _ _ held guarded stepped => events_step held guarded stepped) start guarded ran
    exact fun _ => held.requested
  tight es e s t ran _ _ stepped unguarded := by
    have backed : t.irq.Backed := backed_step (backed_run ran) stepped
    obtain ⟨fs, u, rest, guarded, lost⟩ := unguarded_dooms backed stepped unguarded
    exact ⟨fs, u, rest, fun _ _ => trivial, guarded, lost⟩

/-- A second frame is completed while the handler receives the first one. -/
theorem receive_event_lost : ∃ s,
    driver.run (Driver.init Memory.cleared ethRxBufNb ethTxBufNb)
      [.rxClose 0x00400300, .irqEnter, .irq, .irq, .rxClose 0x00400300, .irq, .irq, .irq, .irq,
        .irq, .pbufAlloc none, .irq, .irq] = some s ∧
    ¬ s.NoEventLost := by
  refine ⟨_, rfl, fun kept => ?_⟩
  exact absurd (kept rfl (Or.inl (by decide))) (by decide)

end WchLwip
