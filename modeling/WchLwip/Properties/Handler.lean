import WchLwip.Properties.Simulation

/-! The handler can always go on, and it ends after finitely many statements.

A run whose first step outside a guard dooms it is continued to the end of the
handler, with the DMA engines and the thread at rest: `handler_finishes` is that
continuation. -/
namespace WchLwip

open Mask

variable {s t : Driver}

/-! ### The frame in hand -/

/-- A frame without a buffer is empty. -/
def FrameTypeDef.Backed (frame : FrameTypeDef) : Prop :=
  frame.buffer = none → inputLen frame = 0

/-- The frame in hand is backed, and so is every byte that is still to be copied. -/
def IrqPc.Backed : IrqPc → Prop
  | .rxPkt (.giveBack frame) | .rxPkt (.advance frame) | .rxPkt (.ret frame) | .alloc frame =>
    frame.Backed
  | .copy frame lens _ => frame.buffer = none → lens.sum = 0
  | _ => True

theorem frameOf_backed (desc : EthDmaDesc) : (frameOf desc).Backed := by
  intro null
  unfold frameOf at null ⊢
  split at null
  next => cases null
  next broken =>
    rw [if_neg broken]
    rfl

private theorem rxPkt_backed {dmasr : Word} {rx : Rx} {pc : RxPc} {result : Word × Rx × RxPc}
    (ran : ethRxPktChainMode dmasr rx pc = some result) (backed : (IrqPc.rxPkt pc).Backed) :
    (IrqPc.rxPkt result.2.2).Backed := by
  cases pc with
  | testOwn =>
    simp only [ethRxPktChainMode] at ran
    split at ran <;> cases ran <;> trivial
  | testRbus =>
    simp only [ethRxPktChainMode] at ran
    split at ran <;> cases ran
    · trivial
    · exact fun _ => rfl
  | clearRbus => cases ran; trivial
  | pollDemand => cases ran; exact fun _ => rfl
  | readStatus => cases ran; exact frameOf_backed _
  | giveBack frame => cases ran; exact backed
  | advance frame => cases ran; exact backed
  | ret frame => cases ran

private theorem irqStmt_backed (stepped : s.irqStmt = some t) (backed : s.irq.Backed) :
    t.irq.Backed := by
  obtain ⟨dmasr, rx, tx, irq, out⟩ := s
  cases irq with
  | rxPkt pc =>
    obtain ⟨frame, rfl, rfl⟩ | ⟨result, ran, rfl⟩ := irqStmt_call rfl stepped
    · exact backed
    · exact rxPkt_backed ran backed
  | copy frame lens filled =>
    rcases lens with _ | ⟨_ | k, lens⟩
    · cases stepped; trivial
    · cases stepped
      intro null
      simpa using backed null
    · simp only [Driver.irqStmt, Option.map_eq_some_iff] at stepped
      obtain ⟨buffer, there, rfl⟩ := stepped
      intro null
      rw [there] at null
      cases null
  | testR =>
    cases stepped
    simp only
    split <;> trivial
  | testT =>
    cases stepped
    simp only
    split <;> trivial
  | idle => cases stepped
  | alloc frame => cases stepped
  | input filled => cases stepped
  | clearR => cases stepped; trivial
  | free => cases stepped; trivial
  | clearT => cases stepped; trivial
  | clearNis => cases stepped; trivial

/-- What `pbuf_alloc` returns has the length it was asked for. -/
theorem pbufAllocReturns_some {len : Nat} {lens : List Nat}
    (allowed : pbufAllocReturns len (some lens) = true) : lens.sum = len := by
  simp only [pbufAllocReturns, Bool.and_eq_true, beq_iff_eq] at allowed
  exact allowed.2

theorem backed_step {e : DriverEvent} (backed : s.irq.Backed)
    (stepped : driver.step s e = some t) : t.irq.Backed := by
  cases e with
  | irq => exact irqStmt_backed stepped backed
  | irqEnter =>
    obtain ⟨-, rfl⟩ := irqEnter_frame stepped
    trivial
  | pbufAlloc answer =>
    obtain ⟨frame, waiting, allowed, rfl⟩ := pbufAlloc_frame stepped
    rw [waiting] at backed
    cases answer with
    | none => trivial
    | some lens => exact fun null => (pbufAllocReturns_some allowed).trans (backed null)
  | netifInput err =>
    obtain ⟨-, -, rfl⟩ := netifInput_frame stepped
    simp only
    split <;> trivial
  | output p =>
    obtain ⟨-, rfl⟩ := output_frame stepped
    exact backed
  | thread =>
    obtain ⟨-, irq, -⟩ := threadStmt_frame stepped
    rw [irq]
    exact backed
  | rxStore k byte | rxClose status | rxSuspend | txFetch | txRead | txDone report =>
    simp only [driver_step, Driver.step, Option.map_eq_some_iff] at stepped
    obtain ⟨half, -, rfl⟩ := stepped
    exact backed

theorem backed_run {memory : Memory} {n m : Nat} {es : List DriverEvent}
    (ran : driver.run (Driver.init memory n m) es = some s) : s.irq.Backed := by
  have start : (Driver.init memory n m).irq.Backed := trivial
  exact driver.run_invariant (fun s => s.irq.Backed) (fun _ _ _ backed => backed_step backed)
    start ran

/-! ### Running the handler to its end -/

/-- An upper bound on the statements left when `pbuf_alloc` returns `NULL`. -/
def IrqPc.rank : IrqPc → Nat
  | .idle => 0
  | .clearNis => 1
  | .clearT => 2
  | .testT => 3
  | .free => 4
  | .input _ => 5
  | .copy _ lens _ => 6 + lens.sum + lens.length
  | .alloc _ => 4
  | .rxPkt (.ret _) => 5
  | .rxPkt (.advance _) => 6
  | .rxPkt (.giveBack _) => 7
  | .rxPkt .readStatus => 8
  | .rxPkt .pollDemand => 6
  | .rxPkt .clearRbus => 7
  | .rxPkt .testRbus => 8
  | .rxPkt .testOwn => 9
  | .clearR => 10
  | .testR => 11

/-- The steps of the handler alone, with the pool empty and the stack accepting. -/
inductive DriverEvent.Handler : DriverEvent → Prop where
  | irq : Handler .irq
  | pbufAlloc : Handler (.pbufAlloc none)
  | netifInput : Handler (.netifInput errOk)

private theorem rxPkt_goes_on (dmasr : Word) (rx : Rx) (pc : RxPc) (busy : ∀ frame, pc ≠ .ret frame) :
    ∃ result, ethRxPktChainMode dmasr rx pc = some result ∧
      (IrqPc.rxPkt result.2.2).rank < (IrqPc.rxPkt pc).rank := by
  cases pc with
  | testOwn =>
    simp only [ethRxPktChainMode]
    split <;> exact ⟨_, rfl, by simp [IrqPc.rank]⟩
  | testRbus =>
    simp only [ethRxPktChainMode]
    split <;> exact ⟨_, rfl, by simp [IrqPc.rank]⟩
  | ret frame => exact absurd rfl (busy frame)
  | _ => exact ⟨_, rfl, by simp [IrqPc.rank]⟩

private theorem rxPkt_stmt_goes_on (s : Driver) (pc : RxPc) (running : s.irq = .rxPkt pc) :
    ∃ t, s.irqStmt = some t ∧ t.irq.rank < s.irq.rank := by
  -- the return of the call is a statement of its caller
  by_cases returning : ∃ frame, pc = .ret frame
  · obtain ⟨frame, rfl⟩ := returning
    exact ⟨{ s with irq := .alloc frame }, by simp [Driver.irqStmt, running],
      by simp [running, IrqPc.rank]⟩
  · have busy : ∀ frame, pc ≠ .ret frame := fun frame same => returning ⟨frame, same⟩
    obtain ⟨result, ran, less⟩ := rxPkt_goes_on s.dmasr s.rx pc busy
    exact ⟨_, by rw [irqStmt_rxPkt pc running busy, ran, Option.map_some], running ▸ less⟩

theorem handler_goes_on (backed : s.irq.Backed) (running : s.irq ≠ .idle) :
    ∃ e t, e.Handler ∧ driver.step s e = some t ∧ t.irq.rank < s.irq.rank := by
  cases pc : s.irq with
  | idle => exact absurd pc running
  | rxPkt call =>
    obtain ⟨t, stepped, less⟩ := rxPkt_stmt_goes_on s call pc
    exact ⟨.irq, t, .irq, stepped, pc ▸ less⟩
  | alloc frame =>
    refine ⟨.pbufAlloc none, { s with irq := .testT }, .pbufAlloc, ?_, by simp [IrqPc.rank]⟩
    simp [Driver.step, Driver.pbufAlloc, pc, pbufAllocReturns, afterAlloc]
  | input filled =>
    refine ⟨.netifInput errOk, { s with irq := .testT }, .netifInput, ?_, by simp [IrqPc.rank]⟩
    simp [Driver.step, Driver.netifInput, pc]
  | copy frame lens filled =>
    rw [pc] at backed
    rcases lens with _ | ⟨_ | k, lens⟩
    · exact ⟨.irq, { s with irq := .input filled }, .irq, by
        simp [Driver.step, Driver.irqStmt, pc], by simp [IrqPc.rank]⟩
    · exact ⟨.irq, { s with irq := .copy frame lens filled }, .irq, by
        simp [Driver.step, Driver.irqStmt, pc], by simp [IrqPc.rank]⟩
    · -- a byte is only left to copy where there is a buffer
      cases there : frame.buffer with
      | none =>
        have nothing := backed there
        simp at nothing
      | some buffer =>
        refine ⟨.irq, _, .irq, by
          simp only [driver_step, Driver.step, Driver.irqStmt, pc, there, Option.map_some]; rfl, ?_⟩
        simp [IrqPc.rank]
  | testR =>
    refine ⟨.irq, _, .irq, by simp only [driver_step, Driver.step, Driver.irqStmt, pc]; rfl, ?_⟩
    simp only
    split <;> decide
  | testT =>
    refine ⟨.irq, _, .irq, by simp only [driver_step, Driver.step, Driver.irqStmt, pc]; rfl, ?_⟩
    simp only
    split <;> decide
  | _ =>
    exact ⟨.irq, _, .irq, by simp only [driver_step, Driver.step, Driver.irqStmt, pc]; rfl, by
      simp [IrqPc.rank]⟩

/-- What the handler alone preserves still holds when it has ended. -/
theorem handler_finishes (P : Driver → Prop)
    (kept : ∀ s e t, P s → e.Handler → driver.step s e = some t → P t)
    (backed : s.irq.Backed) (holds : P s) :
    ∃ fs t, driver.run s fs = some t ∧ (∀ e ∈ fs, e.Handler) ∧ t.irq = .idle ∧ P t := by
  -- strong induction on the statements left
  induction bound : s.irq.rank using Nat.strong_induction_on generalizing s with
  | _ rank ih =>
    by_cases running : s.irq = .idle
    · exact ⟨[], s, rfl, by simp, running, holds⟩
    · obtain ⟨e, m, own, stepped, less⟩ := handler_goes_on backed running
      obtain ⟨fs, t, ran, owns, idle, there⟩ :=
        ih m.irq.rank (bound ▸ less) (backed_step backed stepped)
          (kept s e m holds own stepped) rfl
      exact ⟨e :: fs, t, (driver.run_cons_iff s t e fs).mpr ⟨m, stepped, ran⟩,
        List.forall_mem_cons.mpr ⟨own, owns⟩, idle, there⟩

end WchLwip
