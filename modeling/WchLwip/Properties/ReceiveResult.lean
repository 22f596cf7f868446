import WchLwip.Model.Input
import WchLwip.Properties.Handler

/-! What one call of `ethernetif_input` computes.

The functions say what a call does with the DMA engines and the thread at rest;
the statements of the handler, taken one after the other, compute the same. -/
namespace WchLwip

open Mask

variable {s t : Driver}

/-! ### The descriptor at `DMARxDescToGet` -/

/-- It belongs to the CPU and holds a whole frame. -/
def Rx.readable (rx : Rx) : Bool :=
  !isSet rx.toGet.status ethDmaRxDescOwn && wholeFrame rx.toGet.status

/-- The length of a frame without its CRC, cut to 16 bits. -/
def dataLen (status : Word) : Nat := ((frameLengthOf status).setWidth 16).toNat

theorem Rx.readable_iff (rx : Rx) : rx.readable = true ↔
    isSet rx.toGet.status ethDmaRxDescOwn = false ∧ wholeFrame rx.toGet.status = true := by
  simp only [Rx.readable, Bool.and_eq_true, Bool.not_eq_true']

theorem ethRxPkt_readable {rx : Rx} (dmasr : Word) (good : rx.readable = true) :
    (ethRxPkt dmasr rx).2.2.buffer = some rx.toGet.buffer1Addr ∧
      inputLen (ethRxPkt dmasr rx).2.2 = dataLen rx.toGet.status := by
  obtain ⟨cpu, whole⟩ := rx.readable_iff.mp good
  unfold ethRxPkt
  rw [cpu]
  simp only [Bool.false_eq_true, if_false, frameOf, whole, if_true]
  exact ⟨trivial, rfl⟩

theorem ethRxPkt_unreadable {rx : Rx} (dmasr : Word) (bad : rx.readable = false) :
    (ethRxPkt dmasr rx).2.2.buffer = none ∧ inputLen (ethRxPkt dmasr rx).2.2 = 0 := by
  unfold ethRxPkt
  by_cases owned : isSet rx.toGet.status ethDmaRxDescOwn = true
  · -- the length is `ETH_ERROR`, whether or not `RBUS` was set
    simp only [owned, if_true]
    split <;> exact ⟨rfl, rfl⟩
  · have broken : ¬ wholeFrame rx.toGet.status = true := by
      intro whole
      have good := rx.readable_iff.mpr ⟨Bool.eq_false_iff.mpr owned, whole⟩
      exact Bool.false_ne_true (bad.symm.trans good)
    simp only [owned, if_false, Bool.false_eq_true, frameOf, broken]
    exact ⟨rfl, rfl⟩

theorem ethRxPkt_rxBuff (dmasr : Word) (rx : Rx) : (ethRxPkt dmasr rx).2.1.rxBuff = rx.rxBuff := by
  unfold ethRxPkt
  split
  · split <;> rfl
  · rfl

theorem ethRxPkt_backed (dmasr : Word) (rx : Rx) : (ethRxPkt dmasr rx).2.2.Backed := by
  cases readable : rx.readable with
  | true =>
    intro null
    rw [(ethRxPkt_readable dmasr readable).1] at null
    cases null
  | false => exact fun _ => (ethRxPkt_unreadable dmasr readable).2

/-! ### The addresses of a chain -/

/-- The pbufs are filled from one span, without a gap. -/
theorem fillAddrs_flatten (buffer : Nat) (lens : List Nat) :
    (fillAddrs buffer lens).flatten = List.range' buffer lens.sum := by
  induction lens generalizing buffer with
  | nil => rfl
  | cons len lens ih =>
    rw [fillAddrs, List.flatten_cons, ih, List.sum_cons, List.range'_append_1]

/-- Each pbuf is filled as far as its length says. -/
theorem fillAddrs_lengths (buffer : Nat) (lens : List Nat) :
    (fillAddrs buffer lens).map List.length = lens := by
  induction lens generalizing buffer with
  | nil => rfl
  | cons len lens ih => rw [fillAddrs, List.map_cons, ih, List.length_range']

/-- Empty pbufs are filled from no address. -/
theorem flatten_empty (lens : List Nat) : (lens.map fun _ => ([] : List Nat)).flatten = [] := by
  simp

theorem lowLevelInputAddrs_readable (pbufAlloc : Nat → Option (List Nat)) (dmasr : Word) {rx : Rx}
    (good : rx.readable = true) :
    (lowLevelInputAddrs pbufAlloc dmasr rx).2.2 =
      (pbufAlloc (dataLen rx.toGet.status)).map (fillAddrs rx.toGet.buffer1Addr) := by
  obtain ⟨there, asked⟩ := ethRxPkt_readable dmasr good
  simp only [lowLevelInputAddrs, asked]
  congr 1
  funext lens
  simp only [FrameTypeDef.fillAddrs, there]

theorem lowLevelInputAddrs_unreadable (pbufAlloc : Nat → Option (List Nat)) (dmasr : Word)
    {rx : Rx} (bad : rx.readable = false) :
    (lowLevelInputAddrs pbufAlloc dmasr rx).2.2 =
      (pbufAlloc 0).map fun lens => lens.map fun _ => [] := by
  obtain ⟨null, asked⟩ := ethRxPkt_unreadable dmasr bad
  simp only [lowLevelInputAddrs, asked]
  congr 1
  funext lens
  simp only [FrameTypeDef.fillAddrs, null]

/-- The bytes of the chain are those at the addresses that were read. -/
theorem lowLevelInput_eq (pbufAlloc : Nat → Option (List Nat)) (dmasr : Word) (rx : Rx) :
    (lowLevelInput pbufAlloc dmasr rx).2.2 =
      (lowLevelInputAddrs pbufAlloc dmasr rx).2.2.map fun addrs =>
        addrs.map fun payload => payload.map rx.rxBuff := by
  have kept : (lowLevelInputAddrs pbufAlloc dmasr rx).2.1.rxBuff = rx.rxBuff :=
    ethRxPkt_rxBuff dmasr rx
  simp only [lowLevelInput, kept]

section Input

variable {lwip : Lwip} {dmasr dmasr' : Word} {rx rx' : Rx} {free : Nat} {p : List (List UInt8)}

theorem ethernetifInput_none (netifInput : List (List UInt8) → ErrT)
    (dropped : lowLevelInput (lwip.pbufAlloc · free) dmasr rx = (dmasr', rx', none)) :
    ethernetifInput lwip netifInput dmasr rx free = (dmasr', rx', free, []) := by
  simp only [ethernetifInput, dropped]

/-- A chain that the stack refuses goes back to the pool. -/
theorem ethernetifInput_some (netifInput : List (List UInt8) → ErrT)
    (received : lowLevelInput (lwip.pbufAlloc · free) dmasr rx = (dmasr', rx', some p)) :
    ethernetifInput lwip netifInput dmasr rx free = (dmasr', rx',
      if netifInput p = errOk then free - p.length else free - p.length + p.length, [p]) := by
  simp only [ethernetifInput, received]
  split <;> rfl

end Input

/-! ### The function and its statements -/

/-- What a call did: the addresses that it read, and the chains passed to `netif->input`. -/
structure CallLog where
  reads : List Nat
  inputs : List (List UInt8)

def CallLog.record (log : CallLog) (s : Driver) : DriverEvent → CallLog
  | .irq =>
    match s.irq with
    | .copy frame ((_ + 1) :: _) filled =>
      match frame.buffer with
      | some buffer => { log with reads := log.reads ++ [buffer + filled.length] }
      | none => log
    | _ => log
  | .netifInput _ =>
    match s.irq with
    | .input filled => { log with inputs := log.inputs ++ [filled] }
    | _ => log
  | _ => log

/-- The steps of a call to which lwIP gives these answers. -/
inductive DriverEvent.Answered (answer : Option (List Nat)) (err : ErrT) : DriverEvent → Prop where
  | irq : Answered answer err .irq
  | pbufAlloc : Answered answer err (.pbufAlloc answer)
  | netifInput : Answered answer err (.netifInput err)

section Statements

variable {answer : Option (List Nat)} {err : ErrT} {log log' : CallLog}

/-- The handler gets from one log and state to another, with these answers. -/
def Driver.Handles (answer : Option (List Nat)) (err : ErrT) (log : CallLog) (s : Driver)
    (log' : CallLog) (t : Driver) : Prop :=
  driver.Leads CallLog.record (DriverEvent.Answered answer err) (fun _ _ => True) log s log' t

theorem Driver.Handles.irq {m : Driver} (stepped : s.irqStmt = some m)
    (rest : m.Handles answer err (log.record s .irq) log' t) : s.Handles answer err log log' t :=
  Lts.Leads.head (e := .irq) stepped .irq trivial rest

/-- A statement that copies no byte reads no address of a buffer. -/
theorem Driver.Handles.quiet {m : Driver} (stepped : s.irqStmt = some m)
    (silent : log.record s .irq = log) (rest : m.Handles answer err log log' t) :
    s.Handles answer err log log' t :=
  .irq stepped (silent.symm ▸ rest)

/-- The chain is complete. -/
theorem Driver.Handles.complete {frame : FrameTypeDef} {filled : List UInt8}
    (copying : s.irq = .copy frame [] filled)
    (rest : Driver.Handles answer err log { s with irq := .input filled } log' t) :
    s.Handles answer err log log' t :=
  .quiet (by simp only [Driver.irqStmt, copying]) (by simp only [CallLog.record, copying]) rest

/-- The current pbuf is full. -/
theorem Driver.Handles.nextPbuf {frame : FrameTypeDef} {lens : List Nat} {filled : List UInt8}
    (copying : s.irq = .copy frame (0 :: lens) filled)
    (rest : Driver.Handles answer err log { s with irq := .copy frame lens filled } log' t) :
    s.Handles answer err log log' t :=
  .quiet (by simp only [Driver.irqStmt, copying]) (by simp only [CallLog.record, copying]) rest

/-- One byte of the current pbuf. -/
theorem Driver.Handles.byte {frame : FrameTypeDef} {buffer : Nat}
    (there : frame.buffer = some buffer) {k : Nat} {lens : List Nat} {filled : List UInt8}
    (copying : s.irq = .copy frame ((k + 1) :: lens) filled)
    (rest : Driver.Handles answer err
      { log with reads := log.reads ++ [buffer + filled.length] }
      { s with irq := .copy frame (k :: lens) (filled ++ [s.rx.rxBuff (buffer + filled.length)]) }
      log' t) :
    s.Handles answer err log log' t := by
  have recorded : log.record s .irq =
      { log with reads := log.reads ++ [buffer + filled.length] } := by
    simp only [CallLog.record, copying, there]
  refine .irq ?_ (recorded.symm ▸ rest)
  simp only [Driver.irqStmt, copying, there, Option.map_some]

/-- The copy loop reads one span, byte after byte and pbuf after pbuf. -/
theorem handles_copy {frame : FrameTypeDef} {buffer : Nat} (there : frame.buffer = some buffer)
    (lens : List Nat) (filled : List UInt8) (log : CallLog) (s : Driver)
    (copying : s.irq = .copy frame lens filled) :
    s.Handles answer err log
      { log with reads := log.reads ++ List.range' (buffer + filled.length) lens.sum }
      { s with irq := .input (filled ++
        (List.range' (buffer + filled.length) lens.sum).map s.rx.rxBuff) } := by
  -- an outer induction on the pbufs and an inner one on the bytes left in the current pbuf
  induction lens generalizing s log filled with
  | nil =>
    simp only [List.sum_nil, List.range'_zero, List.append_nil, List.map_nil]
    exact .complete copying (.refl _ _)
  | cons len lens outer =>
    induction len generalizing s log filled with
    | zero =>
      rw [List.sum_cons, Nat.zero_add]
      exact .nextPbuf copying (outer filled log _ rfl)
    | succ k inner =>
      have span : List.range' (buffer + filled.length) ((k + 1) :: lens).sum =
          (buffer + filled.length) ::
            List.range' (buffer + (filled.length + 1)) (k :: lens).sum := by
        rw [List.sum_cons, List.sum_cons, Nat.add_right_comm, List.range'_succ, Nat.add_assoc]
      have rest := inner (filled ++ [s.rx.rxBuff (buffer + filled.length)])
        { log with reads := log.reads ++ [buffer + filled.length] }
        { s with
          irq := .copy frame (k :: lens) (filled ++ [s.rx.rxBuff (buffer + filled.length)]) } rfl
      rw [span]
      refine .byte there copying ?_
      simpa using rest

/-- Empty pbufs need no buffer. -/
theorem handles_copy_empty {frame : FrameTypeDef} (lens : List Nat) (filled : List UInt8)
    (empty : lens.sum = 0) (log : CallLog) (s : Driver)
    (copying : s.irq = .copy frame lens filled) :
    s.Handles answer err log log { s with irq := .input filled } := by
  induction lens generalizing s with
  | nil => exact .complete copying (.refl _ _)
  | cons len lens ih =>
    rw [List.sum_cons, Nat.add_eq_zero_iff] at empty
    obtain ⟨rfl, empty⟩ := empty
    exact .nextPbuf copying (ih empty _ rfl)

/-- `memcpy` into the pbufs of a chain, for every frame that has its bytes. -/
theorem handles_fill (frame : FrameTypeDef) (lens : List Nat)
    (backed : frame.buffer = none → lens.sum = 0) (log : CallLog) (s : Driver)
    (copying : s.irq = .copy frame lens []) :
    s.Handles answer err log
      { log with reads := log.reads ++ (frame.fillAddrs lens).flatten }
      { s with irq := .input ((frame.fillAddrs lens).flatten.map s.rx.rxBuff) } := by
  cases there : frame.buffer with
  | some buffer =>
    have copied : s.Handles answer err log _ _ := handles_copy there lens [] log s copying
    simp only [List.length_nil, Nat.add_zero, List.nil_append] at copied
    simp only [FrameTypeDef.fillAddrs, there, fillAddrs_flatten]
    exact copied
  | none =>
    have copied : s.Handles answer err log _ _ :=
      handles_copy_empty lens [] (backed there) log s copying
    simp only [FrameTypeDef.fillAddrs, there, flatten_empty, List.append_nil, List.map_nil]
    exact copied

/-- The call of `ETH_RxPkt_ChainMode`. -/
theorem handles_rxPkt (log : CallLog) (s : Driver) (called : s.irq = .rxPkt .testOwn) :
    s.Handles answer err log log { s with
      dmasr := (ethRxPkt s.dmasr s.rx).1
      rx := (ethRxPkt s.dmasr s.rx).2.1
      irq := .alloc (ethRxPkt s.dmasr s.rx).2.2 } := by
  obtain ⟨dmasr, rx, tx, irq, out⟩ := s
  cases called
  unfold ethRxPkt
  by_cases owned : isSet rx.toGet.status ethDmaRxDescOwn = true
  · have tested : Driver.irqStmt ⟨dmasr, rx, tx, .rxPkt .testOwn, out⟩ =
        some ⟨dmasr, rx, tx, .rxPkt .testRbus, out⟩ := by
      simp only [Driver.irqStmt, ethRxPktChainMode, owned, if_true, Option.map_some]
    simp only [owned, if_true]
    refine .quiet tested rfl ?_
    by_cases raised : isSet dmasr ethDmasrRbus = true
    · have again : Driver.irqStmt ⟨dmasr, rx, tx, .rxPkt .testRbus, out⟩ =
          some ⟨dmasr, rx, tx, .rxPkt .clearRbus, out⟩ := by
        simp only [Driver.irqStmt, ethRxPktChainMode, raised, if_true, Option.map_some]
      simp only [raised, if_true]
      refine .quiet again rfl (.quiet rfl rfl (.quiet rfl rfl ?_))
      exact .quiet rfl rfl (.refl _ _)
    · have again : Driver.irqStmt ⟨dmasr, rx, tx, .rxPkt .testRbus, out⟩ =
          some ⟨dmasr, rx, tx, .rxPkt (.ret { FrameTypeDef.zero with length := ethError }),
            out⟩ := by
        simp only [Driver.irqStmt, ethRxPktChainMode, raised, if_false, Bool.false_eq_true,
          Option.map_some]
      simp only [raised, if_false, Bool.false_eq_true]
      exact .quiet again rfl (.quiet rfl rfl (.refl _ _))
  · have tested : Driver.irqStmt ⟨dmasr, rx, tx, .rxPkt .testOwn, out⟩ =
        some ⟨dmasr, rx, tx, .rxPkt .readStatus, out⟩ := by
      simp only [Driver.irqStmt, ethRxPktChainMode, owned, if_false, Bool.false_eq_true,
        Option.map_some]
    simp only [owned, if_false, Bool.false_eq_true]
    refine .quiet tested rfl (.quiet rfl rfl (.quiet rfl rfl ?_))
    refine .quiet rfl rfl (.quiet rfl rfl ?_)
    simp only [Rx.toGet, Function.update_self]
    exact .refl _ _

theorem handles_alloc {frame : FrameTypeDef} (waiting : s.irq = .alloc frame)
    (returns : pbufAllocReturns (inputLen frame) answer = true)
    (rest : Driver.Handles answer err log { s with irq := afterAlloc frame answer } log' t) :
    s.Handles answer err log log' t := by
  refine Lts.Leads.head (e := .pbufAlloc answer) ?_ .pbufAlloc trivial rest
  simp only [driver_step, Driver.step, Driver.pbufAlloc, waiting, returns, if_true]

/-- A chain is passed on, and freed if the stack refuses it. -/
theorem handles_input {filled : List UInt8} (log : CallLog) (s : Driver)
    (complete : s.irq = .input filled) :
    s.Handles answer err log { log with inputs := log.inputs ++ [filled] }
      { s with irq := .testT } := by
  have recorded : log.record s (.netifInput err) = { log with inputs := log.inputs ++ [filled] } := by
    simp only [CallLog.record, complete]
  have passed : driver.step s (.netifInput err) =
      some { s with irq := if err = errOk then .testT else .free } := by
    simp only [driver_step, Driver.step, Driver.netifInput, complete]
  refine Lts.Leads.head passed .netifInput trivial ?_
  rw [recorded]
  by_cases accepted : err = errOk
  · simp only [accepted, if_true]
    exact .refl _ _
  · simp only [accepted, if_false]
    exact Driver.Handles.quiet rfl rfl (.refl _ _)

end Statements

/-- `low_level_input` returned: a chain goes to `netif->input`. -/
def afterInput : Option (List (List UInt8)) → IrqPc
  | none => .testT
  | some p => .input p.flatten

/-- The statements of an undisturbed call of `low_level_input` read the addresses of
`lowLevelInputAddrs` and compute `lowLevelInput`. -/
theorem lowLevelInput_runs (pbufAlloc : Nat → Option (List Nat))
    (returns : ∀ len, pbufAllocReturns len (pbufAlloc len) = true) (err : ErrT) (log : CallLog)
    (s : Driver) (called : s.irq = .rxPkt .testOwn) :
    s.Handles (pbufAlloc (inputLen (ethRxPkt s.dmasr s.rx).2.2)) err log
      { log with
        reads := log.reads ++ ((lowLevelInputAddrs pbufAlloc s.dmasr s.rx).2.2.getD []).flatten }
      { s with
        dmasr := (lowLevelInput pbufAlloc s.dmasr s.rx).1
        rx := (lowLevelInput pbufAlloc s.dmasr s.rx).2.1
        irq := afterInput (lowLevelInput pbufAlloc s.dmasr s.rx).2.2 } := by
  have allowed := returns (inputLen (ethRxPkt s.dmasr s.rx).2.2)
  have backed := ethRxPkt_backed s.dmasr s.rx
  simp only [lowLevelInput, lowLevelInputAddrs]
  cases answer : pbufAlloc (inputLen (ethRxPkt s.dmasr s.rx).2.2) with
  | none =>
    rw [answer] at allowed
    simp only [Option.map_none, Option.getD_none, List.flatten_nil, List.append_nil, afterInput]
    exact (handles_rxPkt log s called).trans (handles_alloc rfl allowed (.refl _ _))
  | some lens =>
    rw [answer] at allowed
    -- `frame.buffer` is only null where there is nothing to copy
    have copied : (ethRxPkt s.dmasr s.rx).2.2.buffer = none → lens.sum = 0 := fun null =>
      (pbufAllocReturns_some allowed).trans (backed null)
    simp only [Option.map_some, Option.getD_some, afterInput, ← List.map_flatten]
    refine (handles_rxPkt log s called).trans (handles_alloc rfl allowed ?_)
    exact handles_fill _ lens copied log { s with
      dmasr := (ethRxPkt s.dmasr s.rx).1
      rx := (ethRxPkt s.dmasr s.rx).2.1
      irq := .copy (ethRxPkt s.dmasr s.rx).2.2 lens [] } rfl

/-- The statements of an undisturbed call of `ethernetif_input` compute `ethernetifInput`. -/
theorem ethernetifInput_runs (lwip : Lwip) (pooled : lwip.Pooled)
    (netifInput : List (List UInt8) → ErrT) (free : Nat) (s : Driver)
    (called : s.irq = .rxPkt .testOwn) :
    ∃ answer err,
      (∀ p ∈ (ethernetifInput lwip netifInput s.dmasr s.rx free).2.2.2, err = netifInput p) ∧
      s.Handles answer err ⟨[], []⟩
        ⟨((lowLevelInputAddrs (lwip.pbufAlloc · free) s.dmasr s.rx).2.2.getD []).flatten,
          (ethernetifInput lwip netifInput s.dmasr s.rx free).2.2.2.map List.flatten⟩
        { s with
          dmasr := (ethernetifInput lwip netifInput s.dmasr s.rx free).1
          rx := (ethernetifInput lwip netifInput s.dmasr s.rx free).2.1
          irq := .testT } := by
  have received (err : ErrT) := lowLevelInput_runs (lwip.pbufAlloc · free)
    (fun len => pooled.returns len free) err ⟨[], []⟩ s called
  simp only [List.nil_append] at received
  rcases result : lowLevelInput (lwip.pbufAlloc · free) s.dmasr s.rx with ⟨dmasr, rx, _ | p⟩ <;>
    rw [result] at received
  · rw [ethernetifInput_none netifInput result]
    exact ⟨_, errOk, by simp, received errOk⟩
  · rw [ethernetifInput_some netifInput result]
    have passed := (received (netifInput p)).trans
      (handles_input _ { s with dmasr := dmasr, rx := rx, irq := .input p.flatten } rfl)
    exact ⟨_, netifInput p, by simp, passed⟩

end WchLwip
