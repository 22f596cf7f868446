import WchLwip.Model.RxRing
import WchLwip.Model.TxRing

/-! The driver: the interrupt handler, the sending thread and the two DMA engines.

`ETH_IRQHandler` and the functions it calls are one sequence of statements, and
`low_level_output` with `ETH_TxPkt_ChainMode` is another; the DMA engines and the
two sequences take their steps in any order. An entry of the handler is not tied
to `NIS`, and it need not finish before the thread goes on, so every schedule of
the hardware is among the runs. -/
namespace WchLwip

open Mask

abbrev ErrT := BitVec 8

def errOk : ErrT := 0

/-- A chain of pbufs to send: the payload of each, and `tot_len` as their sum. -/
structure PbufChain where
  segments : List (List UInt8)
  nonempty : segments ≠ []
  small : segments.flatten.length < 2 ^ 16

def PbufChain.bytes (p : PbufChain) : List UInt8 := p.segments.flatten

def PbufChain.totLen (p : PbufChain) : BitVec 16 := BitVec.ofNat 16 p.bytes.length

/-- The next statement of the handler. `copy` holds the lengths still to be filled, the first
of them of the current pbuf, and the bytes copied so far. -/
inductive IrqPc where
  | idle
  | testR
  | clearR
  | rxPkt (pc : RxPc)
  | alloc (frame : FrameTypeDef)
  | copy (frame : FrameTypeDef) (lens : List Nat) (filled : List UInt8)
  | input (filled : List UInt8)
  | free
  | testT
  | clearT
  | clearNis

/-- The next statement of the sending thread. `copy` holds the address to write next and what
is left of the chain. -/
inductive OutPc where
  | idle
  | copy (p : PbufChain) (buffer : Nat) (rest : List (List UInt8))
  | txPkt (p : PbufChain) (pc : TxPc)
  | ret (p : PbufChain) (err : ErrT)

structure Driver where
  dmasr : Word
  rx : Rx
  tx : Tx
  irq : IrqPc
  out : OutPc

/-- `len = frame.length` in `low_level_input`, where `len` has 16 bits. -/
def inputLen (frame : FrameTypeDef) : Nat := (frame.length.setWidth 16).toNat

/-- What `pbuf_alloc(PBUF_RAW, len, PBUF_POOL)` may return: `NULL`, or a chain of `len` bytes. -/
def pbufAllocReturns (len : Nat) : Option (List Nat) → Bool
  | none => true
  | some lens => !lens.isEmpty && lens.sum == len

/-! ### `ETH_IRQHandler` -/

/-- One statement of the handler; `pbuf_alloc` and `netif->input` are answered from outside. -/
def Driver.irqStmt (s : Driver) : Option Driver :=
  match s.irq with
  | .idle => none
  | .testR => some { s with irq := if isSet s.dmasr ethDmaItR then .clearR else .testT }
  | .clearR =>
    -- `ethernetif_input` is called once, whatever number of frames the flag stands for
    some { s with dmasr := writeOneToClear s.dmasr ethDmaItR, irq := .rxPkt .testOwn }
  | .rxPkt (.ret frame) => some { s with irq := .alloc frame }
  | .rxPkt pc =>
    -- a statement of `ETH_RxPkt_ChainMode`, which is called by `low_level_input`
    (ethRxPktChainMode s.dmasr s.rx pc).map fun (dmasr, rx, next) =>
      { s with dmasr := dmasr, rx := rx, irq := .rxPkt next }
  | .alloc _ => none
  -- `q == NULL`: the chain is complete
  | .copy _ [] filled => some { s with irq := .input filled }
  -- `q = q->next`
  | .copy frame (0 :: lens) filled => some { s with irq := .copy frame lens filled }
  | .copy frame ((k + 1) :: lens) filled =>
    -- `memcpy` reads through `frame.buffer`, which only an empty frame leaves null
    frame.buffer.map fun buffer =>
      { s with irq := .copy frame (k :: lens) (filled ++ [s.rx.rxBuff (buffer + filled.length)]) }
  | .input _ => none
  -- `pbuf_free(p)`
  | .free => some { s with irq := .testT }
  | .testT => some { s with irq := if isSet s.dmasr ethDmaItT then .clearT else .clearNis }
  | .clearT => some { s with dmasr := writeOneToClear s.dmasr ethDmaItT, irq := .clearNis }
  -- the last statement, after both tests
  | .clearNis => some { s with dmasr := writeOneToClear s.dmasr ethDmaItNis, irq := .idle }

/-- `low_level_input` returns `NULL` if it gets no chain, and `ethernetif_input` then ends. -/
def afterAlloc (frame : FrameTypeDef) : Option (List Nat) → IrqPc
  | none => .testT
  | some lens => .copy frame lens []

def Driver.pbufAlloc (s : Driver) (answer : Option (List Nat)) : Option Driver :=
  match s.irq with
  | .alloc frame =>
    if pbufAllocReturns (inputLen frame) answer then
      some { s with irq := afterAlloc frame answer }
    else none
  | _ => none

/-- A chain that the stack refuses is freed. -/
def Driver.netifInput (s : Driver) (err : ErrT) : Option Driver :=
  match s.irq with
  | .input _ => some { s with irq := if err = errOk then .testT else .free }
  | _ => none

/-! ### `low_level_output` -/

/-- `buffer` is set once, when `low_level_output` is called. -/
def Driver.output (s : Driver) (p : PbufChain) : Option Driver :=
  match s.out with
  | .idle => some { s with out := .copy p s.tx.currentTxBufferAddress p.segments }
  | _ => none

/-- One statement of the thread. `low_level_output` drops what `ETH_TxPkt_ChainMode` returns. -/
def Driver.threadStmt (s : Driver) : Option Driver :=
  match s.out with
  | .idle => none
  -- the descriptor is tested after the copy only
  | .copy p _ [] => some { s with out := .txPkt p .testOwn }
  | .copy p buffer ([] :: rest) => some { s with out := .copy p buffer rest }
  | .copy p buffer ((byte :: bytes) :: rest) =>
    -- `memcpy` stores one byte
    some { s with
      tx := { s.tx with txBuff := Function.update s.tx.txBuff buffer byte }
      out := .copy p (buffer + 1) (bytes :: rest) }
  | .txPkt p (.ret _) => some { s with out := .ret p errOk }
  | .txPkt p pc =>
    (ethTxPktChainMode p.totLen s.dmasr s.tx pc).map fun (dmasr, tx, next) =>
      { s with dmasr := dmasr, tx := tx, out := .txPkt p next }
  | .ret _ _ => some { s with out := .idle }

/-! ### The system -/

inductive DriverEvent where
  | irqEnter
  | irq
  | pbufAlloc (answer : Option (List Nat))
  | netifInput (err : ErrT)
  | output (p : PbufChain)
  | thread
  | rxStore (k : Nat) (byte : UInt8)
  | rxClose (status : Word)
  | rxSuspend
  | txFetch
  | txRead
  | txDone (report : Word)

/-- `R` comes with `NIS` when the last descriptor of a frame is closed, `T` with `NIS` when a
frame is sent, and `RBUS` and `TBUS` when a DMA suspends. -/
def Driver.step (s : Driver) : DriverEvent → Option Driver
  | .irqEnter =>
    match s.irq with
    | .idle => some { s with irq := .testR }
    | _ => none
  | .irq => s.irqStmt
  | .pbufAlloc answer => s.pbufAlloc answer
  | .netifInput err => s.netifInput err
  | .output p => s.output p
  | .thread => s.threadStmt
  | .rxStore k byte => (s.rx.dmaStore k byte).map fun rx => { s with rx := rx }
  | .rxClose status =>
    (s.rx.dmaClose status).map fun rx =>
      { s with
        rx := rx
        dmasr := if isSet status ethDmaRxDescLs then s.dmasr ||| (ethDmaItR ||| ethDmaItNis)
          else s.dmasr }
  | .rxSuspend =>
    s.rx.dmaSuspend.map fun rx => { s with rx := rx, dmasr := s.dmasr ||| ethDmasrRbus }
  | .txFetch =>
    s.tx.dmaFetch.map fun tx =>
      { s with
        tx := tx
        dmasr := if tx.dma = .suspended then s.dmasr ||| ethDmasrTbus else s.dmasr }
  | .txRead => s.tx.dmaRead.map fun tx => { s with tx := tx }
  | .txDone report =>
    (s.tx.dmaDone report).map fun tx =>
      { s with tx := tx, dmasr := s.dmasr ||| (ethDmaItT ||| ethDmaItNis) }

def driver : Lts Driver DriverEvent := ⟨Driver.step⟩

@[simp] theorem driver_step (s : Driver) (e : DriverEvent) : driver.step s e = s.step e := rfl

/-- What the memory held before `init_phy` built the chains. -/
structure Memory where
  dmaRxDscrTab : DescTab
  dmaTxDscrTab : DescTab
  rxBuff : Bytes
  txBuff : Bytes

/-- The tables and buffers are static, so the startup code clears them. -/
def Memory.cleared : Memory where
  dmaRxDscrTab := fun _ => ⟨0, 0, 0, 0⟩
  dmaTxDscrTab := fun _ => ⟨0, 0, 0, 0⟩
  rxBuff := fun _ => 0
  txBuff := fun _ => 0

/-- The end of `init_phy`, where `ETH_Start` enabled both DMA engines. -/
def Driver.init (memory : Memory) (rxBuffCount txBuffCount : Nat) : Driver where
  dmasr := 0
  rx := ethDmaRxDescChainInit memory.dmaRxDscrTab memory.rxBuff rxBuffCount
  tx := ethDmaTxDescChainInit memory.dmaTxDscrTab memory.txBuff txBuffCount
  irq := .idle
  out := .idle

/-! ### The two rings inside the driver -/

def IrqPc.rxCall : IrqPc → Option RxPc
  | .rxPkt pc => some pc
  | _ => none

def OutPc.txCall : OutPc → Option TxCall
  | .txPkt p pc => some ⟨p.totLen, pc⟩
  | _ => none

def Driver.rxRing (s : Driver) : RxRing := ⟨s.rx, s.irq.rxCall⟩

def Driver.txRing (s : Driver) : TxRing := ⟨s.tx, s.out.txCall⟩

/-- What a step of the driver is for the receive ring. -/
def Driver.rxEvent (s : Driver) : DriverEvent → Option RxEvent
  | .irq =>
    match s.irq with
    | .clearR => some .call
    | .rxPkt (.ret _) => some .ret
    | .rxPkt _ => some (.stmt s.dmasr)
    | _ => none
  | .rxStore k byte => some (.dmaStore k byte)
  | .rxClose status => some (.dmaClose status)
  | .rxSuspend => some .dmaSuspend
  | _ => none

/-- What a step of the driver is for the transmit ring. -/
def Driver.txEvent (s : Driver) : DriverEvent → Option TxEvent
  | .thread =>
    match s.out with
    | .copy p _ [] => some (.call p.totLen)
    | .copy _ buffer ((byte :: _) :: _) => some (.store buffer byte)
    | .txPkt _ (.ret _) => some .ret
    | .txPkt _ _ => some (.stmt s.dmasr)
    | _ => none
  | .txFetch => some .dmaFetch
  | .txRead => some .dmaRead
  | .txDone report => some (.dmaDone report)
  | _ => none

end WchLwip
