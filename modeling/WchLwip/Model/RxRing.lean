import WchLwip.Library.Lts
import WchLwip.Model.Descriptors

/-! The receive ring: `ETH_RxPkt_ChainMode` statement by statement, and the receive DMA. -/
namespace WchLwip

open Mask

/-- `FrameTypeDef` without its `next` member, which nothing uses. The null address is `none`. -/
structure FrameTypeDef where
  length : Word
  buffer : Option Nat
  descriptor : Option Nat
deriving DecidableEq

/-- `FrameTypeDef frame = {0, 0}` -/
def FrameTypeDef.zero : FrameTypeDef := ⟨0, none, none⟩

/-- The receive half of the driver's memory and of the DMA. `dmaPos` is the descriptor the
DMA uses next, and a suspended DMA waits for a write to `DMARPDR`. -/
structure Rx where
  dmaRxDscrTab : DescTab
  rxBuff : Bytes
  dmaRxDescToGet : Nat
  dmaPos : Nat
  dmaSuspended : Bool

/-- Entry `i` as `ETH_DMARxDescChainInit` writes it. -/
def rxChainEntry (rxBuffCount i : Nat) (_ : EthDmaDesc) : EthDmaDesc where
  status := ethDmaRxDescOwn
  controlBufferSize := ethDmaRxDescRch ||| BitVec.ofNat 32 ethMaxPacketSize
  buffer1Addr := i * ethMaxPacketSize
  buffer2NextDescAddr := nextDesc rxBuffCount i

/-- `ETH_DMARxDescChainInit`; the DMA starts at the table that `DMARDLAR` then names. -/
def ethDmaRxDescChainInit (tab : DescTab) (rxBuff : Bytes) (rxBuffCount : Nat) : Rx where
  dmaRxDscrTab := initChain rxBuffCount (rxChainEntry rxBuffCount) tab
  rxBuff := rxBuff
  dmaRxDescToGet := 0
  dmaPos := 0
  dmaSuspended := false

/-! ### `ETH_RxPkt_ChainMode` -/

/-- `*DMARxDescToGet` -/
def Rx.toGet (rx : Rx) : EthDmaDesc := rx.dmaRxDscrTab rx.dmaRxDescToGet

/-- The next statement of a call. The three after `testOwn` belong to the branch for a
descriptor that the DMA owns. -/
inductive RxPc where
  | testOwn
  | testRbus
  | clearRbus
  | pollDemand
  | readStatus
  | giveBack (frame : FrameTypeDef)
  | advance (frame : FrameTypeDef)
  | ret (frame : FrameTypeDef)
deriving DecidableEq

/-- No error summary, and both the first and the last segment of its frame. -/
def wholeFrame (status : Word) : Bool :=
  !isSet status ethDmaRxDescEs && isSet status ethDmaRxDescLs && isSet status ethDmaRxDescFs

/-- `((Status & ETH_DMARxDesc_FL) >> ETH_DMARxDesc_FrameLengthShift) - 4` -/
def frameLengthOf (status : Word) : Word :=
  ((status &&& ethDmaRxDescFl) >>> ethDmaRxDescFrameLengthShift) - 4

/-- The frame of a descriptor that the CPU owns, before its `descriptor` member is set. -/
def frameOf (desc : EthDmaDesc) : FrameTypeDef :=
  if wholeFrame desc.status then
    { FrameTypeDef.zero with length := frameLengthOf desc.status, buffer := some desc.buffer1Addr }
  else
    { FrameTypeDef.zero with length := ethError }

/-- One statement of `ETH_RxPkt_ChainMode`, given the value of `DMASR`. The reads of a status
in one condition are one statement: the CPU owns the descriptor there. -/
def ethRxPktChainMode (dmasr : Word) (rx : Rx) : RxPc → Option (Word × Rx × RxPc)
  | .testOwn =>
    -- the poll demand belongs to the branch in which nothing was received
    if isSet rx.toGet.status ethDmaRxDescOwn then some (dmasr, rx, .testRbus)
    else some (dmasr, rx, .readStatus)
  | .testRbus =>
    if isSet dmasr ethDmasrRbus then some (dmasr, rx, .clearRbus)
    else some (dmasr, rx, .ret { FrameTypeDef.zero with length := ethError })
  | .clearRbus => some (writeOneToClear dmasr ethDmasrRbus, rx, .pollDemand)
  | .pollDemand =>
    some (dmasr, { rx with dmaSuspended := false },
      .ret { FrameTypeDef.zero with length := ethError })
  | .readStatus => some (dmasr, rx, .giveBack (frameOf rx.toGet))
  | .giveBack frame =>
    -- the frame is still in the buffer
    some (dmasr,
      { rx with
        dmaRxDscrTab := Function.update rx.dmaRxDscrTab rx.dmaRxDescToGet
          { rx.toGet with status := rx.toGet.status ||| ethDmaRxDescOwn } },
      .advance { frame with descriptor := some rx.dmaRxDescToGet })
  | .advance frame =>
    some (dmasr, { rx with dmaRxDescToGet := rx.toGet.buffer2NextDescAddr }, .ret frame)
  | .ret _ => none

/-! ### The receive DMA -/

def Rx.dmaOwns (rx : Rx) : Bool := isSet (rx.dmaRxDscrTab rx.dmaPos).status ethDmaRxDescOwn

def Rx.dmaRuns (rx : Rx) : Bool := !rx.dmaSuspended && rx.dmaOwns

/-- The DMA stores a byte of the frame it receives, at most as many as the descriptor allows. -/
def Rx.dmaStore (rx : Rx) (k : Nat) (byte : UInt8) : Option Rx :=
  let desc := rx.dmaRxDscrTab rx.dmaPos
  if rx.dmaRuns ∧ k < (desc.controlBufferSize &&& ethDmaRxDescRbs1).toNat then
    some { rx with rxBuff := Function.update rx.rxBuff (desc.buffer1Addr + k) byte }
  else none

/-- The status that stands in a descriptor once the DMA closed it with `status`. -/
def closedStatus (status : Word) : Word := writeOneToClear status ethDmaRxDescOwn

/-- The DMA closes its descriptor: it writes the status, gives up the descriptor and moves on. -/
def Rx.dmaClose (rx : Rx) (status : Word) : Option Rx :=
  let desc := rx.dmaRxDscrTab rx.dmaPos
  if rx.dmaRuns then
    some { rx with
      dmaRxDscrTab := Function.update rx.dmaRxDscrTab rx.dmaPos
        { desc with status := closedStatus status }
      dmaPos := desc.buffer2NextDescAddr }
  else none

/-- The DMA fetches a descriptor that it does not own. -/
def Rx.dmaSuspend (rx : Rx) : Option Rx :=
  if !rx.dmaSuspended && !rx.dmaOwns then some { rx with dmaSuspended := true } else none

/-! ### Calls interleaved with the DMA -/

/-- The ring with at most one call in progress. -/
structure RxRing where
  rx : Rx
  pc : Option RxPc

/-- A statement reads whatever `DMASR` then holds. -/
inductive RxEvent where
  | call
  | stmt (dmasr : Word)
  | ret
  | dmaStore (k : Nat) (byte : UInt8)
  | dmaClose (status : Word)
  | dmaSuspend

def RxRing.step (s : RxRing) : RxEvent → Option RxRing
  | .call => if s.pc = none then some { s with pc := some .testOwn } else none
  | .stmt dmasr =>
    s.pc.bind fun pc =>
      (ethRxPktChainMode dmasr s.rx pc).map fun (_, rx, next) => ⟨rx, some next⟩
  | .ret =>
    match s.pc with
    | some (.ret _) => some { s with pc := none }
    | _ => none
  | .dmaStore k byte => (s.rx.dmaStore k byte).map fun rx => { s with rx := rx }
  | .dmaClose status => (s.rx.dmaClose status).map fun rx => { s with rx := rx }
  | .dmaSuspend => s.rx.dmaSuspend.map fun rx => { s with rx := rx }

def rxRing : Lts RxRing RxEvent := ⟨RxRing.step⟩

@[simp] theorem rxRing_step (s : RxRing) (e : RxEvent) : rxRing.step s e = s.step e := rfl

def RxRing.init (tab : DescTab) (rxBuff : Bytes) (n : Nat) : RxRing :=
  ⟨ethDmaRxDescChainInit tab rxBuff n, none⟩

/-- What happened to the descriptors so far: the index and the status of each one that the DMA
closed, that a call consumed, and that a call gave back. -/
structure RxLog where
  closed : List (Nat × Word)
  consumed : List (Nat × Word)
  given : List (Nat × Word)

def RxLog.empty : RxLog := ⟨[], [], []⟩

def RxLog.record (log : RxLog) (s : RxRing) : RxEvent → RxLog
  | .dmaClose status =>
    { log with closed := log.closed ++ [(s.rx.dmaPos, closedStatus status)] }
  | .stmt _ =>
    match s.pc with
    | some .readStatus =>
      { log with consumed := log.consumed ++ [(s.rx.dmaRxDescToGet, s.rx.toGet.status)] }
    | some (.giveBack _) =>
      { log with given := log.given ++ [(s.rx.dmaRxDescToGet, s.rx.toGet.status)] }
    | _ => log
  | _ => log

end WchLwip
