import WchLwip.Library.Lts
import WchLwip.Model.Descriptors

/-! The transmit ring: `ETH_TxPkt_ChainMode` statement by statement, and the transmit DMA. -/
namespace WchLwip

open Mask

/-- The transmit DMA fetches a descriptor when it is ready, sends the bytes of its buffer while
it is busy, and waits for a write to `DMATPDR` when it is suspended. -/
inductive TxDma where
  | ready
  | busy (sent : List UInt8)
  | suspended
deriving DecidableEq

/-- The transmit half of the driver's memory and of the DMA. `dmaPos` is the descriptor the
DMA uses now or fetches next. -/
structure Tx where
  dmaTxDscrTab : DescTab
  txBuff : Bytes
  dmaTxDescToSet : Nat
  dmaPos : Nat
  dma : TxDma

/-- Entry `i` as `ETH_DMATxDescChainInit` writes it; the buffer size stays as it was. -/
def txChainEntry (txBuffCount i : Nat) (desc : EthDmaDesc) : EthDmaDesc :=
  { desc with
    status := ethDmaTxDescTch ||| ethDmaTxDescIc
    buffer1Addr := i * ethMaxPacketSize
    buffer2NextDescAddr := nextDesc txBuffCount i }

/-- `ETH_DMATxDescChainInit`; the DMA starts at the table that `DMATDLAR` then names. -/
def ethDmaTxDescChainInit (tab : DescTab) (txBuff : Bytes) (txBuffCount : Nat) : Tx where
  dmaTxDscrTab := initChain txBuffCount (txChainEntry txBuffCount) tab
  txBuff := txBuff
  dmaTxDescToSet := 0
  dmaPos := 0
  dma := .ready

/-! ### `ETH_TxPkt_ChainMode` -/

/-- `*DMATxDescToSet` -/
def Tx.toSet (tx : Tx) : EthDmaDesc := tx.dmaTxDscrTab tx.dmaTxDescToSet

def Tx.writeToSet (tx : Tx) (desc : EthDmaDesc) : Tx :=
  { tx with dmaTxDscrTab := Function.update tx.dmaTxDscrTab tx.dmaTxDescToSet desc }

@[simp] theorem Tx.toSet_writeToSet (tx : Tx) (desc : EthDmaDesc) :
    (tx.writeToSet desc).toSet = desc := Function.update_self ..

/-- `ETH_GetCurrentTxBufferAddress` -/
def Tx.currentTxBufferAddress (tx : Tx) : Nat := tx.toSet.buffer1Addr

/-- `ETH->DMATPDR = 0` -/
def Tx.writeDmatpdr (tx : Tx) : Tx :=
  { tx with dma := if tx.dma = .suspended then .ready else tx.dma }

@[simp] theorem Tx.dmaTxDscrTab_writeDmatpdr (tx : Tx) :
    tx.writeDmatpdr.dmaTxDscrTab = tx.dmaTxDscrTab := rfl

/-- `FrameLength & ETH_DMATxDesc_TBS1` -/
def txSize (frameLength : BitVec 16) : Word := frameLength.setWidth 32 &&& ethDmaTxDescTbs1

/-- The next statement of a call. -/
inductive TxPc where
  | testOwn
  | setSize
  | setSegments
  | setOwn
  | testTbus
  | clearTbus
  | pollDemand
  | advance
  | ret (status : Word)
deriving DecidableEq

/-- One statement of `ETH_TxPkt_ChainMode`, given the value of `DMASR`; `CHECKSUM_BY_HARDWARE`
is defined. -/
def ethTxPktChainMode (frameLength : BitVec 16) (dmasr : Word) (tx : Tx) :
    TxPc → Option (Word × Tx × TxPc)
  | .testOwn =>
    if isSet tx.toSet.status ethDmaTxDescOwn then some (dmasr, tx, .ret ethError)
    else some (dmasr, tx, .setSize)
  | .setSize =>
    some (dmasr, tx.writeToSet { tx.toSet with controlBufferSize := txSize frameLength },
      .setSegments)
  | .setSegments =>
    some (dmasr,
      tx.writeToSet { tx.toSet with
        status := tx.toSet.status |||
          (ethDmaTxDescLs ||| ethDmaTxDescFs ||| ethDmaTxDescCicTcpUdpIcmpFull) },
      .setOwn)
  | .setOwn =>
    some (dmasr, tx.writeToSet { tx.toSet with status := tx.toSet.status ||| ethDmaTxDescOwn },
      .testTbus)
  | .testTbus =>
    -- tested after the descriptor was handed over
    if isSet dmasr ethDmasrTbus then some (dmasr, tx, .clearTbus) else some (dmasr, tx, .advance)
  | .clearTbus => some (writeOneToClear dmasr ethDmasrTbus, tx, .pollDemand)
  | .pollDemand => some (dmasr, tx.writeDmatpdr, .advance)
  | .advance =>
    some (dmasr, { tx with dmaTxDescToSet := tx.toSet.buffer2NextDescAddr }, .ret ethSuccess)
  -- left by the caller
  | .ret _ => none

/-! ### The transmit DMA -/

/-- The descriptor at the position of the DMA. -/
def Tx.atDma (tx : Tx) : EthDmaDesc := tx.dmaTxDscrTab tx.dmaPos

/-- The number of bytes in the buffer of a descriptor. -/
def EthDmaDesc.txBytes (desc : EthDmaDesc) : Nat :=
  (desc.controlBufferSize &&& ethDmaTxDescTbs1).toNat

/-- The DMA fetches the descriptor at its position, and suspends if it does not own it. -/
def Tx.dmaFetch (tx : Tx) : Option Tx :=
  match tx.dma with
  | .ready =>
    some { tx with
      dma := if isSet tx.atDma.status ethDmaTxDescOwn then .busy [] else .suspended }
  | _ => none

/-- The DMA sends the next byte of the buffer. -/
def Tx.dmaRead (tx : Tx) : Option Tx :=
  match tx.dma with
  | .busy sent =>
    if sent.length < tx.atDma.txBytes then
      some { tx with dma := .busy (sent ++ [tx.txBuff (tx.atDma.buffer1Addr + sent.length)]) }
    else none
  | _ => none

/-- The bits of a status word that the driver sets and the DMA preserves. -/
def txControlBits : Word :=
  ethDmaTxDescIc ||| ethDmaTxDescLs ||| ethDmaTxDescFs ||| ethDmaTxDescDc ||| ethDmaTxDescDp |||
    ethDmaTxDescTtse ||| ethDmaTxDescCicTcpUdpIcmpFull ||| ethDmaTxDescTer ||| ethDmaTxDescTch

/-- The status that the DMA writes back when it is done with a descriptor. -/
def writtenBack (status report : Word) : Word :=
  writeOneToClear (merge txControlBits status report) ethDmaTxDescOwn

/-- The DMA sent the whole buffer: it gives the descriptor up and moves on. -/
def Tx.dmaDone (tx : Tx) (report : Word) : Option Tx :=
  match tx.dma with
  | .busy sent =>
    if sent.length = tx.atDma.txBytes then
      some { tx with
        dmaTxDscrTab := Function.update tx.dmaTxDscrTab tx.dmaPos
          { tx.atDma with status := writtenBack tx.atDma.status report }
        dmaPos := tx.atDma.buffer2NextDescAddr
        dma := .ready }
    else none
  | _ => none

/-! ### Calls interleaved with the DMA -/

/-- A call in progress: its argument and its next statement. -/
structure TxCall where
  frameLength : BitVec 16
  pc : TxPc
deriving DecidableEq

/-- The ring with at most one call in progress. -/
structure TxRing where
  tx : Tx
  call : Option TxCall

/-- A statement reads whatever `DMASR` then holds; between calls the caller fills buffers. -/
inductive TxEvent where
  | store (addr : Nat) (byte : UInt8)
  | call (frameLength : BitVec 16)
  | stmt (dmasr : Word)
  | ret
  | dmaFetch
  | dmaRead
  | dmaDone (report : Word)

def TxRing.step (s : TxRing) : TxEvent → Option TxRing
  | .store addr byte =>
    if s.call = none then
      some { s with tx := { s.tx with txBuff := Function.update s.tx.txBuff addr byte } }
    else none
  | .call frameLength =>
    if s.call = none then some { s with call := some ⟨frameLength, .testOwn⟩ } else none
  | .stmt dmasr =>
    s.call.bind fun call =>
      (ethTxPktChainMode call.frameLength dmasr s.tx call.pc).map fun (_, tx, next) =>
        ⟨tx, some { call with pc := next }⟩
  | .ret =>
    match s.call with
    | some ⟨_, .ret _⟩ => some { s with call := none }
    | _ => none
  | .dmaFetch => s.tx.dmaFetch.map fun tx => { s with tx := tx }
  | .dmaRead => s.tx.dmaRead.map fun tx => { s with tx := tx }
  | .dmaDone report => (s.tx.dmaDone report).map fun tx => { s with tx := tx }

def txRing : Lts TxRing TxEvent := ⟨TxRing.step⟩

@[simp] theorem txRing_step (s : TxRing) (e : TxEvent) : txRing.step s e = s.step e := rfl

def TxRing.init (tab : DescTab) (txBuff : Bytes) (n : Nat) : TxRing :=
  ⟨ethDmaTxDescChainInit tab txBuff n, none⟩

/-- What happened so far: the arguments of the calls that returned `ETH_SUCCESS`, and the size
fields of the descriptors that were handed to the DMA, that it took up, and that it is done
with. -/
structure TxLog where
  succeeded : List (BitVec 16)
  handed : List Word
  taken : List Word
  done : List Word

def TxLog.empty : TxLog := ⟨[], [], [], []⟩

def TxLog.record (log : TxLog) (s : TxRing) : TxEvent → TxLog
  | .stmt _ =>
    match s.call with
    | some ⟨_, .setOwn⟩ => { log with handed := log.handed ++ [s.tx.toSet.controlBufferSize] }
    | _ => log
  | .ret =>
    match s.call with
    | some ⟨frameLength, .ret status⟩ =>
      if status = ethSuccess then { log with succeeded := log.succeeded ++ [frameLength] }
      else log
    | _ => log
  | .dmaFetch =>
    if isSet s.tx.atDma.status ethDmaTxDescOwn then
      { log with taken := log.taken ++ [s.tx.atDma.controlBufferSize] }
    else log
  | .dmaDone _ => { log with done := log.done ++ [s.tx.atDma.controlBufferSize] }
  | _ => log

end WchLwip
