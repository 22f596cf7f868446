import WchLwip.Library.ByteMemory
import WchLwip.Model.Driver

/-! `low_level_output` and `ETH_TxPkt_ChainMode` as functions, and what a run of the driver
did with the chains it was given. -/
namespace WchLwip

open Mask

/-- The loop over the pbufs of a chain: `memcpy` of one payload after the other. -/
def copyChain (buff : Bytes) (buffer : Nat) : List (List UInt8) → Bytes
  | [] => buff
  | payload :: rest =>
    copyChain (ByteMemory.write buff buffer payload) (buffer + payload.length) rest

/-- `ETH_TxPkt_ChainMode` from its call to its return, with nothing in between. -/
def ethTxPkt (frameLength : BitVec 16) (dmasr : Word) (tx : Tx) : Word × Tx × Word :=
  if isSet tx.toSet.status ethDmaTxDescOwn then (dmasr, tx, ethError)
  else
    let tx := tx.writeToSet { tx.toSet with controlBufferSize := txSize frameLength }
    let tx := tx.writeToSet { tx.toSet with
      status := tx.toSet.status |||
        (ethDmaTxDescLs ||| ethDmaTxDescFs ||| ethDmaTxDescCicTcpUdpIcmpFull) }
    let tx := tx.writeToSet { tx.toSet with status := tx.toSet.status ||| ethDmaTxDescOwn }
    if isSet dmasr ethDmasrTbus then
      let tx := tx.writeDmatpdr
      (writeOneToClear dmasr ethDmasrTbus,
        { tx with dmaTxDescToSet := tx.toSet.buffer2NextDescAddr }, ethSuccess)
    else (dmasr, { tx with dmaTxDescToSet := tx.toSet.buffer2NextDescAddr }, ethSuccess)

/-- `low_level_output` from its call to its return, with nothing in between. -/
def lowLevelOutput (dmasr : Word) (tx : Tx) (p : PbufChain) : Word × Tx × ErrT :=
  let tx := { tx with txBuff := copyChain tx.txBuff tx.currentTxBufferAddress p.segments }
  -- the status that `ETH_TxPkt_ChainMode` returns is dropped
  let (dmasr, tx, _) := ethTxPkt p.totLen dmasr tx
  (dmasr, tx, errOk)

/-! ### The chains of a run -/

/-- The chains for which a descriptor was handed to the DMA, those that `low_level_output`
acknowledged with `ERR_OK`, the frames that the DMA sent, and the addresses at which a byte was
stored into a buffer whose descriptor the DMA owned. -/
structure SendLog where
  handed : List PbufChain
  acked : List PbufChain
  sent : List (List UInt8)
  clobbered : List Nat

def SendLog.empty : SendLog := ⟨[], [], [], []⟩

/-- The DMA owns the descriptor whose buffer contains the address. -/
def Tx.ownsByte (tx : Tx) (addr : Nat) : Bool :=
  isSet (tx.dmaTxDscrTab (addr / ethMaxPacketSize)).status ethDmaTxDescOwn

def SendLog.record (log : SendLog) (s : Driver) : DriverEvent → SendLog
  | .thread =>
    match s.out with
    | .copy _ buffer ((_ :: _) :: _) =>
      if s.tx.ownsByte buffer then { log with clobbered := log.clobbered ++ [buffer] } else log
    | .txPkt p .setOwn => { log with handed := log.handed ++ [p] }
    | .ret p err => if err = errOk then { log with acked := log.acked ++ [p] } else log
    | _ => log
  | .txDone _ =>
    match s.tx.dma with
    | .busy sent => { log with sent := log.sent ++ [sent] }
    | _ => log
  | _ => log

end WchLwip
