import WchLwip.Library.ByteMemory
import WchLwip.Model.Lwip

/-! `ethernetif_input`, `low_level_input` and `ETH_RxPkt_ChainMode` as functions, the frames
that a run of the driver received, and the bytes that it read for them. -/
namespace WchLwip

open Mask

/-- `ETH_RxPkt_ChainMode` from its call to its return, with nothing in between. -/
def ethRxPkt (dmasr : Word) (rx : Rx) : Word × Rx × FrameTypeDef :=
  if isSet rx.toGet.status ethDmaRxDescOwn then
    let frame := { FrameTypeDef.zero with length := ethError }
    if isSet dmasr ethDmasrRbus then
      (writeOneToClear dmasr ethDmasrRbus, { rx with dmaSuspended := false }, frame)
    else (dmasr, rx, frame)
  else
    let frame := { frameOf rx.toGet with descriptor := some rx.dmaRxDescToGet }
    let rx := { rx with
      dmaRxDscrTab := Function.update rx.dmaRxDscrTab rx.dmaRxDescToGet
        { rx.toGet with status := rx.toGet.status ||| ethDmaRxDescOwn } }
    (dmasr, { rx with dmaRxDescToGet := rx.toGet.buffer2NextDescAddr }, frame)

/-- The addresses that the loop over the pbufs of the new chain reads for each of them. -/
def fillAddrs (buffer : Nat) : List Nat → List (List Nat)
  | [] => []
  | len :: lens => List.range' buffer len :: fillAddrs (buffer + len) lens

/-- The addresses for a frame. Only an empty frame has a null buffer, and its pbufs are empty. -/
def FrameTypeDef.fillAddrs (frame : FrameTypeDef) (lens : List Nat) : List (List Nat) :=
  match frame.buffer with
  | some buffer => WchLwip.fillAddrs buffer lens
  | none => lens.map fun _ => []

/-- `low_level_input` from its call to its return, given the answer of `pbuf_alloc` to each
length: the addresses that are read for each pbuf of the chain, or `NULL`. -/
def lowLevelInputAddrs (pbufAlloc : Nat → Option (List Nat)) (dmasr : Word) (rx : Rx) :
    Word × Rx × Option (List (List Nat)) :=
  let (dmasr, rx, frame) := ethRxPkt dmasr rx
  -- `len` is the length of the frame, cut to 16 bits
  (dmasr, rx, (pbufAlloc (inputLen frame)).map frame.fillAddrs)

/-- `low_level_input`: the payloads of the chain that it returns, or `NULL`. -/
def lowLevelInput (pbufAlloc : Nat → Option (List Nat)) (dmasr : Word) (rx : Rx) :
    Word × Rx × Option (List (List UInt8)) :=
  let (dmasr, rx, chain) := lowLevelInputAddrs pbufAlloc dmasr rx
  (dmasr, rx, chain.map fun addrs => addrs.map fun payload => payload.map rx.rxBuff)

/-- `ethernetif_input` with `free` buffers in the pool, given the result of `netif->input` for
each chain. The last two results are the free buffers afterwards and the chains that were
passed to `netif->input`. -/
def ethernetifInput (lwip : Lwip) (netifInput : List (List UInt8) → ErrT) (dmasr : Word) (rx : Rx)
    (free : Nat) : Word × Rx × Nat × List (List (List UInt8)) :=
  match lowLevelInput (lwip.pbufAlloc · free) dmasr rx with
  | (dmasr, rx, none) => (dmasr, rx, free, [])
  | (dmasr, rx, some p) =>
    let free := free - p.length
    if netifInput p = errOk then (dmasr, rx, free, [p])
    -- `pbuf_free(p)`
    else (dmasr, rx, free + p.length, [p])

/-! ### The frames of a run -/

/-- The DMA owns the descriptor whose buffer contains the address. -/
def Rx.ownsByte (rx : Rx) (addr : Nat) : Bool :=
  isSet (rx.dmaRxDscrTab (addr / ethMaxPacketSize)).status ethDmaRxDescOwn

/-- The bytes of a frame, as long as its descriptor belongs to the CPU. -/
def FrameTypeDef.bytes (frame : FrameTypeDef) (rxBuff : Bytes) : List UInt8 :=
  match frame.buffer with
  | some buffer => ByteMemory.read rxBuff buffer (inputLen frame)
  | none => []

/-- The bytes of the frame in hand, as they were when its status was read; the addresses from
which a byte was read while the DMA owned the descriptor; and the chains passed to
`netif->input`, each with the bytes of its frame. -/
structure InputLog where
  frame : List UInt8
  exposed : List Nat
  inputs : List (List UInt8 × List UInt8)

def InputLog.empty : InputLog := ⟨[], [], []⟩

def InputLog.record (log : InputLog) (s : Driver) : DriverEvent → InputLog
  | .irq =>
    match s.irq with
    | .clearR => { log with frame := [] }
    | .rxPkt .readStatus => { log with frame := (frameOf s.rx.toGet).bytes s.rx.rxBuff }
    | .copy frame ((_ + 1) :: _) filled =>
      match frame.buffer with
      | some buffer =>
        if s.rx.ownsByte (buffer + filled.length) then
          { log with exposed := log.exposed ++ [buffer + filled.length] }
        else log
      | none => log
    | _ => log
  | .netifInput _ =>
    match s.irq with
    | .input filled => { log with inputs := log.inputs ++ [(filled, log.frame)] }
    | _ => log
  | _ => log

end WchLwip
