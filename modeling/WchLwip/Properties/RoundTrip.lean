import WchLwip.Properties.ReceiveLength
import WchLwip.Properties.TransmitResult

/-! Output followed by input.

`low_level_output` gathers a chain into the buffer of one descriptor, and
`low_level_input` scatters what arrives in a receive buffer over the pbufs of
another chain. The two chains split the bytes in different places. -/
namespace WchLwip

open Mask

/-! ### The gathering half -/

/-- The segments are stored one behind the other, wherever the chain is split. -/
theorem copyChain_eq_write (buff : Bytes) (buffer : Nat) (segments : List (List UInt8)) :
    copyChain buff buffer segments = ByteMemory.write buff buffer segments.flatten := by
  induction segments generalizing buff buffer with
  | nil => rfl
  | cons payload rest ih => rw [copyChain, ih, List.flatten_cons, ByteMemory.write_append]

theorem ethTxPkt_txBuff (frameLength : BitVec 16) (dmasr : Word) (tx : Tx) :
    (ethTxPkt frameLength dmasr tx).2.1.txBuff = tx.txBuff := by
  unfold ethTxPkt
  split
  · rfl
  · split <;> rfl

theorem lowLevelOutput_txBuff (dmasr : Word) (tx : Tx) (p : PbufChain) :
    (lowLevelOutput dmasr tx p).2.1.txBuff =
      ByteMemory.write tx.txBuff tx.currentTxBufferAddress p.bytes := by
  have copied := copyChain_eq_write tx.txBuff tx.currentTxBufferAddress p.segments
  simp only [lowLevelOutput, ethTxPkt_txBuff]
  exact copied

/-- The size field of an Ethernet frame is its length. -/
theorem txSize_totLen {p : PbufChain} (frame : p.bytes.length ≤ 1514) :
    txSize p.totLen = BitVec.ofNat 32 p.bytes.length := by
  have kept : (EthDmaDesc.txBytes ⟨0, txSize p.totLen, 0, 0⟩) = p.bytes.length := by
    rw [txBytes_of_txSize rfl, p.totLen_toNat]
    exact Nat.mod_eq_of_lt (by omega)
  have masked : txSize p.totLen &&& ethDmaTxDescTbs1 = txSize p.totLen := by
    rw [txSize, BitVec.and_assoc, BitVec.and_self]
  apply BitVec.eq_of_toNat_eq
  rw [EthDmaDesc.txBytes, masked] at kept
  rw [kept, BitVec.toNat_ofNat]
  exact (Nat.mod_eq_of_lt (by omega)).symm

/-- The descriptor at `DMATxDescToSet` was handed over with the bytes of the chain in its own
buffer, and no other buffer or descriptor changed. -/
structure Gathered (tx tx' : Tx) (p : PbufChain) : Prop where
  handed : txOwned tx'.dmaTxDscrTab tx.dmaTxDescToSet = true
  size : (tx'.dmaTxDscrTab tx.dmaTxDescToSet).controlBufferSize = BitVec.ofNat 32 p.bytes.length
  addr : (tx'.dmaTxDscrTab tx.dmaTxDescToSet).buffer1Addr = tx.dmaTxDescToSet * ethMaxPacketSize
  stored : ByteMemory.read tx'.txBuff (tx.dmaTxDescToSet * ethMaxPacketSize) p.bytes.length = p.bytes
  buffers : ∀ addr, addr / ethMaxPacketSize ≠ tx.dmaTxDescToSet → tx'.txBuff addr = tx.txBuff addr
  descriptors : ∀ i, i ≠ tx.dmaTxDescToSet → tx'.dmaTxDscrTab i = tx.dmaTxDscrTab i

theorem lowLevelOutput_gathered {n : Nat} {log : TxLog} {q : List Word} {dmasr : Word} {tx : Tx}
    {p : PbufChain} (inv : TxAt n log q ⟨tx, none⟩) (frame : p.bytes.length ≤ 1514)
    (free : isSet tx.toSet.status ethDmaTxDescOwn = false) :
    Gathered tx (lowLevelOutput dmasr tx p).2.1 p := by
  have base : tx.currentTxBufferAddress = tx.dmaTxDescToSet * ethMaxPacketSize :=
    inv.layout.addr _ inv.setLt
  have buff := lowLevelOutput_txBuff dmasr tx p
  have table : (lowLevelOutput dmasr tx p).2.1.dmaTxDscrTab =
      Function.update tx.dmaTxDscrTab tx.dmaTxDescToSet (handedDesc p.totLen tx.toSet) :=
    ethTxPkt_free free
  rw [base] at buff
  refine ⟨?_, ?_, ?_, ?_, fun addr outside => ?_, fun i other => ?_⟩
  · rw [table, txOwned, Function.update_self]
    exact (handedDesc_bits p.totLen tx.toSet).1
  · rw [table, Function.update_self, handedDesc]
    exact txSize_totLen frame
  · rw [table, Function.update_self]
    exact base
  · rw [buff, ByteMemory.read_write]
  · -- the chain ends inside the buffer of its own descriptor
    rw [buff]
    apply ByteMemory.write_outside
    by_contra inside
    apply outside
    apply Nat.div_eq_of_lt_le <;> simp only [ethMaxPacketSize] at inside ⊢ <;> omega
  · rw [table, Function.update_of_ne other]

/-! ### The scattering half -/

/-- A whole frame of the length of `data` and a CRC stands in the receive buffer. -/
structure Delivered (rx : Rx) (data crc : List UInt8) : Prop where
  cpu : isSet rx.toGet.status ethDmaRxDescOwn = false
  whole : wholeFrame rx.toGet.status = true
  length : frameLength rx.toGet.status = data.length + 4
  check : crc.length = 4
  bytes : ByteMemory.read rx.rxBuff rx.toGet.buffer1Addr (data.length + 4) = data ++ crc

theorem Delivered.data {rx : Rx} {data crc : List UInt8} (delivered : Delivered rx data crc) :
    ByteMemory.read rx.rxBuff rx.toGet.buffer1Addr data.length = data := by
  have bytes := delivered.bytes
  rw [ByteMemory.read_add] at bytes
  exact List.append_inj_left bytes (ByteMemory.read_length ..)

theorem lowLevelInput_scattered {rx : Rx} {data crc : List UInt8} (delivered : Delivered rx data crc)
    (pbufAlloc : Nat → Option (List Nat)) {lens : List Nat}
    (answer : pbufAlloc data.length = some lens)
    (returns : pbufAllocReturns data.length (some lens) = true) (dmasr : Word) :
    ∃ chain, (lowLevelInput pbufAlloc dmasr rx).2.2 = some chain ∧
      chain.map List.length = lens ∧ chain.flatten = data := by
  have readable : rx.readable = true := rx.readable_iff.mpr ⟨delivered.cpu, delivered.whole⟩
  have asked : dataLen rx.toGet.status = data.length := by
    have length := delivered.length
    rw [dataLen_of_crc (by omega)]
    omega
  have total : lens.sum = data.length := pbufAllocReturns_some returns
  refine ⟨(fillAddrs rx.toGet.buffer1Addr lens).map fun payload => payload.map rx.rxBuff, ?_, ?_, ?_⟩
  · rw [lowLevelInput_eq, lowLevelInputAddrs_readable _ dmasr readable, asked, answer]
    rfl
  · rw [List.map_map]
    simp only [Function.comp_def, List.length_map]
    exact fillAddrs_lengths _ lens
  · rw [← List.map_flatten, fillAddrs_flatten, ByteMemory.map_range'_eq_read, total]
    exact delivered.data

/-- From every reachable state between calls with a free descriptor, a chain of up to 1514 bytes
is gathered into one descriptor; and when the DMA delivers what that descriptor names, with a
CRC behind it, every chain that `pbuf_alloc` may return is filled with the same bytes. -/
theorem output_input_round_trip (memory : Memory) (rxBuffCount txBuffCount : Nat)
    (pos : 0 < txBuffCount) (es : List DriverEvent) (s : Driver)
    (ran : driver.run (Driver.init memory rxBuffCount txBuffCount) es = some s)
    (idle : s.out = .idle) (free : isSet s.tx.toSet.status ethDmaTxDescOwn = false)
    (p : PbufChain) (frame : p.bytes.length ≤ 1514) :
    Gathered s.tx (lowLevelOutput s.dmasr s.tx p).2.1 p ∧
    ∀ (rx : Rx) (crc : List UInt8),
      Delivered rx (ByteMemory.read (lowLevelOutput s.dmasr s.tx p).2.1.txBuff
        ((lowLevelOutput s.dmasr s.tx p).2.1.dmaTxDscrTab s.tx.dmaTxDescToSet).buffer1Addr
        p.bytes.length) crc →
      ∀ (dmasr : Word) (pbufAlloc : Nat → Option (List Nat)) (lens : List Nat),
        pbufAlloc p.bytes.length = some lens →
        pbufAllocReturns p.bytes.length (some lens) = true →
        ∃ chain, (lowLevelInput pbufAlloc dmasr rx).2.2 = some chain ∧
          chain.map List.length = lens ∧ (chain.map List.length).sum = p.bytes.length ∧
          chain.flatten = p.bytes := by
  obtain ⟨q, inv⟩ := TxAt.driver_run pos ran
  rw [Driver.txRing, idle] at inv
  have gathered : Gathered s.tx (lowLevelOutput s.dmasr s.tx p).2.1 p :=
    lowLevelOutput_gathered inv frame free
  refine ⟨gathered, fun rx crc delivered dmasr pbufAlloc lens answer returns => ?_⟩
  rw [gathered.addr, gathered.stored] at delivered
  obtain ⟨chain, received, lengths, bytes⟩ :=
    lowLevelInput_scattered delivered pbufAlloc answer returns dmasr
  exact ⟨chain, received, lengths, lengths ▸ pbufAllocReturns_some returns, bytes⟩

/-- Three bytes in two segments, with an empty one between them. -/
def splitChain : PbufChain := ⟨[[7, 8], [], [9]], by decide, by decide⟩

/-- The three bytes and a CRC in the first receive buffer. -/
def echoRing : Rx :=
  { runtRing with
    dmaRxDscrTab := Function.update runtRing.dmaRxDscrTab 0
      { runtRing.toGet with status := 0x00070300 }
    rxBuff := ByteMemory.write runtRing.rxBuff 0 [7, 8, 9, 1, 2, 3, 4] }

theorem output_input_round_trip_split :
    Gathered (Driver.init Memory.cleared ethRxBufNb ethTxBufNb).tx
      (lowLevelOutput 0 (Driver.init Memory.cleared ethRxBufNb ethTxBufNb).tx splitChain).2.1
      splitChain ∧
    ∃ chain, (lowLevelInput (fun _ => some [1, 0, 2]) 0 echoRing).2.2 = some chain ∧
      chain.map List.length = [1, 0, 2] ∧ (chain.map List.length).sum = splitChain.bytes.length ∧
      chain.flatten = splitChain.bytes := by
  obtain ⟨gathered, scattered⟩ := output_input_round_trip Memory.cleared ethRxBufNb ethTxBufNb
    (by decide) [] _ rfl rfl (by decide) splitChain (by decide)
  refine ⟨gathered, scattered echoRing [1, 2, 3, 4] ?_ 0 _ [1, 0, 2] rfl (by decide)⟩
  exact {
    cpu := by decide
    whole := by decide
    length := by decide
    check := rfl
    bytes := by decide +kernel }

end WchLwip
