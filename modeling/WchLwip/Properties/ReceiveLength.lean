import WchLwip.Properties.ReceiveResult

/-! The length of a received frame, from the status word to the copy.

A frame shorter than its CRC makes the subtraction wrap. What is left of it after
the cut to 16 bits is longer than the whole pool, so `pbuf_alloc` fails. -/
namespace WchLwip

open Mask

/-- The frame length in a status word, CRC included. -/
def frameLength (status : Word) : Nat :=
  ((status &&& ethDmaRxDescFl) >>> ethDmaRxDescFrameLengthShift).toNat

/-- The field has 14 bits. -/
theorem frameLength_lt (status : Word) : frameLength status < 2 ^ 14 := by
  have masked : (status &&& ethDmaRxDescFl).toNat ≤ ethDmaRxDescFl.toNat := by
    rw [BitVec.toNat_and]
    exact Nat.and_le_right
  have shifted : (status &&& ethDmaRxDescFl).toNat / 2 ^ 16 ≤ ethDmaRxDescFl.toNat / 2 ^ 16 :=
    Nat.div_le_div_right masked
  rw [frameLength, BitVec.toNat_ushiftRight, Nat.shiftRight_eq_div_pow]
  exact Nat.lt_of_le_of_lt shifted (by decide)

/-- The difference modulo `2 ^ 16`. -/
theorem dataLen_eq (status : Word) :
    dataLen status = (2 ^ 16 - 4 + frameLength status) % 2 ^ 16 := by
  have crc : (4 : Word).toNat = 4 := rfl
  have cut : dataLen status = (2 ^ 32 - 4 + frameLength status) % 2 ^ 32 % 2 ^ 16 := by
    rw [dataLen, frameLengthOf, BitVec.toNat_setWidth, BitVec.toNat_sub, crc, frameLength]
  omega

theorem dataLen_of_crc {status : Word} (crc : 4 ≤ frameLength status) :
    dataLen status = frameLength status - 4 := by
  have short := frameLength_lt status
  rw [dataLen_eq]
  omega

/-- A frame that is shorter than a CRC gets a length close to `2 ^ 16`. -/
theorem dataLen_of_runt {status : Word} (runt : frameLength status < 4) :
    2 ^ 16 - 4 ≤ dataLen status := by
  rw [dataLen_eq]
  omega

/-- The buffers of the pool are a few bytes larger than an Ethernet frame. -/
theorem pbufPoolBufsize_lt {lwip : Lwip} (sized : lwip.Sized) : lwip.pbufPoolBufsize < 1518 := by
  have rounded := sized.aligned
    (tcpMss + 40 + lwip.pbufLinkEncapsulationHlen + lwip.pbufLinkHlen)
  rw [sized.encapsulation, sized.link] at rounded
  rw [Lwip.pbufPoolBufsize, sized.encapsulation, sized.link]
  simp only [tcpMss, memAlignment] at rounded ⊢
  omega

/-- The pool does not hold the length of a runt. -/
theorem pbufAlloc_runt {lwip : Lwip} (sized : lwip.Sized) {free : Nat}
    (occupancy : free ≤ pbufPoolSize) {status : Word} (runt : frameLength status < 4) :
    lwip.pbufAlloc (dataLen status) free = none := by
  cases answer : lwip.pbufAlloc (dataLen status) free with
  | none => rfl
  | some lens =>
    have held := sized.fits _ _ _ answer
    have wrapped := dataLen_of_runt runt
    have capacity : free * lwip.pbufPoolBufsize ≤ pbufPoolSize * 1518 :=
      Nat.mul_le_mul occupancy (Nat.le_of_lt (pbufPoolBufsize_lt sized))
    simp only [pbufPoolSize] at capacity
    omega

/-- The addresses read are those of the frame at the descriptor without its CRC, or none; the
DMA wrote each of them for this frame, and it lies in the buffer of the descriptor. -/
structure ReadsFrame (desc : EthDmaDesc) (addrs : List Nat) : Prop where
  exact : addrs = [] ∨ 4 ≤ frameLength desc.status ∧
    addrs = List.range' desc.buffer1Addr (frameLength desc.status - 4)
  written : ∀ addr ∈ addrs, desc.buffer1Addr ≤ addr ∧
    addr < desc.buffer1Addr + frameLength desc.status
  inside : ∀ addr ∈ addrs, addr < desc.buffer1Addr + ethMaxPacketSize

theorem ReadsFrame.none (desc : EthDmaDesc) : ReadsFrame desc [] where
  exact := Or.inl rfl
  written := by simp
  inside := by simp

theorem ReadsFrame.span {desc : EthDmaDesc} (crc : 4 ≤ frameLength desc.status)
    (fits : frameLength desc.status ≤ ethMaxPacketSize) :
    ReadsFrame desc (List.range' desc.buffer1Addr (frameLength desc.status - 4)) where
  exact := Or.inr ⟨crc, rfl⟩
  written addr member := by
    obtain ⟨from_start, before_end⟩ := List.mem_range'_1.mp member
    omega
  inside addr member := by
    obtain ⟨-, before_end⟩ := List.mem_range'_1.mp member
    omega

/-- For every descriptor, pool and chain of pbufs, `low_level_input` reads the frame without its
CRC, or nothing. -/
theorem receive_reads_frame_or_nothing (lwip : Lwip) (pooled : lwip.Pooled) (sized : lwip.Sized)
    (free : Nat) (occupancy : free ≤ pbufPoolSize) (dmasr : Word) (rx : Rx)
    (written : frameLength rx.toGet.status ≤ ethMaxPacketSize) :
    ReadsFrame rx.toGet
      ((lowLevelInputAddrs (lwip.pbufAlloc · free) dmasr rx).2.2.getD []).flatten := by
  cases readable : rx.readable with
  | false =>
    -- only empty pbufs can come back for a length of zero
    rw [lowLevelInputAddrs_unreadable _ dmasr readable]
    cases lwip.pbufAlloc 0 free with
    | none => exact .none _
    | some lens =>
      rw [Option.map_some, Option.getD_some, flatten_empty]
      exact .none _
  | true =>
    rw [lowLevelInputAddrs_readable _ dmasr readable]
    cases answer : lwip.pbufAlloc (dataLen rx.toGet.status) free with
    | none => exact .none _
    | some lens =>
      -- the pool would have refused a runt
      have crc : 4 ≤ frameLength rx.toGet.status := by
        by_contra runt
        rw [pbufAlloc_runt sized occupancy (Nat.lt_of_not_le runt)] at answer
        cases answer
      have allowed := pooled.returns (dataLen rx.toGet.status) free
      rw [answer] at allowed
      have total : lens.sum = frameLength rx.toGet.status - 4 :=
        (pbufAllocReturns_some allowed).trans (dataLen_of_crc crc)
      rw [Option.map_some, Option.getD_some, fillAddrs_flatten, total]
      exact .span crc written

/-- A pool that answers as lwIP does: full buffers, and one for the rest of the length. -/
def poolAlloc (bufsize len : Nat) : Nat → Option (List Nat)
  | 0 => none
  | free + 1 =>
    if len ≤ bufsize then some [len]
    else (poolAlloc bufsize (len - bufsize) free).map (bufsize :: ·)

theorem poolAlloc_some {bufsize len free : Nat} {lens : List Nat}
    (answer : poolAlloc bufsize len free = some lens) :
    lens ≠ [] ∧ lens.sum = len ∧ lens.length ≤ free ∧ len ≤ free * bufsize := by
  induction free generalizing len lens with
  | zero => cases answer
  | succ free ih =>
    rw [poolAlloc] at answer
    split at answer
    next last =>
      cases answer
      refine ⟨by simp, by simp, by simp, ?_⟩
      exact Nat.le_trans last (Nat.le_mul_of_pos_left _ (Nat.succ_pos free))
    next more =>
      -- one full buffer, and the rest from the buffers that are left
      obtain ⟨rest, left, rfl⟩ := Option.map_eq_some_iff.mp answer
      obtain ⟨-, total, count, held⟩ := ih left
      refine ⟨by simp, ?_, ?_, ?_⟩
      · rw [List.sum_cons, total]
        omega
      · rw [List.length_cons]
        omega
      · rw [Nat.add_mul, Nat.one_mul]
        omega

/-- lwIP with its own definitions of the macros. -/
def Lwip.pool : Lwip where
  memAlignSize size := (size + memAlignment - 1) / memAlignment * memAlignment
  pbufLinkEncapsulationHlen := 0
  pbufLinkHlen := 14
  pbufAlloc len free := poolAlloc 1516 len free

theorem Lwip.pool_pooled : Lwip.pool.Pooled where
  returns len free := by
    cases answer : Lwip.pool.pbufAlloc len free with
    | none => rfl
    | some lens =>
      obtain ⟨nonempty, total, -, -⟩ := poolAlloc_some answer
      simp [pbufAllocReturns, nonempty, total]
  taken len free lens answer := (poolAlloc_some answer).2.2.1

theorem Lwip.pool_sized : Lwip.pool.Sized where
  aligned size := by
    simp only [Lwip.pool, memAlignment]
    omega
  encapsulation := rfl
  link := rfl
  fits len free lens answer := (poolAlloc_some answer).2.2.2

/-- A runt of two bytes, in the first descriptor of a ring of four. -/
def runtRing : Rx :=
  { ethDmaRxDescChainInit (fun _ => ⟨0, 0, 0, 0⟩) (fun _ => 0) ethRxBufNb with
    dmaRxDscrTab := Function.update (initChain ethRxBufNb (rxChainEntry ethRxBufNb)
      fun _ => ⟨0, 0, 0, 0⟩) 0 ⟨0x00020300, ethDmaRxDescRch ||| 1520, 0, 1⟩ }

theorem receive_reads_frame_or_nothing_runt :
    ReadsFrame runtRing.toGet
      ((lowLevelInputAddrs (Lwip.pool.pbufAlloc · 8) 0 runtRing).2.2.getD []).flatten :=
  receive_reads_frame_or_nothing Lwip.pool Lwip.pool_pooled Lwip.pool_sized 8 (by decide) 0
    runtRing (by decide)

end WchLwip
