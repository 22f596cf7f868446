import WchLwip.Model.Output
import WchLwip.Properties.TransmitResult

/-! Who writes into a transmit buffer, and when.

`low_level_output` copies a chain before `ETH_TxPkt_ChainMode` checks whether the
descriptor is free. With a free descriptor nobody else uses its buffer until the
call hands it over, and the DMA then sends what was copied. -/
namespace WchLwip

open Mask RingQueue

variable {s t : Driver}

/-! ### Condition -/

/-- A chain with bytes is only given to `low_level_output` while the descriptor at
`DMATxDescToSet` is free. -/
def bufferGuard (s : Driver) : DriverEvent → Prop
  | .output p => p.bytes ≠ [] → isSet s.tx.toSet.status ethDmaTxDescOwn = false
  | _ => True

/-- The chains fit into an Ethernet frame. -/
def EthernetFrames : DriverEvent → Prop
  | .output p => p.bytes.length ≤ 1514
  | _ => True

/-- No byte was stored into a buffer of the DMA, and the frames sent are the chains for which
the descriptors were handed over. -/
def BuffersKept (sends : SendLog) : Prop :=
  sends.clobbered = [] ∧ sends.sent <+: sends.handed.map PbufChain.bytes

/-! ### The frames on the ring -/

/-- The bytes in the buffer of a descriptor that the DMA owns. -/
def frameCell (tx : Tx) (i : Nat) : Option (List UInt8) :=
  if txOwned tx.dmaTxDscrTab i then
    some (ByteMemory.read tx.txBuff (tx.dmaTxDscrTab i).buffer1Addr
      (tx.dmaTxDscrTab i).txBytes)
  else none

theorem frameCell_eq_none_iff (tx : Tx) (i : Nat) :
    frameCell tx i = none ↔ txOwned tx.dmaTxDscrTab i = false := by
  unfold frameCell
  split <;> simp_all

theorem frameCell_of_owned {tx : Tx} {i : Nat} (owned : txOwned tx.dmaTxDscrTab i = true) :
    frameCell tx i = some (ByteMemory.read tx.txBuff (tx.dmaTxDscrTab i).buffer1Addr
      (tx.dmaTxDscrTab i).txBytes) := by
  rw [frameCell, if_pos owned]

/-- The cell depends on the descriptor and on the bytes of its buffer. -/
theorem frameCell_congr {tx tx' : Tx} {i : Nat} (desc : tx'.dmaTxDscrTab i = tx.dmaTxDscrTab i)
    (bytes : txOwned tx.dmaTxDscrTab i = true →
      ByteMemory.read tx'.txBuff (tx.dmaTxDscrTab i).buffer1Addr (tx.dmaTxDscrTab i).txBytes =
        ByteMemory.read tx.txBuff (tx.dmaTxDscrTab i).buffer1Addr (tx.dmaTxDscrTab i).txBytes) :
    frameCell tx' i = frameCell tx i := by
  have same : txOwned tx'.dmaTxDscrTab i = txOwned tx.dmaTxDscrTab i := by
    rw [txOwned, txOwned, desc]
  cases owned : txOwned tx.dmaTxDscrTab i with
  | false =>
    rw [(frameCell_eq_none_iff tx i).mpr owned, (frameCell_eq_none_iff tx' i).mpr]
    exact same.trans owned
  | true =>
    rw [frameCell_of_owned owned, frameCell_of_owned (same.trans owned), desc, bytes owned]

/-! ### What has been copied -/

/-- The first byte of the buffer at `DMATxDescToSet`. -/
def Tx.base (tx : Tx) : Nat := tx.dmaTxDescToSet * ethMaxPacketSize

/-- The chain is in the buffer but for `rest`, and nobody else uses the buffer. -/
structure Stored (tx : Tx) (p : PbufChain) (rest : List (List UInt8)) (buffer : Nat) : Prop where
  frame : p.bytes.length ≤ 1514
  free : p.bytes ≠ [] → isSet tx.toSet.status ethDmaTxDescOwn = false
  bytes : ∃ k, buffer = tx.base + k ∧
    p.bytes = ByteMemory.read tx.txBuff tx.base k ++ rest.flatten

/-- What the call in progress has copied. -/
def OutPc.stored (tx : Tx) : OutPc → Prop
  | .copy p buffer rest => Stored tx p rest buffer
  | .txPkt p .testOwn | .txPkt p .setSize | .txPkt p .setSegments | .txPkt p .setOwn =>
    ∃ buffer, Stored tx p [] buffer
  | _ => True

theorem OutPc.stored_mono {out : OutPc} {tx tx' : Tx} (stored : out.stored tx)
    (buff : tx'.txBuff = tx.txBuff) (cursor : tx'.dmaTxDescToSet = tx.dmaTxDescToSet)
    (free : isSet tx.toSet.status ethDmaTxDescOwn = false →
      isSet tx'.toSet.status ethDmaTxDescOwn = false) : out.stored tx' := by
  have moved {p : PbufChain} {rest : List (List UInt8)} {buffer : Nat}
      (stored : Stored tx p rest buffer) : Stored tx' p rest buffer := by
    refine ⟨stored.frame, fun bytes => free (stored.free bytes), ?_⟩
    rw [Tx.base, buff, cursor]
    exact stored.bytes
  cases out with
  | copy p buffer rest => exact moved stored
  | txPkt p pc =>
    cases pc with
    | testOwn | setSize | setSegments | setOwn =>
      obtain ⟨buffer, stored⟩ := stored
      exact ⟨buffer, moved stored⟩
    | _ => trivial
  | _ => trivial

structure Carried (n : Nat) (log : TxLog) (sends : SendLog) (s : Driver) : Prop where
  ring : ∃ q, TxAt n log q s.txRing
  clean : sends.clobbered = []
  counted : sends.handed.length = log.handed.length
  aligned : sends.sent.length = log.done.length
  short : ∀ p ∈ sends.handed, p.bytes.length ≤ 1514
  frames : ∃ fs, sends.handed.map PbufChain.bytes = sends.sent ++ fs ∧
    Holds n (frameCell s.tx) sends.sent.length fs
  sending : ∀ sent, s.tx.dma = .busy sent → sent.length ≤ s.tx.atDma.txBytes ∧
    sent = ByteMemory.read s.tx.txBuff s.tx.atDma.buffer1Addr sent.length
  stored : s.out.stored s.tx

section Carried

variable {n : Nat} {log log' : TxLog} {sends sends' : SendLog}

/-- The frames of the DMA are short. -/
theorem Carried.txBytes_le (held : Carried n log sends s) {i : Nat} (inside : i < n)
    (owned : txOwned s.tx.dmaTxDscrTab i = true) :
    (s.tx.dmaTxDscrTab i).txBytes ≤ 1514 := by
  obtain ⟨fs, handed, holds⟩ := held.frames
  -- the descriptor holds one of the chains handed over
  obtain ⟨k, within, rfl⟩ := exists_offset sends.sent.length inside
  have cell := holds.get k within
  rw [frameCell_of_owned owned] at cell
  have member : _ ∈ fs := List.mem_of_getElem? cell.symm
  have chain : _ ∈ sends.handed.map PbufChain.bytes := handed ▸ List.mem_append_right _ member
  obtain ⟨p, given, same⟩ := List.mem_map.mp chain
  have short := held.short p given
  rwa [same, ByteMemory.read_length] at short

/-- A step that leaves the descriptors, the buffers and the position of the DMA alone. -/
private theorem Carried.keep (held : Carried n log sends s)
    (ring : ∃ q, TxAt n log' q t.txRing) (table : t.tx.dmaTxDscrTab = s.tx.dmaTxDscrTab)
    (buff : t.tx.txBuff = s.tx.txBuff) (pos : t.tx.dmaPos = s.tx.dmaPos)
    (busy : ∀ sent, t.tx.dma = .busy sent → s.tx.dma = .busy sent)
    (handed : log'.handed.length = log.handed.length) (done : log'.done.length = log.done.length)
    (chains : sends'.handed = sends.handed) (sent : sends'.sent = sends.sent)
    (clean : sends'.clobbered = sends.clobbered) (stored : t.out.stored t.tx) :
    Carried n log' sends' t where
  ring := ring
  clean := clean.trans held.clean
  counted := by rw [chains, handed, held.counted]
  aligned := by rw [sent, done, held.aligned]
  short := chains ▸ held.short
  frames := by
    obtain ⟨fs, frames, holds⟩ := held.frames
    refine ⟨fs, by rw [chains, sent, frames], ?_⟩
    rw [sent]
    exact holds.congr fun i _ => frameCell_congr (by rw [table]) fun _ => by rw [buff]
  sending := by
    intro bytes sends
    rw [Tx.atDma, table, buff, pos]
    exact held.sending bytes (busy bytes sends)
  stored := stored

/-- A statement of the thread that leaves the transmit ring alone. -/
private theorem Carried.move (held : Carried n log sends s) (ring : ∃ q, TxAt n log' q t.txRing)
    (tx : t.tx = s.tx) (handed : log'.handed.length = log.handed.length)
    (done : log'.done.length = log.done.length) (stored : t.out.stored t.tx) :
    Carried n log' sends t := by
  refine held.keep ring ?_ ?_ ?_ ?_ handed done rfl rfl rfl stored <;> rw [tx]
  exact fun _ => id

/-- A step of the handler or of the receive DMA. -/
private theorem Carried.elsewhere (held : Carried n log sends s)
    (ring : ∃ q, TxAt n log q t.txRing) (tx : t.tx = s.tx) (out : t.out = s.out) :
    Carried n log sends t := by
  refine held.move ring tx rfl rfl ?_
  rw [tx, out]
  exact held.stored

/-! ### The thread -/

/-- A byte stored into the buffer of a free descriptor is in no buffer of the DMA. -/
private theorem read_store {tx : Tx} (layout : TxLayout n tx.dmaTxDscrTab)
    {k : Nat} (within : k < 1514) (free : isSet tx.toSet.status ethDmaTxDescOwn = false)
    (byte : UInt8) {i : Nat} (inside : i < n) (owned : txOwned tx.dmaTxDscrTab i = true)
    {size : Nat} (short : size ≤ 1514) :
    ByteMemory.read (Function.update tx.txBuff (tx.base + k) byte)
        (tx.dmaTxDscrTab i).buffer1Addr size =
      ByteMemory.read tx.txBuff (tx.dmaTxDscrTab i).buffer1Addr size := by
  have other : i ≠ tx.dmaTxDescToSet := by
    rintro rfl
    exact Bool.false_ne_true (free.symm.trans owned)
  -- a chain that fits into its buffer stays clear of the next one
  apply ByteMemory.read_update_outside
  rw [layout.addr i inside, Tx.base, ethMaxPacketSize]
  omega

theorem Tx.ownsByte_base (tx : Tx) {k : Nat} (within : k < ethMaxPacketSize) :
    tx.ownsByte (tx.base + k) = isSet tx.toSet.status ethDmaTxDescOwn := by
  have index : (tx.base + k) / ethMaxPacketSize = tx.dmaTxDescToSet := by
    rw [Tx.base, Nat.mul_comm, Nat.mul_add_div (by decide), Nat.div_eq_of_lt within, Nat.add_zero]
  rw [Tx.ownsByte, index, Tx.toSet]

private theorem carried_store {p : PbufChain} {buffer : Nat} {byte : UInt8} {bytes : List UInt8}
    {rest : List (List UInt8)} (held : Carried n log sends s)
    (copying : s.out = .copy p buffer ((byte :: bytes) :: rest))
    (ring : ∃ q, TxAt n log q (Driver.txRing { s with
      tx := { s.tx with txBuff := Function.update s.tx.txBuff buffer byte }
      out := .copy p (buffer + 1) (bytes :: rest) })) :
    Carried n log (sends.record s .thread) { s with
      tx := { s.tx with txBuff := Function.update s.tx.txBuff buffer byte }
      out := .copy p (buffer + 1) (bytes :: rest) } := by
  obtain ⟨q, inv⟩ := held.ring
  have stored := held.stored
  rw [copying] at stored
  obtain ⟨frame, free, k, rfl, chain⟩ := stored
  have size : p.bytes.length = k + (bytes.length + 1 + rest.flatten.length) := by
    rw [chain]
    simp
    omega
  have within : k < 1514 := by omega
  have cpu : isSet s.tx.toSet.status ethDmaTxDescOwn = false := by
    refine free fun empty => ?_
    rw [empty] at size
    simp at size
    omega
  -- the store is not one into a buffer of the DMA
  have recorded : sends.record s .thread = sends := by
    have apart := s.tx.ownsByte_base (k := k) (by rw [ethMaxPacketSize]; omega)
    simp [SendLog.record, copying, apart, cpu]
  rw [recorded]
  exact {
    ring := ring
    clean := held.clean
    counted := held.counted
    aligned := held.aligned
    short := held.short
    frames := by
      obtain ⟨fs, handed, holds⟩ := held.frames
      refine ⟨fs, handed, holds.congr fun i inside => ?_⟩
      exact frameCell_congr rfl fun owned =>
        read_store inv.layout within cpu byte inside owned (held.txBytes_le inside owned)
    sending := by
      intro sent busy
      obtain ⟨le, same⟩ := held.sending sent busy
      have owned : txOwned s.tx.dmaTxDscrTab s.tx.dmaPos = true :=
        inv.owned_of_busy (by rw [show s.txRing.tx.dma = .busy sent from busy]; rfl)
      have short := held.txBytes_le inv.dmaLt owned
      refine ⟨le, same.trans (read_store inv.layout within cpu byte inv.dmaLt owned ?_).symm⟩
      exact Nat.le_trans le short
    stored := by
      refine ⟨frame, free, k + 1, Nat.add_assoc s.tx.base k 1, ?_⟩
      calc p.bytes
          = ByteMemory.read s.tx.txBuff s.tx.base k ++ ((byte :: bytes) :: rest).flatten := chain
        _ = ByteMemory.read s.tx.txBuff s.tx.base k ++ [byte] ++ (bytes :: rest).flatten := by
          simp
        _ = ByteMemory.read (Function.update s.tx.txBuff (s.tx.base + k) byte) s.tx.base (k + 1) ++
            (bytes :: rest).flatten := by
          rw [ByteMemory.read_update_end] }

/-- Writing a descriptor that the CPU owns and keeps changes no cell. -/
private theorem frameCell_prepare {tx : Tx} {desc : EthDmaDesc}
    (cpu : isSet tx.toSet.status ethDmaTxDescOwn = false)
    (kept : isSet desc.status ethDmaTxDescOwn = false) :
    frameCell (tx.writeToSet desc) = frameCell tx := by
  funext i
  by_cases here : i = tx.dmaTxDescToSet
  · subst here
    rw [(frameCell_eq_none_iff tx _).mpr cpu, frameCell_eq_none_iff]
    simpa [txOwned, Tx.writeToSet] using kept
  · exact frameCell_congr (Function.update_of_ne here _ _) fun _ => rfl

/-- Handing the descriptor over fills its cell. -/
private theorem frameCell_hand (tx : Tx) :
    frameCell (tx.writeToSet { tx.toSet with status := tx.toSet.status ||| ethDmaTxDescOwn }) =
      Function.update (frameCell tx) tx.dmaTxDescToSet
        (some (ByteMemory.read tx.txBuff tx.toSet.buffer1Addr tx.toSet.txBytes)) := by
  funext i
  by_cases here : i = tx.dmaTxDescToSet
  · subst here
    rw [Function.update_self, frameCell_of_owned]
    · simp [Tx.writeToSet, EthDmaDesc.txBytes]
    · simp [txOwned, Tx.writeToSet, isSet_or_self _ ethDmaTxDescOwn (by decide)]
  · rw [Function.update_of_ne here]
    exact frameCell_congr (Function.update_of_ne here _ _) fun _ => rfl

/-- The descriptor that the DMA sends is not the one that a call prepares. -/
private theorem Carried.atDma_write (held : Carried n log sends s) {sent : List UInt8}
    (busy : s.tx.dma = .busy sent) (cpu : isSet s.tx.toSet.status ethDmaTxDescOwn = false)
    (desc : EthDmaDesc) : (s.tx.writeToSet desc).atDma = s.tx.atDma := by
  obtain ⟨q, inv⟩ := held.ring
  have owned : isSet s.tx.atDma.status ethDmaTxDescOwn = true :=
    inv.owned_of_busy (by rw [show s.txRing.tx.dma = .busy sent from busy]; rfl)
  have other : s.tx.dmaPos ≠ s.tx.dmaTxDescToSet := by
    intro same
    rw [Tx.atDma, same] at owned
    exact Bool.false_ne_true (cpu.symm.trans owned)
  exact Function.update_of_ne other _ _

/-- A statement that prepares the descriptor for the chain that was copied. -/
private theorem Carried.prepare (held : Carried n log sends s) {p : PbufChain} {pc : TxPc}
    {desc : EthDmaDesc} (cpu : isSet s.tx.toSet.status ethDmaTxDescOwn = false)
    (kept : isSet desc.status ethDmaTxDescOwn = false)
    (ring : ∃ q, TxAt n log' q
      (Driver.txRing { s with tx := s.tx.writeToSet desc, out := .txPkt p pc }))
    (handed : log'.handed.length = log.handed.length) (done : log'.done.length = log.done.length)
    (stored : ∃ buffer, Stored s.tx p [] buffer)
    (next : (OutPc.txPkt p pc).stored (s.tx.writeToSet desc) ↔
      ∃ buffer, Stored (s.tx.writeToSet desc) p [] buffer) :
    Carried n log' sends { s with tx := s.tx.writeToSet desc, out := .txPkt p pc } where
  ring := ring
  clean := held.clean
  counted := handed ▸ held.counted
  aligned := done ▸ held.aligned
  short := held.short
  frames := by
    obtain ⟨fs, chains, holds⟩ := held.frames
    exact ⟨fs, chains, (frameCell_prepare cpu kept).symm ▸ holds⟩
  sending := by
    intro sent busy
    have same := held.atDma_write busy cpu desc
    rw [show (Driver.tx { s with tx := s.tx.writeToSet desc, out := .txPkt p pc }).atDma =
      s.tx.atDma from same]
    exact held.sending sent busy
  stored := by
    obtain ⟨buffer, stored⟩ := stored
    refine next.mpr ⟨buffer, stored.frame, fun _ => ?_, stored.bytes⟩
    rw [Tx.toSet_writeToSet]
    exact kept

/-- The descriptor is handed over with the chain in its buffer. -/
private theorem carried_setOwn (held : Carried n log sends s) {p : PbufChain}
    (handing : s.out = .txPkt p .setOwn) (stepped : s.threadStmt = some t)
    (ring : ∃ q, TxAt n log' q t.txRing) (handed : log'.handed.length = log.handed.length + 1)
    (done : log'.done.length = log.done.length) :
    Carried n log' (sends.record s .thread) t := by
  obtain ⟨q, inv⟩ := held.ring
  have stored := held.stored
  rw [handing] at stored
  obtain ⟨buffer, frame, -, k, -, chain⟩ := stored
  have calling : s.txRing.call = some ⟨p.totLen, .setOwn⟩ := by
    simp [Driver.txRing, handing, OutPc.txCall]
  have cpu : isSet s.tx.toSet.status ethDmaTxDescOwn = false :=
    inv.prepared_cpu (by rw [calling]; trivial)
  have room : q.length < n := inv.room (by rw [calling]; trivial)
  have cursor : s.tx.dmaTxDescToSet = (log.done.length + q.length) % n :=
    inv.set_eq (by rw [calling]; rfl)
  have wrote : TxCall.wrote s.tx.toSet s.txRing.call := inv.wrote
  rw [calling] at wrote
  have size : s.tx.toSet.txBytes = p.bytes.length := by
    rw [txBytes_of_txSize wrote.1, p.totLen_toNat]
    exact Nat.mod_eq_of_lt (by omega)
  -- the buffer holds the chain, because the copy loop has ended
  have content : ByteMemory.read s.tx.txBuff s.tx.toSet.buffer1Addr s.tx.toSet.txBytes =
      p.bytes := by
    have all : p.bytes = ByteMemory.read s.tx.txBuff s.tx.base k := by simpa using chain
    have length : p.bytes.length = k := by rw [all, ByteMemory.read_length]
    have addr : s.tx.toSet.buffer1Addr = s.tx.base := inv.layout.addr _ inv.setLt
    rw [size, length, addr, ← all]
  have recorded : sends.record s .thread = { sends with handed := sends.handed ++ [p] } := by
    simp [SendLog.record, handing]
  simp only [Driver.threadStmt, handing, ethTxPktChainMode, Option.map_some,
    Option.some.injEq] at stepped
  subst stepped
  rw [recorded]
  exact {
    ring := ring
    clean := held.clean
    counted := by simp [held.counted, handed]
    aligned := by rw [done, held.aligned]
    short := by
      intro chain member
      rcases List.mem_append.mp member with before | last
      · exact held.short chain before
      · obtain rfl := List.mem_singleton.mp last
        exact frame
    frames := by
      obtain ⟨fs, chains, holds⟩ := held.frames
      -- the frames on the ring are as many as the size fields
      have length : fs.length = q.length := by
        have counted := congrArg List.length chains
        rw [List.length_map, held.counted, inv.handed, List.length_append, List.length_append,
          held.aligned] at counted
        omega
      refine ⟨fs ++ [p.bytes], by simp [chains], ?_⟩
      have filled := frameCell_hand s.tx
      have pushed := holds.push (length.symm ▸ room) p.bytes
      rw [content] at filled
      rw [length, held.aligned, ← cursor, ← filled, ← held.aligned] at pushed
      exact pushed
    sending := by
      intro sent busy
      have same := held.atDma_write busy cpu
        { s.tx.toSet with status := s.tx.toSet.status ||| ethDmaTxDescOwn }
      have before := held.sending sent busy
      rw [← same] at before
      exact before
    stored := trivial }

private theorem carried_txPkt (held : Carried n log sends s) {p : PbufChain} {pc : TxPc}
    (running : s.out = .txPkt p pc) (stepped : s.threadStmt = some t)
    (ring : ∃ q, TxAt n log' q t.txRing)
    (handed : log'.handed.length = log.handed.length + s.out.hands)
    (done : log'.done.length = log.done.length) :
    Carried n log' (sends.record s .thread) t := by
  have stored := held.stored
  rw [running] at handed stored
  have cpu (preparing : TxCall.preparing (some ⟨p.totLen, pc⟩)) :
      isSet s.tx.toSet.status ethDmaTxDescOwn = false := by
    obtain ⟨q, inv⟩ := held.ring
    have calling : s.txRing.call = some ⟨p.totLen, pc⟩ := by
      simp [Driver.txRing, running, OutPc.txCall]
    exact inv.prepared_cpu (by rw [calling]; exact preparing)
  have quiet (other : pc ≠ .setOwn) : sends.record s .thread = sends := by
    cases pc <;> simp_all [SendLog.record]
  cases pc with
  | setOwn => exact carried_setOwn held running stepped ring handed done
  | testOwn =>
    rw [quiet (by decide)]
    simp only [Driver.threadStmt, running, ethTxPktChainMode, Option.map_eq_some_iff] at stepped
    obtain ⟨result, ran, rfl⟩ := stepped
    split at ran <;> cases ran
    · exact held.move ring rfl handed done trivial
    · exact held.move ring rfl handed done stored
  | setSize =>
    rw [quiet (by decide)]
    simp only [Driver.threadStmt, running, ethTxPktChainMode, Option.map_some,
      Option.some.injEq] at stepped
    subst stepped
    exact held.prepare (cpu trivial) (cpu trivial) ring handed done stored Iff.rfl
  | setSegments =>
    rw [quiet (by decide)]
    simp only [Driver.threadStmt, running, ethTxPktChainMode, Option.map_some,
      Option.some.injEq] at stepped
    subst stepped
    have kept := isSet_or_disjoint s.tx.toSet.status
      (ethDmaTxDescLs ||| ethDmaTxDescFs ||| ethDmaTxDescCicTcpUdpIcmpFull) ethDmaTxDescOwn
      (by decide)
    exact held.prepare (cpu trivial) (kept.trans (cpu trivial)) ring handed done stored Iff.rfl
  | testTbus =>
    rw [quiet (by decide)]
    simp only [Driver.threadStmt, running, ethTxPktChainMode, Option.map_eq_some_iff] at stepped
    obtain ⟨result, ran, rfl⟩ := stepped
    split at ran <;> cases ran <;> exact held.move ring rfl handed done trivial
  | pollDemand =>
    rw [quiet (by decide)]
    simp only [Driver.threadStmt, running, ethTxPktChainMode, Option.map_some,
      Option.some.injEq] at stepped
    subst stepped
    refine held.keep ring rfl rfl rfl (fun sent busy => ?_) handed done rfl rfl rfl trivial
    simp only [Tx.writeDmatpdr] at busy
    split at busy
    next => cases busy
    next => exact busy
  | clearTbus | advance | ret status =>
    rw [quiet (by simp)]
    simp only [Driver.threadStmt, running, ethTxPktChainMode, Option.map_some,
      Option.some.injEq] at stepped
    subst stepped
    exact held.keep ring rfl rfl rfl (fun _ => id) handed done rfl rfl rfl trivial

private theorem carried_thread (held : Carried n log sends s) (stepped : s.threadStmt = some t)
    (ring : ∃ q, TxAt n (txHistory log s .thread) q t.txRing) :
    Carried n (txHistory log s .thread) (sends.record s .thread) t := by
  obtain ⟨handed, done⟩ := txHistory_thread log s
  have done : (txHistory log s .thread).done.length = log.done.length := congrArg _ done
  cases out : s.out with
  | txPkt p pc => exact carried_txPkt held out stepped ring handed done
  | idle => simp [Driver.threadStmt, out] at stepped
  | ret p err =>
    have chains : (sends.record s .thread).handed = sends.handed ∧
        (sends.record s .thread).sent = sends.sent ∧
        (sends.record s .thread).clobbered = sends.clobbered := by
      simp only [SendLog.record, out]
      split <;> exact ⟨rfl, rfl, rfl⟩
    rw [out] at handed
    simp only [Driver.threadStmt, out, Option.some.injEq] at stepped
    subst stepped
    exact held.keep ring rfl rfl rfl (fun _ => id) handed done chains.1 chains.2.1 chains.2.2
      trivial
  | copy p buffer rest =>
    have stored := held.stored
    rw [out] at handed stored
    obtain ⟨frame, free, bytes⟩ := stored
    rcases rest with _ | ⟨_ | ⟨byte, bytes⟩, rest⟩
    · simp only [Driver.threadStmt, out, Option.some.injEq] at stepped
      subst stepped
      have recorded : sends.record s .thread = sends := by simp [SendLog.record, out]
      rw [recorded]
      exact held.move ring rfl handed done ⟨buffer, frame, free, bytes⟩
    · simp only [Driver.threadStmt, out, Option.some.injEq] at stepped
      subst stepped
      have recorded : sends.record s .thread = sends := by simp [SendLog.record, out]
      rw [recorded]
      exact held.move ring rfl handed done ⟨frame, free, bytes⟩
    · simp only [Driver.threadStmt, out, Option.some.injEq] at stepped
      subst stepped
      have same : txHistory log s .thread = log := by
        simp [txHistory, Lts.Simulation.record, txSim, Driver.txEvent, out, TxLog.record]
      rw [same] at ring ⊢
      exact carried_store held out ring

/-! ### The DMA -/

private theorem carried_done (held : Carried n log sends s) {report : Word}
    (stepped : driver.step s (.txDone report) = some t) :
    Carried n (txHistory log s (.txDone report)) (sends.record s (.txDone report)) t := by
  have ring := TxAt.driver_step held.ring stepped
  obtain ⟨q, inv⟩ := held.ring
  obtain ⟨tx, finished, rfl⟩ := txDone_frame stepped
  obtain ⟨sent, busy, complete, rfl⟩ := Tx.dmaDone_frame finished
  have owned : txOwned s.tx.dmaTxDscrTab s.tx.dmaPos = true :=
    inv.owned_of_busy (by rw [show s.txRing.tx.dma = .busy sent from busy]; rfl)
  have position : s.tx.dmaPos = sends.sent.length % n := by
    rw [held.aligned]
    exact inv.dma
  have recorded : sends.record s (.txDone report) = { sends with sent := sends.sent ++ [sent] } := by
    simp [SendLog.record, busy]
  obtain ⟨fs, chains, holds⟩ := held.frames
  -- the frame just sent is the head of the frames on the ring
  have head : fs.head? = some sent := by
    have cell := holds.head inv.pos
    rw [← position, frameCell_of_owned owned] at cell
    have same := (held.sending sent busy).2
    rw [complete] at same
    exact cell.symm.trans (congrArg some same.symm)
  obtain ⟨rest, rfl⟩ := List.head?_eq_some_iff.mp head
  -- no chain is handed over by this step
  have counted : (txHistory log s (.txDone report)).handed = log.handed := rfl
  have released : (txHistory log s (.txDone report)).done.length = log.done.length + 1 := by
    simp [txHistory, Lts.Simulation.record, txSim, Driver.txEvent, TxLog.record]
  rw [recorded]
  exact {
    ring := ring
    clean := held.clean
    counted := by rw [counted, held.counted]
    aligned := by rw [List.length_append, held.aligned, released, List.length_singleton]
    short := held.short
    frames := by
      refine ⟨rest, by simp [chains], ?_⟩
      have popped := holds.pop
      rw [← position] at popped
      rw [List.length_append, List.length_singleton]
      refine popped.congr fun i inside => ?_
      by_cases here : i = s.tx.dmaPos
      · subst here
        rw [Function.update_self, frameCell_eq_none_iff]
        simp [txOwned, isSet_writtenBack_own]
      · rw [Function.update_of_ne here]
        exact frameCell_congr (Function.update_of_ne here _ _) fun _ => rfl
    sending := fun _ again => by cases again
    stored := by
      -- the descriptor given up was owned, so it is not one that a call prepares
      refine OutPc.stored_mono held.stored rfl rfl fun free => ?_
      have other : s.tx.dmaTxDescToSet ≠ s.tx.dmaPos := by
        intro same
        rw [Tx.toSet, same] at free
        exact Bool.false_ne_true (free.symm.trans owned)
      simpa only [Tx.toSet, Function.update_of_ne other] using free }

private theorem carried_fetch (held : Carried n log sends s)
    (stepped : driver.step s .txFetch = some t) :
    Carried n (txHistory log s .txFetch) sends t := by
  have ring := TxAt.driver_step held.ring stepped
  obtain ⟨handed, done⟩ := txHistory_fetch log s
  obtain ⟨tx, fetched, rfl⟩ := txFetch_frame stepped
  obtain ⟨-, rfl⟩ := Tx.dmaFetch_frame fetched
  -- the DMA has sent nothing of the frame that it takes up
  exact {
    ring := ring
    clean := held.clean
    counted := handed ▸ held.counted
    aligned := done ▸ held.aligned
    short := held.short
    frames := held.frames
    sending := by
      intro sent busy
      simp only at busy
      split at busy <;> cases busy
      exact ⟨Nat.zero_le _, rfl⟩
    stored := OutPc.stored_mono held.stored rfl rfl id }

private theorem carried_read (held : Carried n log sends s)
    (stepped : driver.step s .txRead = some t) : Carried n log sends t := by
  have ring : ∃ q, TxAt n log q t.txRing := TxAt.driver_step held.ring stepped
  obtain ⟨tx, read, rfl⟩ := txRead_frame stepped
  obtain ⟨sent, busy, more, rfl⟩ := Tx.dmaRead_frame read
  exact {
    ring := ring
    clean := held.clean
    counted := held.counted
    aligned := held.aligned
    short := held.short
    frames := held.frames
    sending := by
      intro bytes again
      cases again
      have same := (held.sending sent busy).2
      rw [List.length_append, List.length_singleton]
      refine ⟨more, ?_⟩
      calc sent ++ [s.tx.txBuff (s.tx.atDma.buffer1Addr + sent.length)]
          = ByteMemory.read s.tx.txBuff s.tx.atDma.buffer1Addr sent.length ++
            [s.tx.txBuff (s.tx.atDma.buffer1Addr + sent.length)] :=
            congrArg (· ++ _) same
        _ = ByteMemory.read s.tx.txBuff s.tx.atDma.buffer1Addr (sent.length + 1) :=
          (ByteMemory.read_succ _ _ _).symm
    stored := OutPc.stored_mono held.stored rfl rfl id }

theorem Carried.step {e : DriverEvent} (held : Carried n log sends s) (short : EthernetFrames e)
    (guarded : bufferGuard s e) (stepped : driver.step s e = some t) :
    Carried n (txHistory log s e) (sends.record s e) t := by
  have ring := TxAt.driver_step held.ring stepped
  cases e with
  | thread => exact carried_thread held stepped ring
  | txDone report => exact carried_done held stepped
  | txFetch => exact carried_fetch held stepped
  | txRead => exact carried_read held stepped
  | output p =>
    obtain ⟨idle, rfl⟩ := output_frame stepped
    obtain ⟨q, inv⟩ := held.ring
    have addr : s.tx.currentTxBufferAddress = s.tx.base := inv.layout.addr _ inv.setLt
    exact held.move ring rfl rfl rfl ⟨short, guarded, 0, addr.trans (Nat.add_zero _).symm, rfl⟩
  | irq =>
    obtain ⟨tx, out, -⟩ := irqStmt_frame stepped
    exact held.elsewhere ring tx out
  | irqEnter =>
    obtain ⟨-, rfl⟩ := irqEnter_frame stepped
    exact held.elsewhere ring rfl rfl
  | pbufAlloc answer =>
    obtain ⟨frame, -, -, rfl⟩ := pbufAlloc_frame stepped
    exact held.elsewhere ring rfl rfl
  | netifInput err =>
    obtain ⟨filled, -, rfl⟩ := netifInput_frame stepped
    exact held.elsewhere ring rfl rfl
  | rxStore k byte | rxClose status | rxSuspend =>
    simp only [driver_step, Driver.step, Option.map_eq_some_iff] at stepped
    obtain ⟨rx, -, rfl⟩ := stepped
    exact held.elsewhere ring rfl rfl

end Carried

/-! ### Runs -/

theorem Carried.init {n : Nat} (pos : 0 < n) (memory : Memory) (rxBuffCount : Nat) :
    Carried n TxLog.empty SendLog.empty (Driver.init memory rxBuffCount n) where
  ring := TxAt.driver_init pos memory rxBuffCount
  clean := rfl
  counted := rfl
  aligned := rfl
  short := by simp [SendLog.empty]
  frames := by
    refine ⟨[], rfl, Holds.empty fun i inside => ?_⟩
    rw [frameCell_eq_none_iff]
    exact txOwned_init n memory.dmaTxDscrTab i inside
  sending := fun _ busy => by cases busy
  stored := trivial

theorem Carried.run {memory : Memory} {n m : Nat} (pos : 0 < m) {es : List DriverEvent}
    (short : ∀ e ∈ es, EthernetFrames e)
    (guarded : driver.Guarded bufferGuard (Driver.init memory n m) es)
    (ran : driver.run (Driver.init memory n m) es = some s) :
    Carried m (driver.log txHistory TxLog.empty (Driver.init memory n m) es)
      (driver.log SendLog.record SendLog.empty (Driver.init memory n m) es) s := by
  have held := driver.guarded_log_invariant (fun s e => EthernetFrames e ∧ bufferGuard s e)
    (fun (p : TxLog × SendLog) s e => (txHistory p.1 s e, p.2.record s e))
    (fun p s => Carried m p.1 p.2 s)
    (fun _ _ _ _ held allowed stepped => held.step allowed.1 allowed.2 stepped)
    (h := (TxLog.empty, SendLog.empty)) (Carried.init pos memory n) (guarded.and driver short) ran
  rwa [driver.log_prod] at held

/-! ### The first store into a buffer of the DMA -/

/-- Guarded steps lead from one log and state to another. -/
def Driver.Sends (sends : SendLog) (s : Driver) (sends' : SendLog) (t : Driver) : Prop :=
  driver.Leads SendLog.record EthernetFrames bufferGuard sends s sends' t

theorem Driver.Sends.thread {sends sends' : SendLog} {m : Driver} (stepped : s.threadStmt = some m)
    (rest : Driver.Sends (sends.record s .thread) m sends' t) : Driver.Sends sends s sends' t :=
  Lts.Leads.head (e := .thread) stepped trivial trivial rest

/-- The copy loop reaches the first byte of the chain, which is stored at the buffer's start. -/
private theorem first_store_clobbers {p : PbufChain} {buffer : Nat} (sends : SendLog)
    (rest : List (List UInt8)) (bytes : rest.flatten ≠ []) (copying : s.out = .copy p buffer rest)
    (owned : s.tx.ownsByte buffer = true) :
    ∃ sends' t, Driver.Sends sends s sends' t ∧ sends'.clobbered ≠ [] := by
  induction rest generalizing s with
  | nil => exact absurd rfl bytes
  | cons payload rest ih =>
    cases payload with
    | nil =>
      have stepped : s.threadStmt = some { s with out := .copy p buffer rest } := by
        simp only [Driver.threadStmt, copying]
      have recorded : sends.record s .thread = sends := by
        simp only [SendLog.record, copying]
      obtain ⟨sends', t, leads, clobbered⟩ := ih (s := { s with out := .copy p buffer rest })
        (by simpa using bytes) rfl owned
      exact ⟨sends', t, .thread stepped (recorded.symm ▸ leads), clobbered⟩
    | cons byte payload =>
      have stepped : s.threadStmt = some { s with
          tx := { s.tx with txBuff := Function.update s.tx.txBuff buffer byte }
          out := .copy p (buffer + 1) (payload :: rest) } := by
        simp only [Driver.threadStmt, copying]
      refine ⟨_, _, .thread stepped (.refl _ _), ?_⟩
      simp [SendLog.record, copying, owned]

/-- No byte is stored into a buffer of the DMA, and every frame sent is the chain for which its
descriptor was handed over, in the runs that give `low_level_output` no bytes while the
descriptor at `DMATxDescToSet` is owned by the DMA; one call that does is enough to store a byte
into a buffer of the DMA. -/
theorem buffers_kept_exactly_when_free (memory : Memory) (rxBuffCount txBuffCount : Nat)
    (pos : 0 < txBuffCount) :
    driver.ExactGuard (Driver.init memory rxBuffCount txBuffCount) EthernetFrames bufferGuard
      (fun es _ => BuffersKept (driver.log SendLog.record SendLog.empty
        (Driver.init memory rxBuffCount txBuffCount) es)) := by
  refine Lts.ExactGuard.of_leads driver SendLog.record (fun sends _ => BuffersKept sends) ?_ ?_
  · intro es s ran short guarded
    have held := Carried.run pos short guarded ran
    obtain ⟨fs, chains, -⟩ := held.frames
    exact ⟨held.clean, fs, chains.symm⟩
  · intro es e s t ran short guarded stepped unguarded
    have before : ∀ f ∈ es, EthernetFrames f := fun f member =>
      short f (List.mem_append_left _ member)
    have held := Carried.run pos before guarded ran
    cases e with
    | output p =>
      obtain ⟨idle, rfl⟩ := output_frame stepped
      simp only [bufferGuard, Classical.not_imp, Bool.not_eq_false] at unguarded
      obtain ⟨bytes, owned⟩ := unguarded
      obtain ⟨q, inv⟩ := held.ring
      have addr : s.tx.currentTxBufferAddress = s.tx.base := inv.layout.addr _ inv.setLt
      have there : s.tx.ownsByte s.tx.currentTxBufferAddress = true := by
        have start := s.tx.ownsByte_base (k := 0) (by decide)
        rw [Nat.add_zero, owned] at start
        rw [addr, start]
      obtain ⟨sends', u, leads, clobbered⟩ := first_store_clobbers
        (s := { s with out := .copy p s.tx.currentTxBufferAddress p.segments })
        _ p.segments bytes rfl there
      exact ⟨sends', u, leads, fun kept => clobbered kept.1⟩
    | _ => exact absurd trivial unguarded

theorem buffers_kept_exactly_when_free_here :
    driver.ExactGuard (Driver.init Memory.cleared ethRxBufNb ethTxBufNb) EthernetFrames bufferGuard
      (fun es _ => BuffersKept (driver.log SendLog.record SendLog.empty
        (Driver.init Memory.cleared ethRxBufNb ethTxBufNb) es)) :=
  buffers_kept_exactly_when_free Memory.cleared ethRxBufNb ethTxBufNb (by decide)

/-- A second chain of one byte, with other contents. -/
def otherByte : PbufChain := ⟨[[9]], by decide, by decide⟩

/-- Four calls, a fifth one up to its first store, and then the DMA sends its first frame. -/
def fifthOutput : List DriverEvent :=
  outputAlone oneByte ++ outputAlone oneByte ++ outputAlone oneByte ++ outputAlone oneByte ++
    [.output otherByte, .thread, .txFetch, .txRead, .txDone 0]

/-- The first frame goes out with the byte of the fifth chain. -/
theorem queued_frame_overwritten :
    (driver.run (Driver.init Memory.cleared ethRxBufNb ethTxBufNb) fifthOutput).isSome = true ∧
    (∀ e ∈ fifthOutput, EthernetFrames e) ∧
    ¬ BuffersKept (driver.log SendLog.record SendLog.empty
      (Driver.init Memory.cleared ethRxBufNb ethTxBufNb) fifthOutput) := by
  have sent : (driver.log SendLog.record SendLog.empty
      (Driver.init Memory.cleared ethRxBufNb ethTxBufNb) fifthOutput).sent = [[9]] := by
    decide +kernel
  have handed : (driver.log SendLog.record SendLog.empty
      (Driver.init Memory.cleared ethRxBufNb ethTxBufNb) fifthOutput).handed.map PbufChain.bytes =
        [[7], [7], [7], [7]] := by
    decide +kernel
  refine ⟨by decide +kernel, ?_, fun kept => ?_⟩
  · simp [fifthOutput, outputAlone, EthernetFrames, oneByte, otherByte, PbufChain.bytes]
  · have first := kept.2
    rw [sent, handed] at first
    exact absurd first (by decide)

end WchLwip
