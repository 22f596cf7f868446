import WchLwip.Model.Output
import WchLwip.Properties.Simulation

/-! What `ERR_OK` from `low_level_output` says about the transmit ring.

`low_level_output` drops the result of `ETH_TxPkt_ChainMode`, so it reports
success for a chain that was not handed over as well. -/
namespace WchLwip

open Mask

variable {s t : Driver}

/-! ### The function and its statements -/

/-- The thread alone gets from one state to the other. -/
def Driver.Threads (s t : Driver) : Prop :=
  ∃ k, driver.run s (List.replicate k .thread) = some t

theorem Driver.Threads.refl (s : Driver) : s.Threads s := ⟨0, rfl⟩

theorem Driver.Threads.head {m : Driver} (stepped : s.threadStmt = some m)
    (rest : m.Threads t) : s.Threads t := by
  obtain ⟨k, ran⟩ := rest
  exact ⟨k + 1, (driver.run_cons_iff _ _ _ _).mpr ⟨m, stepped, ran⟩⟩

/-- The copy loop stores the chain and goes on with the call. -/
theorem threads_copy (p : PbufChain) (rest : List (List UInt8)) (buffer : Nat) (s : Driver)
    (copying : s.out = .copy p buffer rest) :
    s.Threads { s with
      tx := { s.tx with txBuff := copyChain s.tx.txBuff buffer rest }
      out := .txPkt p .testOwn } := by
  -- an outer induction on the pbufs and an inner one on the bytes of a payload
  induction rest generalizing s buffer with
  | nil => exact .head (by simp only [Driver.threadStmt, copying]; rfl) (.refl _)
  | cons payload rest outer =>
    induction payload generalizing s buffer with
    | nil =>
      refine .head (m := { s with out := .copy p buffer rest }) ?_ (outer buffer _ rfl)
      simp only [Driver.threadStmt, copying]
    | cons byte bytes inner =>
      -- one byte is stored, and the rest of the payload from the next address on
      have chain : copyChain s.tx.txBuff buffer ((byte :: bytes) :: rest) =
          copyChain (Function.update s.tx.txBuff buffer byte) (buffer + 1) (bytes :: rest) := by
        simp only [copyChain, ByteMemory.write, List.length_cons]
        rw [Nat.add_assoc, Nat.add_comm 1]
      rw [chain]
      refine .head (m := { s with
        tx := { s.tx with txBuff := Function.update s.tx.txBuff buffer byte }
        out := .copy p (buffer + 1) (bytes :: rest) }) ?_ (inner (buffer + 1) _ rfl)
      simp only [Driver.threadStmt, copying]

/-- The cursor moves on, and the result of the call is dropped. -/
private theorem threads_advance (dmasr : Word) (rx : Rx) (tx : Tx) (irq : IrqPc) (p : PbufChain) :
    Driver.Threads ⟨dmasr, rx, tx, irq, .txPkt p .advance⟩
      ⟨dmasr, rx, { tx with dmaTxDescToSet := tx.toSet.buffer2NextDescAddr }, irq,
        .ret p errOk⟩ :=
  .head rfl (.head rfl (.refl _))

private theorem threads_testTbus (dmasr : Word) (rx : Rx) (tx : Tx) (irq : IrqPc)
    (p : PbufChain) :
    Driver.Threads ⟨dmasr, rx, tx, irq, .txPkt p .testTbus⟩
      ⟨if isSet dmasr ethDmasrTbus then writeOneToClear dmasr ethDmasrTbus else dmasr, rx,
        { (if isSet dmasr ethDmasrTbus then tx.writeDmatpdr else tx) with
          dmaTxDescToSet := tx.toSet.buffer2NextDescAddr }, irq, .ret p errOk⟩ := by
  by_cases raised : isSet dmasr ethDmasrTbus = true
  · have tested : Driver.threadStmt ⟨dmasr, rx, tx, irq, .txPkt p .testTbus⟩ =
        some ⟨dmasr, rx, tx, irq, .txPkt p .clearTbus⟩ := by
      simp only [Driver.threadStmt, ethTxPktChainMode, raised, if_true, Option.map_some]
    simp only [raised, if_true]
    exact .head tested (.head rfl (.head rfl (threads_advance _ rx tx.writeDmatpdr irq p)))
  · have tested : Driver.threadStmt ⟨dmasr, rx, tx, irq, .txPkt p .testTbus⟩ =
        some ⟨dmasr, rx, tx, irq, .txPkt p .advance⟩ := by
      simp only [Driver.threadStmt, ethTxPktChainMode, raised, if_false, Bool.false_eq_true,
        Option.map_some]
    simp only [raised, if_false, Bool.false_eq_true]
    exact .head tested (threads_advance dmasr rx tx irq p)

theorem threads_txPkt (p : PbufChain) (s : Driver) (calling : s.out = .txPkt p .testOwn) :
    s.Threads { s with
      dmasr := (ethTxPkt p.totLen s.dmasr s.tx).1
      tx := (ethTxPkt p.totLen s.dmasr s.tx).2.1
      out := .ret p errOk } := by
  obtain ⟨dmasr, rx, tx, irq, out⟩ := s
  cases calling
  unfold ethTxPkt
  by_cases owned : isSet tx.toSet.status ethDmaTxDescOwn = true
  · have tested : Driver.threadStmt ⟨dmasr, rx, tx, irq, .txPkt p .testOwn⟩ =
        some ⟨dmasr, rx, tx, irq, .txPkt p (.ret ethError)⟩ := by
      simp only [Driver.threadStmt, ethTxPktChainMode, owned, if_true, Option.map_some]
    simp only [owned, if_true]
    exact .head tested (.head rfl (.refl _))
  · have tested : Driver.threadStmt ⟨dmasr, rx, tx, irq, .txPkt p .testOwn⟩ =
        some ⟨dmasr, rx, tx, irq, .txPkt p .setSize⟩ := by
      simp only [Driver.threadStmt, ethTxPktChainMode, owned, if_false, Bool.false_eq_true,
        Option.map_some]
    have prepared := Driver.Threads.head tested
      (.head rfl (.head rfl (.head rfl (threads_testTbus dmasr rx _ irq p))))
    simp only [owned, if_false, Bool.false_eq_true]
    by_cases raised : isSet dmasr ethDmasrTbus = true
    · simp only [raised, if_true] at prepared ⊢
      exact prepared
    · simp only [raised, if_false, Bool.false_eq_true] at prepared ⊢
      exact prepared

theorem Driver.Threads.trans {m : Driver} (first : s.Threads m) (second : m.Threads t) :
    s.Threads t := by
  obtain ⟨j, ran⟩ := first
  obtain ⟨k, ran'⟩ := second
  refine ⟨j + k, ?_⟩
  rw [List.replicate_add]
  exact (driver.run_append_iff _ _ _ _).mpr ⟨m, ran, ran'⟩

/-- The statements of an undisturbed call compute `lowLevelOutput`. -/
theorem lowLevelOutput_runs (p : PbufChain) (s : Driver) (idle : s.out = .idle) :
    ∃ k, driver.run s (.output p :: List.replicate k .thread) =
      some { s with
        dmasr := (lowLevelOutput s.dmasr s.tx p).1
        tx := (lowLevelOutput s.dmasr s.tx p).2.1 } := by
  have called : driver.step s (.output p) =
      some { s with out := .copy p s.tx.currentTxBufferAddress p.segments } := by
    simp only [driver_step, Driver.step, Driver.output, idle]
  have copied := threads_copy p p.segments s.tx.currentTxBufferAddress
    { s with out := .copy p s.tx.currentTxBufferAddress p.segments } rfl
  have sent := copied.trans (threads_txPkt p _ rfl)
  have returned := sent.trans (.head rfl (.refl _))
  obtain ⟨k, ran⟩ := returned
  refine ⟨k, (driver.run_cons_iff _ _ _ _).mpr ⟨_, called, ran.trans ?_⟩⟩
  rw [← idle]
  rfl

/-! ### One call -/

/-- One descriptor, and no other, was handed to the DMA for the chain. -/
structure HandedOver (n : Nat) (tx tx' : Tx) (p : PbufChain) : Prop where
  one : ∀ i < n, (txOwned tx.dmaTxDscrTab i = false ∧ txOwned tx'.dmaTxDscrTab i = true) ↔
    i = tx.dmaTxDescToSet
  kept : ∀ i, i ≠ tx.dmaTxDescToSet → tx'.dmaTxDscrTab i = tx.dmaTxDscrTab i
  first : isSet (tx'.dmaTxDscrTab tx.dmaTxDescToSet).status ethDmaTxDescFs = true
  last : isSet (tx'.dmaTxDscrTab tx.dmaTxDescToSet).status ethDmaTxDescLs = true
  size : (tx'.dmaTxDscrTab tx.dmaTxDescToSet).txBytes = p.bytes.length

/-- `ERR_OK` only for a chain that was handed over, and an error that changes nothing when no
descriptor is free. -/
def TruthfulOutput (n : Nat) (dmasr : Word) (tx : Tx) (p : PbufChain) : Prop :=
  let (_, tx', err) := lowLevelOutput dmasr tx p
  (err = errOk → HandedOver n tx tx' p) ∧
  (tx.full n → err ≠ errOk ∧ tx'.dmaTxDscrTab = tx.dmaTxDscrTab ∧ tx'.txBuff = tx.txBuff ∧
    tx'.dmaTxDescToSet = tx.dmaTxDescToSet)

/-- The descriptor that a successful call hands over. -/
def handedDesc (frameLength : BitVec 16) (desc : EthDmaDesc) : EthDmaDesc :=
  { desc with
    status := desc.status |||
      (ethDmaTxDescLs ||| ethDmaTxDescFs ||| ethDmaTxDescCicTcpUdpIcmpFull) ||| ethDmaTxDescOwn
    controlBufferSize := txSize frameLength }

theorem ethTxPkt_free {frameLength : BitVec 16} {dmasr : Word} {tx : Tx}
    (free : isSet tx.toSet.status ethDmaTxDescOwn = false) :
    (ethTxPkt frameLength dmasr tx).2.1.dmaTxDscrTab =
      Function.update tx.dmaTxDscrTab tx.dmaTxDescToSet (handedDesc frameLength tx.toSet) := by
  unfold ethTxPkt
  rw [free]
  simp only [Bool.false_eq_true, if_false]
  split <;> simp [Tx.writeToSet, Tx.toSet, handedDesc]

theorem PbufChain.totLen_toNat (p : PbufChain) : p.totLen.toNat = p.bytes.length := by
  rw [totLen, BitVec.toNat_ofNat]
  exact Nat.mod_eq_of_lt p.small

theorem handedDesc_bits (frameLength : BitVec 16) (desc : EthDmaDesc) :
    isSet (handedDesc frameLength desc).status ethDmaTxDescOwn = true ∧
      isSet (handedDesc frameLength desc).status ethDmaTxDescFs = true ∧
      isSet (handedDesc frameLength desc).status ethDmaTxDescLs = true := by
  refine ⟨isSet_or_self _ _ (by decide), ?_, ?_⟩ <;>
    exact isSet_or_left _ _ _ (isSet_or_within _ _ _ (by decide) (by decide))

theorem handedOver_of_free {n : Nat} {dmasr : Word} {tx : Tx} {p : PbufChain}
    (frame : p.bytes.length ≤ 1514)
    (free : isSet tx.toSet.status ethDmaTxDescOwn = false) :
    HandedOver n tx (lowLevelOutput dmasr tx p).2.1 p := by
  have table : (lowLevelOutput dmasr tx p).2.1.dmaTxDscrTab =
      Function.update tx.dmaTxDscrTab tx.dmaTxDescToSet (handedDesc p.totLen tx.toSet) :=
    ethTxPkt_free free
  obtain ⟨own, first, last⟩ := handedDesc_bits p.totLen tx.toSet
  have there : (lowLevelOutput dmasr tx p).2.1.dmaTxDscrTab tx.dmaTxDescToSet =
      handedDesc p.totLen tx.toSet := by
    rw [table, Function.update_self]
  have elsewhere (i : Nat) (other : i ≠ tx.dmaTxDescToSet) :
      (lowLevelOutput dmasr tx p).2.1.dmaTxDscrTab i = tx.dmaTxDscrTab i := by
    rw [table, Function.update_of_ne other]
  refine ⟨fun i _ => ⟨fun ⟨before, after⟩ => ?_, ?_⟩, elsewhere, ?_, ?_, ?_⟩
  · by_contra other
    rw [txOwned, elsewhere i other] at after
    exact Bool.false_ne_true (before.symm.trans after)
  · rintro rfl
    refine ⟨free, ?_⟩
    rw [txOwned, there]
    exact own
  · rw [there]
    exact first
  · rw [there]
    exact last
  · rw [there, txBytes_of_txSize rfl, p.totLen_toNat]
    exact Nat.mod_eq_of_lt (by omega)

/-- A call is truthful exactly when the descriptor at `DMATxDescToSet` is free. -/
theorem truthfulOutput_iff {n : Nat} {log : TxLog} {q : List Word} {dmasr : Word} {tx : Tx}
    {p : PbufChain} (inv : TxAt n log q ⟨tx, none⟩) (frame : p.bytes.length ≤ 1514) :
    TruthfulOutput n dmasr tx p ↔ isSet tx.toSet.status ethDmaTxDescOwn = false := by
  have full_iff : isSet tx.toSet.status ethDmaTxDescOwn = true ↔ tx.full n := inv.own_iff_full rfl
  constructor
  · -- on a full ring the answer would have to be an error, and it is `ERR_OK`
    rintro ⟨-, refused⟩
    rw [Bool.eq_false_iff]
    intro owned
    exact (refused (full_iff.mp owned)).1 rfl
  · intro free
    refine ⟨fun _ => handedOver_of_free frame free, fun full => ?_⟩
    exact absurd (free.symm.trans (full_iff.mpr full)) Bool.false_ne_true

/-! ### The calls of a run -/

/-- The check of `ETH_TxPkt_ChainMode` finds a free descriptor. -/
def acceptGuard (s : Driver) : DriverEvent → Bool
  | .thread =>
    match s.out with
    | .txPkt _ .testOwn => !isSet s.tx.toSet.status ethDmaTxDescOwn
    | _ => true
  | _ => true

/-- The chain of a call that passed the point where it hands over or fails, and that is still
to be acknowledged. -/
def OutPc.unreturned : OutPc → List PbufChain
  | .txPkt p .testTbus | .txPkt p .clearTbus | .txPkt p .pollDemand | .txPkt p .advance
  | .txPkt p (.ret _) | .ret p _ => [p]
  | _ => []

/-- The chains handed over and acknowledged, after `refused` calls found the ring full. -/
structure Acknowledged (log : SendLog) (refused : Nat) (out : OutPc) : Prop where
  okay : ∀ p err, out = .ret p err → err = errOk
  count : log.handed.length + refused = log.acked.length + out.unreturned.length
  exact : refused = 0 → log.handed = log.acked ++ out.unreturned

/-- Copying a byte hands over and acknowledges nothing. -/
theorem SendLog.record_copy (log : SendLog) {p : PbufChain} {buffer : Nat}
    {rest : List (List UInt8)} (copying : s.out = .copy p buffer rest) :
    (log.record s .thread).handed = log.handed ∧ (log.record s .thread).acked = log.acked ∧
      (log.record s .thread).sent = log.sent := by
  simp only [SendLog.record, copying]
  rcases rest with _ | ⟨_ | ⟨byte, bytes⟩, rest⟩
  · exact ⟨rfl, rfl, rfl⟩
  · exact ⟨rfl, rfl, rfl⟩
  · by_cases owned : s.tx.ownsByte buffer = true <;> simp [owned]

section Acknowledged

variable {log log' : SendLog} {refused : Nat}

/-- A statement that hands nothing over and acknowledges nothing. -/
private theorem Acknowledged.keep {out out' : OutPc} (held : Acknowledged log refused out)
    (handed : log'.handed = log.handed) (acked : log'.acked = log.acked)
    (same : out'.unreturned = out.unreturned) (okay : ∀ p err, out' = .ret p err → err = errOk) :
    Acknowledged log' refused out' where
  okay := okay
  count := by
    rw [handed, acked, same]
    exact held.count
  exact none_refused := by
    rw [handed, acked, same]
    exact held.exact none_refused

/-- Every way through a call ends with one acknowledgement; a full ring skips the hand-over. -/
private theorem acknowledged_txPkt {p : PbufChain} {pc : TxPc} (running : s.out = .txPkt p pc)
    (held : Acknowledged log refused s.out) (stepped : s.threadStmt = some t) :
    Acknowledged (log.record s .thread)
      (Lts.countMiss (fun s e => acceptGuard s e = true) refused s .thread) t.out := by
  obtain ⟨dmasr, rx, tx, irq, out⟩ := s
  cases running
  cases pc with
  | testOwn =>
    simp only [Driver.threadStmt, ethTxPktChainMode, Option.map_eq_some_iff] at stepped
    obtain ⟨result, ran, rfl⟩ := stepped
    have count : log.handed.length + refused = log.acked.length := held.count
    by_cases owned : isSet tx.toSet.status ethDmaTxDescOwn = true
    · -- a full ring: the call ends without handing over, and is acknowledged all the same
      simp only [owned, if_true, Option.some.injEq] at ran
      subst ran
      simp only [Lts.countMiss, acceptGuard, owned, Bool.not_true, Bool.false_eq_true, if_false]
      refine ⟨(fun _ _ same => by cases same), ?_, fun none_refused => ?_⟩
      · simp only [SendLog.record, OutPc.unreturned, List.length_singleton]
        omega
      · exact absurd none_refused (Nat.succ_ne_zero refused)
    · simp only [owned, if_false, Bool.false_eq_true, Option.some.injEq] at ran
      subst ran
      simp only [Lts.countMiss, acceptGuard, Bool.eq_false_iff.mpr owned, Bool.not_false, if_true]
      exact held.keep rfl rfl rfl fun _ _ same => by cases same
  | setOwn =>
    cases stepped
    have count : log.handed.length + refused = log.acked.length := held.count
    refine ⟨(fun _ _ same => by cases same), ?_, fun none_refused => ?_⟩
    · simp [SendLog.record, OutPc.unreturned, Lts.countMiss, acceptGuard]
      omega
    · have before : log.handed = log.acked ++ [] := held.exact none_refused
      simp [SendLog.record, OutPc.unreturned, before]
  | testTbus =>
    simp only [Driver.threadStmt, ethTxPktChainMode, Option.map_eq_some_iff] at stepped
    obtain ⟨result, ran, rfl⟩ := stepped
    split at ran <;> cases ran <;> exact held.keep rfl rfl rfl fun _ _ same => by cases same
  | ret status =>
    cases stepped
    exact held.keep rfl rfl rfl fun _ _ same => by cases same; rfl
  | setSize | setSegments | clearTbus | pollDemand | advance =>
    cases stepped
    exact held.keep rfl rfl rfl fun _ _ same => by cases same

private theorem acknowledged_thread (held : Acknowledged log refused s.out)
    (stepped : s.threadStmt = some t) :
    Acknowledged (log.record s .thread)
      (Lts.countMiss (fun s e => acceptGuard s e = true) refused s .thread) t.out := by
  cases out : s.out with
  | txPkt p pc => exact acknowledged_txPkt out held stepped
  | idle => simp [Driver.threadStmt, out] at stepped
  | copy p buffer rest =>
    obtain ⟨handed, acked, -⟩ := log.record_copy out
    obtain ⟨dmasr, rx, tx, irq, _⟩ := s
    cases out
    rcases rest with _ | ⟨_ | ⟨byte, bytes⟩, rest⟩ <;>
    · cases stepped
      exact held.keep handed acked rfl fun _ _ same => by cases same
  | ret p err =>
    obtain ⟨dmasr, rx, tx, irq, _⟩ := s
    cases out
    obtain rfl : err = errOk := held.okay p err rfl
    cases stepped
    have count : log.handed.length + refused = log.acked.length + 1 := held.count
    refine ⟨(fun _ _ same => by cases same), ?_, fun none_refused => ?_⟩
    · simp [SendLog.record, OutPc.unreturned, Lts.countMiss, acceptGuard]
      omega
    · have before : log.handed = log.acked ++ [p] := held.exact none_refused
      simp [SendLog.record, OutPc.unreturned, before]

theorem Acknowledged.step {e : DriverEvent} (held : Acknowledged log refused s.out)
    (stepped : driver.step s e = some t) :
    Acknowledged (log.record s e) (Lts.countMiss (fun s e => acceptGuard s e = true) refused s e)
      t.out := by
  cases e with
  | thread => exact acknowledged_thread held stepped
  | irq =>
    obtain ⟨-, out, -⟩ := irqStmt_frame stepped
    rw [out]
    exact held
  | irqEnter =>
    obtain ⟨-, rfl⟩ := irqEnter_frame stepped
    exact held
  | pbufAlloc answer =>
    obtain ⟨frame, -, -, rfl⟩ := pbufAlloc_frame stepped
    exact held
  | netifInput err =>
    obtain ⟨filled, -, rfl⟩ := netifInput_frame stepped
    exact held
  | output p =>
    obtain ⟨idle, rfl⟩ := output_frame stepped
    rw [idle] at held
    exact held.keep rfl rfl rfl fun _ _ same => by cases same
  | txDone report =>
    obtain ⟨tx, done, rfl⟩ := txDone_frame stepped
    have same_chains : (log.record s (.txDone report)).handed = log.handed ∧
        (log.record s (.txDone report)).acked = log.acked := by
      simp only [SendLog.record]
      split <;> exact ⟨rfl, rfl⟩
    exact held.keep same_chains.1 same_chains.2 rfl held.okay
  | rxStore k byte | rxClose status | rxSuspend | txFetch | txRead =>
    simp only [driver_step, Driver.step, Option.map_eq_some_iff] at stepped
    obtain ⟨half, -, rfl⟩ := stepped
    exact held

end Acknowledged

theorem Acknowledged.run {memory : Memory} {n m : Nat} {es : List DriverEvent}
    (ran : driver.run (Driver.init memory n m) es = some s) :
    Acknowledged (driver.log SendLog.record SendLog.empty (Driver.init memory n m) es)
      (driver.outside (fun s e => acceptGuard s e = true) (Driver.init memory n m) es) s.out := by
  have start : Acknowledged SendLog.empty 0 (Driver.init memory n m).out :=
    ⟨(fun _ _ same => by cases same), rfl, fun _ => rfl⟩
  have held := driver.log_invariant
    (fun (p : SendLog × Nat) s e => (p.1.record s e,
      Lts.countMiss (fun s e => acceptGuard s e = true) p.2 s e))
    (fun p s => Acknowledged p.1 p.2 s.out) (fun _ _ _ _ held stepped => held.step stepped)
    (h := (SendLog.empty, 0)) start ran
  rwa [driver.log_prod] at held

/-- In every reachable state between calls, a call is truthful exactly when the descriptor at
`DMATxDescToSet` is free; and the chains handed over so far are the chains acknowledged, in
order, exactly when every check so far found a free descriptor. -/
theorem output_truthful_exactly_when_free (memory : Memory) (rxBuffCount txBuffCount : Nat)
    (pos : 0 < txBuffCount) (es : List DriverEvent) (s : Driver)
    (ran : driver.run (Driver.init memory rxBuffCount txBuffCount) es = some s)
    (idle : s.out = .idle) :
    (∀ p : PbufChain, p.bytes.length ≤ 1514 →
      (TruthfulOutput txBuffCount s.dmasr s.tx p ↔
        isSet s.tx.toSet.status ethDmaTxDescOwn = false)) ∧
    ((driver.log SendLog.record SendLog.empty
        (Driver.init memory rxBuffCount txBuffCount) es).handed =
      (driver.log SendLog.record SendLog.empty
        (Driver.init memory rxBuffCount txBuffCount) es).acked ↔
      driver.Guarded (fun s e => acceptGuard s e = true)
        (Driver.init memory rxBuffCount txBuffCount) es) := by
  constructor
  · intro p frame
    obtain ⟨q, inv⟩ := TxAt.driver_run pos ran
    rw [Driver.txRing, idle] at inv
    exact truthfulOutput_iff inv frame
  · -- each refused call is acknowledged too, so the two counts differ by their number
    have held := Acknowledged.run ran
    have count := held.count
    rw [idle] at held count
    rw [← driver.outside_eq_zero_iff _ ran]
    constructor
    · intro same
      rw [same] at count
      simp only [OutPc.unreturned, List.length_nil] at count
      omega
    · intro none_refused
      have exact := held.exact none_refused
      simpa [OutPc.unreturned] using exact

/-- A chain of one byte. -/
def oneByte : PbufChain := ⟨[[7]], by decide, by decide⟩

/-- One undisturbed call of `low_level_output`, in a state where `TBUS` is clear. -/
def outputAlone (p : PbufChain) : List DriverEvent := .output p :: List.replicate 11 .thread

theorem output_truthful_exactly_when_free_here : ∃ s,
    driver.run (Driver.init Memory.cleared ethRxBufNb ethTxBufNb) (outputAlone oneByte) = some s ∧
    (∀ p : PbufChain, p.bytes.length ≤ 1514 →
      (TruthfulOutput ethTxBufNb s.dmasr s.tx p ↔
        isSet s.tx.toSet.status ethDmaTxDescOwn = false)) ∧
    ((driver.log SendLog.record SendLog.empty (Driver.init Memory.cleared ethRxBufNb ethTxBufNb)
        (outputAlone oneByte)).handed =
      (driver.log SendLog.record SendLog.empty (Driver.init Memory.cleared ethRxBufNb ethTxBufNb)
        (outputAlone oneByte)).acked ↔
      driver.Guarded (fun s e => acceptGuard s e = true)
        (Driver.init Memory.cleared ethRxBufNb ethTxBufNb) (outputAlone oneByte)) := by
  have reached : (driver.run (Driver.init Memory.cleared ethRxBufNb ethTxBufNb)
      (outputAlone oneByte)).any (fun s => (s.output oneByte).isSome) = true := by
    decide +kernel
  obtain ⟨s, ran, ready⟩ := (Option.any_eq_true ..).mp reached
  -- the next call is only taken up between calls
  obtain ⟨t, called⟩ := Option.isSome_iff_exists.mp ready
  obtain ⟨idle, -⟩ := output_frame called
  exact ⟨s, ran, output_truthful_exactly_when_free _ _ _ (by decide) _ _ ran idle⟩

/-- After four calls that the DMA did not keep up with, the fifth one reports `ERR_OK` for a
chain that is not handed over. -/
theorem full_ring_acknowledged : ∃ s,
    driver.run (Driver.init Memory.cleared ethRxBufNb ethTxBufNb)
      (outputAlone oneByte ++ outputAlone oneByte ++ outputAlone oneByte ++ outputAlone oneByte) =
        some s ∧
    ¬ TruthfulOutput ethTxBufNb s.dmasr s.tx oneByte := by
  have reached : (driver.run (Driver.init Memory.cleared ethRxBufNb ethTxBufNb)
      (outputAlone oneByte ++ outputAlone oneByte ++ outputAlone oneByte ++ outputAlone oneByte)).any
      (fun s => ∀ i < ethTxBufNb, txOwned s.tx.dmaTxDscrTab i = true) = true := by
    decide +kernel
  obtain ⟨s, ran, full⟩ := (Option.any_eq_true ..).mp reached
  have full : ∀ i < ethTxBufNb, txOwned s.tx.dmaTxDscrTab i = true := of_decide_eq_true full
  exact ⟨s, ran, fun truthful => (truthful.2 full).1 rfl⟩

end WchLwip
