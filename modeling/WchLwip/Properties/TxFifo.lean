import WchLwip.Library.RingQueue
import WchLwip.Model.TxRing

/-! The transmit ring is a bounded FIFO.

The descriptors handed to the DMA are those it is done with followed by a queue
of size fields, and the ring holds that queue from the position of the DMA. A
call is between its check and the write of `OWN` while it prepares a descriptor,
and one descriptor behind the queue from there until it advances the cursor. -/
namespace WchLwip

open Mask RingQueue

/-! ### What a step of the DMA does -/

theorem Tx.dmaFetch_frame {tx tx' : Tx} (fetched : tx.dmaFetch = some tx') :
    tx.dma = .ready ∧
      tx' = { tx with
        dma := if isSet tx.atDma.status ethDmaTxDescOwn then .busy [] else .suspended } := by
  simp only [Tx.dmaFetch] at fetched
  split at fetched <;> cases fetched
  next ready => exact ⟨ready, rfl⟩

theorem Tx.dmaRead_frame {tx tx' : Tx} (read : tx.dmaRead = some tx') :
    ∃ sent, tx.dma = .busy sent ∧ sent.length < tx.atDma.txBytes ∧
      tx' = { tx with
        dma := .busy (sent ++ [tx.txBuff (tx.atDma.buffer1Addr + sent.length)]) } := by
  simp only [Tx.dmaRead] at read
  split at read
  next sent busy =>
    split at read <;> cases read
    next more => exact ⟨sent, busy, more, rfl⟩
  next => cases read

theorem Tx.dmaDone_frame {tx tx' : Tx} {report : Word} (done : tx.dmaDone report = some tx') :
    ∃ sent, tx.dma = .busy sent ∧ sent.length = tx.atDma.txBytes ∧
      tx' = { tx with
        dmaTxDscrTab := Function.update tx.dmaTxDscrTab tx.dmaPos
          { tx.atDma with status := writtenBack tx.atDma.status report }
        dmaPos := tx.atDma.buffer2NextDescAddr
        dma := .ready } := by
  simp only [Tx.dmaDone] at done
  split at done
  next sent busy =>
    split at done <;> cases done
    next complete => exact ⟨sent, busy, complete, rfl⟩
  next => cases done

/-! ### The ring as a queue of size fields -/

def txOwned (tab : DescTab) (i : Nat) : Bool := isSet (tab i).status ethDmaTxDescOwn

/-- A descriptor that the DMA owns holds its size field. -/
def txCell (tab : DescTab) (i : Nat) : Option Word :=
  if txOwned tab i then some (tab i).controlBufferSize else none

/-- What the initialiser wrote into the `n` descriptors and everything later preserves. -/
structure TxLayout (n : Nat) (tab : DescTab) : Prop where
  next : ∀ i < n, (tab i).buffer2NextDescAddr = (i + 1) % n
  addr : ∀ i < n, (tab i).buffer1Addr = i * ethMaxPacketSize
  chained : ∀ i < n, isSet (tab i).status ethDmaTxDescTch = true
  interrupt : ∀ i < n, isSet (tab i).status ethDmaTxDescIc = true

/-- The descriptors handed over carry a whole frame each. -/
def TxFramed (n : Nat) (tab : DescTab) : Prop :=
  ∀ i < n, txOwned tab i = true →
    isSet (tab i).status ethDmaTxDescFs = true ∧ isSet (tab i).status ethDmaTxDescLs = true

theorem txCell_eq_none_iff (tab : DescTab) (i : Nat) :
    txCell tab i = none ↔ txOwned tab i = false := by
  unfold txCell
  split <;> simp_all

theorem txCell_congr {tab tab' : DescTab} {i : Nat} (same : tab' i = tab i) :
    txCell tab' i = txCell tab i := by
  rw [txCell, txCell, txOwned, txOwned, same]

theorem txOwned_init (n : Nat) (tab : DescTab) (i : Nat) (inside : i < n) :
    txOwned (initChain n (txChainEntry n) tab) i = false := by
  have clear : isSet (ethDmaTxDescTch ||| ethDmaTxDescIc) ethDmaTxDescOwn = false := by decide
  rw [txOwned, initChain_apply, if_pos inside]
  exact clear

theorem TxLayout.init (n : Nat) (tab : DescTab) : TxLayout n (initChain n (txChainEntry n) tab) where
  next i inside := by
    rw [initChain_apply, if_pos inside]
    exact nextDesc_eq n i inside
  addr i inside := by
    rw [initChain_apply, if_pos inside]
    rfl
  chained i inside := by
    have set : isSet (ethDmaTxDescTch ||| ethDmaTxDescIc) ethDmaTxDescTch = true := by decide
    rw [initChain_apply, if_pos inside]
    exact set
  interrupt i inside := by
    have set : isSet (ethDmaTxDescTch ||| ethDmaTxDescIc) ethDmaTxDescIc = true := by decide
    rw [initChain_apply, if_pos inside]
    exact set

/-- Writing the size or the status of a descriptor keeps the layout if the two bits survive. -/
theorem TxLayout.write {n : Nat} {tab : DescTab} (layout : TxLayout n tab) (k : Nat)
    (status size : Word)
    (chained : isSet (tab k).status ethDmaTxDescTch = true → isSet status ethDmaTxDescTch = true)
    (interrupt : isSet (tab k).status ethDmaTxDescIc = true → isSet status ethDmaTxDescIc = true) :
    TxLayout n (Function.update tab k
      { tab k with status := status, controlBufferSize := size }) where
  next i inside := by
    by_cases same : i = k
    · subst same
      simpa using layout.next i inside
    · simpa [Function.update_of_ne same] using layout.next i inside
  addr i inside := by
    by_cases same : i = k
    · subst same
      simpa using layout.addr i inside
    · simpa [Function.update_of_ne same] using layout.addr i inside
  chained i inside := by
    by_cases same : i = k
    · subst same
      simpa using chained (layout.chained i inside)
    · simpa [Function.update_of_ne same] using layout.chained i inside
  interrupt i inside := by
    by_cases same : i = k
    · subst same
      simpa using interrupt (layout.interrupt i inside)
    · simpa [Function.update_of_ne same] using layout.interrupt i inside

theorem TxFramed.write {n : Nat} {tab : DescTab} (framed : TxFramed n tab) (k : Nat) (desc : EthDmaDesc)
    (whole : isSet desc.status ethDmaTxDescOwn = true →
      isSet desc.status ethDmaTxDescFs = true ∧ isSet desc.status ethDmaTxDescLs = true) :
    TxFramed n (Function.update tab k desc) := by
  intro i inside owned
  by_cases same : i = k
  · subst same
    simpa using whole (by simpa [txOwned] using owned)
  · simpa [Function.update_of_ne same] using
      framed i inside (by simpa [txOwned, Function.update_of_ne same] using owned)

/-- Writing a descriptor that the CPU owns and keeps hands nothing over. -/
theorem txCell_prepare {tab : DescTab} {k : Nat} {desc : EthDmaDesc}
    (cpu : txOwned tab k = false) (kept : isSet desc.status ethDmaTxDescOwn = false) :
    txCell (Function.update tab k desc) = txCell tab := by
  funext i
  by_cases same : i = k
  · subst same
    simp only [txCell, txOwned, Function.update_self, kept] at cpu ⊢
    simp [cpu]
  · exact txCell_congr (Function.update_of_ne same _ _)

theorem txCell_hand (tab : DescTab) (k : Nat) :
    txCell (Function.update tab k
      { tab k with status := (tab k).status ||| ethDmaTxDescOwn }) =
    Function.update (txCell tab) k (some (tab k).controlBufferSize) := by
  funext i
  by_cases same : i = k
  · subst same
    simp [txCell, txOwned, isSet_or_self _ ethDmaTxDescOwn (by decide)]
  · rw [Function.update_of_ne same]
    exact txCell_congr (Function.update_of_ne same _ _)

theorem isSet_writtenBack_own (status report : Word) :
    isSet (writtenBack status report) ethDmaTxDescOwn = false :=
  isSet_writeOneToClear_self _ _

/-- The DMA preserves the control bits. -/
theorem isSet_writtenBack (status report mask : Word) (control : mask &&& txControlBits = mask)
    (other : ethDmaTxDescOwn &&& mask = 0) :
    isSet (writtenBack status report) mask = isSet status mask := by
  rw [writtenBack, isSet_writeOneToClear_disjoint _ _ _ other,
    isSet_merge_within _ _ _ _ control]

theorem txCell_done (tab : DescTab) (k : Nat) (report : Word) :
    txCell (Function.update tab k
      { tab k with status := writtenBack (tab k).status report }) =
    Function.update (txCell tab) k none := by
  funext i
  by_cases same : i = k
  · subst same
    simp [txCell, txOwned, isSet_writtenBack_own]
  · rw [Function.update_of_ne same]
    exact txCell_congr (Function.update_of_ne same _ _)

/-! ### The invariant -/

/-- A call between setting `OWN` and advancing the cursor. -/
def TxCall.behind : Option TxCall → Nat
  | some ⟨_, .testTbus⟩ | some ⟨_, .clearTbus⟩ | some ⟨_, .pollDemand⟩ | some ⟨_, .advance⟩ => 1
  | _ => 0

/-- A call that passed its check and did not set `OWN` yet. -/
def TxCall.preparing : Option TxCall → Prop
  | some ⟨_, .setSize⟩ | some ⟨_, .setSegments⟩ | some ⟨_, .setOwn⟩ => True
  | _ => False

/-- What a call that prepares the descriptor `desc` has written into it so far. -/
def TxCall.wrote (desc : EthDmaDesc) : Option TxCall → Prop
  | some ⟨frameLength, .setSegments⟩ => desc.controlBufferSize = txSize frameLength
  | some ⟨frameLength, .setOwn⟩ =>
    desc.controlBufferSize = txSize frameLength ∧
      isSet desc.status ethDmaTxDescFs = true ∧ isSet desc.status ethDmaTxDescLs = true
  | _ => True

/-- The argument of a call that set `OWN` and has not returned. -/
def TxCall.passed : Option TxCall → List (BitVec 16)
  | some ⟨frameLength, .testTbus⟩ | some ⟨frameLength, .clearTbus⟩
  | some ⟨frameLength, .pollDemand⟩ | some ⟨frameLength, .advance⟩ => [frameLength]
  | some ⟨frameLength, .ret status⟩ => if status = ethSuccess then [frameLength] else []
  | _ => []

/-- The number of descriptors that the DMA took up and is not done with. -/
def TxDma.holding : TxDma → Nat
  | .busy _ => 1
  | _ => 0

structure TxAt (n : Nat) (log : TxLog) (q : List Word) (s : TxRing) : Prop where
  pos : 0 < n
  layout : TxLayout n s.tx.dmaTxDscrTab
  framed : TxFramed n s.tx.dmaTxDscrTab
  handed : log.handed = log.done ++ q
  holds : Holds n (txCell s.tx.dmaTxDscrTab) log.done.length q
  dma : s.tx.dmaPos = log.done.length % n
  setLt : s.tx.dmaTxDescToSet < n
  set : (s.tx.dmaTxDescToSet + TxCall.behind s.call) % n = log.handed.length % n
  room : TxCall.preparing s.call → q.length < n
  wrote : TxCall.wrote s.tx.toSet s.call
  taken : log.taken = log.done ++ q.take s.tx.dma.holding
  busy : s.tx.dma.holding ≤ q.length
  succeeded : log.handed = (log.succeeded ++ TxCall.passed s.call).map txSize

theorem TxAt.init {n : Nat} (pos : 0 < n) (tab : DescTab) (txBuff : Bytes) :
    TxAt n TxLog.empty [] (TxRing.init tab txBuff n) where
  pos := pos
  layout := TxLayout.init n tab
  framed i inside owned := by
    have free := txOwned_init n tab i inside
    exact absurd (free.symm.trans owned) Bool.false_ne_true
  handed := rfl
  holds := Holds.empty fun i inside => (txCell_eq_none_iff _ i).mpr (txOwned_init n tab i inside)
  dma := (Nat.zero_mod n).symm
  setLt := pos
  set := rfl
  room := False.elim
  wrote := trivial
  taken := rfl
  busy := Nat.le_refl 0
  succeeded := rfl

section Invariant

variable {n : Nat} {log : TxLog} {q : List Word} {s t : TxRing}

theorem TxAt.dmaLt (inv : TxAt n log q s) : s.tx.dmaPos < n := by
  rw [inv.dma]
  exact Nat.mod_lt _ inv.pos

/-- Outside the gap the cursor names the descriptor after the queue. -/
theorem TxAt.set_eq (inv : TxAt n log q s) (caught : TxCall.behind s.call = 0) :
    s.tx.dmaTxDescToSet = (log.done.length + q.length) % n := by
  have cursor := inv.set
  rwa [caught, Nat.add_zero, Nat.mod_eq_of_lt inv.setLt, inv.handed,
    List.length_append] at cursor

/-- One test of the cursor stands for the whole ring. -/
theorem TxAt.own_iff_full (inv : TxAt n log q s) (caught : TxCall.behind s.call = 0) :
    isSet s.tx.toSet.status ethDmaTxDescOwn = true ↔
      ∀ i < n, txOwned s.tx.dmaTxDscrTab i = true := by
  have ring := inv.holds.tail_ne_none_iff inv.pos
  rw [← inv.set_eq caught] at ring
  simp only [ne_eq, txCell_eq_none_iff, Bool.not_eq_false] at ring
  exact ring

theorem TxAt.own_iff (inv : TxAt n log q s) (caught : TxCall.behind s.call = 0) :
    isSet s.tx.toSet.status ethDmaTxDescOwn = false ↔ q.length < n := by
  have ring := inv.holds.tail_eq_none_iff inv.pos
  rw [← inv.set_eq caught] at ring
  exact (txCell_eq_none_iff _ _).symm.trans ring

/-- The descriptor at the position of the DMA is the head of the queue. -/
theorem TxAt.head (inv : TxAt n log q s) : txCell s.tx.dmaTxDscrTab s.tx.dmaPos = q.head? := by
  rw [inv.dma]
  exact inv.holds.head inv.pos

theorem TxAt.head_of_owned (inv : TxAt n log q s)
    (owned : isSet s.tx.atDma.status ethDmaTxDescOwn = true) :
    ∃ rest, q = s.tx.atDma.controlBufferSize :: rest := by
  have head := inv.head
  rw [txCell, txOwned, ← Tx.atDma, if_pos owned] at head
  exact List.head?_eq_some_iff.mp head.symm

/-- A descriptor that the DMA does not own stops it only when nothing is left. -/
theorem TxAt.empty_of_free (inv : TxAt n log q s)
    (free : isSet s.tx.atDma.status ethDmaTxDescOwn = false) : q = [] := by
  have head := inv.head
  rw [(txCell_eq_none_iff _ _).mpr free] at head
  exact List.head?_eq_none_iff.mp head.symm

/-- A DMA that took a descriptor up owns it. -/
theorem TxAt.owned_of_busy (inv : TxAt n log q s) (busy : s.tx.dma.holding = 1) :
    isSet s.tx.atDma.status ethDmaTxDescOwn = true := by
  have occupied : 1 ≤ q.length := busy ▸ inv.busy
  by_contra free
  rw [inv.empty_of_free (Bool.eq_false_iff.mpr free)] at occupied
  exact Nat.not_succ_le_zero 0 occupied

private theorem preparing_pc {call : Option TxCall} (preparing : TxCall.preparing call) :
    TxCall.behind call = 0 ∧ TxCall.passed call = [] := by
  rcases call with _ | ⟨frameLength, pc⟩
  · exact preparing.elim
  · cases pc <;> first | exact preparing.elim | exact ⟨rfl, rfl⟩

/-- The descriptor that a call prepares belongs to the CPU. -/
theorem TxAt.prepared_cpu (inv : TxAt n log q s) (preparing : TxCall.preparing s.call) :
    isSet s.tx.toSet.status ethDmaTxDescOwn = false :=
  (inv.own_iff (preparing_pc preparing).1).mpr (inv.room preparing)

/-! ### One statement -/

/-- A statement that changes neither the descriptors nor a cursor. -/
private theorem TxAt.keep (inv : TxAt n log q s) (table : t.tx.dmaTxDscrTab = s.tx.dmaTxDscrTab)
    (cursor : t.tx.dmaTxDescToSet = s.tx.dmaTxDescToSet) (dma : t.tx.dmaPos = s.tx.dmaPos)
    (holding : t.tx.dma.holding = s.tx.dma.holding)
    (behind : TxCall.behind t.call = TxCall.behind s.call)
    (room : TxCall.preparing t.call → q.length < n) (wrote : TxCall.wrote t.tx.toSet t.call)
    (passed : TxCall.passed t.call = TxCall.passed s.call) : TxAt n log q t where
  pos := inv.pos
  layout := table ▸ inv.layout
  framed := table ▸ inv.framed
  handed := inv.handed
  holds := table ▸ inv.holds
  dma := dma ▸ inv.dma
  setLt := cursor ▸ inv.setLt
  set := by rw [cursor, behind, inv.set]
  room := room
  wrote := wrote
  taken := by rw [holding, inv.taken]
  busy := holding ▸ inv.busy
  succeeded := by rw [passed, inv.succeeded]

/-- A statement that writes the descriptor that its call prepares, and keeps it. -/
private theorem TxAt.prepare {tx : Tx} {call : TxCall} (inv : TxAt n log q ⟨tx, some call⟩)
    (preparing : TxCall.preparing (some call)) {desc : EthDmaDesc}
    (kept : isSet desc.status ethDmaTxDescOwn = false)
    (layout : TxLayout n (tx.writeToSet desc).dmaTxDscrTab) (next : TxCall)
    (still : TxCall.preparing (some next)) (wrote : TxCall.wrote desc (some next)) :
    TxAt n log q ⟨tx.writeToSet desc, some next⟩ := by
  have cpu : txOwned tx.dmaTxDscrTab tx.dmaTxDescToSet = false := inv.prepared_cpu preparing
  have same : txCell (tx.writeToSet desc).dmaTxDscrTab = txCell tx.dmaTxDscrTab :=
    txCell_prepare cpu kept
  obtain ⟨gap, none_passed⟩ := preparing_pc preparing
  obtain ⟨gap', none_passed'⟩ := preparing_pc still
  exact {
    pos := inv.pos
    layout := layout
    framed := inv.framed.write _ _ fun owned =>
      absurd (kept.symm.trans owned) Bool.false_ne_true
    handed := inv.handed
    holds := same ▸ inv.holds
    dma := inv.dma
    setLt := inv.setLt
    set := by
      rw [gap', ← gap]
      exact inv.set
    room := fun _ => inv.room preparing
    wrote := by
      rw [Tx.toSet_writeToSet]
      exact wrote
    taken := inv.taken
    busy := inv.busy
    succeeded := by
      rw [none_passed', ← none_passed]
      exact inv.succeeded }

private theorem TxAt.testOwn_stmt {tx : Tx} {frameLength : BitVec 16}
    (inv : TxAt n log q ⟨tx, some ⟨frameLength, .testOwn⟩⟩) {dmasr : Word}
    {result : Word × Tx × TxPc}
    (ran : ethTxPktChainMode frameLength dmasr tx .testOwn = some result) :
    TxAt n log q ⟨result.2.1, some ⟨frameLength, result.2.2⟩⟩ := by
  simp only [ethTxPktChainMode] at ran
  split at ran
  next owned =>
    cases ran
    exact inv.keep rfl rfl rfl rfl rfl False.elim trivial rfl
  next free =>
    -- the call begins to prepare a descriptor, so there has to be room
    cases ran
    exact inv.keep rfl rfl rfl rfl rfl
      (fun _ => (inv.own_iff rfl).mp (Bool.eq_false_iff.mpr free)) trivial rfl

private theorem TxAt.setSize_stmt {tx : Tx} {frameLength : BitVec 16}
    (inv : TxAt n log q ⟨tx, some ⟨frameLength, .setSize⟩⟩) :
    TxAt n log q
      ⟨tx.writeToSet { tx.toSet with controlBufferSize := txSize frameLength },
        some ⟨frameLength, .setSegments⟩⟩ := by
  refine inv.prepare trivial ?_ ?_ ⟨frameLength, .setSegments⟩ trivial rfl
  · exact inv.prepared_cpu trivial
  · exact inv.layout.write _ _ _ id id

private theorem TxAt.setSegments_stmt {tx : Tx} {frameLength : BitVec 16}
    (inv : TxAt n log q ⟨tx, some ⟨frameLength, .setSegments⟩⟩) :
    TxAt n log q
      ⟨tx.writeToSet { tx.toSet with
        status := tx.toSet.status |||
          (ethDmaTxDescLs ||| ethDmaTxDescFs ||| ethDmaTxDescCicTcpUdpIcmpFull) },
        some ⟨frameLength, .setOwn⟩⟩ := by
  have cpu : isSet tx.toSet.status ethDmaTxDescOwn = false := inv.prepared_cpu trivial
  refine inv.prepare trivial ?_
    (inv.layout.write _ _ _ (isSet_or_left _ _ _) (isSet_or_left _ _ _))
    ⟨frameLength, .setOwn⟩ trivial ?_
  · rw [isSet_or_disjoint _ _ _ (by decide)]
    exact cpu
  · exact ⟨inv.wrote, isSet_or_within _ _ _ (by decide) (by decide),
      isSet_or_within _ _ _ (by decide) (by decide)⟩

private theorem TxAt.setOwn_stmt {tx : Tx} {frameLength : BitVec 16}
    (inv : TxAt n log q ⟨tx, some ⟨frameLength, .setOwn⟩⟩) :
    TxAt n { log with handed := log.handed ++ [tx.toSet.controlBufferSize] }
      (q ++ [tx.toSet.controlBufferSize])
      ⟨tx.writeToSet { tx.toSet with status := tx.toSet.status ||| ethDmaTxDescOwn },
        some ⟨frameLength, .testTbus⟩⟩ := by
  have cursor : tx.dmaTxDescToSet = (log.done.length + q.length) % n := inv.set_eq rfl
  obtain ⟨size, first, last⟩ := inv.wrote
  exact {
    pos := inv.pos
    layout := inv.layout.write _ _ _ (isSet_or_left _ _ _) (isSet_or_left _ _ _)
    framed := inv.framed.write _ _ fun _ =>
      ⟨isSet_or_left _ _ _ first, isSet_or_left _ _ _ last⟩
    handed := by simp [inv.handed]
    holds := by
      -- the cursor stands right behind the queue
      have pushed := inv.holds.push (inv.room trivial) tx.toSet.controlBufferSize
      rw [← cursor] at pushed
      exact (txCell_hand tx.dmaTxDscrTab tx.dmaTxDescToSet).symm ▸ pushed
    dma := inv.dma
    setLt := inv.setLt
    set := by
      simp only [Tx.writeToSet, TxCall.behind, List.length_append, List.length_singleton,
        inv.handed]
      rw [cursor, succ_mod]
    room := False.elim
    wrote := trivial
    taken := inv.taken.trans (congrArg _ (List.take_append_of_le_length inv.busy).symm)
    busy := by
      rw [List.length_append]
      exact Nat.le_add_right_of_le inv.busy
    succeeded := by
      have before : log.handed = log.succeeded.map txSize := by
        simpa [TxCall.passed] using inv.succeeded
      rw [show tx.toSet.controlBufferSize = txSize frameLength from size, before]
      simp [TxCall.passed] }

private theorem TxAt.advance_stmt {tx : Tx} {frameLength : BitVec 16}
    (inv : TxAt n log q ⟨tx, some ⟨frameLength, .advance⟩⟩) :
    TxAt n log q
      ⟨{ tx with dmaTxDescToSet := tx.toSet.buffer2NextDescAddr },
        some ⟨frameLength, .ret ethSuccess⟩⟩ := by
  have next : tx.toSet.buffer2NextDescAddr = (tx.dmaTxDescToSet + 1) % n :=
    inv.layout.next _ inv.setLt
  exact {
    pos := inv.pos
    layout := inv.layout
    framed := inv.framed
    handed := inv.handed
    holds := inv.holds
    dma := inv.dma
    setLt := by
      rw [next]
      exact Nat.mod_lt _ inv.pos
    set := by
      rw [next]
      simpa [TxCall.behind] using inv.set
    room := False.elim
    wrote := trivial
    taken := inv.taken
    busy := inv.busy
    succeeded := inv.succeeded }

private theorem holding_resume (dma : TxDma) :
    (if dma = .suspended then .ready else dma : TxDma).holding = dma.holding := by
  cases dma <;> rfl

theorem TxAt.stmt (inv : TxAt n log q s) {dmasr : Word}
    (stepped : TxRing.step s (.stmt dmasr) = some t) :
    ∃ q', TxAt n (log.record s (.stmt dmasr)) q' t := by
  obtain ⟨tx, call⟩ := s
  simp only [TxRing.step, Option.bind_eq_some_iff, Option.map_eq_some_iff] at stepped
  obtain ⟨⟨frameLength, pc⟩, rfl, result, ran, rfl⟩ := stepped
  cases pc with
  | testOwn => exact ⟨q, inv.testOwn_stmt ran⟩
  | setSize =>
    cases ran
    exact ⟨q, inv.setSize_stmt⟩
  | setSegments =>
    cases ran
    exact ⟨q, inv.setSegments_stmt⟩
  | setOwn =>
    cases ran
    exact ⟨_, inv.setOwn_stmt⟩
  | testTbus =>
    simp only [ethTxPktChainMode] at ran
    split at ran <;> cases ran <;>
      exact ⟨q, inv.keep rfl rfl rfl rfl rfl False.elim trivial rfl⟩
  | clearTbus =>
    cases ran
    exact ⟨q, inv.keep rfl rfl rfl rfl rfl False.elim trivial rfl⟩
  | pollDemand =>
    cases ran
    exact ⟨q, inv.keep rfl rfl rfl (holding_resume tx.dma) rfl False.elim trivial rfl⟩
  | advance =>
    cases ran
    exact ⟨q, inv.advance_stmt⟩
  | ret status => cases ran

private theorem TxAt.ret_step (inv : TxAt n log q s) (stepped : TxRing.step s .ret = some t) :
    TxAt n (log.record s .ret) q t := by
  simp only [TxRing.step] at stepped
  split at stepped <;> cases stepped
  next frameLength status returning =>
    have passed := inv.succeeded
    rw [returning] at passed
    have recorded : (log.record s .ret).succeeded =
        log.succeeded ++ TxCall.passed (some ⟨frameLength, .ret status⟩) := by
      simp only [TxLog.record, returning, TxCall.passed]
      split <;> simp
    have others : log.record s .ret = { log with succeeded := (log.record s .ret).succeeded } := by
      simp only [TxLog.record, returning]
      split <;> rfl
    rw [others]
    exact {
      pos := inv.pos
      layout := inv.layout
      framed := inv.framed
      handed := inv.handed
      holds := inv.holds
      dma := inv.dma
      setLt := inv.setLt
      set := by
        have cursor := inv.set
        rwa [returning] at cursor
      room := False.elim
      wrote := trivial
      taken := inv.taken
      busy := inv.busy
      succeeded := by
        rw [recorded, passed]
        simp [TxCall.passed] }

/-! ### One step of the DMA -/

private theorem TxAt.fetch (inv : TxAt n log q s)
    (stepped : TxRing.step s .dmaFetch = some t) : TxAt n (log.record s .dmaFetch) q t := by
  simp only [TxRing.step, Option.map_eq_some_iff] at stepped
  obtain ⟨tx, fetched, rfl⟩ := stepped
  obtain ⟨ready, rfl⟩ := Tx.dmaFetch_frame fetched
  have settled : log.taken = log.done := by
    simpa [TxDma.holding, ready] using inv.taken
  by_cases owned : isSet s.tx.atDma.status ethDmaTxDescOwn
  · -- the head of the queue is taken up
    obtain ⟨rest, head⟩ := inv.head_of_owned owned
    simp only [TxLog.record, owned, if_true]
    exact {
      pos := inv.pos
      layout := inv.layout
      framed := inv.framed
      handed := inv.handed
      holds := inv.holds
      dma := inv.dma
      setLt := inv.setLt
      set := inv.set
      room := inv.room
      wrote := inv.wrote
      taken := by simp [settled, head, TxDma.holding]
      busy := by simp [head, TxDma.holding]
      succeeded := inv.succeeded }
  · simp only [TxLog.record, owned, if_false, Bool.false_eq_true]
    exact inv.keep rfl rfl rfl (by rw [ready]; rfl) rfl inv.room inv.wrote rfl

private theorem TxAt.read (inv : TxAt n log q s)
    (stepped : TxRing.step s .dmaRead = some t) : TxAt n (log.record s .dmaRead) q t := by
  simp only [TxRing.step, Option.map_eq_some_iff] at stepped
  obtain ⟨tx, read, rfl⟩ := stepped
  obtain ⟨sent, busy, -, rfl⟩ := Tx.dmaRead_frame read
  exact inv.keep rfl rfl rfl (by rw [busy]; rfl) rfl inv.room inv.wrote rfl

/-- The descriptor that the DMA writes back is not the one that a call prepares. -/
private theorem TxAt.toSet_done (inv : TxAt n log q s) (busy : s.tx.dma.holding = 1)
    (preparing : TxCall.preparing s.call) : s.tx.dmaTxDescToSet ≠ s.tx.dmaPos := by
  intro same
  have cpu := inv.prepared_cpu preparing
  rw [Tx.toSet, same] at cpu
  exact absurd (cpu.symm.trans (inv.owned_of_busy busy)) Bool.false_ne_true

private theorem wrote_of_not_preparing {call : Option TxCall}
    (other : ¬ TxCall.preparing call) (desc : EthDmaDesc) : TxCall.wrote desc call := by
  rcases call with _ | ⟨frameLength, pc⟩
  · trivial
  · cases pc <;> first | trivial | exact absurd trivial other

private theorem TxAt.finish (inv : TxAt n log q s) {report : Word}
    (stepped : TxRing.step s (.dmaDone report) = some t) :
    ∃ q', TxAt n (log.record s (.dmaDone report)) q' t := by
  simp only [TxRing.step, Option.map_eq_some_iff] at stepped
  obtain ⟨tx, done, rfl⟩ := stepped
  obtain ⟨sent, busy, -, rfl⟩ := Tx.dmaDone_frame done
  have holding : s.tx.dma.holding = 1 := by rw [busy]; rfl
  obtain ⟨rest, head⟩ := inv.head_of_owned (inv.owned_of_busy holding)
  have held := inv.holds
  rw [head] at held
  refine ⟨rest, ?_⟩
  exact {
    pos := inv.pos
    layout := inv.layout.write _ _ _
      (fun set => by rwa [isSet_writtenBack _ _ _ (by decide) (by decide)])
      (fun set => by rwa [isSet_writtenBack _ _ _ (by decide) (by decide)])
    framed := inv.framed.write _ _ fun owned =>
      absurd ((isSet_writtenBack_own _ _).symm.trans owned) Bool.false_ne_true
    handed := by simp [TxLog.record, inv.handed, head]
    holds := by
      -- the head leaves the queue, so its cell is the one that becomes empty
      have popped := held.pop
      rw [← inv.dma, ← txCell_done _ _ report] at popped
      simp only [TxLog.record, List.length_append, List.length_singleton]
      exact popped
    dma := by
      simp only [TxLog.record, List.length_append, List.length_singleton]
      rw [Tx.atDma, inv.layout.next _ inv.dmaLt, inv.dma, succ_mod]
    setLt := inv.setLt
    set := inv.set
    room := fun preparing => by
      have room := inv.room preparing
      rw [head, List.length_cons] at room
      exact Nat.lt_of_succ_lt room
    wrote := by
      -- the call prepares another descriptor than the one that is given up
      by_cases preparing : TxCall.preparing s.call
      · simpa only [Tx.toSet, Function.update_of_ne (inv.toSet_done holding preparing)]
          using inv.wrote
      · exact wrote_of_not_preparing preparing _
    taken := by
      have before := inv.taken
      rw [holding, head, List.take_one] at before
      simpa [TxLog.record, TxDma.holding] using before
    busy := Nat.zero_le _
    succeeded := inv.succeeded }

theorem TxAt.step (inv : TxAt n log q s) {e : TxEvent} (stepped : TxRing.step s e = some t) :
    ∃ q', TxAt n (log.record s e) q' t := by
  cases e with
  | store addr byte =>
    simp only [TxRing.step] at stepped
    split at stepped <;> cases stepped
    exact ⟨q, inv.keep rfl rfl rfl rfl rfl inv.room inv.wrote rfl⟩
  | call frameLength =>
    simp only [TxRing.step] at stepped
    split at stepped <;> cases stepped
    next idle =>
      exact ⟨q, inv.keep rfl rfl rfl rfl (by rw [idle]; rfl) False.elim trivial
        (by rw [idle]; rfl)⟩
  | stmt dmasr => exact inv.stmt stepped
  | ret => exact ⟨q, inv.ret_step stepped⟩
  | dmaFetch => exact ⟨q, inv.fetch stepped⟩
  | dmaRead => exact ⟨q, inv.read stepped⟩
  | dmaDone report => exact inv.finish stepped

end Invariant

theorem TxAt.run {n : Nat} (pos : 0 < n) (tab : DescTab) (txBuff : Bytes) {es : List TxEvent}
    {s : TxRing} (ran : txRing.run (TxRing.init tab txBuff n) es = some s) :
    ∃ q, TxAt n (txRing.log TxLog.record TxLog.empty (TxRing.init tab txBuff n) es) q s :=
  txRing.log_invariant TxLog.record (fun log s => ∃ q, TxAt n log q s)
    (fun _ _ _ _ ⟨_, inv⟩ stepped => inv.step stepped) ⟨[], TxAt.init pos tab txBuff⟩ ran

/-! ### The bounded FIFO -/

/-- Every descriptor of the ring is owned by the DMA. -/
def Tx.full (n : Nat) (tx : Tx) : Prop := ∀ i < n, txOwned tx.dmaTxDscrTab i = true

instance (n : Nat) (tx : Tx) : Decidable (tx.full n) :=
  inferInstanceAs (Decidable (∀ i < n, txOwned tx.dmaTxDscrTab i = true))

/-- A bound on the statements that a call still has to execute. -/
def TxPc.left : TxPc → Nat
  | .testOwn => 8
  | .setSize => 7
  | .setSegments => 6
  | .setOwn => 5
  | .testTbus => 4
  | .clearTbus => 3
  | .pollDemand => 2
  | .advance => 1
  | .ret _ => 0

/-- The ring as a bounded FIFO, in terms of the history `log` of the run that led to the
state. -/
structure TxFifo (n : Nat) (log : TxLog) (s : TxRing) : Prop where
  /-- The DMA takes up size fields in the order in which they were handed over. -/
  taken : log.taken <+: log.handed
  done : log.done <+: log.taken
  pending : log.taken.length ≤ log.done.length + 1
  /-- Between calls those are the arguments of the successful calls, one each. -/
  succeeded : s.call = none → log.handed = log.succeeded.map txSize
  /-- A call that finds the ring full returns `ETH_ERROR` and changes nothing. -/
  refuse : ∀ frameLength, s.call = some ⟨frameLength, .testOwn⟩ → s.tx.full n →
    ∀ dmasr, ethTxPktChainMode frameLength dmasr s.tx .testOwn = some (dmasr, s.tx, .ret ethError)
  /-- Any other call passes its check, and no later statement returns `ETH_ERROR`. -/
  accept : ∀ frameLength, s.call = some ⟨frameLength, .testOwn⟩ → ¬ s.tx.full n →
    ∀ dmasr, ethTxPktChainMode frameLength dmasr s.tx .testOwn = some (dmasr, s.tx, .setSize)
  accepted : ∀ frameLength pc, s.call = some ⟨frameLength, pc⟩ → pc ≠ .testOwn →
    ∀ dmasr dmasr' tx, ethTxPktChainMode frameLength dmasr s.tx pc ≠
      some (dmasr', tx, .ret ethError)
  /-- A call executes one statement after the other until it returns, with one of two results. -/
  progress : ∀ frameLength pc, s.call = some ⟨frameLength, pc⟩ → 0 < pc.left →
    ∀ dmasr, ∃ tx next,
      txRing.step s (.stmt dmasr) = some ⟨tx, some ⟨frameLength, next⟩⟩ ∧ next.left < pc.left ∧
      (0 < next.left ∨ next = .ret ethError ∨ next = .ret ethSuccess)
  returns : ∀ frameLength pc, s.call = some ⟨frameLength, pc⟩ → pc.left = 0 →
    txRing.step s .ret = some ⟨s.tx, none⟩
  /-- One statement of a call hands a descriptor over, which the DMA did not own. -/
  hand : ∀ frameLength, s.call = some ⟨frameLength, .setOwn⟩ →
    ∀ dmasr t, txRing.step s (.stmt dmasr) = some t →
      txOwned s.tx.dmaTxDscrTab s.tx.dmaTxDescToSet = false ∧
      txOwned t.tx.dmaTxDscrTab s.tx.dmaTxDescToSet = true ∧
      (t.tx.dmaTxDscrTab s.tx.dmaTxDescToSet).txBytes = frameLength.toNat % 2 ^ 13 ∧
      ∀ i, i ≠ s.tx.dmaTxDescToSet → t.tx.dmaTxDscrTab i = s.tx.dmaTxDscrTab i
  /-- No other statement does. -/
  keep : ∀ frameLength pc, s.call = some ⟨frameLength, pc⟩ → pc ≠ .setOwn →
    ∀ dmasr t, txRing.step s (.stmt dmasr) = some t →
      ∀ i, txOwned t.tx.dmaTxDscrTab i = txOwned s.tx.dmaTxDscrTab i
  /-- The control bits of the descriptors that the DMA owns. -/
  control : ∀ i < n, txOwned s.tx.dmaTxDscrTab i = true →
    ∀ bit ∈ [ethDmaTxDescFs, ethDmaTxDescLs, ethDmaTxDescIc, ethDmaTxDescTch],
      isSet (s.tx.dmaTxDscrTab i).status bit = true
  /-- The cursors are the two ends of the arc; a call that set `OWN` is about to move one. -/
  ends : s.tx.dmaPos = log.done.length % n ∧ log.handed.length ≤ log.done.length + n ∧
    (s.tx.dmaTxDescToSet + TxCall.behind s.call) % n = log.handed.length % n
  arc : ∀ i < n, txOwned s.tx.dmaTxDscrTab i = true ↔
    ∃ k, log.done.length ≤ k ∧ k < log.handed.length ∧ i = k % n

private theorem ret_error_of_testOwn {frameLength : BitVec 16} {dmasr dmasr' : Word} {tx tx' : Tx}
    {pc : TxPc} (ran : ethTxPktChainMode frameLength dmasr tx pc = some (dmasr', tx', .ret ethError)) :
    pc = .testOwn := by
  cases pc with
  | testOwn => rfl
  | testTbus =>
    simp only [ethTxPktChainMode] at ran
    split at ran <;> cases ran
  | setSize => cases ran
  | setSegments => cases ran
  | setOwn => cases ran
  | clearTbus => cases ran
  | pollDemand => cases ran
  | advance =>
    simp only [ethTxPktChainMode, Option.some.injEq, Prod.mk.injEq, TxPc.ret.injEq] at ran
    exact absurd ran.2.2 (by decide)
  | ret status => cases ran

/-- Every statement but the return leads on to one that is nearer to it. -/
private theorem TxPc.left_stmt (frameLength : BitVec 16) (dmasr : Word) (tx : Tx) {pc : TxPc}
    (running : 0 < pc.left) :
    ∃ result, ethTxPktChainMode frameLength dmasr tx pc = some result ∧
      result.2.2.left < pc.left ∧
      (0 < result.2.2.left ∨ result.2.2 = .ret ethError ∨ result.2.2 = .ret ethSuccess) := by
  cases pc with
  | testOwn =>
    simp only [ethTxPktChainMode]
    split <;> exact ⟨_, rfl, by simp [TxPc.left]⟩
  | testTbus =>
    simp only [ethTxPktChainMode]
    split <;> exact ⟨_, rfl, by simp [TxPc.left]⟩
  | ret status => exact absurd running (Nat.lt_irrefl 0)
  | setSize => exact ⟨_, rfl, by simp [TxPc.left]⟩
  | setSegments => exact ⟨_, rfl, by simp [TxPc.left]⟩
  | setOwn => exact ⟨_, rfl, by simp [TxPc.left]⟩
  | clearTbus => exact ⟨_, rfl, by simp [TxPc.left]⟩
  | pollDemand => exact ⟨_, rfl, by simp [TxPc.left]⟩
  | advance => exact ⟨_, rfl, by simp [TxPc.left]⟩

private theorem TxRing.progress {s : TxRing} {frameLength : BitVec 16} {pc : TxPc}
    (at_pc : s.call = some ⟨frameLength, pc⟩) (running : 0 < pc.left) (dmasr : Word) :
    ∃ tx next, txRing.step s (.stmt dmasr) = some ⟨tx, some ⟨frameLength, next⟩⟩ ∧
      next.left < pc.left ∧ (0 < next.left ∨ next = .ret ethError ∨ next = .ret ethSuccess) := by
  obtain ⟨⟨dmasr', tx, next⟩, ran, nearer⟩ := TxPc.left_stmt frameLength dmasr s.tx running
  refine ⟨tx, next, ?_, nearer⟩
  simp only [txRing_step, TxRing.step, at_pc, Option.bind_some, ran, Option.map_some]

private theorem TxRing.returns {s : TxRing} {frameLength : BitVec 16} {pc : TxPc}
    (at_pc : s.call = some ⟨frameLength, pc⟩) (done : pc.left = 0) :
    txRing.step s .ret = some ⟨s.tx, none⟩ := by
  cases pc with
  | ret status => simp only [txRing_step, TxRing.step, at_pc]
  | testOwn => cases done
  | setSize => cases done
  | setSegments => cases done
  | setOwn => cases done
  | testTbus => cases done
  | clearTbus => cases done
  | pollDemand => cases done
  | advance => cases done

/-- A statement other than the write of `OWN` gives no descriptor to the DMA. -/
private theorem owned_stmt {s t : TxRing} {frameLength : BitVec 16} {pc : TxPc}
    (running : s.call = some ⟨frameLength, pc⟩) (other : pc ≠ .setOwn) {dmasr : Word}
    (stepped : txRing.step s (.stmt dmasr) = some t) (i : Nat) :
    txOwned t.tx.dmaTxDscrTab i = txOwned s.tx.dmaTxDscrTab i := by
  simp only [txRing_step, TxRing.step, running, Option.bind_some, Option.map_eq_some_iff] at stepped
  obtain ⟨result, ran, rfl⟩ := stepped
  have written (desc : EthDmaDesc) (same : isSet desc.status ethDmaTxDescOwn =
      isSet s.tx.toSet.status ethDmaTxDescOwn) :
      txOwned (s.tx.writeToSet desc).dmaTxDscrTab i = txOwned s.tx.dmaTxDscrTab i := by
    by_cases here : i = s.tx.dmaTxDescToSet
    · subst here
      simpa [txOwned, Tx.writeToSet, Tx.toSet] using same
    · simp [txOwned, Tx.writeToSet, Function.update_of_ne here]
  cases pc with
  | testOwn =>
    simp only [ethTxPktChainMode] at ran
    split at ran <;> cases ran <;> rfl
  | setSize =>
    cases ran
    exact written _ rfl
  | setSegments =>
    cases ran
    exact written _ (isSet_or_disjoint _ _ _ (by decide))
  | setOwn => exact absurd rfl other
  | testTbus =>
    simp only [ethTxPktChainMode] at ran
    split at ran <;> cases ran <;> rfl
  | clearTbus =>
    cases ran
    rfl
  | pollDemand =>
    cases ran
    rfl
  | advance =>
    cases ran
    rfl
  | ret status => cases ran

/-- The size field has 13 bits. -/
theorem txBytes_of_txSize {desc : EthDmaDesc} {frameLength : BitVec 16}
    (size : desc.controlBufferSize = txSize frameLength) :
    desc.txBytes = frameLength.toNat % 2 ^ 13 := by
  have bits : ethDmaTxDescTbs1.toNat = 2 ^ 13 - 1 := by decide
  have narrow : frameLength.toNat % 2 ^ 32 = frameLength.toNat :=
    Nat.mod_eq_of_lt (by omega)
  rw [EthDmaDesc.txBytes, size, txSize, BitVec.and_assoc, BitVec.and_self, BitVec.toNat_and,
    BitVec.toNat_setWidth, narrow, bits, Nat.and_two_pow_sub_one_eq_mod]

private theorem TxAt.hand {n : Nat} {log : TxLog} {q : List Word} {s t : TxRing}
    (inv : TxAt n log q s) {frameLength : BitVec 16}
    (running : s.call = some ⟨frameLength, .setOwn⟩) {dmasr : Word}
    (stepped : txRing.step s (.stmt dmasr) = some t) :
    txOwned s.tx.dmaTxDscrTab s.tx.dmaTxDescToSet = false ∧
      txOwned t.tx.dmaTxDscrTab s.tx.dmaTxDescToSet = true ∧
      (t.tx.dmaTxDscrTab s.tx.dmaTxDescToSet).txBytes = frameLength.toNat % 2 ^ 13 ∧
      ∀ i, i ≠ s.tx.dmaTxDescToSet → t.tx.dmaTxDscrTab i = s.tx.dmaTxDscrTab i := by
  have cpu : txOwned s.tx.dmaTxDscrTab s.tx.dmaTxDescToSet = false :=
    inv.prepared_cpu (by rw [running]; trivial)
  have wrote := inv.wrote
  rw [running] at wrote
  simp only [txRing_step, TxRing.step, running, Option.bind_some, ethTxPktChainMode, Option.map_some,
    Option.some.injEq] at stepped
  subst stepped
  refine ⟨cpu, ?_, ?_, fun i other => Function.update_of_ne other _ _⟩
  · simp [txOwned, Tx.writeToSet, isSet_or_self _ ethDmaTxDescOwn (by decide)]
  · rw [← txBytes_of_txSize wrote.1]
    simp [Tx.writeToSet, EthDmaDesc.txBytes]

theorem TxAt.fifo {n : Nat} {log : TxLog} {q : List Word} {s : TxRing} (inv : TxAt n log q s) :
    TxFifo n log s where
  taken := by
    rw [inv.taken, inv.handed]
    exact (List.prefix_append_right_inj _).mpr (List.take_prefix _ _)
  done := by
    rw [inv.taken]
    exact List.prefix_append _ _
  pending := by
    have one : s.tx.dma.holding ≤ 1 := by
      unfold TxDma.holding
      split <;> omega
    rw [inv.taken, List.length_append, List.length_take]
    omega
  succeeded idle := by
    have nothing : TxCall.passed none = [] := rfl
    have passed := inv.succeeded
    rwa [idle, nothing, List.append_nil] at passed
  refuse frameLength testing full dmasr := by
    have owned := (inv.own_iff_full (by rw [testing]; rfl)).mpr full
    simp only [ethTxPktChainMode, owned, if_true]
  accept frameLength testing room dmasr := by
    have free : ¬ isSet s.tx.toSet.status ethDmaTxDescOwn = true :=
      fun owned => room ((inv.own_iff_full (by rw [testing]; rfl)).mp owned)
    simp only [ethTxPktChainMode, free, if_false, Bool.false_eq_true]
  accepted _ _ _ later _ _ _ ran := later (ret_error_of_testOwn ran)
  progress _ _ at_pc running dmasr := TxRing.progress at_pc running dmasr
  returns _ _ at_pc done := TxRing.returns at_pc done
  hand _ running _ _ := inv.hand running
  keep _ _ running other _ _ := owned_stmt running other
  control i inside owned := by
    obtain ⟨first, last⟩ := inv.framed i inside owned
    simp [first, last, inv.layout.chained i inside, inv.layout.interrupt i inside]
  ends := by
    have bound := inv.holds.le
    refine ⟨inv.dma, ?_, inv.set⟩
    rw [inv.handed, List.length_append]
    omega
  arc i inside := by
    have cells := inv.holds.ne_none_iff inside
    rw [inv.handed, List.length_append, ← cells, ne_eq, txCell_eq_none_iff, Bool.not_eq_false]

/-- Every run of calls, interleaved statement by statement with the DMA, keeps the bounded
FIFO. The size field has 13 bits, so it stores a length modulo 8192. -/
theorem tx_ring_is_bounded_fifo (n : Nat) (pos : 0 < n) (tab : DescTab) (txBuff : Bytes)
    (es : List TxEvent) (s : TxRing)
    (ran : txRing.run (TxRing.init tab txBuff n) es = some s) :
    TxFifo n (txRing.log TxLog.record TxLog.empty (TxRing.init tab txBuff n) es) s := by
  obtain ⟨q, inv⟩ := TxAt.run pos tab txBuff ran
  exact inv.fifo

/-- Two calls fill a ring of two, the second one while the DMA sends the first frame. A third
call is refused, and a fourth one goes round to the descriptor that the DMA gave up since. -/
def txSample : List TxEvent :=
  [.store 0 0xAB, .call 1, .stmt 0, .stmt 0, .stmt 0, .stmt 0, .dmaFetch, .stmt 0, .stmt 0, .ret,
    .call 60, .stmt 0, .stmt 0, .stmt 0, .stmt 0, .dmaRead, .stmt 0, .stmt 0, .ret,
    .call 2, .stmt 0, .ret, .dmaDone 0,
    .call 3, .stmt 0, .stmt 0, .stmt 0, .stmt 0, .stmt ethDmasrTbus, .stmt ethDmasrTbus, .stmt 0,
    .stmt 0, .ret, .dmaFetch]

/-- Three calls out of four succeed on a ring of two, and the DMA takes their frames up in
order. -/
theorem tx_ring_is_bounded_fifo_sample : ∃ s,
    txRing.run (TxRing.init (fun _ => ⟨0, 0, 0, 0⟩) (fun _ => 0) 2) txSample = some s ∧
    TxFifo 2 (txRing.log TxLog.record TxLog.empty
      (TxRing.init (fun _ => ⟨0, 0, 0, 0⟩) (fun _ => 0) 2) txSample) s ∧
    (txRing.log TxLog.record TxLog.empty
      (TxRing.init (fun _ => ⟨0, 0, 0, 0⟩) (fun _ => 0) 2) txSample).succeeded = [1, 60, 3] ∧
    (txRing.log TxLog.record TxLog.empty
      (TxRing.init (fun _ => ⟨0, 0, 0, 0⟩) (fun _ => 0) 2) txSample).taken = [1, 60] ∧
    (txRing.log TxLog.record TxLog.empty
      (TxRing.init (fun _ => ⟨0, 0, 0, 0⟩) (fun _ => 0) 2) txSample).done = [1] ∧
    s.tx.full 2 := by
  refine ⟨_, rfl, tx_ring_is_bounded_fifo 2 (by decide) _ _ _ _ rfl, ?_, ?_, ?_, ?_⟩ <;>
    decide +kernel

/-- A successful call of length 8192 hands over a descriptor with size 0. -/
theorem tx_size_not_length : ∃ s, txRing.run
      (TxRing.init (fun _ => ⟨0, 0, 0, 0⟩) (fun _ => 0) 1)
      [.call 8192, .stmt 0, .stmt 0, .stmt 0, .stmt 0, .stmt 0, .stmt 0] = some s ∧
    s.call = some ⟨8192, .ret ethSuccess⟩ ∧
    txOwned s.tx.dmaTxDscrTab 0 = true ∧
    (s.tx.dmaTxDscrTab 0).txBytes = 0 := by
  refine ⟨_, rfl, ?_, ?_, ?_⟩ <;> decide

end WchLwip
