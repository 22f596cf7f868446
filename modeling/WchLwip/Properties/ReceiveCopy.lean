import WchLwip.Model.Input
import WchLwip.Properties.Handler

/-! Who owns a receive buffer while its bytes are copied.

`ETH_RxPkt_ChainMode` gives the descriptor back before it returns, and
`low_level_input` copies afterwards. The copy is safe only where the DMA has
closed the descriptor again, and right only where it stored nothing new. -/
namespace WchLwip

open Mask RingQueue

variable {s t : Driver}

/-! ### What is still to be read -/

/-- The addresses that the handler is going to read: the first one, and their number. -/
def IrqPc.unread : IrqPc → Option (Nat × Nat)
  | .rxPkt (.giveBack frame) | .rxPkt (.advance frame) | .rxPkt (.ret frame) | .alloc frame =>
    frame.buffer.map fun buffer => (buffer, inputLen frame)
  | .copy frame lens filled =>
    frame.buffer.map fun buffer => (buffer + filled.length, lens.sum)
  | _ => none

def IrqPc.unreadBytes (rxBuff : Bytes) (irq : IrqPc) : List UInt8 :=
  match irq.unread with
  | some (first, count) => ByteMemory.read rxBuff first count
  | none => []

/-- The bytes that the handler has read. -/
def IrqPc.copied : IrqPc → List UInt8
  | .copy _ _ filled | .input filled => filled
  | _ => []

/-- The handler is inside `ethernetif_input`, and the chain is not passed on yet. -/
def IrqPc.receiving : IrqPc → Prop
  | .rxPkt _ | .alloc _ | .copy _ _ _ | .input _ => True
  | _ => False

def IrqPc.copying : IrqPc → Prop
  | .copy _ _ _ => True
  | _ => False

/-! ### Condition -/

/-- `pbuf_alloc` only returns a chain for a frame with bytes while the CPU owns the descriptor
of the buffer, and the DMA changes no byte that is still to be copied. -/
def copyGuard (s : Driver) : DriverEvent → Prop
  | .pbufAlloc (some _) => ∀ first count, s.irq.unread = some (first, count) → 0 < count →
    s.rx.ownsByte first = false
  | .rxStore k byte => ∀ first count, s.irq.unread = some (first, count) →
    first ≤ (s.rx.dmaRxDscrTab s.rx.dmaPos).buffer1Addr + k →
    (s.rx.dmaRxDscrTab s.rx.dmaPos).buffer1Addr + k < first + count →
    s.rx.rxBuff ((s.rx.dmaRxDscrTab s.rx.dmaPos).buffer1Addr + k) = byte
  | _ => True

/-- A frame in one descriptor is at least as long as its CRC and fits into the buffer. -/
def FramesFit : DriverEvent → Prop
  | .rxClose status => wholeFrame status = true → (frameLengthOf status).toNat ≤ 1516
  | _ => True

theorem wholeFrame_closedStatus (status : Word) :
    wholeFrame (closedStatus status) = wholeFrame status := by
  unfold wholeFrame closedStatus
  rw [isSet_writeOneToClear_disjoint _ _ ethDmaRxDescEs (by decide),
    isSet_writeOneToClear_disjoint _ _ ethDmaRxDescLs (by decide),
    isSet_writeOneToClear_disjoint _ _ ethDmaRxDescFs (by decide)]

theorem frameLengthOf_closedStatus (status : Word) :
    frameLengthOf (closedStatus status) = frameLengthOf status := by
  unfold frameLengthOf closedStatus
  rw [writeOneToClear_and_disjoint _ _ _ (by decide)]

/-- The frames of the closed descriptors fit into their buffers. -/
def Rx.Short (n : Nat) (rx : Rx) : Prop :=
  ∀ i < n, isSet (rx.dmaRxDscrTab i).status ethDmaRxDescOwn = false →
    wholeFrame (rx.dmaRxDscrTab i).status = true →
      (frameLengthOf (rx.dmaRxDscrTab i).status).toNat ≤ 1516

/-- What is still to be read lies in one buffer. -/
def IrqPc.Fits (n : Nat) (irq : IrqPc) : Prop :=
  ∀ first count, irq.unread = some (first, count) →
    ∃ i < n, i * ethMaxPacketSize ≤ first ∧ first + count ≤ i * ethMaxPacketSize + 1516

theorem IrqPc.unreadBytes_none {irq : IrqPc} (rxBuff : Bytes) (nothing : irq.unread = none) :
    irq.unreadBytes rxBuff = [] := by
  rw [unreadBytes, nothing]

theorem FrameTypeDef.bytes_eq (frame : FrameTypeDef) (rxBuff : Bytes) :
    frame.bytes rxBuff = (IrqPc.rxPkt (.giveBack frame)).unreadBytes rxBuff := by
  obtain ⟨length, buffer, descriptor⟩ := frame
  cases buffer <;> rfl

structure Received (n : Nat) (log : RxLog) (input : InputLog) (s : Driver) : Prop where
  ring : ∃ q, RxAt n log q s.rxRing
  short : s.rx.Short n
  clean : input.exposed = []
  intact : ∀ x ∈ input.inputs, x.1 = x.2
  frame : s.irq.receiving → input.frame = s.irq.copied ++ s.irq.unreadBytes s.rx.rxBuff
  fits : s.irq.Fits n
  cpu : s.irq.copying → ∀ first count, s.irq.unread = some (first, count) → 0 < count →
    s.rx.ownsByte first = false
  backed : s.irq.Backed

section Received

variable {n : Nat} {log log' : RxLog} {input input' : InputLog}

/-- A step after which nothing is to be read. -/
private theorem Received.leave (held : Received n log input s)
    (ring : ∃ q, RxAt n log' q t.rxRing) (backed : t.irq.Backed)
    (table : t.rx.dmaRxDscrTab = s.rx.dmaRxDscrTab) (nothing : t.irq.unread = none)
    (exposed : input'.exposed = input.exposed) (intact : ∀ x ∈ input'.inputs, x.1 = x.2)
    (frame : t.irq.receiving → input'.frame = t.irq.copied) : Received n log' input' t where
  ring := ring
  short := by
    rw [Rx.Short, table]
    exact held.short
  clean := exposed.trans held.clean
  intact := intact
  frame receiving := by
    rw [frame receiving, t.irq.unreadBytes_none _ nothing, List.append_nil]
  fits first count there := by
    rw [nothing] at there
    cases there
  cpu _ first count there := by
    rw [nothing] at there
    cases there
  backed := backed

/-- A step that reads no byte and changes none that is still to be read. -/
private theorem Received.hold (held : Received n log input s)
    (ring : ∃ q, RxAt n log' q t.rxRing) (backed : t.irq.Backed) (short : t.rx.Short n)
    (unread : t.irq.unread = s.irq.unread) (copied : t.irq.copied = s.irq.copied)
    (receiving : t.irq.receiving → s.irq.receiving)
    (bytes : t.irq.unreadBytes t.rx.rxBuff = s.irq.unreadBytes s.rx.rxBuff)
    (cpu : t.irq.copying → ∀ first count, s.irq.unread = some (first, count) → 0 < count →
      t.rx.ownsByte first = false) : Received n log' input t where
  ring := ring
  short := short
  clean := held.clean
  intact := held.intact
  frame inside := by
    rw [copied, bytes]
    exact held.frame (receiving inside)
  fits := by
    rw [IrqPc.Fits, unread]
    exact held.fits
  cpu := by
    rw [unread]
    exact cpu
  backed := backed

/-- A step of the thread or of the transmit DMA. -/
private theorem Received.elsewhere (held : Received n log input s)
    (ring : ∃ q, RxAt n log q t.rxRing) (rx : t.rx = s.rx) (irq : t.irq = s.irq) :
    Received n log input t where
  ring := ring
  short := rx ▸ held.short
  clean := held.clean
  intact := held.intact
  frame := by
    rw [irq, rx]
    exact held.frame
  fits := irq ▸ held.fits
  cpu := by
    rw [irq, rx]
    exact held.cpu
  backed := irq ▸ held.backed

/-! ### The handler -/

/-- Giving a descriptor back leaves the frames of the other closed ones. -/
private theorem short_giveBack {rx : Rx} (short : rx.Short n) (k : Nat) :
    Rx.Short n { rx with
      dmaRxDscrTab := Function.update rx.dmaRxDscrTab k
        { rx.dmaRxDscrTab k with
          status := (rx.dmaRxDscrTab k).status ||| ethDmaRxDescOwn } } := by
  intro i inside cpu whole
  by_cases here : i = k
  · subst here
    have owned := isSet_or_self (rx.dmaRxDscrTab i).status ethDmaRxDescOwn (by decide)
    simp only [Function.update_self] at cpu
    exact absurd (owned.symm.trans cpu) (by decide)
  · simp only [Function.update_of_ne here] at cpu whole ⊢
    exact short i inside cpu whole

/-- The frame that is read fits, because its descriptor is a closed one. -/
private theorem fits_frameOf {rx : Rx} {q : List (Nat × Word)} (short : rx.Short n)
    (inv : RxAt n log q ⟨rx, some .readStatus⟩) :
    (IrqPc.rxPkt (.giveBack (frameOf rx.toGet))).Fits n := by
  have cpu : isSet rx.toGet.status ethDmaRxDescOwn = false := inv.cpu_of_working trivial rfl
  intro first count there
  simp only [IrqPc.unread, frameOf] at there
  split at there
  next whole =>
    obtain ⟨rfl, rfl⟩ : first = rx.toGet.buffer1Addr ∧ count = _ := by
      simpa [eq_comm] using there
    have bound := short rx.dmaRxDescToGet inv.getLt cpu whole
    have addr : rx.toGet.buffer1Addr = rx.dmaRxDescToGet * ethMaxPacketSize :=
      inv.layout.addr _ inv.getLt
    have cut : inputLen { FrameTypeDef.zero with
        length := frameLengthOf rx.toGet.status, buffer := some rx.toGet.buffer1Addr } ≤
        (frameLengthOf rx.toGet.status).toNat := by
      rw [inputLen, BitVec.toNat_setWidth]
      exact Nat.mod_le _ _
    refine ⟨rx.dmaRxDescToGet, inv.getLt, Nat.le_of_eq addr.symm, ?_⟩
    rw [addr]
    exact Nat.add_le_add_left (cut.trans bound) _
  next => simp [FrameTypeDef.zero] at there

private theorem received_rxPkt {pc : RxPc} (held : Received n log input s)
    (running : s.irq = .rxPkt pc) (stepped : s.irqStmt = some t)
    (ring : ∃ q, RxAt n log' q t.rxRing) (backed : t.irq.Backed) :
    Received n log' (input.record s .irq) t := by
  obtain ⟨dmasr, rx, tx, irq, out⟩ := s
  cases running
  have frame : input.frame = _ := held.frame trivial
  cases pc with
  | testOwn =>
    simp only [Driver.irqStmt, ethRxPktChainMode, Option.map_eq_some_iff] at stepped
    obtain ⟨result, ran, rfl⟩ := stepped
    split at ran <;> cases ran <;>
      exact held.leave ring backed rfl rfl rfl held.intact fun _ => frame
  | testRbus =>
    simp only [Driver.irqStmt, ethRxPktChainMode, Option.map_eq_some_iff] at stepped
    obtain ⟨result, ran, rfl⟩ := stepped
    split at ran <;> cases ran <;>
      exact held.leave ring backed rfl rfl rfl held.intact fun _ => frame
  | clearRbus =>
    cases stepped
    exact held.leave ring backed rfl rfl rfl held.intact fun _ => frame
  | pollDemand =>
    cases stepped
    exact held.leave ring backed rfl rfl rfl held.intact fun _ => frame
  | readStatus =>
    cases stepped
    obtain ⟨q, inv⟩ := held.ring
    exact {
      ring := ring
      short := held.short
      clean := held.clean
      intact := held.intact
      frame := fun _ => (frameOf rx.toGet).bytes_eq rx.rxBuff
      fits := fits_frameOf held.short inv
      cpu := False.elim
      backed := backed }
  | giveBack frame =>
    cases stepped
    exact held.hold ring backed (short_giveBack held.short _) rfl rfl (fun _ => trivial) rfl
      False.elim
  | advance frame =>
    cases stepped
    exact held.hold ring backed held.short rfl rfl (fun _ => trivial) rfl False.elim
  | ret frame =>
    cases stepped
    exact held.hold ring backed held.short rfl rfl (fun _ => trivial) rfl False.elim

/-- The addresses of one buffer belong to one descriptor. -/
theorem Rx.ownsByte_within (rx : Rx) {i addr : Nat} (from_start : i * ethMaxPacketSize ≤ addr)
    (before_end : addr < (i + 1) * ethMaxPacketSize) :
    rx.ownsByte addr = isSet (rx.dmaRxDscrTab i).status ethDmaRxDescOwn := by
  rw [ownsByte, Nat.div_eq_of_lt_le from_start before_end]

/-- The next byte is read while the CPU owns the descriptor, and it is the next byte of the
frame. -/
private theorem received_byte {frame : FrameTypeDef} {k : Nat} {lens : List Nat}
    {filled : List UInt8} {buffer : Nat} (held : Received n log input s)
    (running : s.irq = .copy frame ((k + 1) :: lens) filled) (there : frame.buffer = some buffer)
    (ring : ∃ q, RxAt n log' q (Driver.rxRing { s with
      irq := .copy frame (k :: lens) (filled ++ [s.rx.rxBuff (buffer + filled.length)]) }))
    (backed : (IrqPc.copy frame (k :: lens)
      (filled ++ [s.rx.rxBuff (buffer + filled.length)])).Backed) :
    Received n log' (input.record s .irq) { s with
      irq := .copy frame (k :: lens) (filled ++ [s.rx.rxBuff (buffer + filled.length)]) } := by
  have count : ((k + 1) :: lens).sum = (k :: lens).sum + 1 := by
    simp only [List.sum_cons]
    omega
  have unread : s.irq.unread = some (buffer + filled.length, (k :: lens).sum + 1) := by
    rw [running, ← count]
    simp only [IrqPc.unread, there, Option.map_some]
  have next : (IrqPc.copy frame (k :: lens)
      (filled ++ [s.rx.rxBuff (buffer + filled.length)])).unread =
        some (buffer + filled.length + 1, (k :: lens).sum) := by
    simp only [IrqPc.unread, there, Option.map_some, List.length_append, List.length_singleton]
    rw [Nat.add_assoc]
  have cpu : s.rx.ownsByte (buffer + filled.length) = false :=
    held.cpu (by rw [running]; trivial) _ _ unread (Nat.succ_pos _)
  obtain ⟨i, inside, lower, upper⟩ := held.fits _ _ unread
  have kept : input.record s .irq = input := by
    simp [InputLog.record, running, there, cpu]
  rw [kept]
  exact {
    ring := ring
    short := held.short
    clean := held.clean
    intact := held.intact
    frame := by
      intro _
      have frame := held.frame (by rw [running]; trivial)
      rw [IrqPc.unreadBytes, unread] at frame
      rw [IrqPc.unreadBytes, next, frame, running]
      simp only [IrqPc.copied, List.append_assoc]
      rw [ByteMemory.read_head, List.singleton_append]
    fits := by
      intro first count' same
      rw [next] at same
      cases same
      refine ⟨i, inside, Nat.le_succ_of_le lower, ?_⟩
      omega
    cpu := by
      intro _ first count' same _
      rw [next] at same
      cases same
      -- the next byte lies in the same buffer
      have size : (i + 1) * ethMaxPacketSize = i * ethMaxPacketSize + 1520 := Nat.succ_mul i 1520
      rw [s.rx.ownsByte_within (i := i) (by omega) (by omega)] at cpu ⊢
      exact cpu
    backed := backed }

private theorem received_copy {frame : FrameTypeDef} {lens : List Nat} {filled : List UInt8}
    (held : Received n log input s) (running : s.irq = .copy frame lens filled)
    (stepped : s.irqStmt = some t) (ring : ∃ q, RxAt n log' q t.rxRing)
    (backed : t.irq.Backed) : Received n log' (input.record s .irq) t := by
  have content := held.frame (by rw [running]; trivial)
  have cpu := held.cpu (by rw [running]; trivial)
  rcases lens with _ | ⟨_ | k, lens⟩
  · simp only [Driver.irqStmt, running, Option.some.injEq] at stepped
    subst stepped
    have kept : input.record s .irq = input := by simp [InputLog.record, running]
    have nothing : s.irq.unreadBytes s.rx.rxBuff = [] := by
      rw [running]
      obtain ⟨length, buffer, descriptor⟩ := frame
      cases buffer <;> rfl
    rw [nothing, List.append_nil, running] at content
    rw [kept]
    exact held.leave ring backed rfl rfl rfl held.intact fun _ => content
  · simp only [Driver.irqStmt, running, Option.some.injEq] at stepped
    subst stepped
    have kept : input.record s .irq = input := by simp [InputLog.record, running]
    have unread : (IrqPc.copy frame lens filled).unread = s.irq.unread := by
      rw [running]
      simp [IrqPc.unread]
    rw [kept]
    refine held.hold ring backed held.short unread (by rw [running]; rfl)
      (fun _ => by rw [running]; trivial) ?_ fun _ => cpu
    rw [IrqPc.unreadBytes, unread]
    rfl
  · simp only [Driver.irqStmt, running, Option.map_eq_some_iff] at stepped
    obtain ⟨buffer, there, rfl⟩ := stepped
    exact received_byte held running there ring backed

private theorem received_irq (held : Received n log input s) (stepped : s.irqStmt = some t)
    (ring : ∃ q, RxAt n log' q t.rxRing) (backed : t.irq.Backed) :
    Received n log' (input.record s .irq) t := by
  cases running : s.irq with
  | rxPkt pc => exact received_rxPkt held running stepped ring backed
  | copy frame lens filled => exact received_copy held running stepped ring backed
  | clearR =>
    simp only [Driver.irqStmt, running, Option.some.injEq] at stepped
    subst stepped
    have begun : input.record s .irq = { input with frame := [] } := by
      simp [InputLog.record, running]
    rw [begun]
    exact held.leave ring backed rfl rfl rfl held.intact fun _ => rfl
  | testR =>
    simp only [Driver.irqStmt, running, Option.some.injEq] at stepped
    subst stepped
    have kept : input.record s .irq = input := by simp [InputLog.record, running]
    rw [kept]
    by_cases raised : isSet s.dmasr ethDmaItR = true <;> simp only [raised, if_true] at ring backed ⊢
    · exact held.leave ring backed rfl rfl rfl held.intact False.elim
    · exact held.leave ring backed rfl rfl rfl held.intact False.elim
  | testT =>
    simp only [Driver.irqStmt, running, Option.some.injEq] at stepped
    subst stepped
    have kept : input.record s .irq = input := by simp [InputLog.record, running]
    rw [kept]
    by_cases raised : isSet s.dmasr ethDmaItT = true <;> simp only [raised, if_true] at ring backed ⊢
    · exact held.leave ring backed rfl rfl rfl held.intact False.elim
    · exact held.leave ring backed rfl rfl rfl held.intact False.elim
  | idle | alloc frame | input filled => simp [Driver.irqStmt, running] at stepped
  | free | clearT | clearNis =>
    simp only [Driver.irqStmt, running, Option.some.injEq] at stepped
    subst stepped
    have kept : input.record s .irq = input := by simp [InputLog.record, running]
    rw [kept]
    exact held.leave ring backed rfl rfl rfl held.intact False.elim

/-! ### The pool, the stack and the DMA -/

private theorem received_alloc {answer : Option (List Nat)} (held : Received n log input s)
    (guarded : copyGuard s (.pbufAlloc answer)) (stepped : s.pbufAlloc answer = some t)
    (ring : ∃ q, RxAt n log q t.rxRing) (backed : t.irq.Backed) : Received n log input t := by
  obtain ⟨frame, waiting, allowed, rfl⟩ := pbufAlloc_frame stepped
  cases answer with
  | none => exact held.leave ring backed rfl rfl rfl held.intact False.elim
  | some lens =>
    have unread : (IrqPc.copy frame lens []).unread = s.irq.unread := by
      rw [waiting]
      simp [IrqPc.unread, pbufAllocReturns_some allowed]
    refine held.hold ring backed held.short unread (by rw [waiting]; rfl)
      (fun _ => by rw [waiting]; trivial) ?_ fun _ => guarded
    simp only [afterAlloc, IrqPc.unreadBytes, unread]

private theorem received_input {err : ErrT} (held : Received n log input s)
    (stepped : s.netifInput err = some t) (ring : ∃ q, RxAt n log q t.rxRing)
    (backed : t.irq.Backed) : Received n log (input.record s (.netifInput err)) t := by
  obtain ⟨filled, waiting, rfl⟩ := netifInput_frame stepped
  have content := held.frame (by rw [waiting]; trivial)
  rw [waiting, IrqPc.unreadBytes_none _ rfl, List.append_nil] at content
  have passed : input.record s (.netifInput err) =
      { input with inputs := input.inputs ++ [(filled, input.frame)] } := by
    simp [InputLog.record, waiting]
  have intact : ∀ x ∈ input.inputs ++ [(filled, input.frame)], x.1 = x.2 := by
    intro x member
    rcases List.mem_append.mp member with before | last
    · exact held.intact x before
    · obtain rfl := List.mem_singleton.mp last
      exact content.symm
  rw [passed]
  by_cases accepted : err = errOk <;> simp only [accepted, if_true, if_false] at ring backed ⊢
  · exact held.leave ring backed rfl rfl rfl intact False.elim
  · exact held.leave ring backed rfl rfl rfl intact False.elim

/-- The DMA stores into the buffer of its own descriptor, and changes no byte to be copied. -/
private theorem received_store {k : Nat} {byte : UInt8} (held : Received n log input s)
    (guarded : copyGuard s (.rxStore k byte)) (stepped : driver.step s (.rxStore k byte) = some t)
    (ring : ∃ q, RxAt n log q t.rxRing) : Received n log input t := by
  obtain ⟨rx, stored, rfl⟩ := rxStore_frame stepped
  obtain ⟨-, -, rfl⟩ := Rx.dmaStore_frame stored
  refine held.hold ring held.backed held.short rfl rfl id ?_ held.cpu
  unfold IrqPc.unreadBytes
  cases unread : s.irq.unread with
  | none => rfl
  | some span =>
    obtain ⟨first, count⟩ := span
    refine ByteMemory.read_eq_iff.mpr fun j inside => ?_
    -- the stored byte is among those to be read, or apart from them
    by_cases here : first + j = (s.rx.dmaRxDscrTab s.rx.dmaPos).buffer1Addr + k
    · have kept := guarded first count unread (by omega) (by omega)
      rw [here]
      exact (Function.update_self _ _ _).trans kept.symm
    · exact Function.update_of_ne here _ _

private theorem received_close {status : Word} (held : Received n log input s)
    (fit : FramesFit (.rxClose status)) (stepped : driver.step s (.rxClose status) = some t)
    (ring : ∃ q, RxAt n log' q t.rxRing) : Received n log' input t := by
  obtain ⟨rx, closed, rfl⟩ := rxClose_frame stepped
  obtain ⟨-, rfl⟩ := Rx.dmaClose_frame closed
  refine held.hold ring held.backed ?_ rfl rfl id rfl ?_
  · -- the new frame fits, and the others are as before
    intro i inside cpu whole
    by_cases here : i = s.rx.dmaPos
    · subst here
      simp only [Function.update_self, wholeFrame_closedStatus, frameLengthOf_closedStatus]
        at whole ⊢
      exact fit whole
    · simp only [Function.update_of_ne here] at cpu whole ⊢
      exact held.short i inside cpu whole
  · intro copying first count unread some_left
    have cpu := held.cpu copying first count unread some_left
    -- the DMA gives a descriptor up, so it takes none from the CPU
    unfold Rx.ownsByte at cpu ⊢
    by_cases here : first / ethMaxPacketSize = s.rx.dmaPos
    · rw [here]
      simp only [Function.update_self, closedStatus, isSet_writeOneToClear_self]
    · simpa only [Function.update_of_ne here] using cpu

theorem Received.step {e : DriverEvent} (held : Received n log input s) (fit : FramesFit e)
    (guarded : copyGuard s e) (stepped : driver.step s e = some t) :
    Received n (rxHistory log s e) (input.record s e) t := by
  have ring := RxAt.driver_step held.ring stepped
  have backed := backed_step held.backed stepped
  cases e with
  | irq => exact received_irq held stepped ring backed
  | pbufAlloc answer => exact received_alloc held guarded stepped ring backed
  | netifInput err => exact received_input held stepped ring backed
  | rxStore k byte => exact received_store held guarded stepped ring
  | rxClose status => exact received_close held fit stepped ring
  | irqEnter =>
    obtain ⟨-, rfl⟩ := irqEnter_frame stepped
    exact held.leave ring backed rfl rfl rfl held.intact False.elim
  | output p =>
    obtain ⟨-, rfl⟩ := output_frame stepped
    exact held.elsewhere ring rfl rfl
  | thread =>
    obtain ⟨rx, irq, -⟩ := threadStmt_frame stepped
    exact held.elsewhere ring rx irq
  | rxSuspend =>
    obtain ⟨rx, suspended, rfl⟩ := rxSuspend_frame stepped
    obtain ⟨-, rfl⟩ := Rx.dmaSuspend_frame suspended
    exact held.hold ring backed held.short rfl rfl id rfl held.cpu
  | txFetch | txRead | txDone report =>
    simp only [driver_step, Driver.step, Option.map_eq_some_iff] at stepped
    obtain ⟨tx, -, rfl⟩ := stepped
    exact held.elsewhere ring rfl rfl

end Received

theorem Received.init {n : Nat} (pos : 0 < n) (memory : Memory) (txBuffCount : Nat) :
    Received n RxLog.empty InputLog.empty (Driver.init memory n txBuffCount) where
  ring := RxAt.driver_init pos memory txBuffCount
  short i inside cpu := by
    have owned := (rxCell_eq_none_iff _ _).mp (rxCell_init n memory.dmaRxDscrTab i inside)
    exact absurd (cpu.symm.trans owned) Bool.false_ne_true
  clean := rfl
  intact := by simp [InputLog.empty]
  frame := False.elim
  fits _ _ there := by cases there
  cpu := False.elim
  backed := trivial

theorem Received.run {memory : Memory} {n m : Nat} (pos : 0 < n) {es : List DriverEvent}
    (fit : ∀ e ∈ es, FramesFit e) (guarded : driver.Guarded copyGuard (Driver.init memory n m) es)
    (ran : driver.run (Driver.init memory n m) es = some s) :
    Received n (driver.log rxHistory RxLog.empty (Driver.init memory n m) es)
      (driver.log InputLog.record InputLog.empty (Driver.init memory n m) es) s := by
  have held := driver.guarded_log_invariant (fun s e => FramesFit e ∧ copyGuard s e)
    (fun (p : RxLog × InputLog) s e => (rxHistory p.1 s e, p.2.record s e))
    (fun p s => Received n p.1 p.2 s)
    (fun _ _ _ _ held allowed stepped => held.step allowed.1 allowed.2 stepped)
    (h := (RxLog.empty, InputLog.empty)) (Received.init pos memory m) (guarded.and driver fit) ran
  rwa [driver.log_prod] at held

/-! ### Bad endings -/

/-- Guarded steps lead from one log and state to another. -/
def Driver.Onward (input : InputLog) (s : Driver) (input' : InputLog) (t : Driver) : Prop :=
  driver.Leads InputLog.record FramesFit copyGuard input s input' t

theorem Driver.Onward.irq {input input' : InputLog} {m : Driver} (stepped : s.irqStmt = some m)
    (rest : Driver.Onward (input.record s .irq) m input' t) : Driver.Onward input s input' t :=
  Lts.Leads.head (e := .irq) stepped trivial trivial rest

end WchLwip
