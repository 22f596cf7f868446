import WchLwip.Model.PortAsm
import WchLwip.Properties.CriticalSection

/-! What the entries of `portASM.S` do to a frame.

A frame is read as the context that `mret` will give back. The code is compared with
the blocks of the library, and each entry is described once. -/
namespace WchLwip.PortAsm

open Rv32 Mask WordMemory

/-! ### Contexts -/

/-- The registers that a frame has a word for. `gp` and `tp` are the same for every task. -/
abbrev Kept := { r : Reg // r = 1 ∨ 5 ≤ r }

/-- The word of the frame. -/
def slotOf (r : Reg) : Nat := if r = 1 then 1 else r.val - 3

/-- What a task goes on from. -/
@[ext]
structure Context where
  pc : Word
  mstatus : Word
  sp : Word
  x : Kept → Word

def contextOf (s : Rv32.State) : Context where
  pc := s.pc
  mstatus := s.csr mstatus
  sp := s.get sp
  x r := s.get r

theorem contextOf_setMem (s : Rv32.State) (m : Nat → UInt8) :
    contextOf (s.setMem m) = contextOf s := rfl

/-- The frame at `top`, as `mret` gives it back. -/
def contextAt (mem : Nat → UInt8) (top : Word) : Context where
  pc := load mem top.toNat
  mstatus := Port.mret (load mem (top.toNat + 4 * 29))
  sp := top + portContextSize
  x r := load mem (top.toNat + 4 * slotOf r)

/-- A task that was interrupted has `MPIE` set when it goes on. -/
def preempt (c : Context) : Context := { c with mstatus := Port.mret (Port.takeTrap c.mstatus) }

/-- `ret` needs the entry of the first task in `ra`. -/
def launch (c : Context) : Context := { c with x := fun r => if r.1 = 1 then c.pc else c.x r }

/-- The task that `pxPortInitialiseStack` prepares. Most registers are what the memory was. -/
def freshContext (s : Rv32.State) : Context where
  pc := s.get a1
  mstatus := Port.mret (Port.pxPortInitialiseStack (s.csr mstatus)).mstatus
  sp := s.get a0
  x r :=
    if r.1 = 1 then 0
    else if r.1 = a0 then s.get a2
    else load s.mem ((s.get a0 - portContextSize).toNat + 4 * slotOf r)

/-! ### Tables -/

/-- The registers that `xPortStartFirstTask` loads as `SW_Handler` does -/
def laterTable : Table := (List.range 26).map fun k => (Fin.ofNat 32 (k + 6), k + 3)

def contextTable : Table := (1, 1) :: (5, 2) :: laterTable

theorem contextTable_slots : (contextTable.map Prod.snd).Nodup := by decide

theorem contextTable_registers : (contextTable.map Prod.fst).Nodup := by decide

theorem contextTable_bounds : ∀ entry ∈ contextTable, 1 ≤ entry.2 ∧ entry.2 ≤ 28 := by decide

theorem mem_contextTable : ∀ r : Reg, r = 1 ∨ 5 ≤ r → (r, slotOf r) ∈ contextTable := by decide

theorem mem_laterTable : ∀ r : Reg, r = 1 ∨ 5 ≤ r → r ≠ 1 → r ≠ 5 → (r, slotOf r) ∈ laterTable := by
  decide

theorem kept_ne_sp : ∀ r : Reg, r = 1 ∨ 5 ≤ r → r ≠ sp := by decide

theorem kept_ne_zero : ∀ r : Reg, r = 1 ∨ 5 ≤ r → r ≠ 0 := by decide

theorem contextTable_fits {w : Word} (fits : w.toNat + portContextSize.toNat ≤ 2 ^ 32) :
    Fits w contextTable := by
  have size : portContextSize.toNat = 120 := rfl
  intro entry member
  have := contextTable_bounds entry member
  omega

theorem laterTable_fits {w : Word} (fits : w.toNat + portContextSize.toNat ≤ 2 ^ 32) :
    Fits w laterTable := fun entry member =>
  contextTable_fits fits entry (List.mem_cons_of_mem _ (List.mem_cons_of_mem _ member))

variable {n : Nat} {layout : Layout n} {s : Rv32.State} {t u : Fin n} {top : Word}
  {mem mem' : Nat → UInt8}

/-! ### The code -/

/-- What `SW_Handler` does behind the registers, up to its call -/
def saveTail (layout : Layout n) : List Instr :=
  [.csrr t0 mstatus, .sw t0 (slot 29) sp, .lwSymbol t0 layout.pxCurrentTCB, .sw sp (slot 0) t0,
    .csrr a1 mepc, .sw a1 (slot 0) sp, .addi a1 0 0x20, .csrs 0x804 a1,
    .lwSymbol sp layout.xISRStackTop]

/-- What it does after the call, before the registers -/
def restoreHead (layout : Layout n) : List Instr :=
  [.lwSymbol t1 layout.pxCurrentTCB, .lw sp (slot 0) t1, .lw t0 (slot 0) sp, .csrw mepc t0,
    .lw t0 (slot 29) sp, .csrw mstatus t0]

def startHead (layout : Layout n) : List Instr :=
  [.lwSymbol sp layout.pxCurrentTCB, .lw sp (slot 0) sp, .lw 1 (slot 0) sp]

def startTail : List Instr :=
  [.lw 5 (slot 29) sp, .addi 5 5 0x08, .csrw mstatus 5, .lw 5 (slot 2) sp,
    .addi sp sp portContextSize]

theorem swHandlerSave_eq (layout : Layout n) : swHandlerSave layout =
    .addi sp sp (-portContextSize) :: (saves sp contextTable ++ saveTail layout) := rfl

theorem swHandlerRestore_eq (layout : Layout n) : swHandlerRestore layout =
    restoreHead layout ++ (restores sp contextTable ++ [.addi sp sp portContextSize]) := rfl

theorem startFirstTask_eq (layout : Layout n) : startFirstTask layout =
    startHead layout ++ (restores sp laterTable ++ startTail) := rfl

theorem toNat_sub_size (room : portContextSize.toNat ≤ top.toNat) :
    (top - portContextSize).toNat = top.toNat - portContextSize.toNat :=
  BitVec.toNat_sub_of_le room

@[simp] theorem add_slot_zero (w : Word) : w + slot 0 = w := BitVec.add_zero w

theorem saveTail_mem (s : Rv32.State) (layout : Layout n) :
    (execAll s (saveTail layout)).mem =
    store (store (store s.mem (s.get sp + slot 29).toNat (s.csr mstatus))
      (load (store s.mem (s.get sp + slot 29).toNat (s.csr mstatus)) layout.pxCurrentTCB.toNat +
        slot 0).toNat (s.get sp))
      (s.get sp + slot 0).toNat (s.csr mepc) := rfl

/-- The save writes a frame below the stack pointer, and its address in the TCB. -/
theorem save_spec (room : portContextSize.toNat ≤ (s.get sp).toNat)
    (current : load s.mem layout.pxCurrentTCB.toNat = layout.tcb t)
    (off : Span.Apart ⟨layout.pxCurrentTCB.toNat, 4⟩
      ⟨(s.get sp - portContextSize).toNat, portContextSize.toNat⟩)
    (apart : Span.Apart ⟨(layout.tcb t).toNat, 4⟩
      ⟨(s.get sp - portContextSize).toNat, portContextSize.toNat⟩) :
    let mem' := (execAll s (swHandlerSave layout)).mem
    load mem' (layout.tcb t).toNat = s.get sp - portContextSize ∧
      contextAt mem' (s.get sp - portContextSize) =
        { contextOf s with pc := s.csr mepc, mstatus := Port.mret (s.csr mstatus) } ∧
      load mem' ((s.get sp - portContextSize).toNat + 4 * 29) = s.csr mstatus ∧
      ∀ a, ¬ Span.Contains ⟨(s.get sp - portContextSize).toNat, portContextSize.toNat⟩ a →
        ¬ Span.Contains ⟨(layout.tcb t).toNat, 4⟩ a → mem' a = s.mem a := by
  have size : portContextSize.toNat = 120 := rfl
  have bottom := toNat_sub_size room
  generalize lowered : s.get sp - portContextSize = top at *
  have limit := (s.get sp).isLt
  have fits : top.toNat + 120 ≤ 2 ^ 32 := by omega
  have base : (s.set sp top).get sp = top := get_set_self (by decide)
  have below : Fits ((s.set sp top).get sp) contextTable := contextTable_fits (base.symm ▸ fits)
  obtain ⟨mem₁, saved, stored, kept⟩ := execAll_saves below contextTable_slots
  rw [base] at stored kept
  have word : (top + slot 29).toNat = top.toNat + 4 * 29 := toNat_add_slot (by omega)
  -- the stores before the TCB are all in the frame
  have outer {a : Nat} (off : ¬ Span.Contains ⟨top.toNat, 120⟩ a) :
      store mem₁ (top + slot 29).toNat (s.csr mstatus) a = s.mem a := by
    simp only [Span.Contains, Span.stop] at off
    rw [store_outside (by omega), kept a fun entry member => ?_]
    · rfl
    · have := contextTable_bounds entry member
      omega
  intro mem'
  have memory : mem' = store (store (store mem₁ (top + slot 29).toNat (s.csr mstatus))
      (layout.tcb t).toNat top) top.toNat (s.csr mepc) := by
    -- `pxCurrentTCB` is outside of it, and is still the TCB of the task
    have held : load (store mem₁ (top + slot 29).toNat (s.csr mstatus)) layout.pxCurrentTCB.toNat =
        layout.tcb t := by
      rw [← current]
      apply load_congr
      intro a low high
      exact outer (off.not_contains ⟨low, high⟩)
    have lower : exec s (.addi sp sp (-portContextSize)) = s.set sp top := by
      rw [← lowered, BitVec.sub_eq_add_neg]
      rfl
    have regs : ((s.set sp top).setMem mem₁).get sp = top := base
    unfold mem'
    rw [swHandlerSave_eq, execAll_cons, execAll_append, lower, saved, saveTail_mem, regs,
      add_slot_zero, add_slot_zero]
    exact congrArg (fun tcb : Word => store (store _ tcb.toNat top) _ _) held
  have frame {k : Nat} (first : 1 ≤ k) (last : k ≤ 29) :
      load mem' (top.toNat + 4 * k) =
        load (store mem₁ (top + slot 29).toNat (s.csr mstatus)) (top.toNat + 4 * k) := by
    simp only [Span.Apart, Span.stop] at apart
    rw [memory, load_store_of_apart (by omega), load_store_of_apart (by omega)]
  have status : load mem' (top.toNat + 4 * 29) = s.csr mstatus := by
    rw [frame (by omega) (Nat.le_refl 29), ← word, load_store]
  refine ⟨?_, ?_, status, ?_⟩
  · simp only [Span.Apart, Span.stop] at apart
    rw [memory, load_store_of_apart (by omega), load_store]
  · apply Context.ext
    · rw [contextAt, memory, load_store]
    · exact congrArg Port.mret status
    · rw [contextAt, ← lowered]
      exact BitVec.sub_add_cancel _ _
    · funext r
      have member := mem_contextTable r.1 r.2
      have bounds : 1 ≤ slotOf r.1 ∧ slotOf r.1 ≤ 28 := contextTable_bounds _ member
      change load mem' (top.toNat + 4 * slotOf r.1) = s.get r.1
      rw [frame bounds.1 (by omega), word, load_store_of_apart (by omega), stored _ member,
        get_set_ne (kept_ne_sp r.1 r.2)]
  · intro a offFrame offTcb
    simp only [Span.Contains, Span.stop] at offTcb
    rw [memory, store_outside, store_outside (by omega), outer offFrame]
    simp only [Span.Contains, Span.stop] at offFrame
    omega

/-- The restore goes on with the context in the frame of the current task. -/
theorem restore_spec (current : load s.mem layout.pxCurrentTCB.toNat = layout.tcb t)
    (saved : load s.mem (layout.tcb t).toNat = top)
    (fits : top.toNat + portContextSize.toNat ≤ 2 ^ 32) :
    contextOf (mret (execAll s (swHandlerRestore layout))) = contextAt s.mem top ∧
      (mret (execAll s (swHandlerRestore layout))).mem = s.mem := by
  have size : portContextSize.toNat = 120 := rfl
  generalize start : execAll s (restoreHead layout) = h
  have address : load s.mem (load s.mem layout.pxCurrentTCB.toNat + slot 0).toNat = top := by
    rw [add_slot_zero, current, saved]
  have base : h.get sp = top := by
    rw [← address, ← start]
    rfl
  have memory : h.mem = s.mem := by
    rw [← start]
    rfl
  have pc : h.csr mepc = load s.mem top.toNat := by
    rw [← start, ← add_slot_zero top, ← address]
    rfl
  have status : h.csr mstatus = load s.mem (top.toNat + 4 * 29) := by
    rw [← toNat_add_slot (by omega), ← address, ← start]
    rfl
  rw [← base] at fits
  obtain ⟨x', restored, loaded, others⟩ := execAll_restores (contextTable_fits fits)
    contextTable_registers (by decide) (by decide)
  rw [base, memory] at loaded
  have stack : ({ h with x := x' } : Rv32.State).get sp = top := by
    rw [← base]
    exact others sp (by decide)
  have done : execAll s (swHandlerRestore layout) =
      ({ h with x := x' } : Rv32.State).set sp (top + portContextSize) := by
    rw [swHandlerRestore_eq, execAll_append, execAll_append, start, restored, ← stack]
    rfl
  rw [done]
  constructor
  · apply Context.ext
    · exact pc
    · exact congrArg Port.mret status
    · rfl
    · funext r
      calc (({ h with x := x' } : Rv32.State).set sp (top + portContextSize)).get r.1
        _ = ({ h with x := x' } : Rv32.State).get r.1 := get_set_ne (kept_ne_sp r.1 r.2)
        _ = x' r.1 := get_eq (kept_ne_zero r.1 r.2)
        _ = load s.mem (top.toNat + 4 * slotOf r.1) := loaded _ (mem_contextTable r.1 r.2)
  · exact memory

/-- What follows the registers of the first task changes `t0` and the stack pointer. -/
theorem startTail_get {r : Reg} (notT0 : r ≠ 5) (notSp : r ≠ sp) (s : Rv32.State) :
    (execAll s startTail).get r = s.get r := by
  simp only [startTail, execAll_cons, execAll_nil, exec]
  rw [get_set_ne notSp, get_set_ne notT0]
  change ((s.set 5 _).set 5 _).get r = s.get r
  rw [get_set_ne notT0, get_set_ne notT0]

/-- The first task starts from its frame with `ret`, so in `ra` is its entry. -/
theorem start_spec (current : load s.mem layout.pxCurrentTCB.toNat = layout.tcb t)
    (saved : load s.mem (layout.tcb t).toNat = top)
    (fits : top.toNat + portContextSize.toNat ≤ 2 ^ 32) :
    contextOf (xPortStartFirstTask layout s) =
        { launch (contextAt s.mem top) with mstatus := load s.mem (top.toNat + 4 * 29) + 0x08 } ∧
      (xPortStartFirstTask layout s).mem = s.mem := by
  have size : portContextSize.toNat = 120 := rfl
  generalize start : execAll (execAll s [.lwSymbol t0 layout.xISRStackTop, .addi t0 t0 (-512),
    .csrw mscratch t0]) (startHead layout) = h
  have address : load s.mem (load s.mem layout.pxCurrentTCB.toNat + slot 0).toNat = top := by
    rw [add_slot_zero, current, saved]
  have base : h.get sp = top := by
    rw [← address, ← start]
    rfl
  have memory : h.mem = s.mem := by
    rw [← start]
    rfl
  have entry : h.x 1 = load s.mem top.toNat := by
    rw [← start, ← add_slot_zero top, ← address]
    rfl
  rw [← base] at fits
  obtain ⟨x', restored, loaded, others⟩ := execAll_restores (laterTable_fits fits)
    (by decide) (by decide) (by decide)
  rw [base, memory] at loaded
  rw [base] at fits
  -- `x5` holds `mstatus` meanwhile, and gets its own word last
  generalize middle : ({ h with x := x' } : Rv32.State) = g at restored
  have stack : g.get sp = top := by
    rw [← base, ← middle, get_eq (by decide), get_eq (by decide)]
    exact others sp (by decide)
  have memory' : g.mem = s.mem := by
    rw [← memory, ← middle]
  have done : xPortStartFirstTask layout s = { execAll g startTail with pc := g.get 1 } := by
    simp only [xPortStartFirstTask]
    rw [startFirstTask_eq, execAll_append, execAll_append, start, restored]
    rfl
  have word {k : Nat} (last : k ≤ 29) : (g.get sp + slot k).toNat = top.toNat + 4 * k := by
    rw [stack]
    exact toNat_add_slot (by omega)
  have ra : g.get 1 = load s.mem top.toNat := by
    rw [← entry, ← middle]
    exact others 1 (by decide)
  rw [done]
  refine ⟨Context.ext ?_ ?_ ?_ ?_, memory'⟩
  · exact ra
  · change load g.mem (g.get sp + slot 29).toNat + 0x08 = _
    rw [word (Nat.le_refl _), memory']
  · change g.get sp + portContextSize = _
    rw [stack]
    rfl
  · funext r
    change (execAll g startTail).get r.1 =
      if r.1 = 1 then load s.mem top.toNat else load s.mem (top.toNat + 4 * slotOf r.1)
    split
    next first => rw [first, startTail_get (by decide) (by decide), ra]
    next other =>
      by_cases t0 : r.1 = 5
      · rw [t0]
        change load g.mem (g.get sp + slot 2).toNat = _
        rw [word (by omega), memory']
        rfl
      · rw [startTail_get t0 (kept_ne_sp r.1 r.2), get_eq (kept_ne_zero r.1 r.2), ← middle]
        exact loaded _ (mem_laterTable r.1 r.2 other t0)

/-- The words that `mret` turns into the ones of `xPortStartFirstTask` -/
theorem mret_eq_add {w : Word} (resumes : Port.Resumes w) : Port.mret w = w + 0x08 := by
  have disjoint : w &&& Port.mie = 0 := by
    simpa [isSet] using resumes.1
  have added : w + 0x08 = w ||| Port.mie := BitVec.add_eq_or_of_and_eq_zero _ _ disjoint
  have kept : isSet (w ||| Port.mie) (BitVec.twoPow 32 7) = true :=
    isSet_or_left _ _ _ resumes.2
  rw [Port.mret, if_pos resumes.2, added]
  exact or_twoPow kept

def initialiseHead : List Instr :=
  [.csrr t0 mstatus, .andi t0 t0 (~~~0x8), .addi t1 0 0x788, .slli t1 t1 4, .or t0 t0 t1]

/-- The words of the frame are stored from its end, and the stack pointer moves down to them. -/
def initialiseTail (d₁ d₂ d₃ z d₄ : Word) : List Instr :=
  [.addi a0 a0 d₁, .sw t0 (slot 0) a0, .addi a0 a0 d₂, .sw a2 (slot 0) a0, .addi a0 a0 d₃,
    .sw 0 (slot 0) a0, .addi t0 0 z, .addi a0 a0 d₄, .sw a1 (slot 0) a0]

/-- There are no chip specific registers. -/
theorem chipSpecificStackFrame_none (s : Rv32.State) :
    chipSpecificStackFrame portasmAdditionalContextSize s = s := rfl

theorem initialise_eq (s : Rv32.State) : pxPortInitialiseStack s =
    execAll (execAll s initialiseHead) (initialiseTail (-portWordSize) (-(22 * portWordSize))
      (-(6 * portWordSize)) (BitVec.ofNat 32 portasmAdditionalContextSize) (-portWordSize)) := by
  unfold pxPortInitialiseStack
  simp only [chipSpecificStackFrame_none, initialiseHead, initialiseTail, execAll_cons,
    execAll_nil]

theorem initialiseHead_get {r : Reg} (notT0 : r ≠ t0) (notT1 : r ≠ t1) (s : Rv32.State) :
    (execAll s initialiseHead).get r = s.get r := by
  simp only [initialiseHead, execAll_cons, execAll_nil, exec]
  rw [get_set_ne notT0, get_set_ne notT1, get_set_ne notT1, get_set_ne notT0, get_set_ne notT0]

theorem initialiseHead_t0 (s : Rv32.State) : (execAll s initialiseHead).get t0 =
    (Port.pxPortInitialiseStack (s.csr mstatus)).mstatus := by
  have bits : (0 : Word) + 0x788 = 0x788 := BitVec.zero_add _
  simp (disch := decide) only [initialiseHead, execAll_cons, execAll_nil, exec, get_set_self,
    get_set_ne, get_zero, bits, Port.pxPortInitialiseStack, writeOneToClear]
  exact congrArg (s.csr mstatus &&& ~~~0x8 ||| ·) (by decide)

theorem initialiseTail_mem (s : Rv32.State) (d₁ d₂ d₃ z d₄ : Word) :
    (execAll s (initialiseTail d₁ d₂ d₃ z d₄)).mem =
      store (store (store (store s.mem (s.get a0 + d₁ + slot 0).toNat (s.get t0))
        (s.get a0 + d₁ + d₂ + slot 0).toNat (s.get a2))
        (s.get a0 + d₁ + d₂ + d₃ + slot 0).toNat 0)
        (s.get a0 + d₁ + d₂ + d₃ + d₄ + slot 0).toNat (s.get a1) := rfl

theorem initialiseTail_a0 (s : Rv32.State) (d₁ d₂ d₃ z d₄ : Word) :
    (execAll s (initialiseTail d₁ d₂ d₃ z d₄)).get a0 = s.get a0 + d₁ + d₂ + d₃ + d₄ := rfl

theorem initialiseTail_get {r : Reg} (notA0 : r ≠ a0) (notT0 : r ≠ t0) (s : Rv32.State)
    (d₁ d₂ d₃ z d₄ : Word) : (execAll s (initialiseTail d₁ d₂ d₃ z d₄)).get r = s.get r := by
  simp only [initialiseTail, execAll_cons, execAll_nil, exec, setMem_get]
  rw [get_set_ne notA0]
  -- the stores in between leave the registers
  change (((s.set a0 _).set a0 _).set a0 _ |>.set t0 _).get r = s.get r
  rw [get_set_ne notT0, get_set_ne notA0, get_set_ne notA0, get_set_ne notA0]

theorem toNat_add_neg {w d : Word} (le : d.toNat ≤ w.toNat) :
    (w + -d).toNat = w.toNat - d.toNat := by
  rw [← BitVec.sub_eq_add_neg]
  exact BitVec.toNat_sub_of_le le

theorem slotOf_other : ∀ r : Reg, r = 1 ∨ 5 ≤ r → r ≠ 1 → r ≠ a0 →
    1 < slotOf r ∧ slotOf r ≠ 7 ∧ slotOf r ≤ 28 := by
  decide

/-- Where the words of a new frame are stored -/
theorem initialise_addresses {w : Word} (room : portContextSize.toNat ≤ w.toNat) :
    (w + -portWordSize).toNat = (w - portContextSize).toNat + 4 * 29 ∧
      (w + -portWordSize + -(22 * portWordSize)).toNat = (w - portContextSize).toNat + 4 * 7 ∧
      (w + -portWordSize + -(22 * portWordSize) + -(6 * portWordSize)).toNat =
        (w - portContextSize).toNat + 4 * 1 ∧
      w + -portWordSize + -(22 * portWordSize) + -(6 * portWordSize) + -portWordSize =
        w - portContextSize := by
  have size : portContextSize.toNat = 120 := rfl
  have one : portWordSize.toNat = 4 := rfl
  have many : (22 * portWordSize).toNat = 88 := rfl
  have some : (6 * portWordSize).toNat = 24 := rfl
  have bottom := toNat_sub_size room
  have first : (w + -portWordSize).toNat = w.toNat - 4 := toNat_add_neg (by omega)
  have second : (w + -portWordSize + -(22 * portWordSize)).toNat = w.toNat - 4 - 88 := by
    rw [toNat_add_neg (by omega), first, many]
  have third : (w + -portWordSize + -(22 * portWordSize) + -(6 * portWordSize)).toNat =
      w.toNat - 4 - 88 - 24 := by
    rw [toNat_add_neg (by omega), second, some]
  refine ⟨by omega, by omega, by omega, BitVec.eq_of_toNat_eq ?_⟩
  rw [toNat_add_neg (by omega), third, one]
  omega

/-- The frame of a new task -/
theorem initialise_spec (room : portContextSize.toNat ≤ (s.get a0).toNat) :
    let q := pxPortInitialiseStack s
    q.get a0 = s.get a0 - portContextSize ∧
      contextAt q.mem (s.get a0 - portContextSize) = freshContext s ∧
      load q.mem ((s.get a0 - portContextSize).toNat + 4 * 29) =
        (Port.pxPortInitialiseStack (s.csr mstatus)).mstatus ∧
      ∀ a, ¬ Span.Contains ⟨(s.get a0 - portContextSize).toNat, portContextSize.toNat⟩ a →
        q.mem a = s.mem a := by
  have size : portContextSize.toNat = 120 := rfl
  obtain ⟨first, second, third, fourth⟩ := initialise_addresses room
  have base : (execAll s initialiseHead).get a0 = s.get a0 :=
    initialiseHead_get (by decide) (by decide) s
  intro q
  have bottom : q.get a0 = s.get a0 - portContextSize := by
    unfold q
    rw [initialise_eq, initialiseTail_a0, base, fourth]
  have memory : q.mem = store (store (store (store s.mem
      ((s.get a0 - portContextSize).toNat + 4 * 29)
        (Port.pxPortInitialiseStack (s.csr mstatus)).mstatus)
      ((s.get a0 - portContextSize).toNat + 4 * 7) (s.get a2))
      ((s.get a0 - portContextSize).toNat + 4 * 1) 0)
      (s.get a0 - portContextSize).toNat (s.get a1) := by
    unfold q
    rw [initialise_eq, initialiseTail_mem, base, initialiseHead_t0,
      initialiseHead_get (by decide) (by decide), initialiseHead_get (by decide) (by decide)]
    simp only [add_slot_zero]
    rw [first, second, third, fourth]
    rfl
  generalize lowered : s.get a0 - portContextSize = top at *
  have status : load q.mem (top.toNat + 4 * 29) =
      (Port.pxPortInitialiseStack (s.csr mstatus)).mstatus := by
    rw [memory, load_store_of_apart (by omega), load_store_of_apart (by omega),
      load_store_of_apart (by omega), load_store]
  refine ⟨bottom, Context.ext ?_ ?_ ?_ ?_, status, fun a off => ?_⟩
  · rw [contextAt, memory, load_store]
    rfl
  · exact congrArg Port.mret status
  · rw [contextAt, ← lowered]
    exact BitVec.sub_add_cancel _ _
  · funext r
    change load q.mem (top.toNat + 4 * slotOf r.1) =
      if r.1 = 1 then 0 else if r.1 = a0 then s.get a2
      else load s.mem ((s.get a0 - portContextSize).toNat + 4 * slotOf r.1)
    rw [memory]
    split
    next ra =>
      rw [ra, show slotOf 1 = 1 from rfl, load_store_of_apart (by omega), load_store]
    next notRa =>
      split
      next argument =>
        rw [argument, show slotOf a0 = 7 from rfl, load_store_of_apart (by omega),
          load_store_of_apart (by omega), load_store]
      next other =>
        have slots := slotOf_other r.1 r.2 notRa other
        rw [lowered, load_store_of_apart (by omega), load_store_of_apart (by omega),
          load_store_of_apart (by omega), load_store_of_apart (by omega)]
  · simp only [Span.Contains, Span.stop] at off
    rw [memory, store_outside (by omega), store_outside (by omega), store_outside (by omega),
      store_outside (by omega)]

/-- The call leaves the other registers of the task that makes it. -/
theorem initialise_get {r : Reg} (notA0 : r ≠ a0) (notT0 : r ≠ t0) (notT1 : r ≠ t1)
    (s : Rv32.State) : (pxPortInitialiseStack s).get r = s.get r := by
  rw [initialise_eq, initialiseTail_get notA0 notT0, initialiseHead_get notT0 notT1]

end WchLwip.PortAsm
