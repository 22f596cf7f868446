import WchLwip.Library.Lts
import WchLwip.Library.Rv32
import WchLwip.Library.Spans
import WchLwip.Model.Descriptors
import WchLwip.Model.Port

/-! `portASM.S`, and the tasks that it switches between.

The code is that of the listing, without `ARCH_FPU`. `vTaskSwitchContext` and the
tasks are the environment: they may do anything but write where a context is kept. -/
namespace WchLwip.PortAsm

open Rv32 Mask

/-! ### Names -/

def sp : Reg := 2
def t0 : Reg := 5
def t1 : Reg := 6
def a0 : Reg := 10
def a1 : Reg := 11
def a2 : Reg := 12

def mstatus : Nat := 0x300
def mepc : Nat := 0x341

def portWordSize : Word := 4

/-- `n * portWORD_SIZE` -/
def portContextSize : Word := 30 * portWordSize

def portasmAdditionalContextSize : Nat := 0

/-- The objects that the code and the kernel share, and the stacks of `n` tasks. `pxTopOfStack`
is the first word of a TCB. -/
structure Layout (n : Nat) where
  tcb : Fin n → Word
  stack : Fin n → Span
  pxCurrentTCB : Word
  xISRStackTop : Word
  stacksApart : ∀ t u, t ≠ u → (stack t).Apart (stack u)
  tcbsApart : ∀ t u, t ≠ u → Span.Apart ⟨(tcb t).toNat, 4⟩ ⟨(tcb u).toNat, 4⟩
  tcbsOff : ∀ t u, Span.Apart ⟨(tcb t).toNat, 4⟩ (stack u)
  currentOff : ∀ t, Span.Apart ⟨pxCurrentTCB.toNat, 4⟩ (stack t) ∧
    Span.Apart ⟨pxCurrentTCB.toNat, 4⟩ ⟨(tcb t).toNat, 4⟩
  stackFits : ∀ t, (stack t).stop < 2 ^ 32

/-! ### `SW_Handler` -/

/-- Up to the call of `vTaskSwitchContext`. -/
def swHandlerSave {n : Nat} (layout : Layout n) : List Instr :=
  [.addi sp sp (-portContextSize),
    .sw 1 (slot 1) sp,
    .sw 5 (slot 2) sp,
    .sw 6 (slot 3) sp,
    .sw 7 (slot 4) sp,
    .sw 8 (slot 5) sp,
    .sw 9 (slot 6) sp,
    .sw 10 (slot 7) sp,
    .sw 11 (slot 8) sp,
    .sw 12 (slot 9) sp,
    .sw 13 (slot 10) sp,
    .sw 14 (slot 11) sp,
    .sw 15 (slot 12) sp,
    .sw 16 (slot 13) sp,
    .sw 17 (slot 14) sp,
    .sw 18 (slot 15) sp,
    .sw 19 (slot 16) sp,
    .sw 20 (slot 17) sp,
    .sw 21 (slot 18) sp,
    .sw 22 (slot 19) sp,
    .sw 23 (slot 20) sp,
    .sw 24 (slot 21) sp,
    .sw 25 (slot 22) sp,
    .sw 26 (slot 23) sp,
    .sw 27 (slot 24) sp,
    .sw 28 (slot 25) sp,
    .sw 29 (slot 26) sp,
    .sw 30 (slot 27) sp,
    .sw 31 (slot 28) sp,
    .csrr t0 mstatus,
    .sw t0 (slot 29) sp,
    .lwSymbol t0 layout.pxCurrentTCB,
    .sw sp (slot 0) t0,
    .csrr a1 mepc,
    .sw a1 (slot 0) sp,
    .addi a1 0 0x20,
    .csrs 0x804 a1,
    .lwSymbol sp layout.xISRStackTop]

/-- `processed_source`, up to `mret`. -/
def swHandlerRestore {n : Nat} (layout : Layout n) : List Instr :=
  [.lwSymbol t1 layout.pxCurrentTCB,
    .lw sp (slot 0) t1,
    .lw t0 (slot 0) sp,
    .csrw mepc t0,
    .lw t0 (slot 29) sp,
    .csrw mstatus t0,
    .lw 1 (slot 1) sp,
    .lw 5 (slot 2) sp,
    .lw 6 (slot 3) sp,
    .lw 7 (slot 4) sp,
    .lw 8 (slot 5) sp,
    .lw 9 (slot 6) sp,
    .lw 10 (slot 7) sp,
    .lw 11 (slot 8) sp,
    .lw 12 (slot 9) sp,
    .lw 13 (slot 10) sp,
    .lw 14 (slot 11) sp,
    .lw 15 (slot 12) sp,
    .lw 16 (slot 13) sp,
    .lw 17 (slot 14) sp,
    .lw 18 (slot 15) sp,
    .lw 19 (slot 16) sp,
    .lw 20 (slot 17) sp,
    .lw 21 (slot 18) sp,
    .lw 22 (slot 19) sp,
    .lw 23 (slot 20) sp,
    .lw 24 (slot 21) sp,
    .lw 25 (slot 22) sp,
    .lw 26 (slot 23) sp,
    .lw 27 (slot 24) sp,
    .lw 28 (slot 25) sp,
    .lw 29 (slot 26) sp,
    .lw 30 (slot 27) sp,
    .lw 31 (slot 28) sp,
    .addi sp sp portContextSize]

/-! ### `xPortStartFirstTask` -/

/-- After `mscratch` has been set, up to `ret`. -/
def startFirstTask {n : Nat} (layout : Layout n) : List Instr :=
  [.lwSymbol sp layout.pxCurrentTCB,
    .lw sp (slot 0) sp,
    .lw 1 (slot 0) sp,
    .lw 6 (slot 3) sp,
    .lw 7 (slot 4) sp,
    .lw 8 (slot 5) sp,
    .lw 9 (slot 6) sp,
    .lw 10 (slot 7) sp,
    .lw 11 (slot 8) sp,
    .lw 12 (slot 9) sp,
    .lw 13 (slot 10) sp,
    .lw 14 (slot 11) sp,
    .lw 15 (slot 12) sp,
    .lw 16 (slot 13) sp,
    .lw 17 (slot 14) sp,
    .lw 18 (slot 15) sp,
    .lw 19 (slot 16) sp,
    .lw 20 (slot 17) sp,
    .lw 21 (slot 18) sp,
    .lw 22 (slot 19) sp,
    .lw 23 (slot 20) sp,
    .lw 24 (slot 21) sp,
    .lw 25 (slot 22) sp,
    .lw 26 (slot 23) sp,
    .lw 27 (slot 24) sp,
    .lw 28 (slot 25) sp,
    .lw 29 (slot 26) sp,
    .lw 30 (slot 27) sp,
    .lw 31 (slot 28) sp,
    .lw 5 (slot 29) sp,
    .addi 5 5 0x08,
    .csrw mstatus 5,
    .lw 5 (slot 2) sp,
    .addi sp sp portContextSize]

def mscratch : Nat := 0x340

def xPortStartFirstTask {n : Nat} (layout : Layout n) (s : Rv32.State) : Rv32.State :=
  let s := execAll s [.lwSymbol t0 layout.xISRStackTop, .addi t0 t0 (-512), .csrw mscratch t0]
  let s := execAll s (startFirstTask layout)
  -- `ret`
  { s with pc := s.get 1 }

/-! ### `pxPortInitialiseStack` -/

/-- The loop `chip_specific_stack_frame`, with the count that is in `t0`. -/
def chipSpecificStackFrame : Nat → Rv32.State → Rv32.State
  | 0, s => s
  | count + 1, s =>
    if s.get t0 = 0 then s
    else chipSpecificStackFrame count
      (execAll s [.addi a0 a0 (-portWordSize), .sw 0 (slot 0) a0, .addi t0 t0 (-1)])

/-- `pxTopOfStack`, `pxCode` and `pvParameters` are in `a0`, `a1` and `a2`, the result is in
`a0`. -/
def pxPortInitialiseStack (s : Rv32.State) : Rv32.State :=
  let s := execAll s [.csrr t0 mstatus,
    .andi t0 t0 (~~~0x8),
    .addi t1 0 0x788,
    .slli t1 t1 4,
    .or t0 t0 t1,
    .addi a0 a0 (-portWordSize),
    .sw t0 (slot 0) a0,
    .addi a0 a0 (-(22 * portWordSize)),
    .sw a2 (slot 0) a0,
    .addi a0 a0 (-(6 * portWordSize)),
    .sw 0 (slot 0) a0,
    .addi t0 0 (BitVec.ofNat 32 portasmAdditionalContextSize)]
  let s := chipSpecificStackFrame portasmAdditionalContextSize s
  execAll s [.addi a0 a0 (-portWordSize), .sw a1 (slot 0) a0]

/-! ### The tasks -/

/-- The hart, the tasks that have been created, and the one that runs. -/
structure System (n : Nat) where
  hart : Rv32.State
  created : Fin n → Bool
  running : Option (Fin n)

/-- What the environment does: registers and `mstatus` that it leaves, and bytes that it writes. -/
structure Effect where
  x : Reg → Word
  mstatus : Word
  pc : Word
  writes : List (Nat × UInt8)

def writeAll (mem : Nat → UInt8) (writes : List (Nat × UInt8)) : Nat → UInt8 :=
  writes.foldl (fun (mem : Nat → UInt8) write => Function.update mem write.1 write.2) mem

def Effect.apply (effect : Effect) (s : Rv32.State) : Rv32.State where
  x := effect.x
  csr := Function.update s.csr PortAsm.mstatus effect.mstatus
  pc := effect.pc
  mem := writeAll s.mem effect.writes

/-- The stack of the task and the first word of its TCB. -/
def Layout.Owns {n : Nat} (layout : Layout n) (t : Fin n) (addr : Nat) : Prop :=
  (layout.stack t).Contains addr ∨ Span.Contains ⟨(layout.tcb t).toNat, 4⟩ addr

instance {n : Nat} (layout : Layout n) (t : Fin n) (addr : Nat) : Decidable (layout.Owns t addr) :=
  inferInstanceAs (Decidable (_ ∨ _))

/-- `task` is created with the arguments that are in the registers. The scheduler starts with
`first`. A task that is interrupted is switched for `next`, which `vTaskSwitchContext` chooses. -/
inductive Event (n : Nat) where
  | run (effect : Effect)
  | create (task : Fin n)
  | start (first : Fin n)
  | switch (next : Fin n) (kernel : Effect)

variable {n : Nat}

/-- No byte is written where the context of a task is kept that does not run. -/
def System.Harmless (layout : Layout n) (s : System n) (running : Option (Fin n))
    (effect : Effect) : Prop :=
  ∀ write ∈ effect.writes, ∀ t, s.created t = true → some t ≠ running → ¬ layout.Owns t write.1

instance (layout : Layout n) (s : System n) (running : Option (Fin n)) (effect : Effect) :
    Decidable (s.Harmless layout running effect) := by
  unfold System.Harmless
  infer_instance

/-- The stack pointer leaves room for a context in the stack of the running task. -/
def Layout.Room (layout : Layout n) (top : Word) : Option (Fin n) → Prop
  | some t => (layout.stack t).start + portContextSize.toNat ≤ top.toNat ∧
      top.toNat ≤ (layout.stack t).stop
  | none => True

instance (layout : Layout n) (top : Word) (running : Option (Fin n)) :
    Decidable (layout.Room top running) := by
  unfold Layout.Room
  cases running <;> infer_instance

/-- The interrupt is taken: what the hart does before the first instruction of the handler. -/
def trap (s : Rv32.State) : Rv32.State :=
  (s.setCsr mepc s.pc).setCsr mstatus (Port.takeTrap (s.csr mstatus))

/-- `mret` -/
def mret (s : Rv32.State) : Rv32.State :=
  { s.setCsr mstatus (Port.mret (s.csr mstatus)) with pc := s.csr mepc }

/-- The kernel stores the address of a TCB in `pxCurrentTCB`. -/
def setCurrent (layout : Layout n) (t : Fin n) (s : Rv32.State) : Rv32.State :=
  { s with mem := WordMemory.store s.mem layout.pxCurrentTCB.toNat (layout.tcb t) }

def System.step (layout : Layout n) (s : System n) : Event n → Option (System n)
  | .run effect =>
    if s.Harmless layout s.running effect ∧ layout.Room (effect.x sp) s.running ∧
        ∀ write ∈ effect.writes, ¬ Span.Contains ⟨layout.pxCurrentTCB.toNat, 4⟩ write.1 then
      some { s with hart := effect.apply s.hart }
    else none
  | .create task =>
    if s.created task = false ∧ layout.Room (s.hart.get a0) (some task) then
      let hart := pxPortInitialiseStack s.hart
      -- `pxNewTCB->pxTopOfStack` is what the call returns
      some { s with
        hart := { hart with
          mem := WordMemory.store hart.mem (layout.tcb task).toNat (hart.get a0) }
        created := Function.update s.created task true }
    else none
  | .start first =>
    if s.running = none ∧ s.created first = true then
      some { s with
        hart := xPortStartFirstTask layout (setCurrent layout first s.hart)
        running := some first }
    else none
  | .switch next kernel =>
    if s.running ≠ none ∧ isSet (s.hart.csr mstatus) Port.mie = true ∧ s.created next = true ∧
        s.Harmless layout none kernel then
      let hart := execAll (trap s.hart) (swHandlerSave layout)
      let hart := setCurrent layout next (kernel.apply hart)
      some { s with
        hart := mret (execAll hart (swHandlerRestore layout))
        running := some next }
    else none

def system (layout : Layout n) : Lts (System n) (Event n) := ⟨System.step layout⟩

/-- No task has been created. -/
def System.boot (hart : Rv32.State) : System n := ⟨hart, fun _ => false, none⟩

end WchLwip.PortAsm
