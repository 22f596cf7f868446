import WchLwip.Library.Lts
import WchLwip.Library.Mask
import Mathlib.Logic.Function.Basic

/-! The scheduler port: critical sections, the context switch and the interrupt handlers.

A task or `ETH_IRQHandler` runs code that calls `vPortEnterCritical` and
`vPortExitCritical`, and any handler may be pending at any time. What the kernel
computes beyond that is left open: `vTaskSwitchContext` may pick any task. -/
namespace WchLwip.Port

open Mask

/-- `UBaseType_t`, as wide as a register. -/
abbrev UBaseType := BitVec 32

abbrev Task := Nat

/-! ### Interrupt enable -/

def mie : UBaseType := 0x8
def mpie : UBaseType := 0x80

/-- `portDISABLE_INTERRUPTS()` is `__nop()`. -/
def portDisableInterrupts (mstatus : UBaseType) : UBaseType := mstatus

/-- `portENABLE_INTERRUPTS()` is `__nop()`. -/
def portEnableInterrupts (mstatus : UBaseType) : UBaseType := mstatus

/-- Taking an interrupt moves `MIE` to `MPIE` and clears it; the other fields do not matter. -/
def takeTrap (mstatus : UBaseType) : UBaseType :=
  if isSet mstatus mie then writeOneToClear mstatus mie ||| mpie
  else writeOneToClear (writeOneToClear mstatus mie) mpie

/-- `mret` moves `MPIE` to `MIE` and sets it. -/
def mret (mstatus : UBaseType) : UBaseType :=
  if isSet mstatus mpie then mstatus ||| mie ||| mpie
  else writeOneToClear mstatus mie ||| mpie

/-! ### Critical sections -/

/-- The next instruction inside `vPortEnterCritical`; the increment is a load and a store. -/
inductive EnterPc where
  | disable
  | load
  | store (reg : UBaseType)

/-- The next instruction inside `vPortExitCritical`; `configASSERT` is not defined. -/
inductive ExitPc where
  | load
  | store (reg : UBaseType)
  | test
  | enable

/-- Where the code of a task or a handler is: in one of the two functions or outside. -/
inductive CodePc where
  | outside
  | enter (pc : EnterPc)
  | exit (pc : ExitPc)

/-- One instruction: the values of `mstatus` and `uxCriticalNesting` after it, and the next. -/
def vPortEnterCritical (mstatus uxCriticalNesting : UBaseType) :
    EnterPc → UBaseType × UBaseType × CodePc
  | .disable => (portDisableInterrupts mstatus, uxCriticalNesting, .enter .load)
  | .load => (mstatus, uxCriticalNesting, .enter (.store uxCriticalNesting))
  | .store reg => (mstatus, reg + 1, .outside)

def vPortExitCritical (mstatus uxCriticalNesting : UBaseType) :
    ExitPc → UBaseType × UBaseType × CodePc
  | .load => (mstatus, uxCriticalNesting, .exit (.store uxCriticalNesting))
  | .store reg => (mstatus, reg - 1, .exit .test)
  | .test =>
    (mstatus, uxCriticalNesting, if uxCriticalNesting = 0 then .exit .enable else .outside)
  | .enable => (portEnableInterrupts mstatus, uxCriticalNesting, .outside)

def CodePc.stmt (mstatus uxCriticalNesting : UBaseType) :
    CodePc → Option (UBaseType × UBaseType × CodePc)
  | .outside => none
  | .enter pc => some (vPortEnterCritical mstatus uxCriticalNesting pc)
  | .exit pc => some (vPortExitCritical mstatus uxCriticalNesting pc)

/-- The sections that the code has entered and not left, after its next instruction. A section
is entered and left where the count is written. -/
def CodePc.nest (depth : Nat) : CodePc → Nat
  | .enter (.store _) => depth + 1
  | .exit (.store _) => depth - 1
  | _ => depth

/-! ### Contexts -/

/-- The words of a saved context: `mstatus`, and with `mepc` and the registers the place at
which the code goes on. There is none for `uxCriticalNesting`. -/
structure Context where
  mepc : CodePc
  mstatus : UBaseType

/-- `pxPortInitialiseStack`, given the value of `mstatus` -/
def pxPortInitialiseStack (mstatus : UBaseType) : Context where
  mepc := .outside
  mstatus := writeOneToClear mstatus 0x8 ||| 0x788 <<< 4

/-! ### The hart -/

/-- The next statement of a handler. `eth` holds the place in the body of `ETH_IRQHandler` and
the number of its own open sections. -/
inductive HandlerPc where
  | swSave
  | swSwitchContext
  | swRestore
  | tickDisable
  | tickIncrement
  | tickEnable
  | eth (pc : CodePc) (depth : Nat)
  | mret

inductive Hart where
  | task (pc : CodePc)
  | handler (pc : HandlerPc) (mepc : CodePc)

inductive Interrupt where
  | software
  | sysTick
  | eth

def Interrupt.entry : Interrupt → HandlerPc
  | .software => .swSave
  | .sysTick => .tickDisable
  | .eth => .eth .outside 0

/-- `depth` is the number of sections that each task has entered and not left. -/
structure State where
  mstatus : UBaseType
  uxCriticalNesting : UBaseType
  pxCurrentTCB : Task
  tcb : Task → Option Context
  hart : Hart
  depth : Task → Nat

/-- The calls and returns of the running code, one statement of what runs, the choice of
`vTaskSwitchContext`, the creation of a task by the running one, and an interrupt. -/
inductive Event where
  | enterCritical
  | exitCritical
  | stmt
  | handlerReturn
  | switchContext (next : Task)
  | taskCreate (task : Task)
  | interrupt (irq : Interrupt)

def State.enterCritical (s : State) : Option State :=
  match s.hart with
  | .task .outside => some { s with hart := .task (.enter .disable) }
  | .handler (.eth .outside depth) mepc =>
    some { s with hart := .handler (.eth (.enter .disable) depth) mepc }
  | _ => none

/-- The calls are well bracketed, so a section is open. -/
def State.exitCritical (s : State) : Option State :=
  match s.hart with
  | .task .outside =>
    if 0 < s.depth s.pxCurrentTCB then some { s with hart := .task (.exit .load) } else none
  | .handler (.eth .outside depth) mepc =>
    if 0 < depth then some { s with hart := .handler (.eth (.exit .load) depth) mepc } else none
  | _ => none

def State.stmt (s : State) : Option State :=
  match s.hart with
  | .task pc =>
    (pc.stmt s.mstatus s.uxCriticalNesting).map fun (mstatus, nesting, next) =>
      { s with
        mstatus := mstatus
        uxCriticalNesting := nesting
        hart := .task next
        depth := Function.update s.depth s.pxCurrentTCB (pc.nest (s.depth s.pxCurrentTCB)) }
  | .handler .swSave mepc =>
    -- `SW_Handler` up to its call of `vTaskSwitchContext`
    some { s with
      tcb := Function.update s.tcb s.pxCurrentTCB (some ⟨mepc, s.mstatus⟩)
      hart := .handler .swSwitchContext mepc }
  | .handler .swSwitchContext _ => none
  | .handler .swRestore _ =>
    -- what the switch found in `mepc` is dropped for the place of the next task
    (s.tcb s.pxCurrentTCB).map fun context =>
      { s with mstatus := context.mstatus, hart := .handler .mret context.mepc }
  | .handler .tickDisable mepc =>
    some { s with
      mstatus := portDisableInterrupts s.mstatus
      hart := .handler .tickIncrement mepc }
  -- `xTaskIncrementTick` may make the switch pending, as it may be at any time
  | .handler .tickIncrement mepc => some { s with hart := .handler .tickEnable mepc }
  | .handler .tickEnable mepc =>
    some { s with mstatus := portEnableInterrupts s.mstatus, hart := .handler .mret mepc }
  | .handler (.eth pc depth) mepc =>
    (pc.stmt s.mstatus s.uxCriticalNesting).map fun (mstatus, nesting, next) =>
      { s with
        mstatus := mstatus
        uxCriticalNesting := nesting
        hart := .handler (.eth next (pc.nest depth)) mepc }
  | .handler .mret mepc => some { s with mstatus := mret s.mstatus, hart := .task mepc }

/-- An interrupt is taken where `MIE` is set. A handler has it clear, so none is nested. -/
def State.interrupt (s : State) (irq : Interrupt) : Option State :=
  match s.hart with
  | .task pc =>
    if isSet s.mstatus mie then
      some { s with mstatus := takeTrap s.mstatus, hart := .handler irq.entry pc }
    else none
  | _ => none

def State.step (s : State) : Event → Option State
  | .enterCritical => s.enterCritical
  | .exitCritical => s.exitCritical
  | .stmt => s.stmt
  | .handlerReturn =>
    match s.hart with
    | .handler (.eth .outside 0) mepc => some { s with hart := .handler .mret mepc }
    | _ => none
  | .switchContext next =>
    match s.hart with
    | .handler .swSwitchContext mepc =>
      (s.tcb next).map fun _ =>
        { s with pxCurrentTCB := next, hart := .handler .swRestore mepc }
    | _ => none
  | .taskCreate task =>
    match s.hart with
    | .task .outside =>
      if s.tcb task = none ∧ task ≠ s.pxCurrentTCB then
        some { s with tcb := Function.update s.tcb task (some (pxPortInitialiseStack s.mstatus)) }
      else none
    | _ => none
  | .interrupt irq => s.interrupt irq

def port : Lts State Event := ⟨State.step⟩

@[simp] theorem port_step (s : State) (e : Event) : port.step s e = s.step e := rfl

/-- The first task starts: `xPortStartScheduler` and `xPortStartFirstTask`. The tasks were
created while `mstatus` had the given value. -/
def State.start (mstatus : UBaseType) (created : Task → Bool) (first : Task) : State where
  mstatus := (pxPortInitialiseStack mstatus).mstatus + 0x08
  uxCriticalNesting := 0
  pxCurrentTCB := first
  tcb task := if created task then some (pxPortInitialiseStack mstatus) else none
  hart := .task .outside
  depth _ := 0

end WchLwip.Port
