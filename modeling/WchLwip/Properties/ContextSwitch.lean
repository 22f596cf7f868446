import WchLwip.Library.Processors
import WchLwip.Properties.ContextFrames

/-! The tasks that `SW_Handler` switches between go on as if each had its own hart. -/
namespace WchLwip.PortAsm

open Rv32 Mask WordMemory

variable {n : Nat} {layout : Layout n} {s : Rv32.State} {t u : Fin n} {top : Word}
  {mem mem' : Nat → UInt8}

/-! ### Tasks that wait -/

/-- The context of a task that does not run. -/
def Layout.saved (layout : Layout n) (mem : Nat → UInt8) (t : Fin n) : Context :=
  contextAt mem (load mem (layout.tcb t).toNat)

/-- The frame is in the stack of the task, and `mret` goes on with interrupts enabled. -/
structure Layout.Waiting (layout : Layout n) (mem : Nat → UInt8) (t : Fin n) : Prop where
  low : (layout.stack t).start ≤ (load mem (layout.tcb t).toNat).toNat
  high : (load mem (layout.tcb t).toNat).toNat + portContextSize.toNat ≤ (layout.stack t).stop
  resumes : Port.Resumes (load mem ((load mem (layout.tcb t).toNat).toNat + 4 * 29))

theorem Layout.Waiting.fits (waiting : layout.Waiting mem t) :
    (load mem (layout.tcb t).toNat).toNat + portContextSize.toNat ≤ 2 ^ 32 := by
  have := waiting.high
  have := layout.stackFits t
  omega

/-- A frame is read in the words of the frame only. -/
theorem contextAt_congr (same : ∀ a, Span.Contains ⟨top.toNat, portContextSize.toNat⟩ a →
    mem' a = mem a) : contextAt mem' top = contextAt mem top ∧
      load mem' (top.toNat + 4 * 29) = load mem (top.toNat + 4 * 29) := by
  have size : portContextSize.toNat = 120 := rfl
  have word {k : Nat} (last : k ≤ 29) :
      load mem' (top.toNat + 4 * k) = load mem (top.toNat + 4 * k) := by
    apply load_congr
    intro a low high
    apply same
    simp only [Span.Contains, Span.stop]
    omega
  have entry : load mem' top.toNat = load mem top.toNat := by
    simpa only [Nat.mul_zero, Nat.add_zero] using word (Nat.zero_le 29)
  have registers : (fun r : Kept => load mem' (top.toNat + 4 * slotOf r)) =
      fun r : Kept => load mem (top.toNat + 4 * slotOf r) := by
    funext r
    have bounds : 1 ≤ slotOf r.1 ∧ slotOf r.1 ≤ 28 :=
      contextTable_bounds _ (mem_contextTable r.1 r.2)
    exact word (by omega)
  have status := word (Nat.le_refl 29)
  refine ⟨?_, status⟩
  rw [contextAt, contextAt, entry, status, registers]

/-- A task waits on as long as nobody writes in its stack or its TCB. -/
theorem Layout.Waiting.congr (waiting : layout.Waiting mem t)
    (same : ∀ a, layout.Owns t a → mem' a = mem a) :
    layout.Waiting mem' t ∧ layout.saved mem' t = layout.saved mem t := by
  obtain ⟨low, high, resumes⟩ := waiting
  have saved : load mem' (layout.tcb t).toNat = load mem (layout.tcb t).toNat := by
    apply load_congr
    intro a first last
    exact same a (Or.inr ⟨first, last⟩)
  have inside : ∀ a,
      Span.Contains ⟨(load mem (layout.tcb t).toNat).toNat, portContextSize.toNat⟩ a →
        mem' a = mem a := by
    rintro a ⟨first, last⟩
    exact same a (Or.inl ⟨Nat.le_trans low first, Nat.lt_of_lt_of_le last high⟩)
  have frame := contextAt_congr inside
  refine ⟨⟨?_, ?_, ?_⟩, ?_⟩
  · rw [saved]
    exact low
  · rw [saved]
    exact high
  · rw [saved, frame.2]
    exact resumes
  · rw [Layout.saved, saved]
    exact frame.1

/-- Where there is room for a context, its frame is in the stack of the task. -/
theorem Layout.Room.below {w : Word} (room : layout.Room w (some t)) :
    portContextSize.toNat ≤ w.toNat ∧ (layout.stack t).start ≤ (w - portContextSize).toNat ∧
      (w - portContextSize).toNat + portContextSize.toNat ≤ (layout.stack t).stop := by
  obtain ⟨low, high⟩ := room
  have bottom : (w - portContextSize).toNat = w.toNat - portContextSize.toNat :=
    toNat_sub_size (by omega)
  omega

/-- `pxPortInitialiseStack`, and the store of what it returns in the TCB. -/
def createTask (layout : Layout n) (task : Fin n) (s : Rv32.State) : Rv32.State :=
  (pxPortInitialiseStack s).setMem (store (pxPortInitialiseStack s).mem (layout.tcb task).toNat
    ((pxPortInitialiseStack s).get a0))

/-- A new task waits to be started, and no other task is touched. -/
theorem createTask_spec (room : layout.Room (s.get a0) (some t)) :
    layout.Waiting (createTask layout t s).mem t ∧
      layout.saved (createTask layout t s).mem t = freshContext s ∧
      ∀ a, ¬ layout.Owns t a → (createTask layout t s).mem a = s.mem a := by
  obtain ⟨room, low, high⟩ := room.below
  obtain ⟨result, context, status, kept⟩ := initialise_spec room
  rw [createTask, setMem_mem, result]
  generalize (pxPortInitialiseStack s).mem = mem at *
  generalize s.get a0 - portContextSize = top at *
  have own (a : Nat) (inside : Span.Contains ⟨top.toNat, portContextSize.toNat⟩ a) :
      (layout.stack t).Contains a :=
    ⟨Nat.le_trans low inside.1, Nat.lt_of_lt_of_le inside.2 high⟩
  have offTcb {a : Nat} (off : ¬ Span.Contains ⟨(layout.tcb t).toNat, 4⟩ a) :
      store mem (layout.tcb t).toNat top a = mem a := by
    simp only [Span.Contains, Span.stop] at off
    exact store_outside (by omega)
  obtain ⟨same, word⟩ := contextAt_congr fun a inside =>
    offTcb ((layout.tcbsOff t t).symm.not_contains (own a inside))
  refine ⟨⟨?_, ?_, ?_⟩, ?_, fun a off => ?_⟩
  · rw [load_store]
    omega
  · rw [load_store]
    omega
  · rw [load_store, word, status]
    exact Port.resumes_initialiseStack _
  · rw [Layout.saved, load_store, same, context]
  · rw [offTcb fun inside => off (Or.inr inside)]
    exact kept a fun inside => off (Or.inl (own a inside))

theorem trap_context (s : Rv32.State) : { contextOf (trap s) with
    pc := (trap s).csr mepc
    mstatus := Port.mret ((trap s).csr mstatus) } = preempt (contextOf s) := rfl

/-- What the save writes, in the system -/
theorem save_interrupted (room : layout.Room (s.get sp) (some t))
    (current : load s.mem layout.pxCurrentTCB.toNat = layout.tcb t) :
    let mem' := (execAll (trap s) (swHandlerSave layout)).mem
    load mem' (layout.tcb t).toNat = s.get sp - portContextSize ∧
      contextAt mem' (s.get sp - portContextSize) = preempt (contextOf s) ∧
      load mem' ((s.get sp - portContextSize).toNat + 4 * 29) = Port.takeTrap (s.csr mstatus) ∧
      ∀ a, ¬ Span.Contains ⟨(s.get sp - portContextSize).toNat, portContextSize.toNat⟩ a →
        ¬ Span.Contains ⟨(layout.tcb t).toNat, 4⟩ a → mem' a = s.mem a := by
  obtain ⟨room, low, high⟩ := room.below
  have apart {b : Nat} (off : Span.Apart ⟨b, 4⟩ (layout.stack t)) :
      Span.Apart ⟨b, 4⟩ ⟨(s.get sp - portContextSize).toNat, portContextSize.toNat⟩ := by
    simp only [Span.Apart, Span.stop] at *
    omega
  have stack : (trap s).get sp = s.get sp := rfl
  have spec := save_spec (s := trap s) (stack ▸ room) current (apart (layout.currentOff t).1)
    (apart (layout.tcbsOff t t))
  rw [trap_context, stack] at spec
  exact spec

/-- The task that is interrupted waits from then on, and no other task is touched. -/
theorem save_waiting (room : layout.Room (s.get sp) (some t))
    (current : load s.mem layout.pxCurrentTCB.toNat = layout.tcb t)
    (enabled : isSet (s.csr mstatus) Port.mie = true) :
    layout.Waiting (execAll (trap s) (swHandlerSave layout)).mem t ∧
      layout.saved (execAll (trap s) (swHandlerSave layout)).mem t = preempt (contextOf s) ∧
      ∀ a, ¬ layout.Owns t a → (execAll (trap s) (swHandlerSave layout)).mem a = s.mem a := by
  obtain ⟨saved, context, status, kept⟩ := save_interrupted room current
  obtain ⟨-, low, high⟩ := room.below
  generalize (execAll (trap s) (swHandlerSave layout)).mem = mem at *
  refine ⟨⟨?_, ?_, ?_⟩, ?_, fun a off => ?_⟩
  · rw [saved]
    exact low
  · rw [saved]
    exact high
  · rw [saved, status]
    exact Port.resumes_takeTrap enabled
  · rw [Layout.saved, saved, context]
  · apply kept
    · exact fun inside => off (Or.inl
        ⟨Nat.le_trans low inside.1, Nat.lt_of_lt_of_le inside.2 high⟩)
    · exact fun inside => off (Or.inr inside)

/-- Every task of a set waits with its context. -/
def Layout.Holds (layout : Layout n) (mem : Nat → UInt8) (waits : Fin n → Prop)
    (context : Fin n → Context) : Prop :=
  ∀ t, waits t → layout.Waiting mem t ∧ layout.saved mem t = context t

theorem Layout.Holds.congr {waits : Fin n → Prop} {context : Fin n → Context}
    (holds : layout.Holds mem waits context)
    (same : ∀ t, waits t → ∀ a, layout.Owns t a → mem' a = mem a) :
    layout.Holds mem' waits context := by
  intro t member
  obtain ⟨waiting, saved⟩ := holds t member
  obtain ⟨waiting', saved'⟩ := waiting.congr (same t member)
  exact ⟨waiting', saved'.trans saved⟩

/-! ### What the steps write -/

theorem restore_mem (s : Rv32.State) (layout : Layout n) :
    (mret (execAll s (swHandlerRestore layout))).mem = s.mem := rfl

theorem writeAll_of_ne {a : Nat} {writes : List (Nat × UInt8)}
    (elsewhere : ∀ write ∈ writes, write.1 ≠ a) : writeAll mem writes a = mem a := by
  induction writes generalizing mem with
  | nil => rfl
  | cons write writes ih =>
    obtain ⟨first, rest⟩ := List.forall_mem_cons.mp elsewhere
    change writeAll (Function.update mem write.1 write.2) writes a = mem a
    rw [ih rest, Function.update_of_ne first.symm]

theorem Layout.Owns.not_current {a : Nat} (owns : layout.Owns t a) :
    ¬ Span.Contains ⟨layout.pxCurrentTCB.toNat, 4⟩ a := by
  obtain ⟨offStack, offTcb⟩ := layout.currentOff t
  rcases owns with inStack | inTcb
  · exact offStack.symm.not_contains inStack
  · exact offTcb.symm.not_contains inTcb

/-- What two tasks own is apart. -/
theorem Layout.Owns.unique {a : Nat} (owns : layout.Owns t a) (different : u ≠ t) :
    ¬ layout.Owns u a := by
  rintro (inStack | inTcb) <;> rcases owns with inStack' | inTcb'
  · exact (layout.stacksApart u t different).not_contains inStack inStack'
  · exact (layout.tcbsOff t u).not_contains inTcb' inStack
  · exact (layout.tcbsOff u t).not_contains inTcb inStack'
  · exact (layout.tcbsApart u t different).not_contains inTcb inTcb'

theorem setCurrent_other {a : Nat} (owns : layout.Owns t a) (s : Rv32.State) :
    (setCurrent layout u s).mem a = s.mem a := by
  have off := owns.not_current
  simp only [Span.Contains, Span.stop] at off
  exact store_outside (by omega)

theorem Layout.Holds.setCurrent {waits : Fin n → Prop} {context : Fin n → Context}
    (holds : layout.Holds s.mem waits context) (u : Fin n) :
    layout.Holds (setCurrent layout u s).mem waits context :=
  holds.congr fun _ _ _ owns => setCurrent_other owns s

theorem setCurrent_current (s : Rv32.State) :
    load (setCurrent layout u s).mem layout.pxCurrentTCB.toNat = layout.tcb u :=
  load_store _ _ _

/-! ### The tasks and their processors -/

/-- The tasks of the system, each with what it goes on from. -/
def System.processors (layout : Layout n) (s : System n) : Processors (Fin n) Context where
  running := s.running
  context t :=
    if s.created t = true then
      some (if s.running = some t then contextOf s.hart else layout.saved s.hart.mem t)
    else none

structure System.Sound (layout : Layout n) (s : System n) : Prop where
  created : ∀ t, s.running = some t → s.created t = true
  room : ∀ t, s.running = some t → layout.Room (s.hart.get sp) (some t)
  current : ∀ t, s.running = some t → load s.hart.mem layout.pxCurrentTCB.toNat = layout.tcb t
  waiting : ∀ t, s.created t = true → s.running ≠ some t → layout.Waiting s.hart.mem t

/-- The step of the processors that an event of the system is. -/
def observed (s : System n) : Event n → Processors.Event (Fin n) Context
  | .run effect => .run (contextOf (effect.apply s.hart))
  | .create task => .create task (freshContext s.hart) (contextOf (pxPortInitialiseStack s.hart))
  | .start first => .start first
  | .switch next _ => .switch next

section Steps

variable {s q : System n} {p : Processors (Fin n) Context}

theorem System.processors_own (sound : s.Sound layout) (running : s.running = some t) :
    (s.processors layout).context t = some (contextOf s.hart) := by
  rw [System.processors]
  simp only [sound.created t running, running, if_true]

theorem System.processors_waiting (created : s.created t = true) (other : s.running ≠ some t) :
    (s.processors layout).context t = some (layout.saved s.hart.mem t) := by
  rw [System.processors]
  simp only [created, if_true, if_neg other]

theorem System.processors_none (absent : s.created t = false) :
    (s.processors layout).context t = none := by
  rw [System.processors]
  simp only [absent, Bool.false_eq_true, if_false]

/-- The processors of a system, task by task -/
theorem System.processors_eq (sound : s.Sound layout) (running : p.running = s.running)
    (own : ∀ t, s.running = some t → p.context t = some (contextOf s.hart))
    (waits : ∀ t, s.created t = true → s.running ≠ some t →
      p.context t = some (layout.saved s.hart.mem t))
    (absent : ∀ t, s.created t = false → p.context t = none) : p = s.processors layout := by
  apply Processors.ext
  · exact running
  · funext t
    by_cases runs : s.running = some t
    · rw [own t runs, processors_own sound runs]
    · cases created : s.created t with
      | true => rw [waits t created runs, processors_waiting created runs]
      | false => rw [absent t created, processors_none created]

theorem System.Sound.not_running (sound : s.Sound layout) (absent : s.created t = false) :
    s.running ≠ some t := by
  intro running
  rw [sound.created t running] at absent
  cases absent

/-- The set of tasks that wait, with their contexts -/
theorem System.Sound.holds (sound : s.Sound layout) :
    layout.Holds s.hart.mem (fun t => s.created t = true ∧ s.running ≠ some t)
      (layout.saved s.hart.mem) :=
  fun t member => ⟨sound.waiting t member.1 member.2, rfl⟩

/-- An effect that does no harm leaves what the waiting tasks own. -/
theorem System.Harmless.same {effect : Effect} {running : Option (Fin n)} {a : Nat}
    (harmless : s.Harmless layout running effect) (created : s.created t = true)
    (other : running ≠ some t) (owns : layout.Owns t a) (h : Rv32.State) :
    (effect.apply h).mem a = h.mem a := by
  apply writeAll_of_ne
  rintro write member equal
  exact harmless write member t created (Ne.symm other) (equal ▸ owns)

/-! ### What a step has found -/

theorem run_inversion {effect : Effect} (stepped : s.step layout (.run effect) = some q) :
    (s.Harmless layout s.running effect ∧ layout.Room (effect.x sp) s.running ∧
      ∀ write ∈ effect.writes, ¬ Span.Contains ⟨layout.pxCurrentTCB.toNat, 4⟩ write.1) ∧
      q = { s with hart := effect.apply s.hart } := by
  obtain ⟨allowed, same⟩ := Option.ite_none_right_eq_some.mp stepped
  exact ⟨allowed, (Option.some.inj same).symm⟩

theorem create_inversion {task : Fin n} (stepped : s.step layout (.create task) = some q) :
    (s.created task = false ∧ layout.Room (s.hart.get a0) (some task)) ∧
      q = { s with
        hart := createTask layout task s.hart
        created := Function.update s.created task true } := by
  obtain ⟨allowed, same⟩ := Option.ite_none_right_eq_some.mp stepped
  exact ⟨allowed, (Option.some.inj same).symm⟩

theorem start_inversion {first : Fin n} (stepped : s.step layout (.start first) = some q) :
    (s.running = none ∧ s.created first = true) ∧
      q = { s with
        hart := xPortStartFirstTask layout (setCurrent layout first s.hart)
        running := some first } := by
  obtain ⟨allowed, same⟩ := Option.ite_none_right_eq_some.mp stepped
  exact ⟨allowed, (Option.some.inj same).symm⟩

theorem switch_inversion {next : Fin n} {kernel : Effect}
    (stepped : s.step layout (.switch next kernel) = some q) :
    (s.running ≠ none ∧ isSet (s.hart.csr mstatus) Port.mie = true ∧ s.created next = true ∧
      s.Harmless layout none kernel) ∧
      q = { s with
        hart := mret (execAll (setCurrent layout next (kernel.apply (execAll (trap s.hart)
          (swHandlerSave layout)))) (swHandlerRestore layout))
        running := some next } := by
  obtain ⟨allowed, same⟩ := Option.ite_none_right_eq_some.mp stepped
  exact ⟨allowed, (Option.some.inj same).symm⟩

/-! ### The steps -/

theorem step_run {effect : Effect} (sound : s.Sound layout)
    (stepped : s.step layout (.run effect) = some q) : q.Sound layout ∧
      Processors.step preempt launch (s.processors layout) (observed s (.run effect)) =
        some (q.processors layout) := by
  obtain ⟨⟨harmless, room, offCurrent⟩, rfl⟩ := run_inversion stepped
  have holds : layout.Holds (effect.apply s.hart).mem
      (fun t => s.created t = true ∧ s.running ≠ some t) (layout.saved s.hart.mem) :=
    sound.holds.congr fun t member a owns => harmless.same member.1 member.2 owns s.hart
  have current : load (effect.apply s.hart).mem layout.pxCurrentTCB.toNat =
      load s.hart.mem layout.pxCurrentTCB.toNat := by
    apply load_congr
    intro a low high
    apply writeAll_of_ne
    rintro write member rfl
    exact offCurrent write member ⟨low, high⟩
  have sound' : System.Sound layout { s with hart := effect.apply s.hart } := by
    refine ⟨sound.created, ?_, ?_, ?_⟩
    · intro t running
      exact running ▸ room
    · intro t running
      exact current.trans (sound.current t running)
    · intro t created other
      exact (holds t ⟨created, other⟩).1
  refine ⟨sound', congrArg some (System.processors_eq sound' ?_ ?_ ?_ ?_)⟩
  · exact Processors.proceed_running _ _
  · intro t running
    exact Processors.proceed_self _ running
  · intro t created other
    rw [Processors.proceed_context _ _ other, System.processors_waiting (s := s) created other]
    exact congrArg some (holds t ⟨created, other⟩).2.symm
  · intro t absent
    rw [Processors.proceed_context _ _ (sound.not_running absent)]
    exact System.processors_none (s := s) absent

theorem step_create {task : Fin n} (sound : s.Sound layout)
    (stepped : s.step layout (.create task) = some q) : q.Sound layout ∧
      Processors.step preempt launch (s.processors layout) (observed s (.create task)) =
        some (q.processors layout) := by
  obtain ⟨⟨absent, room⟩, named⟩ := create_inversion stepped
  obtain ⟨waits, saved, kept⟩ := createTask_spec room
  have different {t : Fin n} (created : s.created t = true) : t ≠ task := by
    rintro rfl
    exact Bool.false_ne_true (absent.symm.trans created)
  have holds := sound.holds.congr fun t member a owns =>
    kept a (owns.unique (different member.1).symm)
  have sound' : q.Sound layout := by
    subst named
    refine ⟨?_, ?_, ?_, ?_⟩
    · intro t running
      have created := sound.created t running
      exact (Function.update_of_ne (different created) _ _).trans created
    · intro t running
      have stack : (createTask layout task s.hart).get sp = s.hart.get sp := by
        rw [createTask, setMem_get, initialise_get (by decide) (by decide) (by decide)]
      change layout.Room ((createTask layout task s.hart).get sp) (some t)
      rw [stack]
      exact sound.room t running
    · intro t running
      refine (load_congr fun a low high => kept a fun owns => ?_).trans (sound.current t running)
      exact owns.not_current ⟨low, high⟩
    · intro t created other
      by_cases same : t = task
      · exact same ▸ waits
      · have before : s.created t = true := by
          rw [← created]
          exact (Function.update_of_ne same _ _).symm
        exact (holds t ⟨before, other⟩).1
  have moved : Processors.step preempt launch (s.processors layout) (observed s (.create task)) =
      some ⟨_, _⟩ := Processors.step_create (System.processors_none absent)
  refine ⟨sound', moved.trans (congrArg some (System.processors_eq sound' ?_ ?_ ?_ ?_))⟩ <;>
    subst named
  · exact Processors.proceed_running _ _
  · intro t running
    refine (Function.update_of_ne (different (sound.created t running)) _ _).trans ?_
    rw [createTask, contextOf_setMem]
    exact Processors.proceed_self _ running
  · intro t created other
    by_cases same : t = task
    · subst same
      rw [saved]
      exact Function.update_self _ _ _
    · have before : s.created t = true := by
        rw [← created]
        exact (Function.update_of_ne same _ _).symm
      refine (Function.update_of_ne same _ _).trans ?_
      rw [Processors.proceed_context _ _ other, System.processors_waiting (s := s) before other]
      exact congrArg some (holds t ⟨before, other⟩).2.symm
  · intro t none
    have same : t ≠ task := by
      rintro rfl
      exact Bool.false_ne_true (none.symm.trans (Function.update_self _ _ _))
    have before : s.created t = false := (Function.update_of_ne same _ _).symm.trans none
    refine (Function.update_of_ne same _ _).trans ?_
    rw [Processors.proceed_context _ _ (sound.not_running before)]
    exact System.processors_none (s := s) before

/-- A task that is loaded from its frame has its stack to itself above it. -/
theorem Layout.Waiting.room (waiting : layout.Waiting mem t) {h : Rv32.State}
    (loaded : (contextOf h).sp = (layout.saved mem t).sp) :
    layout.Room (h.get sp) (some t) := by
  have stack : h.get sp = load mem (layout.tcb t).toNat + portContextSize := loaded
  have size : portContextSize.toNat = 120 := rfl
  have limit := layout.stackFits t
  obtain ⟨low, high, -⟩ := waiting
  have sum : (load mem (layout.tcb t).toNat + portContextSize).toNat =
      (load mem (layout.tcb t).toNat).toNat + portContextSize.toNat :=
    BitVec.toNat_add_of_lt (by omega)
  rw [stack, Layout.Room, sum]
  omega

theorem step_start {first : Fin n} (sound : s.Sound layout)
    (stepped : s.step layout (.start first) = some q) : q.Sound layout ∧
      Processors.step preempt launch (s.processors layout) (observed s (.start first)) =
        some (q.processors layout) := by
  obtain ⟨⟨idle, created⟩, named⟩ := start_inversion stepped
  clear stepped
  have other (t : Fin n) : s.running ≠ some t := by
    rw [idle]
    exact Option.some_ne_none t |>.symm
  have holds := sound.holds.setCurrent first
  have current : load (setCurrent layout first s.hart).mem layout.pxCurrentTCB.toNat =
      layout.tcb first := setCurrent_current s.hart
  generalize setCurrent layout first s.hart = h at *
  obtain ⟨waiting, saved⟩ := holds first ⟨created, other first⟩
  obtain ⟨context, memory⟩ := start_spec current rfl waiting.fits
  -- `ret` does not restore `mstatus`, so the code has added what `mret` would set
  rw [← mret_eq_add waiting.resumes] at context
  have loaded : contextOf (xPortStartFirstTask layout h) =
      launch (layout.saved s.hart.mem first) := by
    rw [context, ← saved]
    rfl
  generalize xPortStartFirstTask layout h = hart at *
  have sound' : q.Sound layout := by
    subst named
    refine ⟨?_, ?_, ?_, ?_⟩
    · rintro t running
      cases running
      exact created
    · rintro t running
      cases running
      apply waiting.room
      rw [context]
      rfl
    · rintro t running
      cases running
      rw [memory]
      exact current
    · intro t created different
      rw [memory]
      exact (holds t ⟨created, other t⟩).1
  have moved : Processors.step preempt launch (s.processors layout) (.start first) =
      some ⟨_, _⟩ := Processors.step_start idle (System.processors_waiting created (other first))
  refine ⟨sound', moved.trans (congrArg some (System.processors_eq sound' ?_ ?_ ?_ ?_))⟩ <;>
    subst named
  · rfl
  · rintro t running
    cases running
    rw [loaded]
    exact Function.update_self _ _ _
  · intro t created different
    have others : t ≠ first := by
      rintro rfl
      exact different rfl
    refine (Function.update_of_ne others _ _).trans ?_
    rw [System.processors_waiting (s := s) created (other t), memory]
    exact congrArg some (holds t ⟨created, other t⟩).2.symm
  · intro t absent
    have others : t ≠ first := by
      rintro rfl
      exact Bool.false_ne_true (absent.symm.trans created)
    exact (Function.update_of_ne others _ _).trans (System.processors_none (s := s) absent)

theorem step_switch {next : Fin n} {kernel : Effect} (sound : s.Sound layout)
    (stepped : s.step layout (.switch next kernel) = some q) : q.Sound layout ∧
      Processors.step preempt launch (s.processors layout) (observed s (.switch next kernel)) =
        some (q.processors layout) := by
  obtain ⟨⟨busy, enabled, created, harmless⟩, named⟩ := switch_inversion stepped
  clear stepped
  obtain ⟨t, running⟩ := Option.ne_none_iff_exists'.mp busy
  obtain ⟨waits, saved, kept⟩ := save_waiting (sound.room t running) (sound.current t running)
    enabled
  generalize execAll (trap s.hart) (swHandlerSave layout) = h at *
  -- from here on no task runs, and the one that was interrupted waits like the others
  have holds : layout.Holds h.mem (fun u => s.created u = true)
      (Function.update (layout.saved s.hart.mem) t (preempt (contextOf s.hart))) := by
    intro u member
    by_cases same : u = t
    · subst same
      rw [Function.update_self]
      exact ⟨waits, saved⟩
    · have other : s.running ≠ some u := by
        rw [running]
        exact fun equal => same (Option.some.inj equal).symm
      rw [Function.update_of_ne same]
      exact (sound.waiting u member other).congr fun a owns => kept a (owns.unique (Ne.symm same))
  have holds' := (holds.congr fun u member a owns =>
    harmless.same member (Option.some_ne_none u).symm owns h).setCurrent next
  have current : load (setCurrent layout next (kernel.apply h)).mem layout.pxCurrentTCB.toNat =
      layout.tcb next := setCurrent_current _
  -- the kernel has written elsewhere, so the frame of `next` is what the restore loads
  generalize setCurrent layout next (kernel.apply h) = h' at *
  obtain ⟨waiting, saved'⟩ := holds' next created
  obtain ⟨context, memory⟩ := restore_spec current rfl waiting.fits
  generalize mret (execAll h' (swHandlerRestore layout)) = hart at *
  have sound' : q.Sound layout := by
    subst named
    refine ⟨?_, ?_, ?_, ?_⟩
    · rintro u running
      cases running
      exact created
    · rintro u running
      cases running
      exact waiting.room (congrArg Context.sp context)
    · rintro u running
      cases running
      rw [memory]
      exact current
    · intro u created _
      rw [memory]
      exact (holds' u created).1
  have contexts (u : Fin n) (member : s.created u = true) :
      Function.update (s.processors layout).context t (some (preempt (contextOf s.hart))) u =
        some (Function.update (layout.saved s.hart.mem) t (preempt (contextOf s.hart)) u) := by
    by_cases same : u = t
    · subst same
      rw [Function.update_self, Function.update_self]
    · have other : s.running ≠ some u := by
        rw [running]
        exact fun equal => same (Option.some.inj equal).symm
      rw [Function.update_of_ne same, Function.update_of_ne same,
        System.processors_waiting member other]
  have moved : Processors.step preempt launch (s.processors layout) (.switch next) =
      some ⟨some next, Function.update (s.processors layout).context t
        (some (preempt (contextOf s.hart)))⟩ := by
    have known : ∃ c, (s.processors layout).context next = some c := by
      rw [System.processors]
      simp only [created, if_true, Option.some.injEq, exists_eq']
    obtain ⟨c, known⟩ := known
    rw [Processors.step_switch running known, System.processors_own sound running]
    rfl
  refine ⟨sound', moved.trans (congrArg some (System.processors_eq sound' ?_ ?_ ?_ ?_))⟩ <;>
    subst named
  · rfl
  · rintro u running
    cases running
    exact (contexts next created).trans (congrArg some (saved'.symm.trans context.symm))
  · intro u member _
    refine (contexts u member).trans (congrArg some ?_)
    rw [← (holds' u member).2, memory]
  · intro u absent
    have different : u ≠ t := by
      rintro rfl
      exact sound.not_running absent running
    exact (Function.update_of_ne different _ _).trans (System.processors_none (s := s) absent)

/-- A step of the system is a step of tasks that have a processor each. -/
theorem step_sound {e : Event n} (sound : s.Sound layout) (stepped : s.step layout e = some q) :
    q.Sound layout ∧ Processors.step preempt launch (s.processors layout) (observed s e) =
      some (q.processors layout) := by
  cases e with
  | run effect => exact step_run sound stepped
  | create task => exact step_create sound stepped
  | start first => exact step_start sound stepped
  | switch next kernel => exact step_switch sound stepped

end Steps

/-- Tasks that have a processor each. -/
def processors (n : Nat) : Lts (Processors (Fin n) Context) (Processors.Event (Fin n) Context) :=
  Processors.machine preempt launch

def refinement (layout : Layout n) : Lts.Refinement (system layout) (processors n) where
  rel s p := s.Sound layout ∧ p = s.processors layout
  event s e := some (observed s e)
  step := by
    rintro s p e q ⟨sound, rfl⟩ stepped
    obtain ⟨sound', moved⟩ := step_sound sound stepped
    exact ⟨q.processors layout, moved, sound', rfl⟩

theorem boot_sound (layout : Layout n) (hart : Rv32.State) :
    (System.boot hart).Sound layout ∧
      Processors.empty = (System.boot (n := n) hart).processors layout := by
  refine ⟨⟨?_, ?_, ?_, ?_⟩, rfl⟩
  · rintro t running
    cases running
  · rintro t running
    cases running
  · rintro t running
    cases running
  · rintro t created
    cases created

/-! ### Runs -/

/-- The event lets the task run. -/
def Event.Resumes (t : Fin n) : Event n → Prop
  | .switch next _ => next = t
  | .start first => first = t
  | _ => False

section Runs

variable {hart : Rv32.State} {s p q r : System n} {es fs : List (Event n)} {c : Context}

theorem System.Sound.reached (ran : (system layout).run (System.boot hart) es = some s) :
    s.Sound layout := by
  obtain ⟨_, _, sound, _⟩ := (refinement layout).run (boot_sound layout hart) ran
  exact sound

/-- A task keeps its context as long as it is not resumed. -/
theorem waits_run (sound : p.Sound layout) (waits : Processors.Waits t c (p.processors layout))
    (quiet : ∀ e ∈ fs, ¬ e.Resumes t) (ran : (system layout).run p fs = some q) :
    q.Sound layout ∧ Processors.Waits t c (q.processors layout) := by
  induction fs generalizing p with
  | nil =>
    cases ran
    exact ⟨sound, waits⟩
  | cons e fs ih =>
    obtain ⟨first, rest⟩ := List.forall_mem_cons.mp quiet
    obtain ⟨m, stepped, onward⟩ := ((system layout).run_cons_iff p q e fs).mp ran
    obtain ⟨sound', moved⟩ := step_sound sound stepped
    -- the processors are seen to resume a task exactly when the system does
    have still : ¬ (observed p e).Resumes t := by
      cases e with
      | run => exact id
      | create => exact id
      | start => exact first
      | switch => exact first
    exact ih sound' (waits.step still moved) rest onward

/-- What the hart has after the task is switched in, or started -/
theorem resumed_context (sound : p.Sound layout)
    (waits : Processors.Waits t c (p.processors layout)) :
    (∀ kernel, p.step layout (.switch t kernel) = some r →
      r.running = some t ∧ contextOf r.hart = c) ∧
    (p.step layout (.start t) = some r → r.running = some t ∧ contextOf r.hart = launch c) := by
  constructor
  · intro kernel stepped
    obtain ⟨sound', moved⟩ := step_sound sound stepped
    obtain ⟨running, context⟩ := waits.switched moved
    refine ⟨running, Option.some.inj ?_⟩
    rw [← context, System.processors_own sound' running]
  · intro stepped
    obtain ⟨sound', moved⟩ := step_sound sound stepped
    obtain ⟨running, context⟩ := waits.started moved
    refine ⟨running, Option.some.inj ?_⟩
    rw [← context, System.processors_own sound' running]

/-- `MIE` was set, so `mret` restores `mstatus` but for `MPIE`. -/
theorem mret_takeTrap {w : Word} (enabled : isSet w Port.mie = true) :
    Port.mret (Port.takeTrap w) = w ||| Port.mpie := by
  have resumes := Port.resumes_takeTrap enabled
  have restored : writeOneToClear w Port.mie ||| Port.mie = w := by
    have set : w ||| BitVec.twoPow 32 3 = w := or_twoPow enabled
    calc writeOneToClear w Port.mie ||| Port.mie
      _ = w ||| Port.mie := by
        unfold writeOneToClear
        ext i hi
        simp only [BitVec.getElem_or, BitVec.getElem_and, BitVec.getElem_not]
        cases Port.mie[i] <;> simp
      _ = w := set
  rw [Port.mret, if_pos resumes.2, Port.takeTrap, if_pos enabled, BitVec.or_assoc _ Port.mpie,
    BitVec.or_comm Port.mpie, ← BitVec.or_assoc, restored, BitVec.or_assoc, BitVec.or_self]

/-! ### What the tasks may rely on -/

def sampleLayout : Layout 2 where
  tcb t := if t = 0 then 0x20000010 else 0x20000020
  stack t := if t = 0 then ⟨0x20001000, 1024⟩ else ⟨0x20002000, 1024⟩
  pxCurrentTCB := 0x20000000
  xISRStackTop := 0x20000004
  stacksApart := by decide
  tcbsApart := by decide
  tcbsOff := by decide
  currentOff := by decide
  stackFits := by decide

/-- The code goes on with the given registers. -/
def sampleWork (stack top pxCode pvParameters : Word) : Event 2 :=
  .run {
    x := fun r => if r = sp then stack else if r = a0 then top else if r = a1 then pxCode
      else if r = a2 then pvParameters else 0
    mstatus := 0x88
    pc := 0x08000000
    writes := [] }

/-- `vTaskSwitchContext` without a trace -/
def sampleKernel : Effect := ⟨fun _ => 0, 0, 0, []⟩

def sampleHart : Rv32.State := ⟨fun _ => 0, fun _ => 0, 0, fun _ => 0⟩

/-- Before the second task is created -/
def sampleBefore : List (Event 2) :=
  [sampleWork 0x20008000 0x20001400 0x08001000 7, .create 0,
    sampleWork 0x20008000 0x20002400 0x08002000 9]

/-- The first task runs. -/
def sampleAfter : List (Event 2) := [.start 0, sampleWork 0x20001300 0 0 0]

def sampleStart : List (Event 2) := sampleBefore ++ .create 1 :: sampleAfter

/-- What the second task does before it is interrupted -/
def sampleOther : List (Event 2) := [sampleWork 0x20002300 0 0 0]

/-- The first task is interrupted for the second one, and goes on after it. -/
def sampleSwitches : List (Event 2) :=
  sampleStart ++ .switch 1 sampleKernel :: (sampleOther ++ [.switch 0 sampleKernel])

theorem sample_switches : ∃ s p q r : System 2,
    (system sampleLayout).run (System.boot sampleHart) sampleStart = some s ∧
      s.running = some 0 ∧ s.hart.get sp = 0x20001300 ∧
      s.step sampleLayout (.switch 1 sampleKernel) = some p ∧
      (system sampleLayout).run p sampleOther = some q ∧
      q.step sampleLayout (.switch 0 sampleKernel) = some r := by
  have runs : ((system sampleLayout).run (System.boot sampleHart) sampleSwitches).isSome = true := by
    decide +kernel
  have first : ((system sampleLayout).run (System.boot sampleHart) sampleStart).map
      (fun s => (s.running, s.hart.get sp)) = some (some 0, 0x20001300) := by
    decide +kernel
  obtain ⟨r, ran⟩ := Option.isSome_iff_exists.mp runs
  obtain ⟨s, started, ran⟩ := ((system sampleLayout).run_append_iff _ _ _ _).mp ran
  obtain ⟨p, switched, ran⟩ := ((system sampleLayout).run_cons_iff _ _ _ _).mp ran
  obtain ⟨q, between, ran⟩ := ((system sampleLayout).run_append_iff _ _ _ _).mp ran
  obtain ⟨r', resumed, -⟩ := ((system sampleLayout).run_cons_iff _ _ _ _).mp ran
  rw [started, Option.map_some, Option.some.injEq, Prod.mk.injEq] at first
  exact ⟨s, p, q, r', started, first.1, first.2, switched, between, resumed⟩

theorem sample_creates : ∃ s p q r : System 2,
    (system sampleLayout).run (System.boot sampleHart) sampleBefore = some s ∧
      s.hart.get a1 = 0x08002000 ∧ s.hart.get a2 = 9 ∧
      s.step sampleLayout (.create 1) = some p ∧
      (system sampleLayout).run p sampleAfter = some q ∧
      q.step sampleLayout (.switch 1 sampleKernel) = some r := by
  obtain ⟨t, _, _, _, ran, -, -, switched, -⟩ := sample_switches
  have first : ((system sampleLayout).run (System.boot sampleHart) sampleBefore).map
      (fun s => (s.hart.get a1, s.hart.get a2)) = some (0x08002000, 9) := by
    decide +kernel
  obtain ⟨s, started, ran⟩ := ((system sampleLayout).run_append_iff _ _ _ _).mp ran
  obtain ⟨p, created, between⟩ := ((system sampleLayout).run_cons_iff _ _ _ _).mp ran
  rw [started, Option.map_some, Option.some.injEq, Prod.mk.injEq] at first
  exact ⟨s, p, t, _, started, first.1, first.2, created, between, switched⟩

/-- Whatever the tasks do, and wherever they are interrupted, they run as if each had a processor
of its own: a run of the system is a run of them. -/
theorem switches_refine_processors (layout : Layout n) (hart : Rv32.State) {es : List (Event n)}
    {s : System n} (ran : (system layout).run (System.boot hart) es = some s) :
    (processors n).run Processors.empty
      ((system layout).log (refinement layout).visible [] (System.boot hart) es) =
        some (s.processors layout) := by
  obtain ⟨p, moved, -, same⟩ := (refinement layout).run (boot_sound layout hart) ran
  rw [moved, same]

theorem switches_refine_processors_sample : ∃ s : System 2,
    (system sampleLayout).run (System.boot sampleHart) sampleSwitches = some s ∧
      s.running = some 0 ∧
      (processors 2).run Processors.empty ((system sampleLayout).log
        (refinement sampleLayout).visible [] (System.boot sampleHart) sampleSwitches) =
          some (s.processors sampleLayout) := by
  have reached : ((system sampleLayout).run (System.boot sampleHart) sampleSwitches).map
      System.running = some (some 0) := by
    decide +kernel
  obtain ⟨s, ran, running⟩ := Option.map_eq_some_iff.mp reached
  exact ⟨s, ran, running, switches_refine_processors sampleLayout sampleHart ran⟩

/-- A task that was interrupted goes on with every register that it had, however many other tasks
run in between. -/
theorem preempted_task_resumes (layout : Layout n) (hart : Rv32.State) {es fs : List (Event n)}
    {s p q r : System n} {t u : Fin n} {kernel kernel' : Effect}
    (ran : (system layout).run (System.boot hart) es = some s) (running : s.running = some t)
    (switched : s.step layout (.switch u kernel) = some p) (other : u ≠ t)
    (between : (system layout).run p fs = some q) (quiet : ∀ e ∈ fs, ¬ e.Resumes t)
    (resumed : q.step layout (.switch t kernel') = some r) :
    r.running = some t ∧
      contextOf r.hart = { contextOf s.hart with mstatus := s.hart.csr mstatus ||| Port.mpie } := by
  have sound := System.Sound.reached ran
  obtain ⟨⟨-, enabled, -⟩, -⟩ := switch_inversion switched
  obtain ⟨sound', moved⟩ := step_sound sound switched
  have waits := Processors.switch_waits running (System.processors_own sound running) other moved
  obtain ⟨sound'', waits'⟩ := waits_run sound' waits quiet between
  obtain ⟨runs, context⟩ := (resumed_context sound'' waits').1 kernel' resumed
  refine ⟨runs, context.trans ?_⟩
  rw [preempt, ← mret_takeTrap enabled]
  rfl

theorem preempted_task_resumes_sample : ∃ s r : System 2,
    (system sampleLayout).run (System.boot sampleHart) sampleStart = some s ∧
      r.running = some 0 ∧
      contextOf r.hart = { contextOf s.hart with mstatus := s.hart.csr mstatus ||| Port.mpie } := by
  obtain ⟨s, p, q, r, ran, running, -, switched, between, resumed⟩ := sample_switches
  have quiet : ∀ e ∈ sampleOther, ¬ e.Resumes 0 := by
    rintro e member
    cases List.mem_singleton.mp member
    exact id
  exact ⟨s, r, ran, preempted_task_resumes sampleLayout sampleHart ran running switched
    (by decide) between quiet resumed⟩

/-- A new task starts at `pxCode` with `pvParameters` in `a0`, an empty stack and interrupts
enabled; should it return, the first task starts again and any other goes to address zero. -/
theorem new_task_starts_at_entry (layout : Layout n) (hart : Rv32.State) {es fs : List (Event n)}
    {s p q r : System n} {t : Fin n} {e : Event n}
    (ran : (system layout).run (System.boot hart) es = some s)
    (created : s.step layout (.create t) = some p)
    (between : (system layout).run p fs = some q) (quiet : ∀ e ∈ fs, ¬ e.Resumes t)
    (resumes : e.Resumes t) (resumed : q.step layout e = some r) :
    r.running = some t ∧ r.hart.pc = s.hart.get a1 ∧ r.hart.get a0 = s.hart.get a2 ∧
      r.hart.get sp = s.hart.get a0 ∧ isSet (r.hart.csr mstatus) Port.mie = true ∧
      r.hart.get 1 = if q.running = none then s.hart.get a1 else 0 := by
  have sound := System.Sound.reached ran
  obtain ⟨⟨absent, -⟩, -⟩ := create_inversion created
  obtain ⟨sound', moved⟩ := step_sound sound created
  have waits := Processors.create_waits (sound.not_running absent) moved
  obtain ⟨sound'', waits'⟩ := waits_run sound' waits quiet between
  have enabled : isSet (freshContext s.hart).mstatus Port.mie = true :=
    Port.enabled_mret (Port.resumes_initialiseStack _)
  have argument : (contextOf r.hart).x ⟨a0, by decide⟩ = r.hart.get a0 := rfl
  have ra : (contextOf r.hart).x ⟨1, by decide⟩ = r.hart.get 1 := rfl
  cases e with
  | run => cases resumes
  | create => cases resumes
  | start first =>
    cases resumes
    obtain ⟨runs, context⟩ := (resumed_context sound'' waits').2 resumed
    obtain ⟨⟨idle, -⟩, -⟩ := start_inversion resumed
    rw [if_pos idle]
    rw [context] at argument ra
    exact ⟨runs, congrArg Context.pc context, argument.symm, congrArg Context.sp context,
      (congrArg (fun c : Context => isSet c.mstatus Port.mie) context).trans enabled, ra.symm⟩
  | switch next kernel =>
    cases resumes
    obtain ⟨runs, context⟩ := (resumed_context sound'' waits').1 kernel resumed
    obtain ⟨⟨busy, -⟩, -⟩ := switch_inversion resumed
    rw [if_neg busy]
    rw [context] at argument ra
    exact ⟨runs, congrArg Context.pc context, argument.symm, congrArg Context.sp context,
      (congrArg (fun c : Context => isSet c.mstatus Port.mie) context).trans enabled, ra.symm⟩

theorem new_task_starts_at_entry_sample : ∃ r : System 2,
    r.running = some 1 ∧ r.hart.pc = 0x08002000 ∧ r.hart.get a0 = 9 := by
  obtain ⟨s, p, q, r, ran, entry, argument, created, between, resumed⟩ := sample_creates
  have quiet : ∀ e ∈ sampleAfter, ¬ e.Resumes 1 := by
    simp [sampleAfter, sampleWork, Event.Resumes]
  obtain ⟨running, pc, parameter, -⟩ := new_task_starts_at_entry sampleLayout sampleHart ran created
    (e := .switch 1 sampleKernel) between quiet rfl resumed
  exact ⟨r, running, pc.trans entry, parameter.trans argument⟩

/-- A switch writes a frame below the stack pointer of the task that is interrupted, its TCB and
`pxCurrentTCB`, and nothing else but what `vTaskSwitchContext` writes. -/
theorem switch_footprint (layout : Layout n) (hart : Rv32.State) {es : List (Event n)}
    {s q : System n} {t next : Fin n} {kernel : Effect} {a : Nat}
    (ran : (system layout).run (System.boot hart) es = some s) (running : s.running = some t)
    (switched : s.step layout (.switch next kernel) = some q)
    (offFrame : ¬ Span.Contains
      ⟨(s.hart.get sp - portContextSize).toNat, portContextSize.toNat⟩ a)
    (offTcb : ¬ Span.Contains ⟨(layout.tcb t).toNat, 4⟩ a)
    (offCurrent : ¬ Span.Contains ⟨layout.pxCurrentTCB.toNat, 4⟩ a)
    (unwritten : ∀ write ∈ kernel.writes, write.1 ≠ a) : q.hart.mem a = s.hart.mem a := by
  have sound := System.Sound.reached ran
  obtain ⟨-, -, -, kept⟩ := save_interrupted (sound.room t running) (sound.current t running)
  obtain ⟨-, rfl⟩ := switch_inversion switched
  simp only [Span.Contains, Span.stop] at offCurrent
  rw [← kept a offFrame offTcb, restore_mem]
  exact (store_outside (by omega)).trans (writeAll_of_ne unwritten)

theorem switch_footprint_sample : ∃ s q : System 2,
    (system sampleLayout).run (System.boot sampleHart) sampleStart = some s ∧
      s.step sampleLayout (.switch 1 sampleKernel) = some q ∧
      q.hart.mem 0x20000020 = s.hart.mem 0x20000020 := by
  obtain ⟨s, q, _, _, ran, running, stack, switched, -⟩ := sample_switches
  refine ⟨s, q, ran, switched, switch_footprint sampleLayout sampleHart ran running switched
    ?_ (by decide) (by decide) (by simp [sampleKernel])⟩
  rw [stack]
  decide

end Runs

end WchLwip.PortAsm
