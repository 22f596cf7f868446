import WchLwip.Model.Port

/-! Critical sections do not exclude anything.

The masking macros are `nop`s, so `MIE` is set whenever a task runs, inside a
critical section as well as outside. `uxCriticalNesting` counts the sections of
the running task only as long as no switch comes inside one. -/
namespace WchLwip.Port

open Mask

variable {s t : State}

/-! ### The interrupt enable bit -/

/-- A value of `mstatus` with which `mret` goes on with interrupts enabled. -/
def Resumes (mstatus : UBaseType) : Prop :=
  isSet mstatus mie = false ∧ isSet mstatus mpie = true

theorem resumes_takeTrap {mstatus : UBaseType} (enabled : isSet mstatus mie = true) :
    Resumes (takeTrap mstatus) := by
  rw [takeTrap, if_pos enabled]
  constructor
  · rw [isSet_or_disjoint _ _ _ (by decide)]
    exact isSet_writeOneToClear_self _ _
  · exact isSet_or_self _ _ (by decide)

theorem enabled_mret {mstatus : UBaseType} (resumes : Resumes mstatus) :
    isSet (mret mstatus) mie = true := by
  rw [mret, if_pos resumes.2]
  exact isSet_or_left _ _ _ (isSet_or_self _ _ (by decide))

theorem resumes_initialiseStack (mstatus : UBaseType) :
    Resumes (pxPortInitialiseStack mstatus).mstatus := by
  constructor
  · rw [pxPortInitialiseStack, isSet_or_disjoint _ _ mie (by decide)]
    exact isSet_writeOneToClear_self _ _
  · exact isSet_or_within _ _ _ (by decide) (by decide)

/-- Adding the bit to a word in which it is clear sets it. -/
theorem enabled_start {mstatus : UBaseType} (clear : isSet mstatus mie = false) :
    isSet (mstatus + 0x08) mie = true := by
  have disjoint : mstatus &&& mie = 0 := by
    simpa [isSet] using clear
  have added : mstatus + 0x08 = mstatus ||| mie := BitVec.add_eq_or_of_and_eq_zero _ _ disjoint
  rw [added]
  exact isSet_or_self _ _ (by decide)

/-- Neither function writes `mstatus`. -/
theorem stmt_mstatus {mstatus nesting : UBaseType} {pc : CodePc}
    {result : UBaseType × UBaseType × CodePc} (ran : pc.stmt mstatus nesting = some result) :
    result.1 = mstatus := by
  cases pc with
  | outside => cases ran
  | enter pc => cases pc <;> cases ran <;> rfl
  | exit pc => cases pc <;> cases ran <;> rfl

structure Enabled (s : State) : Prop where
  task : ∀ pc, s.hart = .task pc → isSet s.mstatus mie = true
  handler : ∀ pc mepc, s.hart = .handler pc mepc → Resumes s.mstatus
  saved : ∀ task context, s.tcb task = some context → Resumes context.mstatus

/-- A task goes on with interrupts enabled. -/
private theorem Enabled.of_task {pc : CodePc} (running : t.hart = .task pc)
    (mstatus : isSet t.mstatus mie = true)
    (saved : ∀ task context, t.tcb task = some context → Resumes context.mstatus) : Enabled t where
  task _ _ := mstatus
  handler _ _ other := by
    rw [running] at other
    cases other
  saved := saved

private theorem Enabled.of_handler {pc : HandlerPc} {mepc : CodePc}
    (running : t.hart = .handler pc mepc) (mstatus : Resumes t.mstatus)
    (saved : ∀ task context, t.tcb task = some context → Resumes context.mstatus) : Enabled t where
  task _ other := by
    rw [running] at other
    cases other
  handler _ _ _ := mstatus
  saved := saved

/-- What holds of the saved contexts and of a new one holds after that one is saved. -/
private theorem saved_update {tcb : Task → Option Context} {task : Task} {context : Context}
    (P : Context → Prop) (saved : ∀ task context, tcb task = some context → P context)
    (new : P context) :
    ∀ task' context', Function.update tcb task (some context) task' = some context' →
      P context' := by
  intro task' context' there
  by_cases here : task' = task
  · subst here
    rw [Function.update_self] at there
    rwa [← Option.some.inj there]
  · rw [Function.update_of_ne here] at there
    exact saved task' context' there

private theorem enabled_stmt (held : Enabled s) (stepped : s.stmt = some t) : Enabled t := by
  cases hart : s.hart with
  | task pc =>
    have mstatus := held.task pc hart
    simp only [State.stmt, hart, Option.map_eq_some_iff] at stepped
    obtain ⟨result, ran, rfl⟩ := stepped
    rw [← stmt_mstatus ran] at mstatus
    exact .of_task rfl mstatus held.saved
  | handler pc mepc =>
    have resumes := held.handler pc mepc hart
    cases pc with
    | swSave =>
      simp only [State.stmt, hart, Option.some.injEq] at stepped
      subst stepped
      exact .of_handler rfl resumes (saved_update (Resumes ·.mstatus) held.saved resumes)
    | swSwitchContext => simp [State.stmt, hart] at stepped
    | swRestore =>
      -- every saved context was saved in a handler or made for a new task
      simp only [State.stmt, hart, Option.map_eq_some_iff] at stepped
      obtain ⟨context, there, rfl⟩ := stepped
      exact .of_handler rfl (held.saved _ _ there) held.saved
    | tickDisable | tickIncrement | tickEnable =>
      simp only [State.stmt, hart, Option.some.injEq] at stepped
      subst stepped
      exact .of_handler rfl resumes held.saved
    | eth pc depth =>
      simp only [State.stmt, hart, Option.map_eq_some_iff] at stepped
      obtain ⟨result, ran, rfl⟩ := stepped
      rw [← stmt_mstatus ran] at resumes
      exact .of_handler rfl resumes held.saved
    | mret =>
      simp only [State.stmt, hart, Option.some.injEq] at stepped
      subst stepped
      exact .of_task rfl (enabled_mret resumes) held.saved

/-! ### What the other steps do -/

theorem enterCritical_cases (stepped : s.enterCritical = some t) :
    (s.hart = .task .outside ∧ t = { s with hart := .task (.enter .disable) }) ∨
    ∃ depth mepc, s.hart = .handler (.eth .outside depth) mepc ∧
      t = { s with hart := .handler (.eth (.enter .disable) depth) mepc } := by
  simp only [State.enterCritical] at stepped
  split at stepped <;> cases stepped
  next hart => exact Or.inl ⟨hart, rfl⟩
  next depth mepc hart => exact Or.inr ⟨depth, mepc, hart, rfl⟩

theorem exitCritical_cases (stepped : s.exitCritical = some t) :
    (s.hart = .task .outside ∧ 0 < s.depth s.pxCurrentTCB ∧
      t = { s with hart := .task (.exit .load) }) ∨
    ∃ depth mepc, s.hart = .handler (.eth .outside depth) mepc ∧ 0 < depth ∧
      t = { s with hart := .handler (.eth (.exit .load) depth) mepc } := by
  simp only [State.exitCritical] at stepped
  split at stepped
  next hart =>
    split at stepped <;> cases stepped
    next entered => exact Or.inl ⟨hart, entered, rfl⟩
  next depth mepc hart =>
    split at stepped <;> cases stepped
    next entered => exact Or.inr ⟨depth, mepc, hart, entered, rfl⟩
  next => cases stepped

theorem handlerReturn_cases (stepped : s.step .handlerReturn = some t) :
    ∃ mepc, s.hart = .handler (.eth .outside 0) mepc ∧ t = { s with hart := .handler .mret mepc } := by
  simp only [State.step] at stepped
  split at stepped <;> cases stepped
  next mepc hart => exact ⟨mepc, hart, rfl⟩

theorem switchContext_cases {next : Task} (stepped : s.step (.switchContext next) = some t) :
    ∃ mepc, s.hart = .handler .swSwitchContext mepc ∧
      t = { s with pxCurrentTCB := next, hart := .handler .swRestore mepc } := by
  simp only [State.step] at stepped
  split at stepped
  next mepc hart =>
    rw [Option.map_eq_some_iff] at stepped
    obtain ⟨context, -, rfl⟩ := stepped
    exact ⟨mepc, hart, rfl⟩
  next => cases stepped

theorem taskCreate_cases {task : Task} (stepped : s.step (.taskCreate task) = some t) :
    s.hart = .task .outside ∧ task ≠ s.pxCurrentTCB ∧ s.tcb task = none ∧
      t = { s with tcb := Function.update s.tcb task (some (pxPortInitialiseStack s.mstatus)) } := by
  simp only [State.step] at stepped
  split at stepped
  next hart =>
    split at stepped <;> cases stepped
    next new => exact ⟨hart, new.2, new.1, rfl⟩
  next => cases stepped

theorem interrupt_cases {irq : Interrupt} (stepped : s.interrupt irq = some t) :
    ∃ pc, s.hart = .task pc ∧ isSet s.mstatus mie = true ∧
      t = { s with mstatus := takeTrap s.mstatus, hart := .handler irq.entry pc } := by
  simp only [State.interrupt] at stepped
  split at stepped
  next pc hart =>
    split at stepped <;> cases stepped
    next enabled => exact ⟨pc, hart, enabled, rfl⟩
  next => cases stepped

theorem Enabled.step {e : Event} (held : Enabled s) (stepped : port.step s e = some t) :
    Enabled t := by
  cases e with
  | stmt => exact enabled_stmt held stepped
  | enterCritical =>
    obtain ⟨hart, rfl⟩ | ⟨depth, mepc, hart, rfl⟩ := enterCritical_cases stepped
    · exact .of_task rfl (held.task _ hart) held.saved
    · exact .of_handler rfl (held.handler _ _ hart) held.saved
  | exitCritical =>
    obtain ⟨hart, -, rfl⟩ | ⟨depth, mepc, hart, -, rfl⟩ := exitCritical_cases stepped
    · exact .of_task rfl (held.task _ hart) held.saved
    · exact .of_handler rfl (held.handler _ _ hart) held.saved
  | handlerReturn =>
    obtain ⟨mepc, hart, rfl⟩ := handlerReturn_cases stepped
    exact .of_handler rfl (held.handler _ _ hart) held.saved
  | switchContext next =>
    obtain ⟨mepc, hart, rfl⟩ := switchContext_cases stepped
    exact .of_handler rfl (held.handler _ _ hart) held.saved
  | taskCreate task =>
    obtain ⟨hart, -, -, rfl⟩ := taskCreate_cases stepped
    exact .of_task hart (held.task _ hart)
      (saved_update (Resumes ·.mstatus) held.saved (resumes_initialiseStack s.mstatus))
  | interrupt irq =>
    obtain ⟨pc, hart, enabled, rfl⟩ := interrupt_cases stepped
    exact .of_handler rfl (resumes_takeTrap enabled) held.saved

theorem Enabled.start (mstatus : UBaseType) (created : Task → Bool) (first : Task) :
    Enabled (State.start mstatus created first) := by
  have resumes := resumes_initialiseStack mstatus
  refine .of_task rfl (enabled_start resumes.1) ?_
  intro task context there
  simp only [State.start] at there
  split at there <;> cases there
  exact resumes

theorem Enabled.run {mstatus : UBaseType} {created : Task → Bool} {first : Task} {es : List Event}
    (ran : port.run (State.start mstatus created first) es = some s) : Enabled s :=
  port.run_invariant Enabled (fun _ _ _ held stepped => held.step stepped)
    (Enabled.start mstatus created first) ran

/-! ### Exclusion -/

/-- In a critical section of the running task no interrupt can be taken, and
`uxCriticalNesting` is the number of sections that the task has entered and not left. -/
def State.Excludes (s : State) : Prop :=
  0 < s.depth s.pxCurrentTCB →
    isSet s.mstatus mie = false ∧ (∀ irq, port.step s (.interrupt irq) = none) ∧
      s.uxCriticalNesting = BitVec.ofNat 32 (s.depth s.pxCurrentTCB)

/-- While a task runs it is excluded from nothing unless it is in no critical section at all: in
one, every interrupt can be taken. -/
theorem sections_exclude_exactly_when_none_entered (mstatus : UBaseType) (created : Task → Bool)
    (first : Task) (es : List Event) (s : State)
    (ran : port.run (State.start mstatus created first) es = some s) (pc : CodePc)
    (running : s.hart = .task pc) : s.Excludes ↔ s.depth s.pxCurrentTCB = 0 := by
  have enabled := (Enabled.run ran).task pc running
  constructor
  · -- a task runs with `MIE` set, in a section as elsewhere
    intro excludes
    by_contra entered
    have clear := (excludes (Nat.pos_of_ne_zero entered)).1
    exact Bool.false_ne_true (clear.symm.trans enabled)
  · intro none_entered entered
    rw [none_entered] at entered
    exact absurd entered (Nat.lt_irrefl 0)

/-- The first task enters a section. -/
def oneEntered : List Event := [.enterCritical, .stmt, .stmt, .stmt]

theorem sections_exclude_exactly_when_none_entered_here : ∃ s,
    port.run (State.start 0x7800 (fun _ => true) 0) oneEntered = some s ∧
    s.hart = .task .outside ∧ (s.Excludes ↔ s.depth s.pxCurrentTCB = 0) :=
  ⟨_, rfl, rfl, sections_exclude_exactly_when_none_entered 0x7800 (fun _ => true) 0 oneEntered _
    rfl .outside rfl⟩

/-- A task is switched out inside its section, and the next task enters one of its own. -/
def switchedInside : List Event :=
  [.enterCritical, .stmt, .stmt, .stmt, .interrupt .software, .stmt, .switchContext 1, .stmt, .stmt,
    .enterCritical, .stmt, .stmt, .stmt]

/-- The second task has entered one section and the count is two, with interrupts enabled. -/
theorem section_interrupted : ∃ s,
    port.run (State.start 0x7800 (fun _ => true) 0) switchedInside = some s ∧
    s.hart = .task .outside ∧ s.pxCurrentTCB = 1 ∧ s.depth 1 = 1 ∧ s.uxCriticalNesting = 2 ∧
    ¬ s.Excludes := by
  refine ⟨_, rfl, rfl, rfl, rfl, rfl, fun excludes => ?_⟩
  exact absurd (excludes (by decide)).1 (by decide)

/-! ### The count -/

/-- The context switch only interrupts a task that is outside every critical section. -/
def switchGuard (s : State) : Event → Prop
  | .interrupt .software => s.hart = .task .outside ∧ s.depth s.pxCurrentTCB = 0
  | _ => True

/-- A register that was loaded with the count and is going to be stored. -/
def CodePc.Loaded (nesting : UBaseType) : CodePc → Prop
  | .enter (.store reg) | .exit (.store reg) => reg = nesting
  | _ => True

/-- Code that is going to leave a section has one to leave. -/
def CodePc.Entered (depth : Nat) : CodePc → Prop
  | .exit .load | .exit (.store _) => 0 < depth
  | _ => True

/-- The count is that of the code, on top of what it was before. -/
structure Counts (before nesting : UBaseType) (depth : Nat) (pc : CodePc) : Prop where
  count : nesting = before + BitVec.ofNat 32 depth
  loaded : pc.Loaded nesting
  entered : pc.Entered depth

theorem Counts.stmt {before mstatus nesting : UBaseType} {depth : Nat} {pc : CodePc}
    {result : UBaseType × UBaseType × CodePc} (held : Counts before nesting depth pc)
    (ran : pc.stmt mstatus nesting = some result) :
    Counts before result.2.1 (pc.nest depth) result.2.2 := by
  obtain ⟨count, loaded, entered⟩ := held
  cases pc with
  | outside => cases ran
  | enter pc =>
    cases pc with
    | store reg =>
      cases ran
      obtain rfl : reg = nesting := loaded
      refine ⟨?_, trivial, trivial⟩
      calc reg + 1
          = before + (BitVec.ofNat 32 depth + 1) := by rw [count, BitVec.add_assoc]
        _ = before + BitVec.ofNat 32 (depth + 1) := by
            rw [BitVec.ofNat_add]
            rfl
    | disable | load => cases ran; exact ⟨count, by trivial, trivial⟩
  | exit pc =>
    cases pc with
    | store reg =>
      cases ran
      obtain rfl : reg = nesting := loaded
      obtain ⟨rest, rfl⟩ := Nat.exists_eq_succ_of_ne_zero (Nat.ne_of_gt entered)
      refine ⟨?_, trivial, trivial⟩
      calc reg - 1
          = before + (BitVec.ofNat 32 rest + 1) - 1 := by
            rw [count, Nat.succ_eq_add_one, BitVec.ofNat_add]
            rfl
        _ = before + BitVec.ofNat 32 rest := by rw [← BitVec.add_assoc, BitVec.add_sub_cancel]
    | load => cases ran; exact ⟨count, rfl, entered⟩
    | test =>
      cases ran
      refine ⟨count, ?_, ?_⟩ <;> simp only [vPortExitCritical] <;> split <;> trivial
    | enable => cases ran; exact ⟨count, trivial, trivial⟩

/-- Between its own sections a handler leaves the count as it was when it was entered. -/
def HandlerPc.Counted (before nesting : UBaseType) : HandlerPc → Prop
  | .eth pc depth => Counts before nesting depth pc
  | _ => nesting = before

def HandlerPc.switching : HandlerPc → Prop
  | .swSave | .swSwitchContext | .swRestore => True
  | _ => False

structure Counted (s : State) : Prop where
  others : ∀ task, task ≠ s.pxCurrentTCB → s.depth task = 0
  saved : ∀ task context, s.tcb task = some context → context.mepc = .outside
  task : ∀ pc, s.hart = .task pc → Counts 0 s.uxCriticalNesting (s.depth s.pxCurrentTCB) pc
  handler : ∀ pc mepc, s.hart = .handler pc mepc →
    ∃ before, Counts 0 before (s.depth s.pxCurrentTCB) mepc ∧
      pc.Counted before s.uxCriticalNesting
  switching : ∀ pc mepc, s.hart = .handler pc mepc → pc.switching →
    s.depth s.pxCurrentTCB = 0 ∧ mepc = .outside

private theorem Counted.of_task {pc : CodePc} (running : t.hart = .task pc)
    (others : ∀ task, task ≠ t.pxCurrentTCB → t.depth task = 0)
    (saved : ∀ task context, t.tcb task = some context → context.mepc = .outside)
    (counts : Counts 0 t.uxCriticalNesting (t.depth t.pxCurrentTCB) pc) : Counted t where
  others := others
  saved := saved
  task _ same := by
    rw [running] at same
    cases same
    exact counts
  handler _ _ other := by
    rw [running] at other
    cases other
  switching _ _ other := by
    rw [running] at other
    cases other

private theorem Counted.of_handler {pc : HandlerPc} {mepc : CodePc} {before : UBaseType}
    (running : t.hart = .handler pc mepc)
    (others : ∀ task, task ≠ t.pxCurrentTCB → t.depth task = 0)
    (saved : ∀ task context, t.tcb task = some context → context.mepc = .outside)
    (counts : Counts 0 before (t.depth t.pxCurrentTCB) mepc)
    (counted : pc.Counted before t.uxCriticalNesting)
    (switching : pc.switching → t.depth t.pxCurrentTCB = 0 ∧ mepc = .outside) : Counted t where
  others := others
  saved := saved
  task _ other := by
    rw [running] at other
    cases other
  handler _ _ same := by
    rw [running] at same
    cases same
    exact ⟨before, counts, counted⟩
  switching _ _ same := by
    rw [running] at same
    cases same
    exact switching

private theorem counted_stmt (held : Counted s) (stepped : s.stmt = some t) : Counted t := by
  cases hart : s.hart with
  | task pc =>
    simp only [State.stmt, hart, Option.map_eq_some_iff] at stepped
    obtain ⟨result, ran, rfl⟩ := stepped
    refine .of_task rfl ?_ held.saved ?_
    · intro task other
      simp only [Function.update_of_ne other]
      exact held.others task other
    · simp only [Function.update_self]
      exact (held.task pc hart).stmt ran
  | handler pc mepc =>
    obtain ⟨before, counts, counted⟩ := held.handler pc mepc hart
    have switching := held.switching pc mepc hart
    cases pc with
    | swSave =>
      simp only [State.stmt, hart, Option.some.injEq] at stepped
      subst stepped
      obtain ⟨none_entered, outside⟩ := switching trivial
      exact .of_handler rfl held.others
        (saved_update (·.mepc = .outside) held.saved outside) counts counted
        fun _ => ⟨none_entered, outside⟩
    | swSwitchContext => simp [State.stmt, hart] at stepped
    | swRestore =>
      simp only [State.stmt, hart, Option.map_eq_some_iff] at stepped
      obtain ⟨context, there, rfl⟩ := stepped
      obtain ⟨none_entered, rfl⟩ := switching trivial
      refine .of_handler rfl held.others held.saved ?_ counted False.elim
      rw [held.saved _ _ there]
      exact counts
    | tickDisable | tickIncrement | tickEnable =>
      simp only [State.stmt, hart, Option.some.injEq] at stepped
      subst stepped
      exact .of_handler rfl held.others held.saved counts counted False.elim
    | eth pc depth =>
      simp only [State.stmt, hart, Option.map_eq_some_iff] at stepped
      obtain ⟨result, ran, rfl⟩ := stepped
      exact .of_handler rfl held.others held.saved counts (Counts.stmt counted ran) False.elim
    | mret =>
      -- the handler has left its sections, so the task finds the count it left
      simp only [State.stmt, hart, Option.some.injEq] at stepped
      subst stepped
      obtain rfl : s.uxCriticalNesting = before := counted
      exact .of_task rfl held.others held.saved counts

theorem Counted.step {e : Event} (held : Counted s) (guarded : switchGuard s e)
    (stepped : port.step s e = some t) : Counted t := by
  cases e with
  | stmt => exact counted_stmt held stepped
  | enterCritical =>
    obtain ⟨hart, rfl⟩ | ⟨depth, mepc, hart, rfl⟩ := enterCritical_cases stepped
    · exact .of_task rfl held.others held.saved ⟨(held.task _ hart).count, trivial, trivial⟩
    · obtain ⟨before, counts, counted⟩ := held.handler _ _ hart
      exact .of_handler rfl held.others held.saved counts
        (Counts.mk (Counts.count counted) trivial trivial) False.elim
  | exitCritical =>
    obtain ⟨hart, entered, rfl⟩ | ⟨depth, mepc, hart, entered, rfl⟩ := exitCritical_cases stepped
    · exact .of_task rfl held.others held.saved ⟨(held.task _ hart).count, trivial, entered⟩
    · obtain ⟨before, counts, counted⟩ := held.handler _ _ hart
      exact .of_handler rfl held.others held.saved counts
        (Counts.mk (Counts.count counted) trivial entered) False.elim
  | handlerReturn =>
    obtain ⟨mepc, hart, rfl⟩ := handlerReturn_cases stepped
    obtain ⟨before, counts, counted⟩ := held.handler _ _ hart
    have same : s.uxCriticalNesting = before := by
      simpa using Counts.count counted
    exact .of_handler rfl held.others held.saved counts same False.elim
  | switchContext next =>
    obtain ⟨mepc, hart, rfl⟩ := switchContext_cases stepped
    obtain ⟨before, counts, counted⟩ := held.handler _ _ hart
    obtain ⟨none_entered, outside⟩ := held.switching _ _ hart trivial
    -- neither the task that is left nor the one that goes on has entered a section
    have every (task : Task) : s.depth task = 0 := by
      by_cases here : task = s.pxCurrentTCB
      · rw [here, none_entered]
      · exact held.others task here
    rw [none_entered] at counts
    exact .of_handler rfl (fun task _ => every task) held.saved ((every next).symm ▸ counts)
      counted fun _ => ⟨every next, outside⟩
  | taskCreate task =>
    obtain ⟨hart, other, -, rfl⟩ := taskCreate_cases stepped
    exact .of_task hart held.others (saved_update (·.mepc = .outside) held.saved rfl)
      (held.task _ hart)
  | interrupt irq =>
    obtain ⟨pc, hart, -, rfl⟩ := interrupt_cases stepped
    have counts := held.task pc hart
    cases irq with
    | software =>
      obtain ⟨outside, none_entered⟩ := guarded
      rw [hart] at outside
      cases outside
      exact .of_handler rfl held.others held.saved counts rfl fun _ => ⟨none_entered, rfl⟩
    | sysTick => exact .of_handler rfl held.others held.saved counts rfl False.elim
    | eth =>
      -- the handler counts on from what it finds
      have none_entered : Counts s.uxCriticalNesting s.uxCriticalNesting 0 .outside :=
        ⟨by simp, trivial, trivial⟩
      exact .of_handler rfl held.others held.saved counts none_entered False.elim

theorem Counted.start (mstatus : UBaseType) (created : Task → Bool) (first : Task) :
    Counted (State.start mstatus created first) := by
  refine .of_task rfl (fun _ _ => rfl) ?_ ⟨rfl, trivial, trivial⟩
  intro task context there
  simp only [State.start] at there
  split at there <;> cases there
  rfl

theorem Counted.run {mstatus : UBaseType} {created : Task → Bool} {first : Task} {es : List Event}
    (guarded : port.Guarded switchGuard (State.start mstatus created first) es)
    (ran : port.run (State.start mstatus created first) es = some s) : Counted s :=
  port.guarded_invariant switchGuard Counted
    (fun _ _ _ held guarded stepped => held.step guarded stepped)
    (Counted.start mstatus created first) guarded ran

/-- Without a switch inside a critical section `uxCriticalNesting` is the number of sections
that the running task has entered and not left, and those of a handler on top of them; no other
task is in a section. -/
theorem nesting_counts_own_sections (mstatus : UBaseType) (created : Task → Bool) (first : Task)
    (es : List Event) (s : State)
    (guarded : port.Guarded switchGuard (State.start mstatus created first) es)
    (ran : port.run (State.start mstatus created first) es = some s) :
    (∀ pc, s.hart = .task pc → s.uxCriticalNesting = BitVec.ofNat 32 (s.depth s.pxCurrentTCB)) ∧
    (∀ pc depth mepc, s.hart = .handler (.eth pc depth) mepc →
      s.uxCriticalNesting = BitVec.ofNat 32 (s.depth s.pxCurrentTCB + depth)) ∧
    ∀ task, task ≠ s.pxCurrentTCB → s.depth task = 0 := by
  have held := Counted.run guarded ran
  refine ⟨fun pc running => ?_, fun pc depth mepc running => ?_, held.others⟩
  · simpa using (held.task pc running).count
  · -- the handler counts on from what the task had when it was interrupted
    obtain ⟨before, counts, counted⟩ := held.handler _ _ running
    have own : s.uxCriticalNesting = before + BitVec.ofNat 32 depth := Counts.count counted
    have interrupted : before = BitVec.ofNat 32 (s.depth s.pxCurrentTCB) := by
      simpa using counts.count
    rw [own, interrupted, BitVec.ofNat_add]

private theorem guarded_without_switch {es : List Event}
    (others : ∀ e ∈ es, e ≠ .interrupt .software) : port.Guarded switchGuard s es := by
  refine port.guarded_of_invariant switchGuard (fun _ => True) (· ≠ .interrupt .software)
    (fun _ _ _ _ _ _ => trivial) (fun _ e _ other => ?_) trivial others
  cases e with
  | interrupt irq =>
    cases irq with
    | software => exact absurd rfl other
    | sysTick => trivial
    | eth => trivial
  | _ => trivial

/-- The first task enters two sections and leaves them. The Ethernet handler comes between the
load and the store of the count and has a section of its own, and the tick comes inside both. -/
def nestedSections : List Event :=
  [.enterCritical, .stmt, .stmt, .interrupt .eth, .enterCritical, .stmt, .stmt, .stmt,
    .exitCritical, .stmt, .stmt, .stmt, .stmt, .handlerReturn, .stmt, .stmt,
    .enterCritical, .stmt, .stmt, .stmt, .interrupt .sysTick, .stmt, .stmt, .stmt, .stmt,
    .exitCritical, .stmt, .stmt, .stmt, .exitCritical, .stmt, .stmt, .stmt, .stmt]

/-- The second task is switched in and enters two sections, and the Ethernet handler a third. -/
def switchedBetween : List Event :=
  [.stmt, .switchContext 1, .stmt, .stmt, .enterCritical, .stmt, .stmt, .stmt, .enterCritical,
    .stmt, .stmt, .stmt, .interrupt .eth, .enterCritical, .stmt, .stmt, .stmt]

theorem nesting_counts_own_sections_here : ∃ s,
    port.run (State.start 0x7800 (fun _ => true) 0)
      (nestedSections ++ .interrupt .software :: switchedBetween) = some s ∧
    s.hart = .handler (.eth .outside 1) .outside ∧ s.pxCurrentTCB = 1 ∧ s.depth 1 = 2 ∧
    s.uxCriticalNesting = 3 ∧ s.depth 0 = 0 := by
  have guarded : port.Guarded switchGuard (State.start 0x7800 (fun _ => true) 0)
      (nestedSections ++ .interrupt .software :: switchedBetween) := by
    obtain ⟨m, ran, outside, none_entered⟩ :
        ∃ m, port.run (State.start 0x7800 (fun _ => true) 0) nestedSections = some m ∧
          m.hart = .task .outside ∧ m.depth m.pxCurrentTCB = 0 := ⟨_, rfl, rfl, rfl⟩
    rw [port.guarded_append switchGuard _ ran]
    refine ⟨guarded_without_switch (by simp [nestedSections]), ⟨outside, none_entered⟩,
      fun t _ => guarded_without_switch (by simp [switchedBetween])⟩
  obtain ⟨-, handler, others⟩ := nesting_counts_own_sections 0x7800 (fun _ => true) 0 _ _ guarded rfl
  exact ⟨_, rfl, rfl, rfl, rfl, handler .outside 1 .outside rfl, others 0 (by decide)⟩

end WchLwip.Port
