import Mathlib.Logic.Function.Basic
import WchLwip.Library.Lts

/-! Tasks that have a processor each.

This is what sharing one processor is to look like: a task goes on from the context
that it had, and what the others do in between does not change it. -/

@[ext]
structure Processors (τ : Type*) (κ : Type*) where
  running : Option τ
  context : τ → Option κ

namespace Processors

variable {τ κ : Type*} {preempt launch : κ → κ} {p q : Processors τ κ} {t u : τ}
  {c : κ}

/-- `own` is the context of the running task after it has created another. -/
inductive Event (τ κ : Type*) where
  | run (context : κ)
  | switch (next : τ)
  | create (task : τ) (context own : κ)
  | start (first : τ)

/-- No task has been created. -/
def empty : Processors τ κ := ⟨none, fun _ => none⟩

/-- The event lets the task run. -/
def Event.Resumes (t : τ) : Event τ κ → Prop
  | .switch next => next = t
  | .start first => first = t
  | _ => False

/-- The task is waiting with the context. -/
def Waits (t : τ) (c : κ) (p : Processors τ κ) : Prop := p.running ≠ some t ∧ p.context t = some c

variable [DecidableEq τ]

/-- The running task, if there is one, goes on with another context. -/
def proceed (p : Processors τ κ) (c : κ) : Processors τ κ :=
  match p.running with
  | some t => { p with context := Function.update p.context t (some c) }
  | none => p

def step (preempt launch : κ → κ) (p : Processors τ κ) : Event τ κ → Option (Processors τ κ)
  | .run c => some (p.proceed c)
  | .switch next =>
    match p.running, p.context next with
    | some t, some _ => some ⟨some next, Function.update p.context t ((p.context t).map preempt)⟩
    | _, _ => none
  | .create task c own =>
    match p.context task with
    | some _ => none
    | none =>
      let p := p.proceed own
      some { p with context := Function.update p.context task (some c) }
  | .start first =>
    match p.running, p.context first with
    | none, some c => some ⟨some first, Function.update p.context first (some (launch c))⟩
    | _, _ => none

def machine (preempt launch : κ → κ) : Lts (Processors τ κ) (Event τ κ) := ⟨step preempt launch⟩

theorem proceed_running (p : Processors τ κ) (c : κ) : (p.proceed c).running = p.running := by
  unfold proceed
  split <;> rfl

theorem proceed_context (p : Processors τ κ) (c : κ) (other : p.running ≠ some t) :
    (p.proceed c).context t = p.context t := by
  unfold proceed
  split
  next u running =>
    have different : t ≠ u := by
      rintro rfl
      exact other running
    exact Function.update_of_ne different _ _
  next => rfl

theorem proceed_self (c : κ) (running : p.running = some t) :
    (p.proceed c).context t = some c := by
  unfold proceed
  rw [running]
  exact Function.update_self _ _ _

theorem step_create {own : κ} (fresh : p.context t = none) :
    step preempt launch p (.create t c own) =
      some ⟨(p.proceed own).running, Function.update (p.proceed own).context t (some c)⟩ := by
  simp only [step, fresh]

theorem step_start (idle : p.running = none) (waits : p.context t = some c) :
    step preempt launch p (.start t) =
      some ⟨some t, Function.update p.context t (some (launch c))⟩ := by
  simp only [step, idle, waits]

theorem step_switch (running : p.running = some t) (waits : p.context u = some c) :
    step preempt launch p (.switch u) =
      some ⟨some u, Function.update p.context t ((p.context t).map preempt)⟩ := by
  simp only [step, running, waits]

/-- What the others do leaves a waiting task as it is. -/
theorem Waits.step {e : Event τ κ} (waits : Waits t c p) (quiet : ¬ e.Resumes t)
    (stepped : step preempt launch p e = some q) : Waits t c q := by
  obtain ⟨other, context⟩ := waits
  cases e with
  | run d =>
    cases stepped
    exact ⟨fun same => other ((p.proceed_running d).symm.trans same),
      (p.proceed_context d other).trans context⟩
  | switch next =>
    simp only [Processors.step] at stepped
    split at stepped
    next u _ running _ =>
      cases stepped
      have different : t ≠ u := by
        rintro rfl
        exact other running
      refine ⟨fun same => quiet (Option.some.inj same), ?_⟩
      exact (Function.update_of_ne different _ _).trans context
    next => cases stepped
  | create task d own =>
    simp only [Processors.step] at stepped
    split at stepped
    next => cases stepped
    next fresh =>
      cases stepped
      have different : t ≠ task := by
        rintro rfl
        exact Option.some_ne_none c (context.symm.trans fresh)
      refine ⟨fun same => other ((p.proceed_running own).symm.trans same), ?_⟩
      refine (Function.update_of_ne different _ _).trans ?_
      exact (p.proceed_context own other).trans context
  | start first =>
    simp only [Processors.step] at stepped
    split at stepped
    next d _ _ =>
      cases stepped
      have different : t ≠ first := fun same => quiet same.symm
      refine ⟨fun same => quiet (Option.some.inj same), ?_⟩
      exact (Function.update_of_ne different _ _).trans context
    next => cases stepped

/-- A task that is switched out waits with its context. -/
theorem switch_waits (running : p.running = some t) (context : p.context t = some c) (other : u ≠ t)
    (stepped : step preempt launch p (.switch u) = some q) : Waits t (preempt c) q := by
  simp only [step, running] at stepped
  split at stepped
  next v _ same _ =>
    cases same
    cases stepped
    refine ⟨fun same => other (Option.some.inj same), ?_⟩
    exact (Function.update_self _ _ _).trans (congrArg (Option.map preempt) context)
  next => cases stepped

/-- A new task waits with the context that it is given. -/
theorem create_waits {own : κ} (idle : p.running ≠ some t)
    (stepped : step preempt launch p (.create t c own) = some q) : Waits t c q := by
  simp only [step] at stepped
  split at stepped
  next => cases stepped
  next =>
    cases stepped
    refine ⟨fun running => idle ?_, Function.update_self _ _ _⟩
    exact (p.proceed_running own).symm.trans running

/-- A task that is switched in goes on with what it had. -/
theorem Waits.switched (waits : Waits t c p)
    (stepped : Processors.step preempt launch p (.switch t) = some q) :
    q.running = some t ∧ q.context t = some c := by
  obtain ⟨other, context⟩ := waits
  simp only [Processors.step] at stepped
  split at stepped
  next u _ running _ =>
    cases stepped
    have different : t ≠ u := by
      rintro rfl
      exact other running
    exact ⟨rfl, (Function.update_of_ne different _ _).trans context⟩
  next => cases stepped

theorem Waits.started (waits : Waits t c p)
    (stepped : Processors.step preempt launch p (.start t) = some q) :
    q.running = some t ∧ q.context t = some (launch c) := by
  obtain ⟨-, context⟩ := waits
  simp only [Processors.step] at stepped
  split at stepped
  next d _ known =>
    cases stepped
    cases context.symm.trans known
    exact ⟨rfl, Function.update_self _ _ _⟩
  next => cases stepped

end Processors
