import Mathlib.Data.List.Basic

/-! Machines with a partial step, their runs, and what a run preserves.

An event says which component moves and what its environment answers, so a step
is a partial function and an interleaving of components is a list of events. -/

universe u v w x

structure Lts (σ : Type u) (ε : Type v) where
  step : σ → ε → Option σ

namespace Lts

variable {σ : Type u} {ε : Type v} {η : Type w} (M : Lts σ ε)

/-- Take the events in order; `none` when one of them is refused. -/
def run : σ → List ε → Option σ
  | s, [] => some s
  | s, e :: es => (M.step s e).bind fun t => run t es

/-- Every step of the run starts from a state and an event that satisfy `guard`. -/
def Guarded (guard : σ → ε → Prop) : σ → List ε → Prop
  | _, [] => True
  | s, e :: es => guard s e ∧ ∀ t, M.step s e = some t → Guarded guard t es

/-- A history collected along the run; a refused step ends it. -/
def log (record : η → σ → ε → η) : η → σ → List ε → η
  | h, _, [] => h
  | h, s, e :: es =>
    match M.step s e with
    | some t => log record (record h s e) t es
    | none => h

@[simp] theorem run_nil (s : σ) : M.run s [] = some s := rfl

theorem run_cons_iff (s t : σ) (e : ε) (es : List ε) :
    M.run s (e :: es) = some t ↔ ∃ m, M.step s e = some m ∧ M.run m es = some t := by
  simp only [run, Option.bind_eq_some_iff]

theorem run_append_iff (s t : σ) (es fs : List ε) :
    M.run s (es ++ fs) = some t ↔ ∃ m, M.run s es = some m ∧ M.run m fs = some t := by
  induction es generalizing s with
  | nil => simp
  | cons e es ih =>
    -- the first step is common, and the induction hypothesis splits what is left
    simp only [List.cons_append, run_cons_iff, ih]
    constructor
    · rintro ⟨m, stepped, n, first, second⟩
      exact ⟨n, ⟨m, stepped, first⟩, second⟩
    · rintro ⟨n, ⟨m, stepped, first⟩, second⟩
      exact ⟨m, stepped, n, first, second⟩

theorem log_cons (record : η → σ → ε → η) (h : η) {s t : σ} {e : ε} (es : List ε)
    (stepped : M.step s e = some t) :
    M.log record h s (e :: es) = M.log record (record h s e) t es := by
  simp only [log, stepped]

theorem log_append (record : η → σ → ε → η) (h : η) {s m : σ} {es : List ε} (fs : List ε)
    (ran : M.run s es = some m) :
    M.log record h s (es ++ fs) = M.log record (M.log record h s es) m fs := by
  induction es generalizing s h with
  | nil =>
    cases ran
    rfl
  | cons e es ih =>
    obtain ⟨t, stepped, rest⟩ := (M.run_cons_iff s m e es).mp ran
    rw [List.cons_append, M.log_cons record h (es ++ fs) stepped,
      M.log_cons record h es stepped]
    exact ih (record h s e) rest

theorem guarded_append (guard : σ → ε → Prop) {s m : σ} {es : List ε} (fs : List ε)
    (ran : M.run s es = some m) :
    M.Guarded guard s (es ++ fs) ↔ M.Guarded guard s es ∧ M.Guarded guard m fs := by
  induction es generalizing s with
  | nil =>
    cases ran
    simp [Guarded]
  | cons e es ih =>
    obtain ⟨t, stepped, rest⟩ := (M.run_cons_iff s m e es).mp ran
    simp only [List.cons_append, Guarded, stepped, Option.some.injEq, forall_eq', ih rest,
      and_assoc]

/-- A guarded run of allowed events satisfies both conditions at every step. -/
theorem Guarded.and {guard : σ → ε → Prop} {allowed : ε → Prop} {s : σ} {es : List ε}
    (guarded : M.Guarded guard s es) (all : ∀ e ∈ es, allowed e) :
    M.Guarded (fun s e => allowed e ∧ guard s e) s es := by
  induction es generalizing s with
  | nil => trivial
  | cons e es ih =>
    obtain ⟨first, rest⟩ := List.forall_mem_cons.mp all
    exact ⟨⟨first, guarded.1⟩, fun t stepped => ih (guarded.2 t stepped) rest⟩

/-- Events that preserve `P` are guarded when `P` allows them. -/
theorem guarded_of_invariant (guard : σ → ε → Prop) (P : σ → Prop) (own : ε → Prop)
    (kept : ∀ s e t, P s → own e → M.step s e = some t → P t)
    (safe : ∀ s e, P s → own e → guard s e) {s : σ} {es : List ε} (start : P s)
    (all : ∀ e ∈ es, own e) : M.Guarded guard s es := by
  induction es generalizing s with
  | nil => trivial
  | cons e es ih =>
    obtain ⟨first, rest⟩ := List.forall_mem_cons.mp all
    exact ⟨safe s e start first, fun t stepped => ih (kept s e t start first stepped) rest⟩

/-- Two histories collected together are the two histories. -/
theorem log_prod {η' : Type*} (record : η → σ → ε → η) (record' : η' → σ → ε → η') (h : η)
    (h' : η') (s : σ) (es : List ε) :
    M.log (fun (p : η × η') s e => (record p.1 s e, record' p.2 s e)) (h, h') s es =
      (M.log record h s es, M.log record' h' s es) := by
  induction es generalizing h h' s with
  | nil => rfl
  | cons e es ih =>
    -- a refused step ends both histories alike
    simp only [log]
    cases M.step s e with
    | none => rfl
    | some t => exact ih (record h s e) (record' h' s e) t

/-! ### Invariant rules -/

/-- The general rule: a relation between the collected history and the state that every
guarded step preserves holds at the end of every guarded run. -/
theorem guarded_log_invariant (guard : σ → ε → Prop) (record : η → σ → ε → η)
    (Inv : η → σ → Prop)
    (preserved : ∀ h s e t, Inv h s → guard s e → M.step s e = some t → Inv (record h s e) t)
    {h : η} {s t : σ} {es : List ε} (start : Inv h s) (guarded : M.Guarded guard s es)
    (ran : M.run s es = some t) : Inv (M.log record h s es) t := by
  -- induction on the run from its front, for every history and state it starts from
  induction es generalizing h s with
  | nil =>
    cases ran
    exact start
  | cons e es ih =>
    obtain ⟨m, stepped, rest⟩ := (M.run_cons_iff s t e es).mp ran
    rw [M.log_cons record h es stepped]
    exact ih (preserved h s e m start guarded.1 stepped) (guarded.2 m stepped) rest

private theorem guarded_trivial (s : σ) (es : List ε) : M.Guarded (fun _ _ => True) s es := by
  induction es generalizing s with
  | nil => trivial
  | cons e es ih => exact ⟨trivial, fun t _ => ih t⟩

theorem log_invariant (record : η → σ → ε → η) (Inv : η → σ → Prop)
    (preserved : ∀ h s e t, Inv h s → M.step s e = some t → Inv (record h s e) t)
    {h : η} {s t : σ} {es : List ε} (start : Inv h s) (ran : M.run s es = some t) :
    Inv (M.log record h s es) t :=
  M.guarded_log_invariant (fun _ _ => True) record Inv
    (fun h s e t inv _ stepped => preserved h s e t inv stepped) start
    (M.guarded_trivial s es) ran

theorem guarded_invariant (guard : σ → ε → Prop) (Inv : σ → Prop)
    (preserved : ∀ s e t, Inv s → guard s e → M.step s e = some t → Inv t)
    {s t : σ} {es : List ε} (start : Inv s) (guarded : M.Guarded guard s es)
    (ran : M.run s es = some t) : Inv t :=
  M.guarded_log_invariant guard (fun _ _ _ => ()) (fun (_ : Unit) s => Inv s)
    (fun _ s e t => preserved s e t) (h := ()) start guarded ran

theorem run_invariant (Inv : σ → Prop)
    (preserved : ∀ s e t, Inv s → M.step s e = some t → Inv t)
    {s t : σ} {es : List ε} (start : Inv s) (ran : M.run s es = some t) : Inv t :=
  M.guarded_invariant (fun _ _ => True) Inv
    (fun s e t inv _ stepped => preserved s e t inv stepped) start (M.guarded_trivial s es) ran

/-! ### Counting the steps outside a guard -/

def countMiss (guard : σ → ε → Prop) [∀ s e, Decidable (guard s e)] (k : Nat) (s : σ) (e : ε) :
    Nat :=
  if guard s e then k else k + 1

/-- The number of steps of the run that the guard excludes. -/
def outside (guard : σ → ε → Prop) [∀ s e, Decidable (guard s e)] (s : σ) (es : List ε) : Nat :=
  M.log (countMiss guard) 0 s es

private theorem log_countMiss (guard : σ → ε → Prop) [∀ s e, Decidable (guard s e)] (k : Nat)
    {s t : σ} {es : List ε} (ran : M.run s es = some t) :
    M.log (countMiss guard) k s es = k + M.outside guard s es := by
  induction es generalizing s k with
  | nil => rfl
  | cons e es ih =>
    obtain ⟨m, stepped, rest⟩ := (M.run_cons_iff s t e es).mp ran
    -- one step adds the same to every count
    have start : countMiss guard k s e = k + countMiss guard 0 s e := by
      unfold countMiss
      split <;> omega
    rw [outside, M.log_cons _ _ es stepped, M.log_cons _ _ es stepped, ih _ rest, ih _ rest, start]
    omega

theorem outside_eq_zero_iff (guard : σ → ε → Prop) [∀ s e, Decidable (guard s e)]
    {s t : σ} {es : List ε} (ran : M.run s es = some t) :
    M.outside guard s es = 0 ↔ M.Guarded guard s es := by
  induction es generalizing s with
  | nil => simp [outside, log, Guarded]
  | cons e es ih =>
    obtain ⟨m, stepped, rest⟩ := (M.run_cons_iff s t e es).mp ran
    have first : countMiss guard 0 s e = 0 ↔ guard s e := by
      unfold countMiss
      split <;> simp_all
    rw [outside, M.log_cons _ _ es stepped, M.log_countMiss guard _ rest, Nat.add_eq_zero_iff,
      first, ih rest]
    simp only [Guarded, stepped, Option.some.injEq, forall_eq']

/-! ### Exact guards -/

/-- `guard` is exactly the step condition under which the runs made of `allowed` events are
good: guarded runs are good, and a single step outside the guard is enough for a run, guarded
before and after it, that is not. -/
structure ExactGuard (init : σ) (allowed : ε → Prop) (guard : σ → ε → Prop)
    (Good : List ε → σ → Prop) : Prop where
  sound : ∀ es s, M.run init es = some s → (∀ e ∈ es, allowed e) → M.Guarded guard init es →
    Good es s
  tight : ∀ es e s t, M.run init es = some s → (∀ f ∈ es ++ [e], allowed f) →
    M.Guarded guard init es → M.step s e = some t → ¬ guard s e →
      ∃ fs u, M.run t fs = some u ∧ (∀ f ∈ fs, allowed f) ∧ M.Guarded guard t fs ∧
        ¬ Good (es ++ e :: fs) u

/-- Some guarded run of allowed events leads from one history and state to another. -/
def Leads (record : η → σ → ε → η) (allowed : ε → Prop) (guard : σ → ε → Prop) (h : η) (s : σ)
    (h' : η) (t : σ) : Prop :=
  ∃ fs, M.run s fs = some t ∧ M.log record h s fs = h' ∧ (∀ f ∈ fs, allowed f) ∧
    M.Guarded guard s fs

section Leads

variable {M} {record : η → σ → ε → η} {allowed : ε → Prop} {guard : σ → ε → Prop} {h h' h'' : η}
  {s m t : σ}

theorem Leads.refl (h : η) (s : σ) : M.Leads record allowed guard h s h s :=
  ⟨[], rfl, rfl, by simp, trivial⟩

theorem Leads.head {e : ε} (stepped : M.step s e = some m) (own : allowed e) (guarded : guard s e)
    (rest : M.Leads record allowed guard (record h s e) m h' t) :
    M.Leads record allowed guard h s h' t := by
  obtain ⟨fs, ran, logged, owns, guards⟩ := rest
  refine ⟨e :: fs, (M.run_cons_iff s t e fs).mpr ⟨m, stepped, ran⟩, ?_,
    List.forall_mem_cons.mpr ⟨own, owns⟩, guarded, fun m' stepped' => ?_⟩
  · rw [M.log_cons record h fs stepped, logged]
  · rw [stepped] at stepped'
    rwa [← Option.some.inj stepped']

theorem Leads.trans (first : M.Leads record allowed guard h s h' m)
    (second : M.Leads record allowed guard h' m h'' t) :
    M.Leads record allowed guard h s h'' t := by
  obtain ⟨es, ran, logged, owns, guards⟩ := first
  obtain ⟨fs, ran', logged', owns', guards'⟩ := second
  refine ⟨es ++ fs, (M.run_append_iff s t es fs).mpr ⟨m, ran, ran'⟩, ?_,
    List.forall_mem_append.mpr ⟨owns, owns'⟩, (M.guarded_append guard fs ran).mpr ⟨guards, guards'⟩⟩
  rw [M.log_append record h fs ran, logged, logged']

end Leads

/-- The rule for goodness of the collected history and the state reached: an invariant for the
guarded runs, and a bad ending for every step outside the guard. -/
theorem ExactGuard.of_leads (record : η → σ → ε → η) {h : η} {init : σ} {allowed : ε → Prop}
    {guard : σ → ε → Prop} (Good : η → σ → Prop)
    (sound : ∀ es s, M.run init es = some s → (∀ e ∈ es, allowed e) → M.Guarded guard init es →
      Good (M.log record h init es) s)
    (tight : ∀ es e s t, M.run init es = some s → (∀ f ∈ es ++ [e], allowed f) →
      M.Guarded guard init es → M.step s e = some t → ¬ guard s e →
        ∃ h' u, M.Leads record allowed guard (record (M.log record h init es) s e) t h' u ∧
          ¬ Good h' u) :
    M.ExactGuard init allowed guard fun es s => Good (M.log record h init es) s where
  sound := sound
  tight es e s t ran owns guarded stepped unguarded := by
    obtain ⟨h', u, ⟨fs, rest, logged, own, after⟩, bad⟩ :=
      tight es e s t ran owns guarded stepped unguarded
    refine ⟨fs, u, rest, own, after, ?_⟩
    -- the history of the whole run is that of its three parts, one on top of the other
    rw [M.log_append record h (e :: fs) ran, M.log_cons record _ fs stepped, logged]
    exact bad

/-! ### Simulations -/

variable {σ' : Type x} {ε' : Type*}

/-- A step, or none at all. -/
def stutter (s : σ) : Option ε → Option σ
  | some e => M.step s e
  | none => some s

@[simp] theorem stutter_some (s : σ) (e : ε) : M.stutter s (some e) = M.step s e := rfl

@[simp] theorem stutter_none (s : σ) : M.stutter s none = some s := rfl

/-- A functional simulation with stuttering: a step of `M` is a step of `N` or is invisible. -/
structure Simulation (M : Lts σ ε) (N : Lts σ' ε') where
  state : σ → σ'
  event : σ → ε → Option ε'
  step : ∀ s e t, M.step s e = some t → N.stutter (state s) (event s e) = some (state t)

namespace Simulation

variable {M} {N : Lts σ' ε'} (sim : Simulation M N)

/-- Collect the history of `N` along the steps of `M`. -/
def record (record' : η → σ' → ε' → η) (h : η) (s : σ) (e : ε) : η :=
  match sim.event s e with
  | some f => record' h (sim.state s) f
  | none => h

/-- An invariant of `N` is an invariant of every machine that `N` simulates. -/
theorem preserved (record' : η → σ' → ε' → η) (Inv : η → σ' → Prop)
    (holds : ∀ h s e t, Inv h s → N.step s e = some t → Inv (record' h s e) t)
    (h : η) (s : σ) (e : ε) (t : σ) (inv : Inv h (sim.state s))
    (stepped : M.step s e = some t) : Inv (sim.record record' h s e) (sim.state t) := by
  have related := sim.step s e t stepped
  unfold record
  cases visible : sim.event s e with
  | some f =>
    rw [visible] at related
    exact holds h (sim.state s) f (sim.state t) inv related
  | none =>
    rw [visible] at related
    rw [← Option.some.inj related]
    exact inv

end Simulation

/-! ### Refinements -/

/-- A relation that a step of `M` keeps, with a step of `N` or with none. -/
structure Refinement (M : Lts σ ε) (N : Lts σ' ε') where
  rel : σ → σ' → Prop
  event : σ → ε → Option ε'
  step : ∀ s a e t, rel s a → M.step s e = some t →
    ∃ b, N.stutter a (event s e) = some b ∧ rel t b

namespace Refinement

variable {M} {N : Lts σ' ε'} (ref : Refinement M N)

/-- The events of `N` that a run of `M` is seen to take. -/
def visible (fs : List ε') (s : σ) (e : ε) : List ε' := fs ++ (ref.event s e).toList

/-- A run of `M` is a run of `N` from every state that it is related to. -/
theorem run {s t : σ} {a : σ'} {es : List ε} (related : ref.rel s a) (ran : M.run s es = some t) :
    ∃ b, N.run a (M.log ref.visible [] s es) = some b ∧ ref.rel t b := by
  refine M.log_invariant ref.visible (fun fs s => ∃ b, N.run a fs = some b ∧ ref.rel s b)
    ?_ ⟨a, rfl, related⟩ ran
  rintro fs s e t ⟨b, reached, related⟩ stepped
  obtain ⟨c, taken, related'⟩ := ref.step s b e t related stepped
  refine ⟨c, (N.run_append_iff a c fs _).mpr ⟨b, reached, ?_⟩, related'⟩
  cases seen : ref.event s e with
  | some f =>
    rw [seen] at taken
    exact (N.run_cons_iff b c f []).mpr ⟨c, taken, rfl⟩
  | none =>
    rw [seen] at taken
    exact taken

end Refinement

end Lts
