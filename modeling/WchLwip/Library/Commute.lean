import WchLwip.Library.Lts

/-! Runs rearranged: events moved to the front of a run, and runs with events left out.

In both cases a relation between single steps is carried along the run, so the
histories of the two runs are compared by putting them into the state. -/

universe u v w x

namespace Lts

variable {σ : Type u} {ε : Type v} {η : Type w} {σ' : Type x} (M : Lts σ ε)

/-! ### Histories in the state -/

/-- The machine that carries its history along. -/
def logged (record : η → σ → ε → η) : Lts (η × σ) ε :=
  ⟨fun p e => (M.step p.2 e).map fun t => (record p.1 p.2 e, t)⟩

theorem logged_step_iff (record : η → σ → ε → η) {h h' : η} {s t : σ} {e : ε} :
    (M.logged record).step (h, s) e = some (h', t) ↔ M.step s e = some t ∧ record h s e = h' := by
  simp [logged, Option.map_eq_some_iff, and_comm]

theorem logged_run_iff (record : η → σ → ε → η) {h h' : η} {s t : σ} {es : List ε} :
    (M.logged record).run (h, s) es = some (h', t) ↔
      M.run s es = some t ∧ M.log record h s es = h' := by
  induction es generalizing h s with
  | nil => simp [log, and_comm]
  | cons e es ih =>
    rw [run_cons_iff, run_cons_iff]
    constructor
    · rintro ⟨⟨k, m⟩, stepped, rest⟩
      obtain ⟨taken, rfl⟩ := (M.logged_step_iff record).mp stepped
      obtain ⟨ran, logged⟩ := ih.mp rest
      exact ⟨⟨m, taken, ran⟩, (M.log_cons record h es taken).trans logged⟩
    · rintro ⟨⟨m, stepped, ran⟩, logged⟩
      rw [M.log_cons record h es stepped] at logged
      exact ⟨(record h s e, m), (M.logged_step_iff record).mpr ⟨stepped, rfl⟩, ih.mpr ⟨ran, logged⟩⟩

/-! ### Events moved to the front -/

/-- An event of the front passes every other event that may occur. -/
def Passes (front : ε → Bool) (allowed : ε → Prop) : Prop :=
  ∀ s e m f t, allowed e → front e = false → front f = true → M.step s e = some m →
    M.step m f = some t → ∃ m', M.step s f = some m' ∧ M.step m' e = some t

section Passes

variable {M} {front : ε → Bool} {allowed : ε → Prop}

/-- A run of front events passes one other event. -/
theorem Passes.past (passes : M.Passes front allowed) {e : ε} (own : allowed e)
    (back : front e = false) {s m t : σ} {fs : List ε} (ahead : ∀ f ∈ fs, front f = true)
    (stepped : M.step s e = some m) (ran : M.run m fs = some t) :
    ∃ m', M.run s fs = some m' ∧ M.step m' e = some t := by
  induction fs generalizing s m with
  | nil =>
    cases ran
    exact ⟨s, rfl, stepped⟩
  | cons f fs ih =>
    obtain ⟨first, rest⟩ := List.forall_mem_cons.mp ahead
    obtain ⟨n, next, ran⟩ := (M.run_cons_iff m t f fs).mp ran
    -- the event is moved behind `f`, and then behind the others
    obtain ⟨k, before, after⟩ := passes s e m f n own back first stepped next
    obtain ⟨m', ran', last⟩ := ih rest after ran
    exact ⟨m', (M.run_cons_iff s m' f fs).mpr ⟨k, before, ran'⟩, last⟩

/-- A run ends in the same state when its front events all come first. -/
theorem Passes.run_filter (passes : M.Passes front allowed) {s t : σ} {es : List ε}
    (own : ∀ e ∈ es, allowed e) (ran : M.run s es = some t) :
    M.run s (es.filter front ++ es.filter fun e => !front e) = some t := by
  induction es generalizing s with
  | nil => exact ran
  | cons e es ih =>
    obtain ⟨first, rest⟩ := List.forall_mem_cons.mp own
    obtain ⟨m, stepped, ran⟩ := (M.run_cons_iff s t e es).mp ran
    have sorted := ih rest ran
    cases side : front e with
    | true =>
      simp only [List.filter_cons, side, if_true, Bool.not_true, Bool.false_eq_true, if_false,
        List.cons_append]
      exact (M.run_cons_iff s t e _).mpr ⟨m, stepped, sorted⟩
    | false =>
      simp only [List.filter_cons, side, if_true, Bool.not_false, Bool.false_eq_true, if_false]
      obtain ⟨n, fronts, backs⟩ := (M.run_append_iff m t _ _).mp sorted
      have ahead : ∀ f ∈ es.filter front, front f = true := fun f member =>
        (List.mem_filter.mp member).2
      obtain ⟨m', ran', last⟩ := passes.past first side ahead stepped fronts
      exact (M.run_append_iff s t _ _).mpr
        ⟨m', ran', (M.run_cons_iff m' t e _).mpr ⟨n, last, backs⟩⟩

end Passes

/-! ### Events left out -/

/-- The second list is the first one without some of the events that may be skipped. -/
inductive Thinned (skips keeps : ε → Prop) : List ε → List ε → Prop where
  | nil : Thinned skips keeps [] []
  | skip {e : ε} {es fs : List ε} (skipped : skips e) (rest : Thinned skips keeps es fs) :
    Thinned skips keeps (e :: es) fs
  | keep {e : ε} {es fs : List ε} (kept : keeps e) (rest : Thinned skips keeps es fs) :
    Thinned skips keeps (e :: es) (e :: fs)

theorem Thinned.kept {skips keeps : ε → Prop} {es fs : List ε} (thinned : Thinned skips keeps es fs) :
    ∀ f ∈ fs, keeps f := by
  induction thinned with
  | nil => simp
  | skip _ _ ih => exact ih
  | keep kept _ ih => exact List.forall_mem_cons.mpr ⟨kept, ih⟩

theorem Thinned.eq_filter {p : ε → Bool} {es fs : List ε}
    (thinned : Thinned (fun e => p e = false) (fun e => p e = true) es fs) :
    fs = es.filter p := by
  induction thinned with
  | nil => rfl
  | skip skipped _ ih => simp [skipped, ih]
  | keep kept _ ih => simp [kept, ih]

/-- A machine follows a run, taking the kept events alone, when it follows each step. -/
theorem run_thinned {N : Lts σ' ε} {skips keeps : ε → Prop} (R : σ → σ' → Prop)
    (follow : ∀ s r e t, R s r → M.step s e = some t →
      skips e ∧ R t r ∨ keeps e ∧ ∃ r', N.step r e = some r' ∧ R t r')
    {s t : σ} {r : σ'} {es : List ε} (start : R s r) (ran : M.run s es = some t) :
    ∃ fs r', Thinned skips keeps es fs ∧ N.run r fs = some r' ∧ R t r' := by
  induction es generalizing s r with
  | nil =>
    cases ran
    exact ⟨[], r, .nil, rfl, start⟩
  | cons e es ih =>
    obtain ⟨m, stepped, ran⟩ := (M.run_cons_iff s t e es).mp ran
    obtain ⟨skipped, related⟩ | ⟨kept, r', stepped', related⟩ := follow s r e m start stepped
    · obtain ⟨fs, u, thinned, ran', there⟩ := ih related ran
      exact ⟨fs, u, .skip skipped thinned, ran', there⟩
    · obtain ⟨fs, u, thinned, ran', there⟩ := ih related ran
      exact ⟨e :: fs, u, .keep kept thinned, (N.run_cons_iff r u e fs).mpr ⟨r', stepped', ran'⟩,
        there⟩

end Lts
