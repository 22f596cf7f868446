import Mathlib.Data.List.Perm.Subperm
import WchLwip.Library.Lts
import WchLwip.Library.Spans

/-! An arena that is divided into free and used spans.

A request takes the first free span that is large enough, and what is given back
is merged with its free neighbours. Nothing of the arena is ever lost, and the
free spans depend on the used ones alone, not on the order of the requests. -/

open Span

structure Arena where
  free : List Span
  used : List Span

namespace Arena

variable {spare lo hi n : Nat} {a b : Arena} {s : Span}

inductive Event where
  | take (n : Nat)
  | give (s : Span)

/-- A request that cannot be met changes nothing. -/
def step (spare : Nat) (a : Arena) : Event → Option Arena
  | .take n =>
    if 0 < n then
      match carve spare n a.free with
      | some (s, rest) => some ⟨rest, s :: a.used⟩
      | none => some a
    else none
  | .give s => if s ∈ a.used then some ⟨Span.insert s a.free, a.used.erase s⟩ else none

def machine (spare : Nat) : Lts Arena Event := ⟨step spare⟩

/-- One free span. -/
def whole (lo hi : Nat) : Arena := ⟨[⟨lo, hi - lo⟩], []⟩

/-- The spans lie in the range, cover it, and do not overlap. -/
structure Tiles (lo hi : Nat) (a : Arena) : Prop where
  separated : Separated a.free
  apart : a.used.Pairwise Apart
  sizes : ∀ s ∈ a.used, 0 < s.size
  disjoint : ∀ s ∈ a.used, ∀ t ∈ a.free, s.Apart t
  covers : ∀ x, lo ≤ x ∧ x < hi ↔ Covers a.free x ∨ Covers a.used x
  total : total a.free + total a.used = hi - lo

theorem Tiles.whole (pos : lo < hi) : Tiles lo hi (whole lo hi) where
  separated := separated_cons.mpr ⟨by simp only; omega, by simp, .nil⟩
  apart := .nil
  sizes := by simp [Arena.whole]
  disjoint := by simp [Arena.whole]
  covers x := by
    simp only [Arena.whole, covers_cons, covers_nil, or_false, Contains, stop]
    omega
  total := by simp [Arena.whole]

/-- No address is free and used. -/
theorem Tiles.not_covers_used (tiles : Tiles lo hi a) {x : Nat} (free : Covers a.free x) :
    ¬ Covers a.used x := by
  rintro ⟨s, used, inside⟩
  obtain ⟨t, member, there⟩ := free
  exact (tiles.disjoint s used t member).not_contains inside there

theorem Tiles.within (tiles : Tiles lo hi a) (member : s ∈ a.free ∨ s ∈ a.used) :
    lo ≤ s.start ∧ s.stop ≤ hi := by
  have size : 0 < s.size := member.elim (tiles.separated.sizes s) (tiles.sizes s)
  exact within_of_contains size fun x inside => (tiles.covers x).mpr
    (member.imp (fun free => ⟨s, free, inside⟩) fun used => ⟨s, used, inside⟩)

/-! ### What a step keeps -/

theorem Tiles.take {rest : List Span} (tiles : Tiles lo hi a) (pos : 0 < n)
    (carved : carve spare n a.free = some (s, rest)) : Tiles lo hi ⟨rest, s :: a.used⟩ := by
  obtain ⟨separated, apart⟩ := tiles.separated.carve carved
  have size : 0 < s.size := Nat.lt_of_lt_of_le pos (carve_size carved).1
  refine ⟨separated, List.pairwise_cons.mpr ⟨fun t member => ?_, tiles.apart⟩,
    List.forall_mem_cons.mpr ⟨size, tiles.sizes⟩,
    List.forall_mem_cons.mpr ⟨apart, fun t member u left => ?_⟩, fun x => ?_, ?_⟩
  · -- the span was part of a free one
    refine apart_of_not_contains size (tiles.sizes t member) fun x inside there => ?_
    have free : Covers a.free x := (covers_carve carved).mpr (Or.inl inside)
    exact tiles.not_covers_used free ⟨t, member, there⟩
  · -- and so is what is left
    refine apart_of_not_contains (tiles.sizes t member) (separated.sizes u left) fun x inside there => ?_
    have free : Covers a.free x := (covers_carve carved).mpr (Or.inr ⟨u, left, there⟩)
    exact tiles.not_covers_used free ⟨t, member, inside⟩
  · rw [tiles.covers, covers_carve carved, covers_cons, or_assoc, or_left_comm]
  · have := total_carve carved
    have := tiles.total
    simp only [total_cons]
    omega

theorem covers_perm {ss ts : List Span} (perm : ss.Perm ts) (x : Nat) :
    Covers ss x ↔ Covers ts x := by
  simp only [Covers, perm.mem_iff]

theorem total_perm {ss ts : List Span} (perm : ss.Perm ts) : Span.total ss = Span.total ts := by
  induction perm with
  | nil => rfl
  | cons s _ ih => rw [total_cons, total_cons, ih]
  | swap s t ss =>
    simp only [total_cons]
    omega
  | trans _ _ first second => exact first.trans second

/-- The used spans in any order. -/
theorem Tiles.perm {used : List Span} (tiles : Tiles lo hi a) (perm : a.used.Perm used) :
    Tiles lo hi ⟨a.free, used⟩ where
  separated := tiles.separated
  apart := tiles.apart.perm perm fun apart => apart.symm
  sizes s member := tiles.sizes s (perm.mem_iff.mpr member)
  disjoint s member := tiles.disjoint s (perm.mem_iff.mpr member)
  covers x := by rw [tiles.covers, covers_perm perm]
  total := by rw [← total_perm perm, tiles.total]

theorem Tiles.give (tiles : Tiles lo hi a) (member : s ∈ a.used) :
    Tiles lo hi ⟨Span.insert s a.free, a.used.erase s⟩ := by
  have ordered := tiles.perm (List.perm_cons_erase member)
  obtain ⟨apart, rest⟩ := List.pairwise_cons.mp ordered.apart
  obtain ⟨size, sizes⟩ := List.forall_mem_cons.mp ordered.sizes
  obtain ⟨here, others⟩ := List.forall_mem_cons.mp ordered.disjoint
  have separated := ordered.separated.insert size here
  refine ⟨separated, rest, sizes, fun t used u free => ?_, fun x => ?_, ?_⟩
  · refine apart_of_not_contains (sizes t used) (separated.sizes u free) fun x inside there => ?_
    rcases covers_insert.mp ⟨u, free, there⟩ with back | before
    · exact (apart t used).not_contains back inside
    · exact ordered.not_covers_used before ⟨t, List.mem_cons_of_mem _ used, inside⟩
  · rw [ordered.covers, covers_insert, covers_cons, or_assoc, or_left_comm]
  · have := ordered.total
    simp only [total_cons] at this
    simp only [total_insert]
    omega

theorem Tiles.step {e : Event} (tiles : Tiles lo hi a) (stepped : step spare a e = some b) :
    Tiles lo hi b := by
  cases e with
  | take n =>
    simp only [Arena.step] at stepped
    split at stepped
    next pos =>
      split at stepped
      next s rest carved =>
        cases stepped
        exact tiles.take pos carved
      next =>
        cases stepped
        exact tiles
    next => cases stepped
  | give s =>
    simp only [Arena.step] at stepped
    split at stepped
    next member =>
      cases stepped
      exact tiles.give member
    next => cases stepped

theorem Tiles.run {es : List Event} (tiles : Tiles lo hi a)
    (ran : (machine spare).run a es = some b) : Tiles lo hi b :=
  (machine spare).run_invariant (Tiles lo hi) (fun _ _ _ tiles stepped => tiles.step stepped) tiles ran

/-! ### What the used spans determine -/

/-- The free spans depend on what is used alone. -/
theorem Tiles.free_unique (first : Tiles lo hi a) (second : Tiles lo hi b)
    (same : ∀ x, Covers a.used x ↔ Covers b.used x) : a.free = b.free := by
  apply first.separated.eq_of_covers second.separated
  have complement {c : Arena} (tiles : Tiles lo hi c) (x : Nat) :
      Covers c.free x ↔ (lo ≤ x ∧ x < hi) ∧ ¬ Covers c.used x := by
    rw [tiles.covers]
    constructor
    · intro free
      exact ⟨Or.inl free, tiles.not_covers_used free⟩
    · rintro ⟨free | used, unused⟩
      · exact free
      · exact absurd used unused
  intro x
  rw [complement first, complement second, same]

theorem Tiles.free_of_unused (tiles : Tiles lo hi a) (pos : lo < hi) (unused : a.used = []) :
    a.free = [⟨lo, hi - lo⟩] := by
  refine tiles.free_unique (Tiles.whole pos) fun x => ?_
  rw [unused]
  rfl

/-- Between two free spans there is a used one. -/
theorem Tiles.free_length_le (tiles : Tiles lo hi a) : a.free.length ≤ a.used.length + 1 := by
  have distinct : (a.free.map Span.stop).Nodup := by
    refine List.pairwise_map.mpr (tiles.separated.gaps.imp fun gap same => ?_)
    simp only [stop] at *
    omega
  -- every free span is followed by the end of the arena or by a used span
  have followed : a.free.map Span.stop ⊆ hi :: a.used.map Span.start := by
    intro x member
    obtain ⟨s, free, rfl⟩ := List.mem_map.mp member
    obtain ⟨low, high⟩ := tiles.within (Or.inl free)
    rcases Nat.eq_or_lt_of_le high with last | before
    · rw [last]
      exact List.mem_cons_self
    · have size := tiles.separated.sizes s free
      have inside : lo ≤ s.stop ∧ s.stop < hi := ⟨by simp only [stop]; omega, before⟩
      obtain ⟨u, used, contains⟩ := ((tiles.covers _).mp inside).resolve_left
        (tiles.separated.not_covers_stop free)
      have start : u.start = s.stop := by
        have apart := tiles.disjoint u used s free
        simp only [Apart, Contains, stop] at *
        omega
      exact List.mem_cons_of_mem _ (List.mem_map.mpr ⟨u, used, start⟩)
  have count := (List.subperm_of_subset distinct followed).length_le
  simpa using count

/-- A request is met when the free addresses, shared out evenly, are enough for it. -/
theorem Tiles.carve_of_total (tiles : Tiles lo hi a)
    (enough : (a.used.length + 1) * (n - 1) < Span.total a.free) :
    carve spare n a.free ≠ none := by
  intro refused
  have small := total_le_of_small (carve_eq_none_iff.mp refused)
  have few : a.free.length * (n - 1) ≤ (a.used.length + 1) * (n - 1) :=
    Nat.mul_le_mul_right _ tiles.free_length_le
  omega

end Arena
