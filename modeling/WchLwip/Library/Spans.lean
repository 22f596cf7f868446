import Mathlib.Data.List.Basic
import Mathlib.Data.List.Pairwise
import Mathlib.Algebra.Order.Ring.Nat

/-! Spans of addresses, and lists of free spans in address order.

Such a list is kept with a gap between any two of its spans: a span that is put
back is merged with what it touches. The list is then determined by the
addresses that it covers. -/

/-- The addresses from `start` on, `size` of them. -/
structure Span where
  start : Nat
  size : Nat
deriving DecidableEq

namespace Span

variable {s t u : Span} {ss ts : List Span} {a n : Nat}

def stop (s : Span) : Nat := s.start + s.size

def Contains (s : Span) (a : Nat) : Prop := s.start ≤ a ∧ a < s.stop

instance (s : Span) (a : Nat) : Decidable (s.Contains a) := inferInstanceAs (Decidable (_ ∧ _))

def Apart (s t : Span) : Prop := s.stop ≤ t.start ∨ t.stop ≤ s.start

instance (s t : Span) : Decidable (s.Apart t) := inferInstanceAs (Decidable (_ ∨ _))

theorem Apart.symm (apart : s.Apart t) : t.Apart s := Or.symm apart

/-- Spans that are apart have no address in common. -/
theorem Apart.not_contains (apart : s.Apart t) (inside : s.Contains a) : ¬ t.Contains a := by
  simp only [Apart, Contains] at *
  omega

theorem contains_start (size : 0 < s.size) : s.Contains s.start :=
  ⟨Nat.le_refl _, by simp only [stop]; omega⟩

/-- A span lies in a range when all that it contains does. -/
theorem within_of_contains {lo hi : Nat} (size : 0 < s.size)
    (inside : ∀ a, s.Contains a → lo ≤ a ∧ a < hi) : lo ≤ s.start ∧ s.stop ≤ hi := by
  have first := inside s.start (contains_start size)
  have last := inside (s.stop - 1) (by simp only [Contains, stop]; omega)
  simp only [stop] at *
  omega

/-- Spans with no address in common are apart. -/
theorem apart_of_not_contains (sizeS : 0 < s.size) (sizeT : 0 < t.size)
    (disjoint : ∀ a, s.Contains a → ¬ t.Contains a) : s.Apart t := by
  have startS := disjoint s.start (contains_start sizeS)
  have startT : ¬ s.Contains t.start := fun inside => disjoint _ inside (contains_start sizeT)
  simp only [Apart, Contains, stop] at *
  omega

/-- Some span of the list contains the address. -/
def Covers (ss : List Span) (a : Nat) : Prop := ∃ s ∈ ss, s.Contains a

@[simp] theorem covers_nil : ¬ Covers [] a := by
  simp [Covers]

@[simp] theorem covers_cons : Covers (s :: ss) a ↔ s.Contains a ∨ Covers ss a := by
  simp [Covers]

@[simp] theorem covers_append : Covers (ss ++ ts) a ↔ Covers ss a ∨ Covers ts a := by
  simp [Covers, or_and_right, exists_or]

def total : List Span → Nat
  | [] => 0
  | s :: ss => s.size + total ss

@[simp] theorem total_nil : total [] = 0 := rfl

@[simp] theorem total_cons : total (s :: ss) = s.size + total ss := rfl

/-! ### Ordered lists with gaps -/

/-- Spans in address order, none of them empty, with a gap between any two. -/
structure Separated (ss : List Span) : Prop where
  gaps : ss.Pairwise fun s t => s.stop < t.start
  sizes : ∀ s ∈ ss, 0 < s.size

theorem Separated.nil : Separated [] := ⟨.nil, by simp⟩

theorem separated_cons : Separated (s :: ss) ↔
    0 < s.size ∧ (∀ t ∈ ss, s.stop < t.start) ∧ Separated ss := by
  constructor
  · rintro ⟨gaps, sizes⟩
    obtain ⟨first, rest⟩ := List.pairwise_cons.mp gaps
    obtain ⟨size, others⟩ := List.forall_mem_cons.mp sizes
    exact ⟨size, first, rest, others⟩
  · rintro ⟨size, first, rest, others⟩
    exact ⟨List.pairwise_cons.mpr ⟨first, rest⟩, List.forall_mem_cons.mpr ⟨size, others⟩⟩

theorem Separated.tail (separated : Separated (s :: ss)) : Separated ss :=
  (separated_cons.mp separated).2.2

theorem Separated.apart (separated : Separated (s :: ss)) (member : t ∈ ss) : s.Apart t :=
  Or.inl (Nat.le_of_lt ((separated_cons.mp separated).2.1 t member))

/-- Nothing before the first span is covered. -/
theorem Separated.start_le (separated : Separated (s :: ss)) (covered : Covers (s :: ss) a) :
    s.start ≤ a := by
  obtain ⟨-, gaps, -⟩ := separated_cons.mp separated
  rcases covers_cons.mp covered with here | ⟨t, member, inside⟩
  · exact here.1
  · have := gaps t member
    simp only [Contains, stop] at *
    omega

/-- The end of a span is in the gap behind it. -/
theorem Separated.not_covers_stop (separated : Separated ss) (member : s ∈ ss) :
    ¬ Covers ss s.stop := by
  induction ss with
  | nil => simp at member
  | cons t ss ih =>
    obtain ⟨size, gaps, rest⟩ := separated_cons.mp separated
    rintro ⟨u, other, inside⟩
    rcases List.mem_cons.mp member with rfl | later <;> rcases List.mem_cons.mp other with rfl | after
    · exact Nat.lt_irrefl _ inside.2
    · exact Nat.not_lt.mpr inside.1 (gaps u after)
    · -- a later span ends behind the first one
      have := gaps s later
      have := inside.2
      simp only [stop] at *
      omega
    · exact ih rest later ⟨u, after, inside⟩

/-- A list with gaps is determined by the addresses that it covers. -/
theorem Separated.eq_of_covers (first : Separated ss) (second : Separated ts)
    (same : ∀ a, Covers ss a ↔ Covers ts a) : ss = ts := by
  induction ss generalizing ts with
  | nil =>
    cases ts with
    | nil => rfl
    | cons t ts =>
      have size := (separated_cons.mp second).1
      have start := contains_start size
      exact absurd ((same t.start).mpr (covers_cons.mpr (Or.inl start))) covers_nil
  | cons s ss ih =>
    cases ts with
    | nil =>
      have size := (separated_cons.mp first).1
      have start := contains_start size
      exact absurd ((same s.start).mp (covers_cons.mpr (Or.inl start))) covers_nil
    | cons t ts =>
      obtain ⟨sizeS, gapsS, restS⟩ := separated_cons.mp first
      obtain ⟨sizeT, gapsT, restT⟩ := separated_cons.mp second
      have startS := contains_start sizeS
      have startT := contains_start sizeT
      have starts : s.start = t.start :=
        Nat.le_antisymm
          (first.start_le ((same t.start).mpr (covers_cons.mpr (Or.inl startT))))
          (second.start_le ((same s.start).mp (covers_cons.mpr (Or.inl startS))))
      -- the one that ends first has a gap where the other goes on
      have stops : s.stop = t.stop := by
        rcases Nat.lt_trichotomy s.stop t.stop with before | equal | after
        · have inside : Covers (t :: ts) s.stop :=
            covers_cons.mpr (Or.inl ⟨by simp only [stop] at *; omega, before⟩)
          exact absurd ((same _).mpr inside) (first.not_covers_stop List.mem_cons_self)
        · exact equal
        · have inside : Covers (s :: ss) t.stop :=
            covers_cons.mpr (Or.inl ⟨by simp only [stop] at *; omega, after⟩)
          exact absurd ((same _).mp inside) (second.not_covers_stop List.mem_cons_self)
      have equal : s = t := by
        obtain ⟨start, size⟩ := s
        obtain ⟨start', size'⟩ := t
        simp only [stop] at starts stops
        congr
        omega
      subst equal
      congr 1
      apply ih restS restT
      intro a
      -- what the rest covers is what the list covers and the first span does not contain
      have apart (us : List Span) (gaps : ∀ u ∈ us, s.stop < u.start) (inside : s.Contains a) :
          ¬ Covers us a := by
        rintro ⟨u, member, there⟩
        have := gaps u member
        simp only [Contains, stop] at *
        omega
      have whole := same a
      rw [covers_cons, covers_cons] at whole
      constructor
      · intro covered
        exact (whole.mp (Or.inr covered)).resolve_left fun inside => apart ss gapsS inside covered
      · intro covered
        exact (whole.mpr (Or.inr covered)).resolve_left fun inside => apart ts gapsT inside covered

/-! ### Putting a span back -/

/-- The span in front of the list, merged with the first one when they touch. -/
def join (s : Span) : List Span → List Span
  | [] => [s]
  | t :: ts => if s.stop = t.start then ⟨s.start, s.size + t.size⟩ :: ts else s :: t :: ts

/-- The span at its place, merged with its neighbours when they touch. -/
def insert (s : Span) : List Span → List Span
  | [] => [s]
  | t :: ts =>
    if t.start < s.start then
      if t.stop = s.start then join ⟨t.start, t.size + s.size⟩ ts else t :: insert s ts
    else join s (t :: ts)

theorem covers_join : Covers (join s ts) a ↔ s.Contains a ∨ Covers ts a := by
  cases ts with
  | nil => simp [join]
  | cons t ts =>
    rw [join]
    split
    next touching =>
      have both : Contains ⟨s.start, s.size + t.size⟩ a ↔ s.Contains a ∨ t.Contains a := by
        simp only [Contains, stop] at *
        omega
      simp only [covers_cons, both, or_assoc]
    next => simp only [covers_cons]

theorem covers_insert : Covers (insert s ts) a ↔ s.Contains a ∨ Covers ts a := by
  induction ts with
  | nil => simp [insert]
  | cons t ts ih =>
    rw [insert]
    split
    · split
      next touching =>
        have both : Contains ⟨t.start, t.size + s.size⟩ a ↔ t.Contains a ∨ s.Contains a := by
          simp only [Contains, stop] at *
          omega
        rw [covers_join, both, covers_cons, or_assoc]
        exact or_left_comm
      next => rw [covers_cons, covers_cons, ih, or_left_comm]
    · exact covers_join

theorem total_join : total (join s ts) = s.size + total ts := by
  cases ts with
  | nil => simp [join]
  | cons t ts =>
    rw [join]
    split <;> simp [Nat.add_assoc]

theorem total_insert : total (insert s ts) = s.size + total ts := by
  induction ts with
  | nil => simp [insert]
  | cons t ts ih =>
    rw [insert]
    split
    · split
      · rw [total_join, total_cons]
        simp only
        omega
      · rw [total_cons, total_cons, ih]
        omega
    · exact total_join

theorem Separated.join (separated : Separated ts) (size : 0 < s.size)
    (before : ∀ t ∈ ts, s.stop ≤ t.start) : Separated (join s ts) := by
  cases ts with
  | nil => exact separated_cons.mpr ⟨size, by simp, .nil⟩
  | cons t ts =>
    obtain ⟨sizeT, gaps, rest⟩ := separated_cons.mp separated
    rw [Span.join]
    split
    next touching =>
      refine separated_cons.mpr ⟨by simp only; omega, fun u member => ?_, rest⟩
      have := gaps u member
      simp only [stop] at *
      omega
    next apart =>
      refine separated_cons.mpr ⟨size, fun u member => ?_, separated⟩
      have := before t List.mem_cons_self
      rcases List.mem_cons.mp member with rfl | later
      · omega
      · have := gaps u later
        simp only [stop] at *
        omega

/-- Putting back a span that is apart from the free ones keeps the gaps. -/
theorem Separated.insert (separated : Separated ts) (size : 0 < s.size)
    (apart : ∀ t ∈ ts, s.Apart t) : Separated (insert s ts) := by
  induction ts with
  | nil => exact separated_cons.mpr ⟨size, by simp, .nil⟩
  | cons t ts ih =>
    obtain ⟨sizeT, gaps, rest⟩ := separated_cons.mp separated
    obtain ⟨first, others⟩ := List.forall_mem_cons.mp apart
    rw [Span.insert]
    split
    next lower =>
      have behind : t.stop ≤ s.start := by
        simp only [Apart, stop] at *
        omega
      split
      next touching =>
        refine rest.join (by simp only; omega) fun u member => ?_
        have := gaps u member
        have := others u member
        simp only [Apart, stop] at *
        omega
      next apart =>
        refine separated_cons.mpr ⟨sizeT, fun u member => ?_, ih rest others⟩
        -- the new list starts behind the first span as well
        have covered : Covers (Span.insert s ts) u.start :=
          ⟨u, member, contains_start ((ih rest others).sizes u member)⟩
        rcases covers_insert.mp covered with here | ⟨v, there, inside⟩
        · have := here.1
          omega
        · have := gaps v there
          have := inside.1
          omega
    next higher =>
      refine separated.join size fun u member => ?_
      have := apart u member
      rcases List.mem_cons.mp member with rfl | later
      · simp only [Apart, stop] at *
        omega
      · have := gaps u later
        simp only [Apart, stop] at *
        omega

theorem forall_join (bounds : Nat → Prop) (low : Nat)
    (all : ∀ t ∈ s :: ts, bounds t.start ∧ bounds t.stop ∧ low ≤ t.size) :
    ∀ t ∈ join s ts, bounds t.start ∧ bounds t.stop ∧ low ≤ t.size := by
  cases ts with
  | nil => exact all
  | cons t ts =>
    rw [join]
    split
    next touching =>
      obtain ⟨⟨start, -, size⟩, ⟨-, stop, -⟩, rest⟩ := by
        simpa only [List.forall_mem_cons] using all
      refine List.forall_mem_cons.mpr ⟨⟨start, ?_, ?_⟩, rest⟩
      · have same : Span.stop ⟨s.start, s.size + t.size⟩ = t.stop := by
          simp only [Span.stop] at *
          omega
        rwa [same]
      · exact Nat.le_trans size (Nat.le_add_right _ _)
    next => exact all

/-- Merging makes no new boundary and no smaller span. -/
theorem forall_insert (bounds : Nat → Prop) (low : Nat)
    (all : ∀ t ∈ s :: ts, bounds t.start ∧ bounds t.stop ∧ low ≤ t.size) :
    ∀ t ∈ insert s ts, bounds t.start ∧ bounds t.stop ∧ low ≤ t.size := by
  induction ts with
  | nil => exact all
  | cons t ts ih =>
    have others := all
    simp only [List.forall_mem_cons] at others
    obtain ⟨here, first, rest⟩ := others
    rw [insert]
    split
    · split
      next touching =>
        apply forall_join
        refine List.forall_mem_cons.mpr ⟨⟨first.1, ?_, ?_⟩, rest⟩
        · have same : Span.stop ⟨t.start, t.size + s.size⟩ = s.stop := by
            simp only [Span.stop] at *
            omega
          rw [same]
          exact here.2.1
        · exact Nat.le_trans first.2.2 (Nat.le_add_right _ _)
      next =>
        exact List.forall_mem_cons.mpr ⟨first, ih (List.forall_mem_cons.mpr ⟨here, rest⟩)⟩
    · exact forall_join bounds low all

/-! ### Taking a span -/

/-- The first span of at least `n` addresses, cut to `n` when more than `spare` would remain;
and the list without it. -/
def carve (spare n : Nat) : List Span → Option (Span × List Span)
  | [] => none
  | t :: ts =>
    if n ≤ t.size then
      if spare < t.size - n then some (⟨t.start, n⟩, ⟨t.start + n, t.size - n⟩ :: ts)
      else some (t, ts)
    else (carve spare n ts).map fun (s, rest) => (s, t :: rest)

variable {spare : Nat} {rest : List Span}

theorem carve_eq_none_iff : carve spare n ts = none ↔ ∀ t ∈ ts, t.size < n := by
  induction ts with
  | nil => simp [carve]
  | cons t ts ih =>
    rw [carve]
    split
    next fits =>
      have large : ¬ ∀ u ∈ t :: ts, u.size < n := fun all =>
        Nat.not_lt.mpr fits (all t List.mem_cons_self)
      simp only [large, iff_false]
      split <;> simp
    next small =>
      rw [Option.map_eq_none_iff, ih, List.forall_mem_cons]
      exact (and_iff_right (Nat.lt_of_not_le small)).symm

/-- The spans in front of the one that is taken are too short. -/
theorem carve_cases (carved : carve spare n ts = some (s, rest)) :
    ∃ before t after, ts = before ++ t :: after ∧ (∀ u ∈ before, u.size < n) ∧ n ≤ t.size ∧
      ((spare < t.size - n ∧ s = ⟨t.start, n⟩ ∧
          rest = before ++ ⟨t.start + n, t.size - n⟩ :: after) ∨
        (t.size - n ≤ spare ∧ s = t ∧ rest = before ++ after)) := by
  induction ts generalizing rest with
  | nil => cases carved
  | cons t ts ih =>
    rw [carve] at carved
    split at carved
    next fits =>
      refine ⟨[], t, ts, rfl, by simp, fits, ?_⟩
      split at carved <;> cases carved
      next remains => exact Or.inl ⟨remains, rfl, rfl⟩
      next tight => exact Or.inr ⟨Nat.le_of_not_lt tight, rfl, rfl⟩
    next small =>
      obtain ⟨⟨u, us⟩, later, equal⟩ := Option.map_eq_some_iff.mp carved
      cases equal
      obtain ⟨before, v, after, split, short, fits, taken⟩ := ih later
      refine ⟨t :: before, v, after, by rw [split, List.cons_append],
        List.forall_mem_cons.mpr ⟨Nat.lt_of_not_le small, short⟩, fits, ?_⟩
      rcases taken with ⟨remains, rfl, rfl⟩ | ⟨tight, rfl, rfl⟩
      · exact Or.inl ⟨remains, rfl, rfl⟩
      · exact Or.inr ⟨tight, rfl, rfl⟩

/-- The request is met at the first span that is large enough. -/
theorem carve_start (spare n : Nat) (ts : List Span) : (carve spare n ts).map (fun taken => taken.1.start) =
    (ts.find? fun t => n ≤ t.size).map start := by
  induction ts with
  | nil => rfl
  | cons t ts ih =>
    rw [carve]
    split
    next fits =>
      rw [List.find?_cons_of_pos (by simpa using fits)]
      split <;> rfl
    next small =>
      rw [List.find?_cons_of_neg (by simpa using small), ← ih, Option.map_map]
      rfl

/-- The span comes from the list, and is cut at its end or not at all. -/
theorem carve_size (carved : carve spare n ts = some (s, rest)) :
    n ≤ s.size ∧ s.size ≤ n + spare := by
  induction ts generalizing rest with
  | nil => cases carved
  | cons t ts ih =>
    rw [carve] at carved
    split at carved
    next fits =>
      split at carved <;> cases carved
      · exact ⟨Nat.le_refl _, Nat.le_add_right _ _⟩
      · exact ⟨fits, by omega⟩
    next small =>
      obtain ⟨⟨u, us⟩, later, equal⟩ := Option.map_eq_some_iff.mp carved
      cases equal
      exact ih later

theorem covers_carve (carved : carve spare n ts = some (s, rest)) :
    Covers ts a ↔ s.Contains a ∨ Covers rest a := by
  induction ts generalizing rest with
  | nil => cases carved
  | cons t ts ih =>
    rw [carve] at carved
    split at carved
    next fits =>
      split at carved <;> cases carved
      · have both : t.Contains a ↔ Contains ⟨t.start, n⟩ a ∨ Contains ⟨t.start + n, t.size - n⟩ a := by
          simp only [Contains, stop]
          omega
        rw [covers_cons, covers_cons, both, or_assoc]
      · exact covers_cons
    next small =>
      obtain ⟨⟨u, us⟩, later, equal⟩ := Option.map_eq_some_iff.mp carved
      cases equal
      rw [covers_cons, covers_cons, ih later, or_left_comm]

theorem total_carve (carved : carve spare n ts = some (s, rest)) :
    total ts = s.size + total rest := by
  induction ts generalizing rest with
  | nil => cases carved
  | cons t ts ih =>
    rw [carve] at carved
    split at carved
    next fits =>
      split at carved <;> cases carved
      · simp only [total_cons]
        omega
      · exact total_cons
    next small =>
      obtain ⟨⟨u, us⟩, later, equal⟩ := Option.map_eq_some_iff.mp carved
      cases equal
      rw [total_cons, total_cons, ih later]
      omega

/-- What is left keeps the gaps, and the span that was taken is apart from it. -/
theorem Separated.carve (separated : Separated ts) (carved : carve spare n ts = some (s, rest)) :
    Separated rest ∧ ∀ t ∈ rest, s.Apart t := by
  induction ts generalizing rest with
  | nil => cases carved
  | cons t ts ih =>
    obtain ⟨size, gaps, others⟩ := separated_cons.mp separated
    rw [Span.carve] at carved
    split at carved
    next fits =>
      split at carved <;> cases carved
      next remains =>
        have after : ∀ u ∈ ts, t.start + n + (t.size - n) < u.start := fun u member => by
          have := gaps u member
          simp only [stop] at this
          omega
        refine ⟨separated_cons.mpr ⟨by simp only; omega, after, others⟩, fun u member => ?_⟩
        rcases List.mem_cons.mp member with rfl | later
        · exact Or.inl (Nat.le_refl _)
        · have := after u later
          exact Or.inl (by simp only [stop]; omega)
      next => exact ⟨others, fun u member => separated.apart member⟩
    next small =>
      obtain ⟨⟨u, us⟩, later, equal⟩ := Option.map_eq_some_iff.mp carved
      cases equal
      obtain ⟨separated', apart⟩ := ih others later
      have behind : ∀ v ∈ us, t.stop < v.start := fun v member => by
        -- what is left of the list starts where the list covers
        have covered : Covers us v.start :=
          ⟨v, member, contains_start (separated'.sizes v member)⟩
        obtain ⟨w, there, inside⟩ := (covers_carve later).mpr (Or.inr covered)
        have := gaps w there
        have := inside.1
        omega
      refine ⟨separated_cons.mpr ⟨size, behind, separated'⟩, fun v member => ?_⟩
      rcases List.mem_cons.mp member with rfl | there
      · have large : 0 < s.size := by
          have := (carve_size later).1
          omega
        have covered : Covers ts s.start :=
          (covers_carve later).mpr (Or.inl (contains_start large))
        obtain ⟨w, there, inside⟩ := covered
        have := gaps w there
        have := inside.1
        exact Or.inr (by omega)
      · exact apart v there

/-- Cutting makes one new boundary, at which `bounds` has to hold, and no small span. -/
theorem forall_carve (bounds : Nat → Prop) {low : Nat} (request : low ≤ n) (remainder : low ≤ spare)
    (cut : ∀ t ∈ ts, bounds (t.start + n))
    (all : ∀ t ∈ ts, bounds t.start ∧ bounds t.stop ∧ low ≤ t.size)
    (carved : carve spare n ts = some (s, rest)) :
    ∀ t ∈ s :: rest, bounds t.start ∧ bounds t.stop ∧ low ≤ t.size := by
  induction ts generalizing rest with
  | nil => cases carved
  | cons t ts ih =>
    obtain ⟨first, others⟩ := List.forall_mem_cons.mp all
    obtain ⟨here, cuts⟩ := List.forall_mem_cons.mp cut
    rw [carve] at carved
    split at carved
    next fits =>
      split at carved <;> cases carved
      next remains =>
        have stop : stop ⟨t.start + n, t.size - n⟩ = t.stop := by
          simp only [Span.stop]
          omega
        refine List.forall_mem_cons.mpr ⟨⟨first.1, here, request⟩,
          List.forall_mem_cons.mpr ⟨⟨here, ?_, by simp only; omega⟩, others⟩⟩
        rw [stop]
        exact first.2.1
      next => exact all
    next small =>
      obtain ⟨⟨u, us⟩, later, equal⟩ := Option.map_eq_some_iff.mp carved
      cases equal
      obtain ⟨taken, left⟩ := List.forall_mem_cons.mp (ih cuts others later)
      exact List.forall_mem_cons.mpr ⟨taken, List.forall_mem_cons.mpr ⟨first, left⟩⟩

/-- Putting back what was just taken gives the list back. -/
theorem Separated.insert_carve (separated : Separated ts) (pos : 0 < n)
    (carved : Span.carve spare n ts = some (s, rest)) : Span.insert s rest = ts := by
  obtain ⟨separated', apart⟩ := separated.carve carved
  have size : 0 < s.size := Nat.lt_of_lt_of_le pos (carve_size carved).1
  apply (separated'.insert size apart).eq_of_covers separated
  intro a
  rw [covers_insert, covers_carve carved]

/-- A list with gaps has no more addresses than the range it lies in. -/
theorem Separated.total_le {lo hi : Nat} (separated : Separated ts) (range : lo ≤ hi)
    (within : ∀ t ∈ ts, lo ≤ t.start ∧ t.stop ≤ hi) : total ts ≤ hi - lo := by
  induction ts generalizing lo with
  | nil => simp
  | cons t ts ih =>
    obtain ⟨size, gaps, rest⟩ := separated_cons.mp separated
    obtain ⟨here, others⟩ := List.forall_mem_cons.mp within
    have := ih rest here.2 fun u member => ⟨Nat.le_of_lt (gaps u member), (others u member).2⟩
    simp only [total_cons, stop] at *
    omega

/-- Where every span has at least `n` addresses, there are few of them. -/
theorem mul_length_le_total (large : ∀ t ∈ ts, n ≤ t.size) : n * ts.length ≤ total ts := by
  induction ts with
  | nil => simp
  | cons t ts ih =>
    obtain ⟨first, rest⟩ := List.forall_mem_cons.mp large
    have := ih rest
    rw [total_cons, List.length_cons, Nat.mul_succ]
    omega

theorem total_map_le {β : Type*} {xs : List β} {f : β → Span} {bound : β → Nat}
    (small : ∀ x ∈ xs, (f x).size ≤ bound x) : total (xs.map f) ≤ (xs.map bound).sum := by
  induction xs with
  | nil => exact Nat.le_refl 0
  | cons x xs ih =>
    obtain ⟨first, rest⟩ := List.forall_mem_cons.mp small
    exact Nat.add_le_add first (ih rest)

/-- Where every span is shorter than `n`, little is free. -/
theorem total_le_of_small (small : ∀ t ∈ ts, t.size < n) : total ts ≤ ts.length * (n - 1) := by
  induction ts with
  | nil => simp
  | cons t ts ih =>
    obtain ⟨first, rest⟩ := List.forall_mem_cons.mp small
    have := ih rest
    rw [total_cons, List.length_cons, Nat.succ_mul]
    omega

end Span
