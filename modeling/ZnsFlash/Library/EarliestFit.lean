import Mathlib.Algebra.Order.Group.Defs
import Mathlib.Data.List.Pairwise
import Mathlib.Order.Bounds.Basic
import Mathlib.Order.CompletePartialOrder
import Mathlib.Order.Interval.Set.Disjoint
import Mathlib.Tactic.Order

/-!
# Earliest fit in a timetable

Half-open intervals of time, taken one after another at the earliest place that is long enough.

* `Slot`, `Slot.span`, `Fits`: a slot, the times it covers, and the starts that are free for a
  duration;
* `Ordered`, `ordered_of_sorted`: a timetable of disjoint slots, sorted by their starts;
* `firstGap`, `fit`, **`isLeast_fit`**: the search through a sorted timetable finds the earliest
  start that is free.
-/

namespace EarliestFit

/-- Taken from `lockTime` on, free again at `unlockTime`. -/
@[ext] structure Slot (K : Type*) where
  lockTime : K
  unlockTime : K
  deriving DecidableEq

variable {K : Type*} [LinearOrder K]

def Slot.span (x : Slot K) : Set K := Set.Ico x.lockTime x.unlockTime

/-- Each slot ends before the next one starts. -/
structure Ordered (table : List (Slot K)) : Prop where
  proper : ∀ x ∈ table, x.lockTime < x.unlockTime
  apart : table.Pairwise fun x y => x.unlockTime ≤ y.lockTime

variable {x y : Slot K} {table rest : List (Slot K)}

theorem unlockTime_le_of_disjoint (hdisjoint : Disjoint x.span y.span)
    (hle : x.lockTime ≤ y.lockTime) (hy : y.lockTime < y.unlockTime) :
    x.unlockTime ≤ y.lockTime := by
  have h := Set.Ico_disjoint_Ico.mp hdisjoint
  rw [max_eq_right hle] at h
  rcases min_le_iff.mp h with h | h
  · exact h
  · exact absurd h (not_le.mpr hy)

theorem ordered_of_sorted (hproper : ∀ x ∈ table, x.lockTime < x.unlockTime)
    (hsorted : table.Pairwise fun x y => x.lockTime ≤ y.lockTime)
    (hdisjoint : table.Pairwise fun x y => Disjoint x.span y.span) : Ordered table := by
  refine ⟨hproper, (hsorted.and hdisjoint).imp_of_mem fun _ hy h => ?_⟩
  exact unlockTime_le_of_disjoint h.2 h.1 (hproper _ hy)

theorem Ordered.tail (h : Ordered (x :: rest)) : Ordered rest :=
  ⟨fun y hy => h.proper y (List.mem_cons_of_mem _ hy), h.apart.of_cons⟩

variable [AddCommGroup K]

/-- Nothing in the table meets the duration `d` from `t` on. -/
def Fits (table : List (Slot K)) (d t : K) : Prop :=
  ∀ x ∈ table, Disjoint (Set.Ico t (t + d)) x.span

/-- The end of the first slot with a gap of `d` behind it. -/
def firstGap (d : K) : Slot K → List (Slot K) → K
  | x, [] => x.unlockTime
  | x, y :: rest => if x.unlockTime + d ≤ y.lockTime then x.unlockTime else firstGap d y rest

/-- The first place for `d` from `start` on. -/
def fit (start d : K) : List (Slot K) → K
  | [] => start
  | x :: rest => if start + d ≤ x.lockTime then start else firstGap d x rest

variable {start d t : K}

theorem fits_cons : Fits (x :: rest) d t ↔ Disjoint (Set.Ico t (t + d)) x.span ∧ Fits rest d t :=
  List.forall_mem_cons

variable [IsOrderedAddMonoid K]

theorem disjoint_span_iff (hd : 0 < d) (hx : x.lockTime < x.unlockTime) :
    Disjoint (Set.Ico t (t + d)) x.span ↔ t + d ≤ x.lockTime ∨ x.unlockTime ≤ t := by
  have hlt : ¬ t + d ≤ t := not_le.mpr (lt_add_of_pos_right t hd)
  rw [Slot.span, Set.Ico_disjoint_Ico, min_le_iff, le_max_iff, le_max_iff]
  simp only [hlt, not_le.mpr hx, false_or, or_false]

theorem Ordered.fits (h : Ordered (x :: rest)) (hd : 0 < d) (hle : t + d ≤ x.lockTime) :
    Fits (x :: rest) d t := by
  intro y hy
  refine (disjoint_span_iff hd (h.proper y hy)).mpr (Or.inl ?_)
  rcases List.mem_cons.mp hy with rfl | hy
  · exact hle
  · have hxy := (List.pairwise_cons.mp h.apart).1 y hy
    exact hle.trans ((h.proper x List.mem_cons_self).le.trans hxy)

/-- **The first gap** behind a slot is the earliest place from its end on. -/
theorem isLeast_firstGap (h : Ordered (x :: rest)) (hd : 0 < d) :
    IsLeast {t | x.unlockTime ≤ t ∧ Fits (x :: rest) d t} (firstGap d x rest) := by
  induction rest generalizing x with
  | nil =>
    refine ⟨⟨le_rfl, fits_cons.mpr ⟨?_, nofun⟩⟩, fun t ht => ht.1⟩
    exact (disjoint_span_iff hd (h.proper x List.mem_cons_self)).mpr (Or.inr le_rfl)
  | cons y rest ih =>
    have hx := h.proper x List.mem_cons_self
    have hy := h.tail.proper y List.mem_cons_self
    have hxy : x.unlockTime ≤ y.lockTime :=
      (List.pairwise_cons.mp h.apart).1 y List.mem_cons_self
    rw [firstGap]
    by_cases hgap : x.unlockTime + d ≤ y.lockTime
    · rw [if_pos hgap]
      refine ⟨⟨le_rfl, fits_cons.mpr ⟨?_, h.tail.fits hd hgap⟩⟩, fun t ht => ht.1⟩
      exact (disjoint_span_iff hd hx).mpr (Or.inr le_rfl)
    · rw [if_neg hgap]
      obtain ⟨⟨hle, hfits⟩, hleast⟩ := ih h.tail
      have hafter : x.unlockTime ≤ firstGap d y rest := hxy.trans (hy.le.trans hle)
      refine ⟨⟨hafter, fits_cons.mpr ⟨?_, hfits⟩⟩, fun t ht => hleast ⟨?_, ?_⟩⟩
      · exact (disjoint_span_iff hd hx).mpr (Or.inr hafter)
      · -- no room before `y`
        rcases (disjoint_span_iff hd hy).mp (fits_cons.mp (fits_cons.mp ht.2).2).1 with hbefore | h
        · exact absurd ((add_le_add_left ht.1 d).trans hbefore) hgap
        · exact h
      · exact (fits_cons.mp ht.2).2

/-- **Earliest fit.** In a timetable whose slots all end after `start`, the search finds the first
time from `start` on that is free for the duration. -/
theorem isLeast_fit (h : Ordered table) (hunexpired : ∀ x ∈ table, start < x.unlockTime)
    (hd : 0 < d) : IsLeast {t | start ≤ t ∧ Fits table d t} (fit start d table) := by
  cases table with
  | nil => exact ⟨⟨le_rfl, nofun⟩, fun t ht => ht.1⟩
  | cons x rest =>
    rw [fit]
    by_cases hfront : start + d ≤ x.lockTime
    · rw [if_pos hfront]
      exact ⟨⟨le_rfl, h.fits hd hfront⟩, fun t ht => ht.1⟩
    · rw [if_neg hfront]
      obtain ⟨⟨hle, hfits⟩, hleast⟩ := isLeast_firstGap h hd
      have hx := hunexpired x List.mem_cons_self
      refine ⟨⟨hx.le.trans hle, hfits⟩, fun t ht => hleast ⟨?_, ht.2⟩⟩
      have hfree := (fits_cons.mp ht.2).1
      rcases (disjoint_span_iff hd (h.proper x List.mem_cons_self)).mp hfree with hbefore | h
      · exact absurd ((add_le_add_left ht.1 d).trans hbefore) hfront
      · exact h

end EarliestFit
