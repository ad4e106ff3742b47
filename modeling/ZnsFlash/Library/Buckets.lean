import Mathlib.Algebra.BigOperators.Group.List.Basic
import Mathlib.Tactic.Ring

/-!
# Buckets that fill one after another

The numbers of items in a queue of buckets, each with the same capacity: new items go to the first
bucket with room, the first bucket is emptied as a whole, and empty ones join at the end.

* `Filling`: the buckets are full up to one of them and empty after it;
* `Filling.tail`, `Filling.concat_zero`, `Filling.succ`: the changes of the queue;
* **`Filling.exists_room`**: the bucket that takes the next item, and how many items it has.
-/

namespace Buckets

/-- All buckets before one that is not full are full, and those after it are empty. -/
structure Filling (capacity : ℕ) (l : List ℕ) : Prop where
  bounded : ∀ n ∈ l, n ≤ capacity
  ordered : l.Pairwise fun n m => n = capacity ∨ m = 0

variable {capacity n : ℕ} {l pre post : List ℕ}

theorem Filling.tail (h : Filling capacity (n :: l)) : Filling capacity l :=
  ⟨fun m hm => h.bounded m (List.mem_cons_of_mem n hm), (List.pairwise_cons.mp h.ordered).2⟩

theorem Filling.concat_zero (h : Filling capacity l) : Filling capacity (l ++ [0]) := by
  refine ⟨fun m hm => ?_, List.pairwise_append.mpr ⟨h.ordered, List.pairwise_singleton _ _, ?_⟩⟩
  · rcases List.mem_append.mp hm with hm | hm
    · exact h.bounded m hm
    · rw [List.mem_singleton.mp hm]
      exact Nat.zero_le capacity
  · intro m _ k hk
    exact Or.inr (List.mem_singleton.mp hk)

theorem filling_replicate_zero (capacity k : ℕ) : Filling capacity (List.replicate k 0) := by
  refine ⟨fun m hm => ?_, List.pairwise_replicate.mpr (Or.inr (Or.inr rfl))⟩
  rw [List.eq_of_mem_replicate hm]
  exact Nat.zero_le capacity

theorem sum_eq_zero_of_ne (h : Filling capacity (n :: l)) (hn : n ≠ capacity) : l.sum = 0 := by
  refine List.sum_eq_zero fun m hm => ?_
  exact ((List.pairwise_cons.mp h.ordered).1 m hm).resolve_left hn

theorem Filling.eq_of_full (h : Filling capacity (n :: l))
    (hfull : (n :: l).sum = (l.length + 1) * capacity) : n = capacity := by
  by_contra hn
  have hle := h.bounded n List.mem_cons_self
  rw [List.sum_cons, sum_eq_zero_of_ne h hn, Nat.succ_mul] at hfull
  omega

theorem Filling.sum_le (h : Filling capacity l) : l.sum ≤ l.length * capacity := by
  induction l with
  | nil => exact Nat.zero_le _
  | cons n l ih =>
    have hn := h.bounded n List.mem_cons_self
    have hl := ih h.tail
    rw [List.sum_cons, List.length_cons, Nat.succ_mul]
    omega

/-- **The bucket for the next item** is the first one that is not full. -/
theorem Filling.exists_room (h : Filling capacity l) (hroom : l.sum < l.length * capacity) :
    ∃ pre n post, l = pre ++ n :: post ∧ (∀ m ∈ pre, m = capacity) ∧ n < capacity ∧
      l.sum % capacity = n := by
  induction l with
  | nil => simp at hroom
  | cons n l ih =>
    by_cases hn : n = capacity
    · subst hn
      have hrest : l.sum < l.length * n := by
        rw [List.sum_cons, List.length_cons, Nat.succ_mul] at hroom
        omega
      obtain ⟨pre, m, post, hl, hpre, hm, hmod⟩ := ih h.tail hrest
      refine ⟨n :: pre, m, post, by rw [hl, List.cons_append], ?_, hm, ?_⟩
      · rintro k (_ | ⟨_, hk⟩)
        · rfl
        · exact hpre k hk
      · rw [List.sum_cons, Nat.add_mod_left]
        exact hmod
    · have hlt : n < capacity := lt_of_le_of_ne (h.bounded n List.mem_cons_self) hn
      refine ⟨[], n, l, rfl, nofun, hlt, ?_⟩
      rw [List.sum_cons, sum_eq_zero_of_ne h hn, Nat.add_zero]
      exact Nat.mod_eq_of_lt hlt

theorem Filling.succ (h : Filling capacity (pre ++ n :: post)) (hpre : ∀ m ∈ pre, m = capacity)
    (hn : n < capacity) : Filling capacity (pre ++ (n + 1) :: post) := by
  obtain ⟨hpre', hcons, -⟩ := List.pairwise_append.mp h.ordered
  obtain ⟨hpost, hpost'⟩ := List.pairwise_cons.mp hcons
  refine ⟨fun m hm => ?_, List.pairwise_append.mpr ⟨hpre', List.pairwise_cons.mpr ⟨?_, hpost'⟩, ?_⟩⟩
  · rcases List.mem_append.mp hm with hm | hm
    · exact h.bounded m (List.mem_append_left _ hm)
    · rcases List.mem_cons.mp hm with rfl | hm
      · exact hn
      · exact h.bounded m (List.mem_append_right _ (List.mem_cons_of_mem _ hm))
  · intro m hm
    exact Or.inr ((hpost m hm).resolve_left hn.ne)
  · intro m hm k _
    exact Or.inl (hpre m hm)

end Buckets
