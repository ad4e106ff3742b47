import Mathlib.Data.List.Basic

/-!
# Streams that arrive in pieces

* `Incoming`: what a stream still holds, and how much of it each read delivers;
* `Incoming.read`: one read, empty at the end of the stream only (`length_read_eq_zero`);
* `Incoming.readLoop`: reads until enough has come, **`readLoop_eq`**: it does not depend on the
  pieces.
-/

namespace Reader

/-- A stream, and one number less than what each read delivers at most. -/
structure Incoming (α : Type*) where
  rest : List α
  most : ℕ → ℕ

namespace Incoming

variable {α : Type*}

/-- One read of at most `n`. -/
def read (c : Incoming α) (n : ℕ) : List α × Incoming α :=
  (c.rest.take (min n (c.most 0 + 1)),
    ⟨c.rest.drop (min n (c.most 0 + 1)), fun i => c.most (i + 1)⟩)

/-- Reads until `n` have come or the stream has ended, at most `fuel` times. -/
def readLoop : ℕ → ℕ → Incoming α → List α × Incoming α
  | 0, _, c => ([], c)
  | fuel + 1, n, c =>
    if n = 0 then ([], c)
    else
      let (got, c') := c.read n
      if got.length = 0 then ([], c')
      else
        let (more, c'') := readLoop fuel (n - got.length) c'
        (got ++ more, c'')

variable (c : Incoming α) (n : ℕ)

theorem read_append : (c.read n).1 ++ (c.read n).2.rest = c.rest := List.take_append_drop _ _

theorem read_eq_take : (c.read n).1 = c.rest.take (c.read n).1.length :=
  (List.take_left' rfl).symm.trans (by rw [read_append])

theorem read_rest : (c.read n).2.rest = c.rest.drop (c.read n).1.length :=
  (List.drop_left' rfl).symm.trans (by rw [read_append])

theorem length_read_le : (c.read n).1.length ≤ n :=
  Nat.le_trans (List.length_take_le _ _) (Nat.min_le_left _ _)

theorem length_read_eq_zero {n : ℕ} (hn : n ≠ 0) : (c.read n).1.length = 0 ↔ c.rest = [] := by
  rw [read, List.length_take, ← List.length_eq_zero_iff]
  omega

/-- **Reading in a loop** returns the front of the stream, whatever the pieces. -/
theorem readLoop_eq {fuel : ℕ} (hn : n ≤ fuel) :
    (c.readLoop fuel n).1 = c.rest.take n ∧ (c.readLoop fuel n).2.rest = c.rest.drop n := by
  induction fuel generalizing n c with
  | zero =>
    obtain rfl : n = 0 := by omega
    exact ⟨rfl, rfl⟩
  | succ fuel ih =>
    rw [readLoop]
    by_cases hzero : n = 0
    · subst hzero
      exact ⟨rfl, rfl⟩
    rw [if_neg hzero]
    by_cases hend : (c.read n).1.length = 0
    · have hnil : c.rest = [] := (c.length_read_eq_zero hzero).mp hend
      have hrest := c.read_rest n
      simp only [hend, if_true, hnil, List.take_nil, List.drop_nil, true_and] at hrest ⊢
      exact hrest
    · simp only [hend, if_false]
      have hle := c.length_read_le n
      obtain ⟨htake, hdrop⟩ := ih (c.read n).2 (n - (c.read n).1.length) (by omega)
      rw [htake, hdrop, read_rest, List.drop_drop, Nat.add_sub_cancel' hle]
      have hsplit : c.rest.take n = c.rest.take ((c.read n).1.length + (n - (c.read n).1.length)) := by
        rw [Nat.add_sub_cancel' hle]
      rw [hsplit, List.take_add, ← read_eq_take]
      exact ⟨rfl, rfl⟩

end Incoming

end Reader
