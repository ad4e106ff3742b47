import Mathlib.Data.List.Range

/-!
# Serial lines

A clock, a data and a select line, observed at each tick, and a receiver in mode 0: it takes a bit at
every rising edge of the clock while the select line is low.

* `Lines`, `Rises`, `received`: the lines, the rising edges, the bits of the first ticks;
* `received_add`, **`received_bits`**: the bits of parts, and of parts with one bit each.
-/

namespace Serial

/-- The lines at one tick. -/
structure Lines where
  sck : Bool
  mosi : Bool
  csN : Bool

/-- The clock line rises from tick `t` to the next one, with the receiver selected. -/
def Rises (l : ℕ → Lines) (t : ℕ) : Prop :=
  (l t).sck = false ∧ (l (t + 1)).sck = true ∧ (l (t + 1)).csN = false

instance (l : ℕ → Lines) (t : ℕ) : Decidable (Rises l t) := inferInstanceAs (Decidable (_ ∧ _ ∧ _))

/-- What the receiver has after the edges of the first `n` ticks. -/
def received (l : ℕ → Lines) (n : ℕ) : List Bool :=
  (List.range n).filterMap fun t => if Rises l t then some (l (t + 1)).mosi else none

variable {l : ℕ → Lines} {m n : ℕ}

theorem received_succ (l : ℕ → Lines) (n : ℕ) :
    received l (n + 1) = received l n ++ if Rises l n then [(l (n + 1)).mosi] else [] := by
  rw [received, List.range_succ, List.filterMap_append]
  split_ifs with h <;> simp [received, h]

theorem received_add (l : ℕ → Lines) (m n : ℕ) :
    received l (m + n) = received l m ++ received (fun t => l (m + t)) n := by
  induction n with
  | zero => simp [received]
  | succ n ih =>
    rw [← Nat.add_assoc, received_succ, ih, received_succ, List.append_assoc]
    rfl

theorem received_quiet (h : ∀ t < n, ¬ Rises l t) : received l n = [] := by
  induction n with
  | zero => rfl
  | succ n ih =>
    rw [received_succ, if_neg (h n (Nat.lt_succ_self n)), List.append_nil]
    exact ih fun t ht => h t (Nat.lt_succ_of_lt ht)

theorem received_one {r : ℕ} (hr : r < n) (h : ∀ t < n, Rises l t ↔ t = r) :
    received l n = [(l (r + 1)).mosi] := by
  obtain ⟨k, rfl⟩ := Nat.exists_eq_add_of_lt hr
  have hbefore : received l r = [] :=
    received_quiet fun t ht hrise => ht.ne ((h t (by omega)).mp hrise)
  have hafter : received (fun t => l (r + 1 + t)) k = [] :=
    received_quiet fun t ht hrise => absurd ((h (r + 1 + t) (by omega)).mp hrise) (by omega)
  rw [Nat.add_right_comm, received_add, received_succ, hbefore, hafter, if_pos ((h r hr).mpr rfl)]
  rfl

theorem received_bits {p : ℕ} {b : ℕ → Bool}
    (h : ∀ k < n, received (fun t => l (p * k + t)) p = [b k]) :
    received l (p * n) = (List.range n).map b := by
  induction n with
  | zero => rfl
  | succ n ih =>
    rw [Nat.mul_succ, received_add, ih fun k hk => h k (Nat.lt_succ_of_lt hk),
      h n (Nat.lt_succ_self n), List.range_succ, List.map_append]
    rfl

end Serial
