import Mathlib.Data.Fin.Tuple.Basic

/-!
# Pipelines

A chain of `n` registers, one clocked function in front of each.

* `wires`: the input and the registers behind it, as one row of `n + 1` points;
* `Flows`: registers that take what comes through their functions at every clock;
* `through`: one value sent through the functions, point by point;
* **`Flows.reaches`**: point `k` shows at clock `t + k` what went in at clock `t`;
* `through_congr`: values that the first function maps alike are alike behind it.
-/

namespace Pipeline

variable {α : Type*} {n : ℕ}

/-- The points of the chain: the input, then the registers. -/
abbrev wires (x : α) (r : Fin n → α) : Fin (n + 1) → α := Fin.cons x r

/-- The registers `r` clocked on the inputs `x`: at clock `t`, register `i` takes the value of the
point before it, through its function of that clock. -/
def Flows (f : ℕ → Fin n → α → α) (x : ℕ → α) (r : ℕ → Fin n → α) : Prop :=
  ∀ t i, r (t + 1) i = f t i (wires (x t) (r t) i.castSucc)

/-- A value that goes in at clock `t`, sent through the functions: what it is at each point. -/
def through (f : ℕ → Fin n → α → α) (t : ℕ) (a : α) : Fin (n + 1) → α :=
  Fin.induction a fun i => f (t + i) i

variable {f : ℕ → Fin n → α → α} {t : ℕ}

@[simp] theorem through_succ (a : α) (i : Fin n) :
    through f t a i.succ = f (t + i) i (through f t a i.castSucc) :=
  Fin.induction_succ ..

/-- **Every value travels with its clock.** -/
theorem Flows.reaches {x : ℕ → α} {r : ℕ → Fin n → α} (h : Flows f x r) (t : ℕ) (k : Fin (n + 1)) :
    wires (x (t + k)) (r (t + k)) k = through f t (x t) k := by
  induction k using Fin.induction with
  | zero => rfl
  | succ i ih =>
    calc wires (x (t + (i + 1))) (r (t + (i + 1))) i.succ = r (t + i + 1) i := rfl
      _ = f (t + i) i (wires (x (t + i)) (r (t + i)) i.castSucc) := h (t + i) i
      _ = through f t (x t) i.succ := by rw [through_succ, ← ih]; rfl

theorem through_congr {f : ℕ → Fin (n + 1) → α → α} {a b : α} (h : f t 0 a = f t 0 b)
    (i : Fin (n + 1)) : through f t a i.succ = through f t b i.succ := by
  induction i using Fin.induction with
  | zero => exact h
  | succ i ih => rw [through_succ, through_succ, ← Fin.succ_castSucc, ih]

end Pipeline
