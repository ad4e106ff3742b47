import Mathlib.Algebra.BigOperators.Group.List.Basic
import Mathlib.Tactic.Common

/-!
# Mixed radix numerals

Numbers as lists of digits, the lowest first, each with a base of its own.

* `digits`, `value`: the digits of a number, and the number of a list of digits;
* **`value_digits`**, `digits_injOn`: a number below the product of the bases is given by its digits;
* `digits_lt`: the digits are below their bases;
* `digits_cons_add`: a change of the lowest digit.
-/

namespace MixedRadix

/-- The digits of `n` by repeated division. -/
def digits : List ℕ → ℕ → List ℕ
  | [], _ => []
  | b :: bs, n => n % b :: digits bs (n / b)

/-- The number with the given digits. -/
def value : List ℕ → List ℕ → ℕ
  | b :: bs, d :: ds => d + b * value bs ds
  | _, _ => 0

variable {bs : List ℕ} {b m n : ℕ}

theorem value_digits (h : n < bs.prod) : value bs (digits bs n) = n := by
  induction bs generalizing n with
  | nil =>
    rw [List.prod_nil] at h
    exact (Nat.lt_one_iff.mp h).symm
  | cons b bs ih =>
    rw [List.prod_cons] at h
    rw [digits, value, ih (Nat.div_lt_of_lt_mul h)]
    exact Nat.mod_add_div n b

theorem digits_injOn (hm : m < bs.prod) (hn : n < bs.prod) (h : digits bs m = digits bs n) :
    m = n := by
  rw [← value_digits hm, h, value_digits hn]

theorem digits_lt (h : ∀ b ∈ bs, 0 < b) (n : ℕ) : List.Forall₂ (· < ·) (digits bs n) bs := by
  induction bs generalizing n with
  | nil => exact .nil
  | cons b bs ih =>
    exact .cons (Nat.mod_lt n (h b List.mem_cons_self))
      (ih (fun c hc => h c (List.mem_cons_of_mem b hc)) _)

theorem digits_cons_add {d : ℕ} (hd : d < b) (n : ℕ) :
    digits (b :: bs) (n - n % b + d) = d :: digits bs (n / b) := by
  have hpos : 0 < b := Nat.zero_lt_of_lt hd
  have hbase : n - n % b = b * (n / b) := by
    have hsplit := Nat.mod_add_div n b
    omega
  rw [digits, hbase, Nat.mul_add_mod, Nat.mod_eq_of_lt hd, Nat.mul_add_div hpos,
    Nat.div_eq_of_lt hd, Nat.add_zero]

end MixedRadix
