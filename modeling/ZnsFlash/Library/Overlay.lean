import Mathlib.Data.List.GetD
import Mathlib.Data.List.Induction
import Mathlib.Tactic.Common

/-!
# Stores that are overwritten in part

A change of a store gives new values to some of its places.

* `apply`: the store after a change; `latest`: what the last change of a list that touches a place gives it;
* **`foldl_apply`**: changes one after another leave the latest values;
* `span`, `apply_span`: values from one place on.
-/

namespace Overlay

variable {κ α : Type*}

/-- The store after a change. -/
def apply (p : κ → Option α) (m : κ → α) : κ → α := fun k => (p k).getD (m k)

/-- **The latest value** of a place. -/
def latest (ps : List (κ → Option α)) (k : κ) : Option α := ps.reverse.findSome? fun p => p k

variable {ps qs : List (κ → Option α)} {k : κ} {v : α}

theorem latest_append : latest (ps ++ qs) k = (latest qs k).or (latest ps k) := by
  rw [latest, List.reverse_append, List.findSome?_append]
  rfl

@[simp] theorem latest_singleton (p : κ → Option α) : latest [p] k = p k := by
  cases h : p k <;> simp [latest, h]

theorem foldl_apply (m : κ → α) : ps.foldl (fun m p => apply p m) m k = (latest ps k).getD (m k) := by
  induction ps using List.reverseRecOn with
  | nil => rfl
  | append_singleton ps p ih =>
    rw [List.foldl_append, latest_append, latest_singleton]
    show (p k).getD _ = _
    rw [ih]
    cases p k <;> rfl

section Ranges

variable (start : ℕ) (vs : List α)

/-- The values `vs` from `start` on. -/
def span (k : ℕ) : Option α := if start ≤ k then vs[k - start]? else none

variable {start vs}

theorem span_eq_none {k : ℕ} : span start vs k = none ↔ k < start ∨ start + vs.length ≤ k := by
  rw [span]
  split_ifs with h
  · rw [List.getElem?_eq_none_iff]
    omega
  · simp only [true_iff]
    omega

theorem apply_span (m : ℕ → α) (d : α) :
    apply (span start vs) m =
      fun k => if start ≤ k ∧ k < start + vs.length then vs.getD (k - start) d else m k := by
  funext k
  rw [apply]
  by_cases h : start ≤ k ∧ k < start + vs.length
  · have hlt : k - start < vs.length := by omega
    rw [if_pos h, span, if_pos h.1, List.getElem?_eq_getElem hlt, List.getD_eq_getElem _ _ hlt]
    rfl
  · have hnone : span start vs k = none := span_eq_none.mpr (by omega)
    rw [if_neg h, hnone]
    rfl

end Ranges

end Overlay
