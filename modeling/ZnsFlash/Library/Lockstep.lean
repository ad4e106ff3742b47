import Mathlib.Tactic.Common

/-!
# Computations in lockstep

Two computations that may halt and that go the same way.

* `Agree R x y`: both end in values that `R` relates, or in the same error;
* **`Agree.bind`**, `Agree.mono`, `Agree.of_left`, `Agree.of_right`: the rules of sequence and of
  consequence;
* **`Agree.foldlM`**: the rule of runs.
-/

namespace Lockstep

universe u v

variable {ε : Type v} {α β γ δ : Type u} {ι : Type*} {R : α → β → Prop} {S : γ → δ → Prop}
  {x : Except ε α} {y : Except ε β}

/-- **Both end in related values**, or in the same error. -/
def Agree (R : α → β → Prop) : Except ε α → Except ε β → Prop
  | .ok a, .ok b => R a b
  | .error e, .error e' => e = e'
  | .ok _, .error _ => False
  | .error _, .ok _ => False

namespace Agree

theorem bind {f : α → Except ε γ} {g : β → Except ε δ} (h : Agree R x y)
    (hf : ∀ a b, R a b → Agree S (f a) (g b)) : Agree S (x >>= f) (y >>= g) := by
  cases x with
  | ok a =>
    cases y with
    | ok b => exact hf a b h
    | error e => exact h.elim
  | error e =>
    cases y with
    | ok b => exact h.elim
    | error e' => exact h

theorem mono {R' : α → β → Prop} (h : Agree R x y) (hR : ∀ a b, R a b → R' a b) : Agree R' x y := by
  cases x with
  | ok a =>
    cases y with
    | ok b => exact hR a b h
    | error e => exact h
  | error e =>
    cases y with
    | ok b => exact h
    | error e' => exact h

theorem of_left (h : Agree R x y) {a : α} (hx : x = .ok a) : ∃ b, y = .ok b ∧ R a b := by
  subst hx
  cases y with
  | ok b => exact ⟨b, rfl, h⟩
  | error e => exact h.elim

theorem of_right (h : Agree R x y) {b : β} (hy : y = .ok b) : ∃ a, x = .ok a ∧ R a b := by
  subst hy
  cases x with
  | ok a => exact ⟨a, rfl, h⟩
  | error e => exact h.elim

end Agree

theorem Agree.foldlM {f : α → ι → Except ε α} {g : β → ι → Except ε β} {l : List ι}
    (hstep : ∀ a b, ∀ i ∈ l, R a b → Agree R (f a i) (g b i)) {a : α} {b : β} (h : R a b) :
    Agree R (l.foldlM f a) (l.foldlM g b) := by
  induction l generalizing a b with
  | nil => exact h
  | cons i l ih =>
    rw [List.foldlM_cons, List.foldlM_cons]
    apply (hstep a b i List.mem_cons_self h).bind
    intro a' b' h'
    exact ih (fun a b j hj => hstep a b j (List.mem_cons_of_mem i hj)) h'

end Lockstep
