import Mathlib.Logic.Function.Basic
import Mathlib.Tactic.Common

/-!
# Values in erasable segments

The history of a store that puts the value of a key into some segment and erases whole segments,
newest event first.

* `Event`, `Survives`: the latest value of a key, in a segment not erased since;
* `live`: what a history leaves under a key; `live_erased_eq_some`, `survives_erased` and the like:
  one more event; **`live_eq_some_iff`**: what is left is what survives.
-/

namespace Segments

variable {κ ρ ν : Type*}

/-- A value came under a key into a segment, or a segment was erased. -/
inductive Event (κ ρ ν : Type*)
  | stored (key : κ) (segment : ρ) (value : ν)
  | erased (segment : ρ)
  deriving DecidableEq

open Event

/-- The value is the latest one of its key, and its segment was not erased since. -/
def Survives (h : List (Event κ ρ ν)) (k : κ) (r : ρ) (v : ν) : Prop :=
  ∃ after before, h = after ++ stored k r v :: before ∧
    (∀ r' v', stored k r' v' ∉ after) ∧ erased r ∉ after

variable {h : List (Event κ ρ ν)} {k key : κ} {r segment : ρ} {v value : ν}

theorem survives_stored_self :
    Survives (stored key segment value :: h) key r v ↔ segment = r ∧ value = v := by
  constructor
  · rintro ⟨after, before, heq, hlast, -⟩
    cases after with
    | nil =>
      cases heq
      exact ⟨rfl, rfl⟩
    | cons e after =>
      cases heq
      exact absurd List.mem_cons_self (hlast segment value)
  · rintro ⟨rfl, rfl⟩
    exact ⟨[], h, rfl, by simp, by simp⟩

theorem survives_stored_of_ne (hk : k ≠ key) :
    Survives (stored key segment value :: h) k r v ↔ Survives h k r v := by
  constructor
  · rintro ⟨after, before, heq, hlast, hkept⟩
    cases after with
    | nil =>
      cases heq
      exact absurd rfl hk
    | cons e after =>
      cases heq
      exact ⟨after, before, rfl, fun r' v' hmem => hlast r' v' (List.mem_cons_of_mem _ hmem),
        fun hmem => hkept (List.mem_cons_of_mem _ hmem)⟩
  · rintro ⟨after, before, rfl, hlast, hkept⟩
    refine ⟨stored key segment value :: after, before, rfl, ?_, by simpa using hkept⟩
    intro r' v' hmem
    rcases List.mem_cons.mp hmem with heq | hmem
    · cases heq
      exact hk rfl
    · exact hlast r' v' hmem

theorem survives_erased :
    Survives (erased segment :: h) k r v ↔ Survives h k r v ∧ r ≠ segment := by
  constructor
  · rintro ⟨after, before, heq, hlast, hkept⟩
    cases after with
    | nil => cases heq
    | cons e after =>
      cases heq
      refine ⟨⟨after, before, rfl, ?_, ?_⟩, ?_⟩
      · exact fun r' v' hmem => hlast r' v' (List.mem_cons_of_mem _ hmem)
      · exact fun hmem => hkept (List.mem_cons_of_mem _ hmem)
      · rintro rfl
        exact hkept List.mem_cons_self
  · rintro ⟨⟨after, before, rfl, hlast, hkept⟩, hr⟩
    refine ⟨erased segment :: after, before, rfl, ?_, ?_⟩
    · intro r' v' hmem
      rcases List.mem_cons.mp hmem with heq | hmem
      · cases heq
      · exact hlast r' v' hmem
    · intro hmem
      rcases List.mem_cons.mp hmem with heq | hmem
      · cases heq
        exact hr rfl
      · exact hkept hmem

variable [DecidableEq κ] [DecidableEq ρ]

/-- The segment and the value that a history leaves under a key. -/
def live : List (Event κ ρ ν) → κ → Option (ρ × ν)
  | [], _ => none
  | .stored key segment value :: h, k => if k = key then some (segment, value) else live h k
  | .erased segment :: h, k => (live h k).filter fun p => p.1 ≠ segment

@[simp] theorem live_stored_self : live (stored key segment value :: h) key = some (segment, value) :=
  if_pos rfl

theorem live_stored_of_ne (hk : k ≠ key) : live (stored key segment value :: h) k = live h k :=
  if_neg hk

theorem live_erased_eq_some :
    live (erased segment :: h) k = some (r, v) ↔ live h k = some (r, v) ∧ r ≠ segment := by
  simp [live, Option.filter_eq_some_iff]

theorem live_erased_self (hv : live h k = some (segment, v)) :
    live (erased segment :: h) k = none := by
  simp [live, hv]

theorem live_erased_none (hv : live h k = none) : live (erased segment :: h) k = none := by
  simp [live, hv]

/-- **The live value is the one that survives.** -/
theorem live_eq_some_iff : live h k = some (r, v) ↔ Survives h k r v := by
  induction h with
  | nil => simp [live, Survives]
  | cons e h ih =>
    cases e with
    | stored key segment value =>
      by_cases hk : k = key
      · subst hk
        rw [live_stored_self, survives_stored_self, Option.some.injEq, Prod.mk.injEq]
      · rw [live_stored_of_ne hk, survives_stored_of_ne hk, ih]
    | erased segment => rw [live_erased_eq_some, survives_erased, ih]

end Segments
