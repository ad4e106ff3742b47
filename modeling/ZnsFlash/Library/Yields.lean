import Mathlib.Data.List.Range

/-!
# Postconditions of computations that may halt

`Yields ok x P`: the computation `x` ends in a value that meets `P`, or in an error that is
admitted.

* **`Yields.bind`**, `Yields.mono`, `Yields.and`, `Yields.of_ok`, `Yields.exists_ok`: the rules of
  sequence and of consequence;
* `Yields.bind_eq_ok`, `Yields.map_eq_ok`: computations that have ended in a value;
* **`Yields.foldlM_range`**, **`Yields.foldlM_list`**: the rules of a counting loop and of a loop over
  a list;
* `Yields.Along`, **`Yields.foldlM_along_record`**, `Yields.foldlM_along`: a condition on each step of
  a run, and the rules of runs that meet it;
* **`Yields.forall_prefix_iff_along`**: the exact condition for an invariant of every state of a run.
-/

universe u v

variable {ε : Type v} {α β σ : Type u}

/-- `x` ends in a value that meets `P`, or in an admitted error. -/
def Yields (ok : ε → Prop) (x : Except ε α) (P : α → Prop) : Prop :=
  match x with
  | .ok a => P a
  | .error e => ok e

namespace Yields

variable {ok : ε → Prop} {x : Except ε α} {f : α → Except ε β} {P : α → Prop} {Q : β → Prop} {a : α}

theorem bind (hx : Yields ok x P) (hf : ∀ a, P a → Yields ok (f a) Q) : Yields ok (x >>= f) Q := by
  cases x with
  | ok a => exact hf a hx
  | error e => exact hx

theorem mono {R : α → Prop} (hx : Yields ok x P) (h : ∀ a, P a → R a) : Yields ok x R := by
  cases x with
  | ok a => exact h a hx
  | error e => exact hx

theorem and {R : α → Prop} (hx : Yields ok x P) (hr : Yields ok x R) :
    Yields ok x fun a => P a ∧ R a := by
  cases x with
  | ok a => exact ⟨hx, hr⟩
  | error e => exact hx

theorem of_ok (hx : Yields ok x P) (h : x = .ok a) : P a := by
  subst h
  exact hx

theorem exists_ok (hx : Yields (fun _ => False) x P) : ∃ a, x = .ok a ∧ P a := by
  cases x with
  | ok a => exact ⟨a, rfl, hx⟩
  | error e => exact hx.elim

theorem bind_eq_ok {b : β} : x >>= f = .ok b ↔ ∃ a, x = .ok a ∧ f a = .ok b := by
  cases x with
  | ok a => exact ⟨fun h => ⟨a, rfl, h⟩, fun ⟨_, ha, h⟩ => Except.ok.inj ha ▸ h⟩
  | error e => exact ⟨nofun, nofun⟩

theorem map_eq_ok {g : α → β} {b : β} : x.map g = .ok b ↔ ∃ a, x = .ok a ∧ g a = b := by
  cases x with
  | ok a => simp [Except.map]
  | error e => simp [Except.map]

/-- **Rule of a counting loop**, with the invariant at each count. -/
theorem foldlM_range {f : σ → ℕ → Except ε σ} (Inv : ℕ → σ → Prop) {n : ℕ} {s : σ} (h0 : Inv 0 s)
    (hstep : ∀ k s, k < n → Inv k s → Yields ok (f s k) (Inv (k + 1))) :
    Yields ok ((List.range n).foldlM f s) (Inv n) := by
  induction n with
  | zero => exact h0
  | succ n ih =>
    rw [List.range_succ, List.foldlM_append]
    refine (ih fun k s hk => hstep k s (Nat.lt_succ_of_lt hk)).bind fun t ht => ?_
    rw [List.foldlM_cons]
    exact (hstep n t (Nat.lt_succ_self n) ht).bind fun t' ht' => ht'

/-- **Rule of a loop over a list**, with the invariant after each prefix. -/
theorem foldlM_list {γ : Type*} {f : σ → γ → Except ε σ} (Inv : List γ → σ → Prop) {l : List γ} {s : σ}
    (h0 : Inv [] s)
    (hstep : ∀ pre x post s, l = pre ++ x :: post → Inv pre s → Yields ok (f s x) (Inv (pre ++ [x]))) :
    Yields ok (l.foldlM f s) (Inv l) := by
  induction l using List.reverseRecOn with
  | nil => exact h0
  | append_singleton l x ih =>
    rw [List.foldlM_append]
    refine (ih fun pre y post s hl => hstep pre y (post ++ [x]) s ?_).bind fun t ht => ?_
    · rw [hl, List.append_assoc, List.cons_append]
    · rw [List.foldlM_cons]
      exact (hstep l x [] t rfl ht).bind fun t' ht' => ht'

/-! ## Runs of steps that may halt -/

section Runs

variable {ι : Type*} {step : σ → ι → Except ε σ}

/-- `P` holds of every step of the run that is made: of the state before it and of its input. -/
def Along (step : σ → ι → Except ε σ) (P : σ → ι → Prop) : σ → List ι → Prop
  | _, [] => True
  | s, i :: is => P s i ∧
    match step s i with
    | .ok t => Along step P t is
    | .error _ => True

instance decidableAlong (step : σ → ι → Except ε σ) (P : σ → ι → Prop)
    [∀ s i, Decidable (P s i)] : (s : σ) → (is : List ι) → Decidable (Along step P s is)
  | _, [] => isTrue trivial
  | s, i :: is =>
    have : Decidable (match step s i with
      | .ok t => Along step P t is
      | .error _ => True) :=
      match step s i with
      | .ok t => decidableAlong step P t is
      | .error _ => isTrue trivial
    inferInstanceAs (Decidable (_ ∧ _))

/-- **Rule of a run** whose steps meet a condition, with what is recorded of the steps so far. -/
theorem foldlM_along_record {P : σ → ι → Prop} {γ : Type*} {f : γ → ι → γ} (Inv : γ → σ → Prop)
    (hstep : ∀ r s i, Inv r s → P s i → Yields ok (step s i) (Inv (f r i))) {r : γ} {s : σ}
    {is : List ι} (hs : Inv r s) (hP : Along step P s is) :
    Yields ok (is.foldlM step s) (Inv (is.foldl f r)) := by
  induction is generalizing r s with
  | nil => exact hs
  | cons i is ih =>
    obtain ⟨hi, hrest⟩ := hP
    have hnext := hstep r s i hs hi
    rw [List.foldlM_cons]
    cases ht : step s i with
    | error e =>
      rw [ht] at hnext
      exact hnext
    | ok t =>
      rw [ht] at hnext hrest
      exact ih hnext hrest

theorem foldlM_along {P : σ → ι → Prop} (Inv : σ → Prop)
    (hstep : ∀ s i, Inv s → P s i → Yields ok (step s i) Inv) {s : σ} {is : List ι} (hs : Inv s)
    (hP : Along step P s is) : Yields ok (is.foldlM step s) Inv :=
  foldlM_along_record (f := fun (_ : Unit) _ => ()) (r := ()) (fun _ => Inv)
    (fun _ => hstep) hs hP

/-- **An invariant of every state that is reached**, when a step breaks it exactly where it fails the
condition. -/
theorem forall_prefix_iff_along {P : σ → ι → Prop} {Inv : σ → Prop}
    (hok : ∀ s i t, Inv s → step s i = .ok t → (Inv t ↔ P s i))
    (herror : ∀ s i e, step s i = .error e → P s i) {s : σ} {is : List ι} (hs : Inv s) :
    (∀ pre, pre <+: is → ∀ t, pre.foldlM step s = .ok t → Inv t) ↔ Along step P s is := by
  induction is generalizing s with
  | nil =>
    refine iff_of_true (fun pre hpre t ht => ?_) trivial
    rw [List.prefix_nil.mp hpre] at ht
    rw [← Except.ok.inj ht]
    exact hs
  | cons i is ih =>
    have hcons : ∀ pre, pre <+: i :: is ↔ pre = [] ∨ ∃ rest, pre = i :: rest ∧ rest <+: is :=
      fun pre => List.prefix_cons_iff
    simp only [Along, hcons]
    cases hi : step s i with
    | error e =>
      refine iff_of_true ?_ ⟨herror s i e hi, trivial⟩
      rintro pre (rfl | ⟨rest, rfl, -⟩) t ht
      · rw [← Except.ok.inj ht]
        exact hs
      · rw [List.foldlM_cons, hi] at ht
        cases ht
    | ok t =>
      constructor
      · intro hall
        have ht : Inv t := hall [i] (.inr ⟨[], rfl, List.nil_prefix⟩) t (by simp [hi])
        refine ⟨(hok s i t hs hi).mp ht, (ih ht).mp fun pre hpre u hu => ?_⟩
        apply hall (i :: pre) (.inr ⟨pre, rfl, hpre⟩) u
        rw [List.foldlM_cons, hi]
        exact hu
      · rintro ⟨hP, hrest⟩ pre (rfl | ⟨rest, rfl, hpre⟩) u hu
        · rw [← Except.ok.inj hu]
          exact hs
        · rw [List.foldlM_cons, hi] at hu
          exact (ih ((hok s i t hs hi).mpr hP)).mpr hrest rest hpre u hu

end Runs

end Yields
