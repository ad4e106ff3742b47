import Mathlib.Logic.Function.Iterate
import Mathlib.Tactic.Common

/-!
# Runs of deterministic machines

A machine is a function `step : σ → ι → σ`; its run on a list of inputs is the left fold.

* `Along step P s is`: `P` holds of every pair (state before, input) of the run;
* **`run_inv`**, **`along_of_inv`**: invariants of a run;
* **`along_congr`**: two conditions that agree while an invariant holds, and keep it, agree along runs;
* `along_shift`: a condition decided one step early;
* `both`, `run_both`, `along_both_fst`, `run_map`, `along_map`: machines side by side, and views of one;
* `transcript`, **`transcript_inv`**, **`transcript_log`**, **`transcript_rel`**: invariants of what
  went in and out so far, or of a log of it, and forward simulation between machines with outputs;
* `Polls`, `Polls.unique`: stepping a machine until a condition holds;
* `pollFor`, **`Polls.pollFor_eq`**: the loop that does so, for a limited number of rounds.
-/

namespace Runs

variable {σ τ ι ο : Type*}

section Invariants

variable (step : σ → ι → σ)

/-- The state after the inputs `is`. -/
abbrev run (s : σ) (is : List ι) : σ := is.foldl step s

/-- `P` holds of every step of the run: of the state before it and of its input. -/
def Along (P : σ → ι → Prop) : σ → List ι → Prop
  | _, [] => True
  | s, i :: is => P s i ∧ Along P (step s i) is

instance (P : σ → ι → Prop) [∀ s i, Decidable (P s i)] :
    ∀ s is, Decidable (Along step P s is)
  | _, [] => isTrue trivial
  | s, i :: is =>
    have := instDecidableAlong P (step s i) is
    inferInstanceAs (Decidable (P s i ∧ Along step P (step s i) is))

variable {step}

@[simp] theorem along_nil (P : σ → ι → Prop) (s : σ) : Along step P s [] := trivial

@[simp] theorem along_cons (P : σ → ι → Prop) (s : σ) (i : ι) (is : List ι) :
    Along step P s (i :: is) ↔ P s i ∧ Along step P (step s i) is := Iff.rfl

theorem run_concat (s : σ) (is : List ι) (i : ι) :
    run step s (is ++ [i]) = step (run step s is) i := by
  rw [run, List.foldl_append, List.foldl_cons, List.foldl_nil]

theorem along_append (P : σ → ι → Prop) (s : σ) (is js : List ι) :
    Along step P s (is ++ js) ↔ Along step P s is ∧ Along step P (run step s is) js := by
  induction is generalizing s with
  | nil => simp
  | cons i is ih => simp [ih, and_assoc]

theorem along_and (P Q : σ → ι → Prop) (s : σ) (is : List ι) :
    Along step (fun s i => P s i ∧ Q s i) s is ↔ Along step P s is ∧ Along step Q s is := by
  induction is generalizing s with
  | nil => simp
  | cons i is ih =>
    rw [along_cons, along_cons, along_cons, ih]
    exact and_and_and_comm

/-- **Invariant rule.** What every step preserves holds at the end of every run. -/
theorem run_inv {Inv : σ → Prop} (hstep : ∀ s i, Inv s → Inv (step s i)) {s : σ} (hs : Inv s)
    (is : List ι) : Inv (run step s is) := by
  induction is generalizing s with
  | nil => exact hs
  | cons i is ih => exact ih (hstep s i hs)

/-- **Invariant rule under a condition.** It is enough to preserve `Inv` in the steps that meet
`P`, along runs whose steps all meet `P`. -/
theorem run_inv_of_along {Inv : σ → Prop} {P : σ → ι → Prop}
    (hstep : ∀ s i, Inv s → P s i → Inv (step s i)) {s : σ} (hs : Inv s) {is : List ι}
    (hP : Along step P s is) : Inv (run step s is) := by
  induction is generalizing s with
  | nil => exact hs
  | cons i is ih => exact ih (hstep s i hs hP.1) hP.2

/-- A run whose steps meet `P` meets every condition that `P` gives under the invariant. -/
theorem along_of_inv {Inv : σ → Prop} {P Q : σ → ι → Prop}
    (hstep : ∀ s i, Inv s → P s i → Inv (step s i)) (hPQ : ∀ s i, Inv s → P s i → Q s i) {s : σ}
    (hs : Inv s) {is : List ι} (hP : Along step P s is) : Along step Q s is := by
  induction is generalizing s with
  | nil => trivial
  | cons i is ih => exact ⟨hPQ s i hs hP.1, ih (hstep s i hs hP.1) hP.2⟩

/-- **Conditions that agree under an invariant agree along runs**, also when only the steps that
meet them keep the invariant. -/
theorem along_congr (Inv : σ → Prop) {P Q : σ → ι → Prop}
    (hstep : ∀ s i, Inv s → P s i → Inv (step s i)) (hPQ : ∀ s i, Inv s → (P s i ↔ Q s i)) {s : σ}
    (hs : Inv s) (is : List ι) : Along step P s is ↔ Along step Q s is :=
  ⟨along_of_inv hstep (fun s i h hp => (hPQ s i h).mp hp) hs,
    along_of_inv (fun s i h hq => hstep s i h ((hPQ s i h).mpr hq))
      (fun s i h hq => (hPQ s i h).mpr hq) hs⟩

/-- **Conditions decided one step early.** When `Q` of a step says whether `P` holds of the next
one, whatever its input, then `P` along a run is `Q` along the run without its last step. -/
theorem along_shift {Inv : σ → Prop} {P Q : σ → ι → Prop}
    (hstep : ∀ s i, Inv s → P s i → Inv (step s i))
    (hPQ : ∀ s i j, Inv s → P s i → (P (step s i) j ↔ Q s i)) {s : σ} (hs : Inv s)
    (h0 : ∀ i, P s i) (is : List ι) (j : ι) :
    Along step P s (is ++ [j]) ↔ Along step Q s is := by
  induction is generalizing s with
  | nil => simp [h0 j]
  | cons i is ih =>
    rw [List.cons_append, along_cons, along_cons]
    by_cases hq : Q s i
    · have hnext := ih (hstep s i hs (h0 i)) fun k => (hPQ s i k hs (h0 i)).mpr hq
      simp only [h0 i, hq, hnext]
    · have hbad : ¬ Along step P (step s i) (is ++ [j]) := by
        intro h
        cases is with
        | nil => exact hq ((hPQ s i j hs (h0 i)).mp h.1)
        | cons k is => exact hq ((hPQ s i k hs (h0 i)).mp h.1)
      simp only [hq, hbad, and_false, false_and]

/-- A condition on the inputs alone holds along a run exactly when every input meets it. -/
theorem along_const (P : ι → Prop) (s : σ) (is : List ι) :
    Along step (fun _ i => P i) s is ↔ ∀ i ∈ is, P i := by
  induction is generalizing s with
  | nil => simp
  | cons i is ih => simp [ih]

end Invariants

section SideBySide

variable (step : σ → ι → σ) (step' : τ → ι → τ)

/-- Two machines on the same inputs. -/
def both (x : σ × τ) (i : ι) : σ × τ := (step x.1 i, step' x.2 i)

theorem run_both (s : σ) (t : τ) (is : List ι) :
    run (both step step') (s, t) is = (run step s is, run step' t is) := by
  induction is generalizing s t with
  | nil => rfl
  | cons i is ih => exact ih (step s i) (step' t i)

theorem along_both_fst (P : σ → ι → Prop) (s : σ) (t : τ) (is : List ι) :
    Along (both step step') (fun x i => P x.1 i) (s, t) is ↔ Along step P s is := by
  induction is generalizing s t with
  | nil => exact Iff.rfl
  | cons i is ih => exact and_congr_right fun _ => ih (step s i) (step' t i)

variable {step step'}

section View

variable {f : σ → τ} (hf : ∀ s i, f (step s i) = step' (f s) i)

include hf

theorem run_map (s : σ) (is : List ι) : f (run step s is) = run step' (f s) is := by
  induction is generalizing s with
  | nil => rfl
  | cons i is ih =>
    rw [run, List.foldl_cons, ih, hf]
    rfl

theorem along_map (P : τ → ι → Prop) (s : σ) (is : List ι) :
    Along step (fun s i => P (f s) i) s is ↔ Along step' P (f s) is := by
  induction is generalizing s with
  | nil => exact Iff.rfl
  | cons i is ih =>
    rw [along_cons, along_cons, ih, hf]

end View

end SideBySide

section Simulation

/-- The outputs of a machine that may stop, with the state after the last of the inputs. -/
def transcript (step : σ → ι → Option (σ × ο)) : σ → List ι → Option (σ × List ο)
  | s, [] => some (s, [])
  | s, i :: is =>
    match step s i with
    | none => none
    | some (s', o) => (transcript step s' is).map fun r => (r.1, o :: r.2)

/-- **Invariants over inputs and outputs.** A machine that answers every admitted input, and keeps a
relation between the inputs, the outputs and the state, answers all of them. -/
theorem transcript_inv {step : σ → ι → Option (σ × ο)} {Inv : List ι → List ο → σ → Prop}
    (ok : List ι → ι → Prop)
    (hstep : ∀ is os s i, ok is i → Inv is os s →
      ∃ s' o, step s i = some (s', o) ∧ Inv (is ++ [i]) (os ++ [o]) s')
    {before : List ι} {os : List ο} {s : σ} (h : Inv before os s) {is : List ι}
    (his : ∀ pre i post, is = pre ++ i :: post → ok (before ++ pre) i) :
    ∃ s' os', transcript step s is = some (s', os') ∧ Inv (before ++ is) (os ++ os') s' := by
  induction is generalizing before os s with
  | nil =>
    rw [List.append_nil]
    exact ⟨s, [], rfl, by rwa [List.append_nil]⟩
  | cons i is ih =>
    have hi : ok before i := by
      have hfirst := his [] i is rfl
      rwa [List.append_nil] at hfirst
    obtain ⟨s₁, o, hs₁, h₁⟩ := hstep before os s i hi h
    obtain ⟨s₂, os₂, hs₂, h₂⟩ := ih h₁ fun pre j post hj => by
      rw [List.append_assoc]
      exact his (i :: pre) j post (congrArg (i :: ·) hj)
    rw [List.append_assoc, List.append_assoc] at h₂
    exact ⟨s₂, o :: os₂, by simp only [transcript, hs₁, hs₂, Option.map_some], h₂⟩

theorem transcript_all {step : σ → ι → Option (σ × ο)} {Inv : List ι → List ο → σ → Prop}
    (ok : ι → Prop)
    (hstep : ∀ is os s i, ok i → Inv is os s →
      ∃ s' o, step s i = some (s', o) ∧ Inv (is ++ [i]) (os ++ [o]) s')
    {s : σ} (h : Inv [] [] s) {is : List ι} (his : ∀ i ∈ is, ok i) :
    ∃ s' os, transcript step s is = some (s', os) ∧ Inv is os s' :=
  transcript_inv (fun _ i => ok i) hstep h fun _ i _ hi =>
    his i (hi ▸ List.mem_append_right _ List.mem_cons_self)

/-- **Invariants over a log**, with one entry for each input and its output. -/
theorem transcript_log {α : Type*} {step : σ → ι → Option (σ × ο)} {Inv : List α → σ → Prop}
    (entry : ι → ο → α) (ok : ι → Prop)
    (hstep : ∀ log s i, ok i → Inv log s →
      ∃ s' o, step s i = some (s', o) ∧ Inv (log ++ [entry i o]) s')
    {s : σ} (h : Inv [] s) {is : List ι} (his : ∀ i ∈ is, ok i) :
    ∃ s' os, transcript step s is = some (s', os) ∧ os.length = is.length ∧
      Inv (List.zipWith entry is os) s' := by
  have hnext : ∀ is os s i, ok i → (os.length = is.length ∧ Inv (List.zipWith entry is os) s) →
      ∃ s' o, step s i = some (s', o) ∧ ((os ++ [o]).length = (is ++ [i]).length ∧
        Inv (List.zipWith entry (is ++ [i]) (os ++ [o])) s') := by
    rintro is os s i hi ⟨hlength, hlog⟩
    obtain ⟨s', o, hrun, hlog'⟩ := hstep _ s i hi hlog
    refine ⟨s', o, hrun, ?_, ?_⟩
    · rw [List.length_append, List.length_append, hlength]
      rfl
    · rw [List.zipWith_append hlength.symm]
      exact hlog'
  exact transcript_all ok hnext ⟨rfl, h⟩ his

/-- **Forward simulation.** Related machines that answer every admitted input alike, and stay
related, have the same transcript and end in related states. -/
theorem transcript_rel {step : σ → ι → Option (σ × ο)} {step' : τ → ι → Option (τ × ο)}
    {R : σ → τ → Prop} (ok : ι → Prop)
    (hstep : ∀ s t i, ok i → R s t →
      ∃ s' t' o, step s i = some (s', o) ∧ step' t i = some (t', o) ∧ R s' t')
    {s : σ} {t : τ} (h : R s t) {is : List ι} (his : ∀ i ∈ is, ok i) :
    ∃ s' t' os, transcript step s is = some (s', os) ∧ transcript step' t is = some (t', os) ∧
      R s' t' := by
  induction is generalizing s t with
  | nil => exact ⟨s, t, [], rfl, rfl, h⟩
  | cons i is ih =>
    obtain ⟨s₁, t₁, o, hs₁, ht₁, h₁⟩ := hstep s t i (his i List.mem_cons_self) h
    obtain ⟨s₂, t₂, os, hs₂, ht₂, h₂⟩ := ih h₁ fun j hj => his j (List.mem_cons_of_mem _ hj)
    refine ⟨s₂, t₂, o :: os, ?_, ?_, h₂⟩
    · simp only [transcript, hs₁, hs₂, Option.map_some]
    · simp only [transcript, ht₁, ht₂, Option.map_some]

end Simulation

section Polling

variable {f : σ → σ} {P : σ → Prop} {s a b : σ} {m n : ℕ}

/-- Polling: `f` is applied from `s`, at least once, until `P` holds; that takes `n` rounds and
ends in `s'`. -/
structure Polls (f : σ → σ) (P : σ → Prop) (n : ℕ) (s s' : σ) : Prop where
  pos : 0 < n
  reaches : f^[n] s = s'
  final : P s'
  before : ∀ k, 0 < k → k < n → ¬ P (f^[k] s)

theorem Polls.rounds_unique (ha : Polls f P m s a) (hb : Polls f P n s b) : m = n := by
  rcases Nat.lt_trichotomy m n with h | h | h
  · exact absurd (ha.reaches ▸ ha.final) (hb.before m ha.pos h)
  · exact h
  · exact absurd (hb.reaches ▸ hb.final) (ha.before n hb.pos h)

theorem Polls.unique (ha : Polls f P m s a) (hb : Polls f P n s b) : a = b := by
  have h := ha.rounds_unique hb
  rw [← ha.reaches, ← hb.reaches, h]

/-- The loop that steps until `P` holds, for at most the given number of rounds. -/
def pollFor (f : σ → σ) (P : σ → Prop) [DecidablePred P] : ℕ → σ → Option σ
  | 0, _ => none
  | fuel + 1, s => if P (f s) then some (f s) else pollFor f P fuel (f s)

/-- **The loop ends where polling ends**, when it has rounds enough. -/
theorem Polls.pollFor_eq [DecidablePred P] (h : Polls f P n s a) {fuel : ℕ} (hn : n ≤ fuel) :
    pollFor f P fuel s = some a := by
  induction fuel generalizing s n with
  | zero =>
    have hpos := h.pos
    omega
  | succ fuel ih =>
    rw [pollFor]
    by_cases h1 : n = 1
    · subst h1
      have hfin : f s = a := h.reaches
      rw [hfin, if_pos h.final]
    · have hpos := h.pos
      have hnot : ¬ P (f s) := h.before 1 (by omega) (by omega)
      obtain ⟨m, rfl⟩ : ∃ m, n = m + 1 := ⟨n - 1, by omega⟩
      rw [if_neg hnot]
      exact ih ⟨by omega, h.reaches, h.final, fun k _ hk => h.before (k + 1) (by omega) (by omega)⟩
        (by omega)

end Polling

end Runs
