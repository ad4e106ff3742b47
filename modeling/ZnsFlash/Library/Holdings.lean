import Mathlib.Logic.Function.Basic
import Mathlib.Order.BooleanAlgebra.Set

/-!
# Who holds what

Holders `ι` that each hold at most one item, no item twice.

* `Exclusive`, `held`: no item has two holders, and the items that have one;
* `Exclusive.claim`, `Exclusive.release`, `Exclusive.exchange`, `held_claim`, `held_release`,
  `held_exchange`: a holder takes a free item, or gives its own up, or both;
* `insert_diff_holding`, `Exclusive.insert_diff`: a new item or an item of another holder stays when
  one is given up;
* `Exclusive.comp`, `held_comp`: the holders get other names, and one of them leaves.
-/

namespace Holdings

variable {ι κ β : Type*}

/-- No item has two holders. -/
def Exclusive (own : ι → Option β) : Prop := ∀ i j b, own i = some b → own j = some b → i = j

/-- The items that someone holds. -/
def held (own : ι → Option β) : Set β := {b | ∃ i, own i = some b}

variable {own : ι → Option β} {i : ι} {b : β}

theorem mem_held (h : own i = some b) : b ∈ held own := ⟨i, h⟩

theorem holding_of_some (h : own i = some b) : {c | own i = some c} = {b} := by
  ext c
  simp [h, eq_comm]

theorem holding_of_none (h : own i = none) : {c | own i = some c} = ∅ := by
  ext c
  simp [h]

theorem insert_diff_holding (hb : b ∉ held own) (i : ι) (s : Set β) :
    insert b s \ {c | own i = some c} = insert b (s \ {c | own i = some c}) :=
  Set.insert_sdiff_of_notMem s fun h => hb (mem_held h)

theorem Exclusive.insert_diff (h : Exclusive own) (hi : own i = some b) {j : ι} (hij : i ≠ j) :
    insert b ((held own \ {c | own i = some c}) \ {c | own j = some c}) =
      held own \ {c | own j = some c} := by
  have hmem : b ∈ held own \ {c | own j = some c} := ⟨mem_held hi, fun hj => hij (h i j b hi hj)⟩
  rw [holding_of_some hi, sdiff_sdiff_comm, Set.insert_sdiff_singleton, Set.insert_eq_of_mem hmem]

theorem Exclusive.comp {φ : κ → ι} (h : Exclusive own) (hφ : Function.Injective φ) :
    Exclusive (own ∘ φ) := fun k k' b hk hk' => hφ (h (φ k) (φ k') b hk hk')

theorem held_comp {φ : κ → ι} (h : Exclusive own) (hi : ∀ k, φ k ≠ i) (hφ : ∀ j ≠ i, ∃ k, φ k = j) :
    held (own ∘ φ) = held own \ {b | own i = some b} := by
  ext c
  constructor
  · rintro ⟨k, hk⟩
    exact ⟨⟨φ k, hk⟩, fun hc => hi k (h (φ k) i c hk hc)⟩
  · rintro ⟨⟨j, hj⟩, hc⟩
    have hji : j ≠ i := by
      rintro rfl
      exact hc hj
    obtain ⟨k, rfl⟩ := hφ j hji
    exact ⟨k, hj⟩

variable [DecidableEq ι]

theorem Exclusive.claim (h : Exclusive own) (hb : b ∉ held own) :
    Exclusive (Function.update own i (some b)) := by
  intro j k c hj hk
  by_cases hji : j = i <;> by_cases hki : k = i
  · rw [hji, hki]
  · rw [hji, Function.update_self] at hj
    rw [Function.update_of_ne hki] at hk
    exact absurd ⟨k, hk.trans hj.symm⟩ hb
  · rw [hki, Function.update_self] at hk
    rw [Function.update_of_ne hji] at hj
    exact absurd ⟨j, hj.trans hk.symm⟩ hb
  · rw [Function.update_of_ne hji] at hj
    rw [Function.update_of_ne hki] at hk
    exact h j k c hj hk

theorem of_update_none {j : ι} (h : Function.update own i none j = some b) : j ≠ i ∧ own j = some b := by
  by_cases hji : j = i
  · rw [hji, Function.update_self] at h
    cases h
  · rw [Function.update_of_ne hji] at h
    exact ⟨hji, h⟩

theorem Exclusive.release (h : Exclusive own) : Exclusive (Function.update own i none) :=
  fun j k c hj hk => h j k c (of_update_none hj).2 (of_update_none hk).2

theorem Exclusive.exchange (h : Exclusive own) (hb : b ∉ held (Function.update own i none)) :
    Exclusive (Function.update own i (some b)) := by
  have hclaim : Exclusive (Function.update (Function.update own i none) i (some b)) :=
    h.release.claim hb
  rw [Function.update_idem] at hclaim
  exact hclaim

theorem held_claim (hi : own i = none) :
    held (Function.update own i (some b)) = insert b (held own) := by
  ext c
  constructor
  · rintro ⟨j, hj⟩
    by_cases hji : j = i
    · rw [hji, Function.update_self] at hj
      exact Or.inl (Option.some.inj hj).symm
    · rw [Function.update_of_ne hji] at hj
      exact Or.inr ⟨j, hj⟩
  · rintro (rfl | ⟨j, hj⟩)
    · exact ⟨i, Function.update_self _ _ _⟩
    · have hji : j ≠ i := by
        rintro rfl
        rw [hi] at hj
        cases hj
      exact ⟨j, (Function.update_of_ne hji _ _).trans hj⟩

theorem held_release (h : Exclusive own) (i : ι) :
    held (Function.update own i none) = held own \ {b | own i = some b} := by
  ext c
  constructor
  · rintro ⟨j, hj⟩
    obtain ⟨hji, hj⟩ := of_update_none hj
    exact ⟨⟨j, hj⟩, fun hi => hji (h j i c hj hi)⟩
  · rintro ⟨⟨j, hj⟩, hc⟩
    have hji : j ≠ i := by
      rintro rfl
      exact hc hj
    exact ⟨j, (Function.update_of_ne hji _ _).trans hj⟩

theorem held_exchange (h : Exclusive own) (i : ι) (b : β) :
    held (Function.update own i (some b)) = insert b (held own \ {c | own i = some c}) := by
  have hnone : Function.update own i none i = none := Function.update_self _ _ _
  rw [← held_release h i, ← held_claim hnone, Function.update_idem]

end Holdings
