import ZnsFlash.Library.Holdings
import Mathlib.Data.Set.Basic
import Mathlib.Data.List.Perm.Basic
import Mathlib.Data.List.Nodup
import Mathlib.Data.List.Induction

/-!
# Values at places

A store that keeps the value of a key at a place of its own: a key is written to a new place, and its value
may be moved to another one.

* `Places`: keys, the places in use, what stands there, and the contents that are meant;
* **`Places.put`**, **`Places.remove`**, **`Places.move`**: a key gets a new value, none, or a new place;
* `assignAll`: many keys get new places; `assignAll_of_mem`, `assignAll_of_notMem`, `assignAll_perm`: the
  order does not matter.
-/

namespace Placement

open Holdings

variable {ι κ π : Type*}

/-- **Keys have places of their own**, all places in use are theirs, and the contents stand there. -/
structure Places (own : ι → Option κ) (used : Set κ) (data : κ → π) (contents : ι → Option π) :
    Prop where
  exclusive : Exclusive own
  used : used = held own
  contents : ∀ i, contents i = (own i).map data

variable {own : ι → Option κ} {used : Set κ} {data : κ → π} {contents : ι → Option π} {i j : ι}
  {p t : κ}

theorem places_empty (data : κ → π) :
    Places (fun _ : ι => none) (∅ : Set κ) data fun _ => none where
  exclusive := fun i j b h => by cases h
  used := by simp [held]
  contents := fun _ => rfl

namespace Places

theorem mem_used (h : Places own used data contents) (hi : own i = some p) : p ∈ used :=
  h.used ▸ mem_held hi

theorem exists_owner (h : Places own used data contents) (hp : p ∈ used) : ∃ i, own i = some p := by
  rw [h.used] at hp
  exact hp

section Update

variable [DecidableEq ι]

theorem remove (h : Places own used data contents) (i : ι) :
    Places (Function.update own i none) (used \ {p | own i = some p}) data
      (Function.update contents i none) := by
  refine ⟨h.exclusive.release, ?_, fun j => ?_⟩
  · rw [h.used]
    exact (held_release h.exclusive i).symm
  · by_cases hji : j = i
    · simp [hji]
    · simp [Function.update_of_ne hji, h.contents j]

variable [DecidableEq κ]

/-- **A key gets a value**, at a place that was not in use. Its old place is given up. -/
theorem put (h : Places own used data contents) (i : ι) (ht : t ∉ used) (x : π) :
    Places (Function.update own i (some t)) (insert t (used \ {p | own i = some p}))
      (Function.update data t x) (Function.update contents i (some x)) := by
  have hfree : t ∉ held (Function.update own i none) := by
    rintro ⟨j, hj⟩
    exact ht (h.mem_used (of_update_none hj).2)
  refine ⟨h.exclusive.exchange hfree, ?_, fun j => ?_⟩
  · rw [h.used]
    exact (held_exchange h.exclusive i t).symm
  · by_cases hji : j = i
    · simp [hji]
    · rw [Function.update_of_ne hji, Function.update_of_ne hji, h.contents j]
      cases hj : own j with
      | none => rfl
      | some p =>
        have hpt : p ≠ t := fun hpt => ht (hpt ▸ h.mem_used hj)
        simp [Function.update_of_ne hpt]

theorem move (h : Places own used data contents) (hi : own i = some p) (ht : t ∉ used) :
    Places (Function.update own i (some t)) (insert t (used \ {p}))
      (Function.update data t (data p)) contents := by
  have hput := h.put i ht (data p)
  have hself : contents i = some (data p) := by rw [h.contents i, hi, Option.map_some]
  rw [holding_of_some hi, ← hself, Function.update_eq_self] at hput
  exact hput

end Update

end Places

/-! ## Many keys -/

section Many

variable [DecidableEq ι]

/-- Keys get new places, one after another. -/
def assignAll (own : ι → Option κ) (l : List (ι × κ)) : ι → Option κ :=
  l.foldl (fun own e => Function.update own e.1 (some e.2)) own

theorem assignAll_concat (own : ι → Option κ) (l : List (ι × κ)) (e : ι × κ) :
    assignAll own (l ++ [e]) = Function.update (assignAll own l) e.1 (some e.2) := by
  rw [assignAll, List.foldl_append]
  rfl

variable {l l' : List (ι × κ)}

theorem assignAll_of_notMem (h : i ∉ l.map Prod.fst) : assignAll own l i = own i := by
  induction l using List.reverseRecOn with
  | nil => rfl
  | append_singleton l e ih =>
    rw [List.map_append, List.mem_append, not_or, List.map_singleton, List.mem_singleton] at h
    rw [assignAll_concat, Function.update_of_ne h.2, ih h.1]

theorem assignAll_of_mem (own : ι → Option κ) (hnodup : (l.map Prod.fst).Nodup) (h : (i, t) ∈ l) :
    assignAll own l i = some t := by
  induction l using List.reverseRecOn with
  | nil => simp at h
  | append_singleton l e ih =>
    rw [List.map_append, List.map_singleton, List.nodup_append] at hnodup
    rw [assignAll_concat]
    rcases List.mem_append.mp h with hmem | hmem
    · have hne : i ≠ e.1 := hnodup.2.2 i (List.mem_map_of_mem hmem) e.1 List.mem_cons_self
      rw [Function.update_of_ne hne, ih hnodup.1 hmem]
    · rw [List.mem_singleton] at hmem
      rw [← hmem, Function.update_self]

/-- **The order does not matter** when no key comes twice. -/
theorem assignAll_perm (hnodup : (l.map Prod.fst).Nodup) (h : l.Perm l') :
    assignAll own l = assignAll own l' := by
  funext i
  by_cases hi : i ∈ l.map Prod.fst
  · obtain ⟨⟨j, t⟩, hmem, rfl⟩ := List.mem_map.mp hi
    rw [assignAll_of_mem own hnodup hmem,
      assignAll_of_mem own ((h.map Prod.fst).nodup_iff.mp hnodup) (h.mem_iff.mp hmem)]
  · have hi' : i ∉ l'.map Prod.fst := fun hmem => hi ((h.map Prod.fst).mem_iff.mpr hmem)
    rw [assignAll_of_notMem hi, assignAll_of_notMem hi']

end Many

end Placement
