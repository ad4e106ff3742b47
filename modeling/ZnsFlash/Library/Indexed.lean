import Mathlib.Data.List.FinRange
import Mathlib.Data.List.Sort

/-!
# Containers with a second index

A container of `n` elements that are found by their position and, over a second index, in the order of a
key. Of a container only three laws are used; any implementation that keeps them will do.

* `MultiIndex`, `Indexed`: the operations with their laws, and a container of an implementation;
* **`Indexed.first_le`**: the first element over the second index has the least key;
* `SortedIndex`: the implementation by an array and the sorted list of its positions. An element that is
  replaced keeps its place in that order where it can; otherwise it goes behind all elements with keys up
  to its own.
-/

universe u v

variable {n : ℕ} {α : Type u} {κ : Type v} [LinearOrder κ]

/-- An implementation of the containers of `n` elements with a second index over `key`. -/
class MultiIndex (n : ℕ) (key : α → κ) where
  Container : Type u
  ofFn : (Fin n → α) → Container
  get : Container → Fin n → α
  first : Container → Option (Fin n)
  replace : Container → Fin n → α → Container
  get_ofFn : ∀ f, get (ofFn f) = f
  get_replace : ∀ c i a, get (replace c i a) = Function.update (get c) i a
  first_le : ∀ {c i}, first c = some i → ∀ j, key (get c i) ≤ key (get c j)

/-- A container of `n` elements with a second index over `key`. -/
def Indexed (n : ℕ) (key : α → κ) [M : MultiIndex n key] : Type u := M.Container

namespace Indexed

variable {key : α → κ} [M : MultiIndex n key]

/-- The container of the values of a function. -/
def ofFn (f : Fin n → α) : Indexed n key := M.ofFn f

/-- The element at a position. -/
def get (c : Indexed n key) (i : Fin n) : α := M.get c i

/-- The position of the first element over the second index. -/
def first (c : Indexed n key) : Option (Fin n) := M.first c

/-- An element is replaced. -/
def replace (c : Indexed n key) (i : Fin n) (a : α) : Indexed n key := M.replace c i a

@[simp]
theorem get_ofFn (f : Fin n → α) : (ofFn f : Indexed n key).get = f := M.get_ofFn f

@[simp]
theorem get_replace (c : Indexed n key) (i : Fin n) (a : α) :
    (c.replace i a).get = Function.update c.get i a := M.get_replace c i a

/-- **The first element has the least key.** -/
theorem first_le {c : Indexed n key} {i : Fin n} (h : c.first = some i) (j : Fin n) :
    key (c.get i) ≤ key (c.get j) := M.first_le h j

end Indexed

/-! ## An implementation -/

/-- Elements by position, and the positions in the order of the keys. -/
structure SortedIndex (n : ℕ) (key : α → κ) where
  get : Fin n → α
  order : List (Fin n)
  perm : order.Perm (List.finRange n)
  sorted : order.Pairwise fun i j => key (get i) ≤ key (get j)

namespace SortedIndex

variable {key : α → κ}

/-- The positions are sorted by their keys; those with one key stay in the order of the positions. -/
def ofFn (get : Fin n → α) : SortedIndex n key where
  get := get
  order := (List.finRange n).insertionSort fun i j => key (get i) ≤ key (get j)
  perm := List.perm_insertionSort _ _
  sorted :=
    have : Std.Total fun i j => key (get i) ≤ key (get j) := ⟨fun _ _ => le_total _ _⟩
    have : IsTrans (Fin n) fun i j => key (get i) ≤ key (get j) := ⟨fun _ _ _ => le_trans⟩
    List.pairwise_insertionSort _ _

theorem pairwise_orderedInsert {β : Type*} (f : β → κ) (x : β) {l : List β}
    (h : l.Pairwise fun y z => f y ≤ f z) :
    (l.orderedInsert (f · < f ·) x).Pairwise fun y z => f y ≤ f z := by
  induction l with
  | nil => exact List.pairwise_singleton _ _
  | cons y l ih =>
    obtain ⟨hy, hl⟩ := List.pairwise_cons.mp h
    rw [List.orderedInsert_cons]
    split_ifs with hlt
    · refine List.pairwise_cons.mpr ⟨fun z hz => ?_, h⟩
      rcases List.mem_cons.mp hz with rfl | hz
      · exact hlt.le
      · exact hlt.le.trans (hy z hz)
    · refine List.pairwise_cons.mpr ⟨fun z hz => ?_, ih hl⟩
      rcases (List.mem_orderedInsert _).mp hz with rfl | hz
      · exact not_lt.mp hlt
      · exact hy z hz

variable (c : SortedIndex n key)

theorem nodup : c.order.Nodup := c.perm.nodup_iff.mpr (List.nodup_finRange n)

theorem mem_order (i : Fin n) : i ∈ c.order := c.perm.mem_iff.mpr (List.mem_finRange i)

/-- An element is replaced. -/
def replace (i : Fin n) (a : α) : SortedIndex n key :=
  let get := Function.update c.get i a
  if h : c.order.Pairwise fun j k => key (get j) ≤ key (get k) then ⟨get, c.order, c.perm, h⟩
  else
    { get
      order := (c.order.erase i).orderedInsert (fun j k => key (get j) < key (get k)) i
      perm := (List.perm_orderedInsert _ _ _).trans
        ((List.perm_cons_erase (c.mem_order i)).symm.trans c.perm)
      sorted := pairwise_orderedInsert (fun j => key (get j)) i <| by
        refine (c.sorted.sublist List.erase_sublist).imp_of_mem fun {j k} hj hk hle => ?_
        have hother : ∀ l ∈ c.order.erase i, get l = c.get l := fun l hl =>
          Function.update_of_ne (fun heq => (c.nodup.not_mem_erase (heq ▸ hl)).elim) _ _
        rw [hother j hj, hother k hk]
        exact hle }

@[simp]
theorem get_replace (i : Fin n) (a : α) : (c.replace i a).get = Function.update c.get i a := by
  rw [replace]
  split_ifs <;> rfl

theorem first_le {i : Fin n} (h : c.order.head? = some i) (j : Fin n) :
    key (c.get i) ≤ key (c.get j) := by
  obtain ⟨rest, horder⟩ := List.head?_eq_some_iff.mp h
  have hsorted := c.sorted
  have hj := c.mem_order j
  rw [horder] at hsorted hj
  rcases List.mem_cons.mp hj with rfl | hj
  · exact le_rfl
  · exact (List.pairwise_cons.mp hsorted).1 j hj

/-- The implementation as a `MultiIndex`. -/
@[reducible]
def multiIndex (n : ℕ) (key : α → κ) : MultiIndex n key where
  Container := SortedIndex n key
  ofFn := ofFn
  get := get
  first c := c.order.head?
  replace := replace
  get_ofFn _ := rfl
  get_replace := get_replace
  first_le := first_le _

end SortedIndex
