import Mathlib.Data.Fintype.Card
import Mathlib.Algebra.Order.BigOperators.Group.Finset

/-!
# Zoned storage

A zoned device keeps, for every zone, an append pointer and an erase count. Pages are written only
at the pointer, a zone is emptied only as a whole, and only so many zones may be partly written at
a time.

* `Limits`, `Zone`: a zone within its capacity and its erase budget;
* `refusal`: the first rule a request breaks, `Zone.next`: what an accepted request does;
* `openCount`, **`openCount_update`**: the number of open zones and how it follows one zone;
* `Device`, `Device.step`: a device whose open zones respect the limit, by construction.
-/

namespace Zoned

/-- The limits of a device. -/
structure Limits where
  /-- Pages of a zone. -/
  capacity : ℕ
  /-- Zones that may be open at a time. -/
  maxOpen : ℕ
  /-- Erases a zone survives. -/
  maxErases : ℕ

/-- The requests a zone can receive. -/
inductive Op
  | read
  | write
  | reset
  deriving DecidableEq, Repr

/-- Why a request is refused. -/
inductive Refusal
  | full
  | outOfOrder
  | openLimit
  | notWritten
  | wornOut
  deriving DecidableEq, Repr

variable {L : Limits}

/-- The state of one zone, within the limits. -/
@[ext] structure Zone (L : Limits) where
  wptr : ℕ
  erases : ℕ
  wptr_le : wptr ≤ L.capacity
  erases_le : erases ≤ L.maxErases
  deriving DecidableEq

namespace Zone

/-- A zone that was never written nor erased. -/
def fresh : Zone L := ⟨0, 0, Nat.zero_le _, Nat.zero_le _⟩

/-- No page is left to write. -/
def IsFull (z : Zone L) : Prop := z.wptr = L.capacity

/-- Some pages are written and some are not. -/
def IsOpen (z : Zone L) : Prop := 0 < z.wptr ∧ z.wptr < L.capacity

instance (z : Zone L) : Decidable z.IsFull := inferInstanceAs (Decidable (_ = _))
instance (z : Zone L) : Decidable z.IsOpen := inferInstanceAs (Decidable (_ ∧ _))

/-- The zone after an accepted request. -/
def next (z : Zone L) : Op → Zone L
  | .read => z
  | .write => if h : z.wptr < L.capacity then ⟨z.wptr + 1, z.erases, h, z.erases_le⟩ else z
  | .reset =>
    if h : z.erases < L.maxErases then ⟨0, z.erases + 1, Nat.zero_le _, h⟩ else z

end Zone

/-- The first rule broken by request `op` on page `p` of zone `z`, with `nOpen` zones open. -/
def refusal (nOpen : ℕ) (z : Zone L) (op : Op) (p : ℕ) : Option Refusal :=
  match op with
  | .write =>
    if z.IsFull then some .full
    else if p ≠ z.wptr then some .outOfOrder
    else if z.wptr = 0 ∧ L.maxOpen ≤ nOpen then some .openLimit
    else none
  | .read => if z.wptr ≤ p then some .notWritten else none
  | .reset => if L.maxErases ≤ z.erases then some .wornOut else none

theorem refusal_write_eq_none {nOpen : ℕ} {z : Zone L} {p : ℕ} :
    refusal nOpen z .write p = none ↔
      z.wptr < L.capacity ∧ p = z.wptr ∧ (z.wptr ≠ 0 ∨ nOpen < L.maxOpen) := by
  have := z.wptr_le
  simp only [refusal]
  split_ifs with hfull hp hopen <;> unfold Zone.IsFull at hfull
  · simp [hfull]
  · simp [hp]
  · simp only [false_iff]
    omega
  · simp only [true_iff]
    omega

theorem refusal_read_eq_none {nOpen : ℕ} {z : Zone L} {p : ℕ} :
    refusal nOpen z .read p = none ↔ p < z.wptr := by
  simp [refusal]

theorem refusal_reset_eq_none {nOpen : ℕ} {z : Zone L} {p : ℕ} :
    refusal nOpen z .reset p = none ↔ z.erases < L.maxErases := by
  simp [refusal]

namespace Zone

theorem next_write {z : Zone L} (h : z.wptr < L.capacity) :
    (z.next .write).wptr = z.wptr + 1 ∧ (z.next .write).erases = z.erases := by
  simp [next, h]

theorem next_reset {z : Zone L} (h : z.erases < L.maxErases) :
    (z.next .reset).wptr = 0 ∧ (z.next .reset).erases = z.erases + 1 := by
  simp [next, h]

/-- `1` for an open zone and `0` for any other. -/
def openUnit (z : Zone L) : ℕ := if z.IsOpen then 1 else 0

end Zone

/-! ## Open zones -/

section Count

variable {Z : Type*} [Fintype Z]

/-- **Changing one value** of a table changes the number of values with `p` by that value alone. -/
theorem card_filter_update [DecidableEq Z] {β : Type*} (p : β → Prop) [DecidablePred p] (f : Z → β)
    (z : Z) (v : β) :
    (Finset.univ.filter fun y => p (Function.update f z v y)).card + (if p (f z) then 1 else 0) =
      (Finset.univ.filter fun y => p (f y)).card + if p v then 1 else 0 := by
  have hsum : ∀ g : Z → β, (Finset.univ.filter fun y => p (g y)).card =
      (if p (g z) then 1 else 0) + ∑ y ∈ Finset.univ.erase z, if p (g y) then 1 else 0 := fun g => by
    rw [Finset.add_sum_erase _ (fun y => if p (g y) then 1 else 0) (Finset.mem_univ z)]
    simp only [Finset.card_eq_sum_ones, Finset.sum_filter]
  have hrest : (∑ y ∈ Finset.univ.erase z, if p (Function.update f z v y) then 1 else 0) =
      ∑ y ∈ Finset.univ.erase z, if p (f y) then 1 else 0 :=
    Finset.sum_congr rfl fun y hy => by rw [Function.update_of_ne (Finset.ne_of_mem_erase hy)]
  rw [hsum f, hsum (Function.update f z v), hrest, Function.update_self]
  omega

/-- The number of open zones. -/
def openCount (d : Z → Zone L) : ℕ := (Finset.univ.filter fun z => (d z).IsOpen).card

theorem openCount_fresh : openCount (fun _ : Z => (Zone.fresh : Zone L)) = 0 := by
  simp [openCount, Zone.IsOpen, Zone.fresh]

variable [DecidableEq Z]

/-- **Changing one zone** changes the count by the change of that zone alone. -/
theorem openCount_update (d : Z → Zone L) (z : Z) (v : Zone L) :
    openCount (Function.update d z v) + (d z).openUnit = openCount d + v.openUnit :=
  card_filter_update Zone.IsOpen d z v

theorem openUnit_le_openCount (d : Z → Zone L) (z : Z) : (d z).openUnit ≤ openCount d := by
  have h := openCount_update d z Zone.fresh
  have h0 : (Zone.fresh : Zone L).openUnit = 0 := by simp [Zone.openUnit, Zone.IsOpen, Zone.fresh]
  omega

end Count

/-! ## Devices -/

section Device

/-- A device: its open zones respect the limit. -/
structure Device (L : Limits) (Z : Type*) [Fintype Z] where
  zones : Z → Zone L
  open_le : openCount zones ≤ L.maxOpen

variable {Z : Type*} [Fintype Z]

namespace Device

/-- The number of open zones of a device. -/
abbrev nOpen (d : Device L Z) : ℕ := openCount d.zones

/-- A device fresh from the factory. -/
def fresh : Device L Z := ⟨fun _ => Zone.fresh, by rw [openCount_fresh]; exact Nat.zero_le _⟩

/-- The refusal of a request by a device. -/
abbrev refuses (d : Device L Z) (z : Z) (op : Op) (p : ℕ) : Option Refusal :=
  refusal d.nOpen (d.zones z) op p

variable [DecidableEq Z]

theorem openCount_next_le (d : Device L Z) {z : Z} {op : Op} {p : ℕ}
    (h : d.refuses z op p = none) :
    openCount (Function.update d.zones z ((d.zones z).next op)) ≤ L.maxOpen := by
  have hupd := openCount_update d.zones z ((d.zones z).next op)
  have hle := d.open_le
  cases op with
  | read =>
    simp only [Zone.next] at hupd ⊢
    omega
  | write =>
    obtain ⟨hcap, -, hlim⟩ := refusal_write_eq_none.mp h
    change _ ∨ openCount d.zones < _ at hlim
    obtain ⟨hw, -⟩ := Zone.next_write hcap
    unfold Zone.openUnit at hupd
    split_ifs at hupd with h1 h2 h2 <;> unfold Zone.IsOpen at h1 h2 <;> omega
  | reset =>
    obtain ⟨hw, -⟩ := Zone.next_reset (refusal_reset_eq_none.mp h)
    unfold Zone.openUnit at hupd
    split_ifs at hupd with h1 h2 h2 <;> unfold Zone.IsOpen at h1 h2 <;> omega

/-- One request: refused and without effect, or accepted. -/
def step (d : Device L Z) (z : Z) (op : Op) (p : ℕ) : Device L Z :=
  if h : d.refuses z op p = none then
    ⟨Function.update d.zones z ((d.zones z).next op), d.openCount_next_le h⟩
  else d

theorem step_of_accepted {d : Device L Z} {z : Z} {op : Op} {p : ℕ}
    (h : d.refuses z op p = none) :
    (d.step z op p).zones = Function.update d.zones z ((d.zones z).next op) := by
  simp [step, h]

end Device

end Device

end Zoned
