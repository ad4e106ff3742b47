import ZnsFlash.Library.Zoned
import Mathlib.Tactic.IntervalCases
import Mathlib.Data.Fintype.Prod

/-!
# The metadata word of a zone

`zns_fsm_validator.v` keeps a zone in one 32-bit word: `wptr` in bits 6..0, the full flag in bit 7
and the erase count in bits 23..16.

* `zoneWptr`, `zoneIsFull`, `zoneEraseCnt`: the fields, `packWord`: the concatenations of the source;
* `LegalWord`, `SpareClear`: the words the rules maintain;
* `Encodes`: a word stands for a `Zoned.Zone` under the limits of the controller.
-/

namespace ZnsFlash

open Zoned

instance bitVecFintype (n : ℕ) : Fintype (BitVec n) :=
  Fintype.ofEquiv (Fin (2 ^ n)) ⟨BitVec.ofFin, BitVec.toFin, fun _ => rfl, fun _ => rfl⟩

/-! ## Fields -/

/-- `safe_bram_rdata[6:0]` -/
def zoneWptr (w : BitVec 32) : BitVec 7 := w.extractLsb' 0 7

/-- `safe_bram_rdata[7]` -/
def zoneIsFull (w : BitVec 32) : Bool := w.getLsbD 7

/-- `safe_bram_rdata[23:16]` -/
def zoneEraseCnt (w : BitVec 32) : BitVec 8 := w.extractLsb' 16 8

/-- `{8'd0, e, 8'd0, f, p}` -/
def packWord (e : BitVec 8) (f : Bool) (p : BitVec 7) : BitVec 32 :=
  0#8 ++ e ++ 0#8 ++ BitVec.ofBool f ++ p

/-- The bits that no field uses are zero. -/
def SpareClear (w : BitVec 32) : Prop := w.extractLsb' 8 8 = 0#8 ∧ w.extractLsb' 24 8 = 0#8

instance (w : BitVec 32) : Decidable (SpareClear w) := inferInstanceAs (Decidable (_ ∧ _))

section Pack

variable (e : BitVec 8) (f : Bool) (p : BitVec 7)

@[simp] theorem zoneWptr_packWord : zoneWptr (packWord e f p) = p := by
  apply BitVec.eq_of_getLsbD_eq
  intro i hi
  simp only [zoneWptr, packWord, BitVec.getLsbD_extractLsb', BitVec.getLsbD_append, hi]
  simp [hi]

@[simp] theorem zoneIsFull_packWord : zoneIsFull (packWord e f p) = f := by
  simp only [zoneIsFull, packWord, BitVec.getLsbD_append]
  simp

@[simp] theorem zoneEraseCnt_packWord : zoneEraseCnt (packWord e f p) = e := by
  apply BitVec.eq_of_getLsbD_eq
  intro i hi
  have h1 : ¬ 16 + i < 7 := by omega
  have h2 : ¬ 16 + i - 7 < 1 := by omega
  have h3 : ¬ 16 + i - 7 - 1 < 8 := by omega
  have h4 : 16 + i - 7 - 1 - 8 = i := by omega
  simp only [zoneEraseCnt, packWord, BitVec.getLsbD_extractLsb', BitVec.getLsbD_append, hi, h1, h2,
    h3, h4, if_false]
  simp

theorem spareClear_packWord : SpareClear (packWord e f p) := by
  refine ⟨BitVec.eq_of_getLsbD_eq fun i hi => ?_, BitVec.eq_of_getLsbD_eq fun i hi => ?_⟩
  · have h1 : ¬ 8 + i < 7 := by omega
    have h2 : ¬ 8 + i - 7 < 1 := by omega
    have h3 : 8 + i - 7 - 1 < 8 := by omega
    simp only [packWord, BitVec.getLsbD_extractLsb', BitVec.getLsbD_append, hi, h1, h2, h3]
    simp
  · have h1 : ¬ 24 + i < 7 := by omega
    have h2 : ¬ 24 + i - 7 < 1 := by omega
    have h3 : ¬ 24 + i - 7 - 1 < 8 := by omega
    have h4 : ¬ 24 + i - 7 - 1 - 8 < 8 := by omega
    simp only [packWord, BitVec.getLsbD_extractLsb', BitVec.getLsbD_append, hi, h1, h2, h3, h4]
    simp

theorem append_zero_eq_packWord : 0#8 ++ e ++ 0#16 = packWord e false 0#7 := by
  apply BitVec.eq_of_getLsbD_eq
  intro i hi
  simp only [packWord, BitVec.getLsbD_append, BitVec.getLsbD_zero, BitVec.getLsbD_ofBool]
  grind

end Pack

theorem packWord_fields {w : BitVec 32} (h : SpareClear w) :
    packWord (zoneEraseCnt w) (zoneIsFull w) (zoneWptr w) = w := by
  apply BitVec.eq_of_getLsbD_eq
  intro i hi
  have h8 := fun j => congrArg (fun v => v.getLsbD j) h.1
  have h24 := fun j => congrArg (fun v => v.getLsbD j) h.2
  simp only [BitVec.getLsbD_extractLsb', BitVec.getLsbD_zero] at h8 h24
  have h8' := h8 (i - 8)
  have h24' := h24 (i - 24)
  simp only [packWord, zoneEraseCnt, zoneIsFull, zoneWptr, BitVec.getLsbD_append,
    BitVec.getLsbD_extractLsb', BitVec.getLsbD_ofBool, BitVec.getLsbD_zero]
  grind

/-! ## Legal words and zones -/

/-- 64 pages a zone, 4 open zones, 10 erases. -/
def znsLimits : Limits := ⟨64, 4, 10⟩

/-- `wptr <= 64`, full exactly at `64`, erase count at most `10`. -/
def LegalWord (w : BitVec 32) : Prop :=
  (zoneWptr w).toNat ≤ 64 ∧ (zoneIsFull w = true ↔ (zoneWptr w).toNat = 64) ∧
    (zoneEraseCnt w).toNat ≤ 10

instance (w : BitVec 32) : Decidable (LegalWord w) := inferInstanceAs (Decidable (_ ∧ _ ∧ _))

/-- A word with `0 < wptr` and the full bit clear. -/
def OpenWord (w : BitVec 32) : Prop := 0#7 < zoneWptr w ∧ zoneIsFull w = false

instance (w : BitVec 32) : Decidable (OpenWord w) := inferInstanceAs (Decidable (_ ∧ _))

/-- **The word `w` stands for the zone `z`.** -/
structure Encodes (w : BitVec 32) (z : Zone znsLimits) : Prop where
  wptr : (zoneWptr w).toNat = z.wptr
  full : zoneIsFull w = decide z.IsFull
  erases : (zoneEraseCnt w).toNat = z.erases

/-- The zone that a legal word stands for. -/
def LegalWord.zone {w : BitVec 32} (h : LegalWord w) : Zone znsLimits :=
  ⟨(zoneWptr w).toNat, (zoneEraseCnt w).toNat, h.1, h.2.2⟩

theorem LegalWord.encodes {w : BitVec 32} (h : LegalWord w) : Encodes w h.zone where
  wptr := rfl
  full := by
    have := h.2.1
    rw [Bool.eq_iff_iff, this, decide_eq_true_iff]
    rfl
  erases := rfl

theorem Encodes.legal {w : BitVec 32} {z : Zone znsLimits} (h : Encodes w z) : LegalWord w := by
  refine ⟨h.wptr ▸ z.wptr_le, ?_, h.erases ▸ z.erases_le⟩
  rw [h.full, decide_eq_true_iff, h.wptr]
  rfl

theorem Encodes.openWord_iff {w : BitVec 32} {z : Zone znsLimits} (h : Encodes w z) :
    OpenWord w ↔ z.IsOpen := by
  have hw := h.wptr
  have hz : z.wptr ≤ 64 := z.wptr_le
  have hf : zoneIsFull w = false ↔ ¬ z.wptr = 64 := by
    rw [h.full, decide_eq_false_iff_not]
    rfl
  rw [OpenWord, hf, BitVec.lt_def, Zone.IsOpen]
  change _ ↔ _ ∧ z.wptr < 64
  simp only [BitVec.toNat_ofNat, Nat.zero_mod]
  omega

theorem encodes_update {ρ : Type*} [DecidableEq ρ] {ram : ρ → BitVec 32} {zones : ρ → Zone znsLimits}
    (h : ∀ a, Encodes (ram a) (zones a)) {r : ρ} {w : BitVec 32} {z : Zone znsLimits}
    (hw : Encodes w z) (a : ρ) :
    Encodes (Function.update ram r w a) (Function.update zones r z a) := by
  by_cases ha : a = r
  · subst ha
    rw [Function.update_self, Function.update_self]
    exact hw
  · rw [Function.update_of_ne ha, Function.update_of_ne ha]
    exact h a

theorem encodes_zero : Encodes 0#32 Zone.fresh := ⟨by decide, by decide, by decide⟩

theorem spareClear_zero : SpareClear 0#32 := by decide

end ZnsFlash
