import ZnsFlash.Rtl.Verilated

/-!
# Masks and flags of the generated simulator

Verilator writes fields as masks and shifts, and conjunctions as bits of integers.

* `flag_and_word`: conjunctions of comparisons;
* `mask_wptr`, `mask_low_byte`, `mask_eraseCnt`: the fields of a word;
* `mask_full_word`, `mask_next_word`, `mask_erased_word`: the three words of `ST_EXECUTE`;
* **`checkWord_eq_rules`**: the tests in turn are the rules checker.
-/

namespace ZnsFlash

/-! ## Flags -/

@[simp] theorem flag_ne_zero {b : Bool} : flag b ≠ 0 ↔ b = true := by
  cases b <;> simp [flag]

@[simp] theorem getLsbD_flag (b : Bool) : (flag b).getLsbD 0 = b := by
  cases b <;> rfl

theorem flag_and_word (a : Bool) (x : BitVec 32) : flag a &&& x = flag (a && x.getLsbD 0) := by
  have hone : 1#32 &&& x = flag (x.getLsbD 0) := by
    apply BitVec.eq_of_getLsbD_eq
    intro i hi
    cases h : x.getLsbD 0 <;> simp [flag] <;> grind
  cases a with
  | false => simp [flag]
  | true =>
    show 1#32 &&& x = _
    rw [hone, Bool.true_and]

/-! ## Fields -/

theorem getLsbD_0x7f : ∀ i < 32, (0x7f#32).getLsbD i = decide (i < 7) := by decide

theorem getLsbD_0xff : ∀ i < 32, (0xff#32).getLsbD i = decide (i < 8) := by decide

theorem getLsbD_0xff0000 : ∀ i < 32, (0xff0000#32).getLsbD i = decide (16 ≤ i ∧ i < 24) := by decide

theorem getLsbD_0xc0 : ∀ i < 32, (0xc0#32).getLsbD i = decide (i = 6 ∨ i = 7) := by decide

theorem getLsbD_sixtyFour : ∀ i < 7, (64#7).getLsbD i = decide (i = 6) := by decide

theorem zeroExtend_eq_ofNat {k l n : ℕ} (p : BitVec l) (hn : n < 2 ^ l) :
    0#k ++ p = BitVec.ofNat (k + l) n ↔ p = BitVec.ofNat l n := by
  have hkl : 2 ^ l ≤ 2 ^ (k + l) := Nat.pow_le_pow_right (by omega) (by omega)
  simp [BitVec.toNat_eq, BitVec.toNat_append, Nat.mod_eq_of_lt hn,
    Nat.mod_eq_of_lt (show n < 2 ^ (k + l) by omega)]

section Fields

variable (w : BitVec 32)

theorem mask_low : 0x7f#32 &&& w = 0#25 ++ w.setWidth 7 := by
  apply BitVec.eq_of_getLsbD_eq
  intro i hi
  have hmask := getLsbD_0x7f i hi
  simp only [BitVec.getLsbD_and, BitVec.getLsbD_append, hmask, BitVec.getLsbD_setWidth]
  grind

theorem zoneWptr_eq_setWidth : zoneWptr w = w.setWidth 7 := by
  apply BitVec.eq_of_getLsbD_eq
  intro i hi
  simp [zoneWptr]

theorem mask_wptr : 0x7f#32 &&& w = 0#25 ++ zoneWptr w := by
  rw [mask_low, zoneWptr_eq_setWidth]

theorem mask_eraseCnt : 0xff#32 &&& (w >>> 0x10) = 0#24 ++ zoneEraseCnt w := by
  apply BitVec.eq_of_getLsbD_eq
  intro i hi
  have hmask := getLsbD_0xff i hi
  simp only [BitVec.getLsbD_and, BitVec.getLsbD_append, hmask, BitVec.getLsbD_ushiftRight,
    zoneEraseCnt, BitVec.getLsbD_extractLsb']
  grind

theorem mask_low_byte : 0xff#32 &&& w = 0 ↔ zoneWptr w = 0 ∧ zoneIsFull w = false := by
  constructor
  · intro h
    have hbit : ∀ i < 8, w.getLsbD i = false := by
      intro i hi
      have h0 := congrArg (fun v => v.getLsbD i) h
      simpa [getLsbD_0xff i (by omega), hi] using h0
    refine ⟨BitVec.eq_of_getLsbD_eq fun i hi => ?_, hbit 7 (by omega)⟩
    simpa [zoneWptr, hi] using hbit i (by omega)
  · intro h
    apply BitVec.eq_of_getLsbD_eq
    intro i hi
    have h0 := congrArg (fun v => v.getLsbD i) h.1
    have h7 : w.getLsbD 7 = false := h.2
    have hmask := getLsbD_0xff i hi
    simp only [zoneWptr, BitVec.getLsbD_extractLsb'] at h0
    simp only [BitVec.getLsbD_and, hmask]
    grind

theorem getLsbD_full : (w >>> 7).getLsbD 0 = zoneIsFull w := by
  simp [zoneIsFull]

/-! ## The words of `ST_EXECUTE` -/

theorem mask_full_word : 0xc0#32 ||| (0xff0000#32 &&& w) = packWord (zoneEraseCnt w) true 64#7 := by
  apply BitVec.eq_of_getLsbD_eq
  intro i hi
  have hc0 := getLsbD_0xc0 i hi
  have hff := getLsbD_0xff0000 i hi
  simp only [packWord, zoneEraseCnt, BitVec.getLsbD_or, BitVec.getLsbD_and, BitVec.getLsbD_append,
    BitVec.getLsbD_extractLsb', BitVec.getLsbD_ofBool, hc0, hff]
  by_cases h7 : i < 7
  · rw [getLsbD_sixtyFour i h7]
    grind
  · grind

theorem mask_next_word :
    (0xff0000#32 &&& w) ||| (0x7f#32 &&& (1#32 + w)) =
      packWord (zoneEraseCnt w) false (zoneWptr w + 1#7) := by
  have hlow : 0x7f#32 &&& (1#32 + w) = 0#25 ++ (zoneWptr w + 1#7) := by
    rw [mask_low, BitVec.setWidth_add _ _ (by omega), zoneWptr_eq_setWidth, BitVec.add_comm]
    rfl
  rw [hlow]
  apply BitVec.eq_of_getLsbD_eq
  intro i hi
  have hff := getLsbD_0xff0000 i hi
  simp only [packWord, zoneEraseCnt, BitVec.getLsbD_or, BitVec.getLsbD_and, BitVec.getLsbD_append,
    BitVec.getLsbD_extractLsb', BitVec.getLsbD_ofBool, hff]
  grind

theorem zoneEraseCnt_eq_setWidth : zoneEraseCnt w = (w >>> 0x10).setWidth 8 := by
  apply BitVec.eq_of_getLsbD_eq
  intro i hi
  simp [zoneEraseCnt, hi]

theorem mask_erased_word :
    0xff0000#32 &&& ((1#32 + (w >>> 0x10)) <<< 0x10) = 0#8 ++ (zoneEraseCnt w + 1#8) ++ 0#16 := by
  have hcnt : zoneEraseCnt w + 1#8 = (1#32 + (w >>> 0x10)).setWidth 8 := by
    rw [BitVec.setWidth_add _ _ (by omega), zoneEraseCnt_eq_setWidth, BitVec.add_comm]
    rfl
  rw [hcnt]
  apply BitVec.eq_of_getLsbD_eq
  intro i hi
  have hff := getLsbD_0xff0000 i hi
  simp only [BitVec.getLsbD_and, BitVec.getLsbD_append, BitVec.getLsbD_shiftLeft,
    BitVec.getLsbD_setWidth, hff]
  grind

end Fields

/-! ## The rules in turn -/

/-- The pins of the design, clock apart. -/
def VerilatedPins.inputs (p : VerilatedPins) : ValidatorPins where
  rst := p.rst
  ioTrigger := p.ioTrigger
  ioCmd := p.ioCmd
  validatedZoneId := p.validatedZoneId
  validatedTargetPage := p.validatedTargetPage
  addrBoundError := p.addrBoundError
  thermalShutdownTripped := p.thermalShutdownTripped
  bramRdata := p.bramRdata

namespace VerilatedRoot

variable {r : VerilatedRoot}

theorem executeWdata_eq :
    r.executeWdata = executeWord r.pins.ioCmd r.pins.bramRdata r.bramWdata := by
  have h63 : 0#25 ++ zoneWptr r.pins.bramRdata = 0x3f#32 ↔ zoneWptr r.pins.bramRdata = 63 :=
    zeroExtend_eq_ofNat _ (by decide)
  simp only [executeWdata, executeWord, mask_full_word, mask_next_word, mask_erased_word]
  simp only [mask_wptr, h63]
  split_ifs <;> rfl

theorem isOpeningNewZone_icoCombTop1 :
    r.icoCombTop1.isOpeningNewZone = ZnsFlash.isOpeningNewZone r.pins.ioCmd r.pins.bramRdata := by
  simp only [icoCombTop1, ZnsFlash.isOpeningNewZone, flag_and_word, getLsbD_flag, flag_ne_zero, Bool.and_eq_true,
    decide_eq_true_eq, mask_low_byte]
  simp

theorem verdict_cons (broken : Bool) (code : BitVec 8) (rest : List (Bool × BitVec 8)) :
    RuleVerdict.mk (((broken, code) :: rest).any Prod.fst) (firstBroken ((broken, code) :: rest)) =
      if broken then ⟨true, code⟩ else ⟨rest.any Prod.fst, firstBroken rest⟩ := by
  cases broken <;> simp [firstBroken]

/-- **The tests of `_ico_comb__TOP__2` in turn are the rules checker**, once `is_opening_new_zone` has its
value. -/
theorem checkWord_eq_rules
    (h : r.isOpeningNewZone = ZnsFlash.isOpeningNewZone r.pins.ioCmd r.pins.bramRdata) :
    checkWord r.pins.inputs r.openZonesCount = ⟨r.rules.any Prod.fst, firstBroken r.rules⟩ := by
  have hworn : 0x0a#32 ≤ 0#24 ++ zoneEraseCnt r.pins.bramRdata ↔
      10 ≤ zoneEraseCnt r.pins.bramRdata := by
    rw [BitVec.le_def, BitVec.le_def, BitVec.toNat_append]
    simp
  have hlast : RuleVerdict.mk (([] : List (Bool × BitVec 8)).any Prod.fst) (firstBroken []) =
      ⟨false, 0⟩ := rfl
  simp only [checkWord, znsRulesChecker, rules, verdict_cons, hlast, VerilatedPins.inputs, flag_and_word,
    getLsbD_flag, getLsbD_full, mask_wptr, mask_eraseCnt, flag_ne_zero, Bool.and_eq_true,
    decide_eq_true_eq, hworn, h, and_assoc]
  congr

end VerilatedRoot

end ZnsFlash
