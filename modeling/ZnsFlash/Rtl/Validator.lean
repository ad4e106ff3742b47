import ZnsFlash.Rtl.Word

/-!
# `zns_fsm_validator` with its rules checker and resources tracker

One positive clock edge of the automaton. Combinational signals are functions of the registers and
of the pins as they stand before the edge; registers take their next values together.

* `znsRulesChecker`, `znsResourcesTracker`: the two submodules;
* `Validator`, `ValidatorPins`, `Validator.posedge`, `Validator.bramAddr`: the automaton;
* `executeWord`: the word written by `ST_EXECUTE`;
* **`errorCode_eq_refusal`**, `encodes_executeWord_write`, `tracker_eq`: the rules, the word and the
  counter in terms of `Zoned`;
* `ZoneTable`, **`ZoneTable.step`**: memory and counter stand for a `Zoned.Device`.
-/

namespace ZnsFlash

open Zoned

/-! ## The rules checker -/

/-- The outputs of `zns_rules_checker`. -/
structure RuleVerdict where
  hasError : Bool
  errorCode : BitVec 8
  deriving DecidableEq

/-- `zns_rules_checker.v`; the pointer is compared after zero extension to 32 bits. -/
def znsRulesChecker (ioCmd : BitVec 8) (validatedTargetPage : BitVec 32) (addrBoundError : Bool)
    (thermalShutdownTripped : Bool) (wptr : BitVec 7) (isFull : Bool) (eraseCnt : BitVec 8)
    (openZonesCount : BitVec 4) (isOpeningNewZone : Bool) : RuleVerdict :=
  if thermalShutdownTripped then ⟨true, 8⟩
  else if ioCmd = 99 then ⟨true, 6⟩
  else if ioCmd = 1 ∧ isFull then ⟨true, 7⟩
  else if ioCmd = 1 ∧ validatedTargetPage ≠ 0#25 ++ wptr then ⟨true, 1⟩
  else if ioCmd = 1 ∧ isOpeningNewZone ∧ 4 ≤ openZonesCount then ⟨true, 2⟩
  else if ioCmd = 0 ∧ 0#25 ++ wptr ≤ validatedTargetPage then ⟨true, 3⟩
  else if ioCmd = 2 ∧ 10 ≤ eraseCnt then ⟨true, 5⟩
  else if addrBoundError then ⟨true, 7⟩
  else ⟨false, 0⟩

/-! ## The resources tracker -/

/-- `zns_resources_tracker.v` at a clock edge. The second assignment wins over the first. -/
def znsResourcesTracker (rst : Bool) (ioCmd : BitVec 8) (stateUpdatePulse : Bool)
    (wptr : BitVec 7) (isFull : Bool) (openZonesCount : BitVec 4) : BitVec 4 :=
  if rst then 0
  else if stateUpdatePulse then
    if ioCmd = 1 ∧ wptr = 63 ∧ 0 < openZonesCount then openZonesCount - 1
    else if ioCmd = 2 ∧ 0 < wptr ∧ ¬ isFull ∧ 0 < openZonesCount then openZonesCount - 1
    else if ioCmd = 1 ∧ wptr = 0 ∧ ¬ isFull then openZonesCount + 1
    else openZonesCount
  else openZonesCount

/-! ## The automaton -/

/-- The control states of `zns_fsm_validator`. -/
inductive FsmState
  | idle
  | bramRead
  | bramWait
  | validate
  | execute
  | updateBram
  | error
  deriving DecidableEq, Repr

/-- The input pins of `zns_fsm_validator`, clock apart. -/
structure ValidatorPins where
  rst : Bool
  ioTrigger : Bool
  ioCmd : BitVec 8
  validatedZoneId : BitVec 32
  validatedTargetPage : BitVec 32
  addrBoundError : Bool
  thermalShutdownTripped : Bool
  bramRdata : BitVec 32
  deriving DecidableEq

/-- The registers of `zns_fsm_validator` and of its tracker. -/
@[ext] structure Validator where
  currentState : FsmState
  openZonesCount : BitVec 4
  bramWdata : BitVec 32
  bramWe : Bool
  outStatus : BitVec 8
  outErrCode : BitVec 8
  deriving DecidableEq

/-- `is_opening_new_zone` -/
def isOpeningNewZone (ioCmd : BitVec 8) (w : BitVec 32) : Bool :=
  ioCmd = 1 ∧ zoneWptr w = 0 ∧ ¬ zoneIsFull w

/-- The checker as wired in the automaton: the zone fields come from `bram_rdata`. -/
def checkWord (p : ValidatorPins) (openZonesCount : BitVec 4) : RuleVerdict :=
  znsRulesChecker p.ioCmd p.validatedTargetPage p.addrBoundError p.thermalShutdownTripped
    (zoneWptr p.bramRdata) (zoneIsFull p.bramRdata) (zoneEraseCnt p.bramRdata) openZonesCount
    (isOpeningNewZone p.ioCmd p.bramRdata)

/-- `bram_wdata` after `ST_EXECUTE`; a command that is neither `1` nor `2` leaves the register. -/
def executeWord (ioCmd : BitVec 8) (w wdata : BitVec 32) : BitVec 32 :=
  if ioCmd = 1 then
    if zoneWptr w = 63 then packWord (zoneEraseCnt w) true 64
    else packWord (zoneEraseCnt w) false (zoneWptr w + 1)
  else if ioCmd = 2 then 0#8 ++ (zoneEraseCnt w + 1) ++ 0#16
  else wdata

/-- `next_state` -/
def nextState (v : Validator) (p : ValidatorPins) : FsmState :=
  match v.currentState with
  | .idle => if p.ioTrigger then .bramRead else .idle
  | .bramRead => .bramWait
  | .bramWait => .validate
  | .validate => if (checkWord p v.openZonesCount).hasError then .error else .execute
  | .execute => .updateBram
  | .updateBram => if p.ioTrigger then .updateBram else .idle
  | .error => if p.ioTrigger then .error else .idle

/-- The combinational output `bram_addr`. -/
def Validator.bramAddr (v : Validator) (p : ValidatorPins) : BitVec 32 :=
  if v.currentState ≠ .idle ∨ p.ioTrigger then p.validatedZoneId else 0

/-- The output registers at a clock edge with `rst` low. -/
def Validator.outputs (v : Validator) (p : ValidatorPins) : Validator :=
  match v.currentState with
  | .idle => { v with outStatus := 0, bramWe := false }
  | .bramRead => { v with outStatus := 2 }
  | .error =>
    { v with outStatus := 1, outErrCode := (checkWord p v.openZonesCount).errorCode }
  | .execute =>
    { v with bramWe := true, bramWdata := executeWord p.ioCmd p.bramRdata v.bramWdata }
  | .updateBram => { v with outStatus := 3, outErrCode := 0, bramWe := false }
  | .bramWait | .validate => v

/-- The asynchronous reset; the tracker only sees `rst` at a clock edge. -/
def Validator.asyncReset (v : Validator) : Validator :=
  { v with
    currentState := .idle, bramWdata := 0, bramWe := false, outStatus := 0, outErrCode := 0 }

/-- **One rising edge of the clock.** -/
def Validator.posedge (v : Validator) (p : ValidatorPins) : Validator :=
  let openZonesCount := znsResourcesTracker p.rst p.ioCmd (v.currentState = .execute)
    (zoneWptr p.bramRdata) (zoneIsFull p.bramRdata) v.openZonesCount
  if p.rst then { v.asyncReset with openZonesCount }
  else { v.outputs p with currentState := nextState v p, openZonesCount }

theorem posedge_rst {v : Validator} {p : ValidatorPins} (h : p.rst = true) :
    v.posedge p = { v.asyncReset with openZonesCount := 0 } := by
  simp [Validator.posedge, znsResourcesTracker, h]

section Edges

variable {v : Validator} {p : ValidatorPins} (hr : p.rst = false)

include hr

theorem posedge_idle (h : v.currentState = .idle) :
    v.posedge p = { v with
      currentState := if p.ioTrigger then .bramRead else .idle, outStatus := 0, bramWe := false } := by
  simp [Validator.posedge, Validator.outputs, nextState, znsResourcesTracker, h, hr]

theorem posedge_bramRead (h : v.currentState = .bramRead) :
    v.posedge p = { v with currentState := .bramWait, outStatus := 2 } := by
  simp [Validator.posedge, Validator.outputs, nextState, znsResourcesTracker, h, hr]

theorem posedge_bramWait (h : v.currentState = .bramWait) :
    v.posedge p = { v with currentState := .validate } := by
  simp [Validator.posedge, Validator.outputs, nextState, znsResourcesTracker, h, hr]

theorem posedge_validate (h : v.currentState = .validate) :
    v.posedge p = { v with currentState :=
      if (checkWord p v.openZonesCount).hasError then .error else .execute } := by
  simp [Validator.posedge, Validator.outputs, nextState, znsResourcesTracker, h, hr]

theorem posedge_execute (h : v.currentState = .execute) :
    v.posedge p = { v with
      currentState := .updateBram, bramWe := true
      bramWdata := executeWord p.ioCmd p.bramRdata v.bramWdata
      openZonesCount := znsResourcesTracker false p.ioCmd true (zoneWptr p.bramRdata)
        (zoneIsFull p.bramRdata) v.openZonesCount } := by
  simp [Validator.posedge, Validator.outputs, nextState, h, hr]

theorem posedge_updateBram (h : v.currentState = .updateBram) :
    v.posedge p = { v with
      currentState := if p.ioTrigger then .updateBram else .idle
      outStatus := 3, outErrCode := 0, bramWe := false } := by
  simp [Validator.posedge, Validator.outputs, nextState, znsResourcesTracker, h, hr]

theorem posedge_error (h : v.currentState = .error) :
    v.posedge p = { v with
      currentState := if p.ioTrigger then .error else .idle
      outStatus := 1, outErrCode := (checkWord p v.openZonesCount).errorCode } := by
  simp [Validator.posedge, Validator.outputs, nextState, znsResourcesTracker, h, hr]

end Edges

/-- A status that ends a transaction. -/
def FinalStatus (s : BitVec 8) : Prop := s = 1 ∨ s = 3

instance (s : BitVec 8) : Decidable (FinalStatus s) := inferInstanceAs (Decidable (_ ∨ _))

/-! ## The rules in terms of zones -/

/-- The command byte of a request. -/
def cmdOf : Op → BitVec 8
  | .read => 0
  | .write => 1
  | .reset => 2

/-- The error code of a refusal. -/
def refusalCode : Refusal → BitVec 8
  | .full => 7
  | .outOfOrder => 1
  | .openLimit => 2
  | .notWritten => 3
  | .wornOut => 5

/-- The code of a refusal, or that of the address bound when the zone refuses nothing. -/
def zoneCode (r : Option Refusal) (addrBoundError : Bool) : BitVec 8 :=
  match r with
  | some r => refusalCode r
  | none => if addrBoundError then 7 else 0

theorem refusalCode_ne_zero (r : Refusal) : refusalCode r ≠ 0 := by
  cases r <;> decide

theorem checkWord_hasError (p : ValidatorPins) (n : BitVec 4) :
    (checkWord p n).hasError = true ↔ (checkWord p n).errorCode ≠ 0 := by
  unfold checkWord znsRulesChecker
  split_ifs <;> simp

theorem zeroExtend_wptr_toNat (w : BitVec 7) : (0#25 ++ w).toNat = w.toNat := by
  rw [BitVec.toNat_append]
  simp

section Zones

variable {w : BitVec 32} {z : Zone znsLimits}

theorem Encodes.page_ne (hz : Encodes w z) (page : BitVec 32) :
    page ≠ 0#25 ++ zoneWptr w ↔ page.toNat ≠ z.wptr := by
  rw [ne_eq, BitVec.toNat_eq, zeroExtend_wptr_toNat, hz.wptr]

theorem Encodes.wptr_le_page (hz : Encodes w z) (page : BitVec 32) :
    0#25 ++ zoneWptr w ≤ page ↔ z.wptr ≤ page.toNat := by
  rw [BitVec.le_def, zeroExtend_wptr_toNat, hz.wptr]

theorem Encodes.ten_le (hz : Encodes w z) : 10 ≤ zoneEraseCnt w ↔ 10 ≤ z.erases := by
  rw [BitVec.le_def, hz.erases]
  rfl

theorem Encodes.isFull (hz : Encodes w z) : zoneIsFull w = true ↔ z.IsFull := by
  rw [hz.full, decide_eq_true_iff]

theorem Encodes.wptr_eq (hz : Encodes w z) (k : BitVec 7) :
    zoneWptr w = k ↔ z.wptr = k.toNat := by
  rw [BitVec.toNat_eq, hz.wptr]

theorem Encodes.wptr_pos (hz : Encodes w z) : 0 < zoneWptr w ↔ 0 < z.wptr := by
  rw [BitVec.lt_def, hz.wptr]
  rfl

theorem Encodes.isOpeningNewZone (hz : Encodes w z) :
    isOpeningNewZone 1 w = true ↔ z.wptr = 0 := by
  have h0 : z.wptr = 0 → ¬ z.IsFull := fun h hf => by
    rw [Zone.IsFull, h] at hf
    exact absurd hf (by decide)
  simp only [ZnsFlash.isOpeningNewZone, true_and, decide_eq_true_eq, hz.wptr_eq, hz.isFull]
  exact ⟨fun h => h.1, fun h => ⟨h, h0 h⟩⟩

/-- **The checker refuses what the zone refuses**, with the code of the first broken rule; the
address bound comes last. -/
theorem errorCode_eq_refusal {p : ValidatorPins} {n : BitVec 4} {op : Op}
    (hz : Encodes p.bramRdata z) (hop : p.ioCmd = cmdOf op) :
    (checkWord p n).errorCode =
      if p.thermalShutdownTripped then 8
      else zoneCode (refusal n.toNat z op p.validatedTargetPage.toNat) p.addrBoundError := by
  have hn : 4 ≤ n ↔ znsLimits.maxOpen ≤ n.toNat := BitVec.le_def
  have he : 10 ≤ zoneEraseCnt p.bramRdata ↔ znsLimits.maxErases ≤ z.erases := hz.ten_le
  cases op <;>
    simp only [checkWord, znsRulesChecker, hop, cmdOf, refusal, hz.page_ne, hz.wptr_le_page, he,
      hz.isFull, hn] <;>
    simp only [hz.isOpeningNewZone, BitVec.reduceEq, false_and, true_and, if_false] <;>
    split_ifs <;> simp_all [refusalCode, zoneCode]

/-- What the rules ask of the word `w` and the open counter `n` for a request on page `p`. -/
def PermitsWord (op : Op) (p : ℕ) (w : BitVec 32) (n : BitVec 4) : Prop :=
  match op with
  | .write => zoneIsFull w = false ∧ p = (zoneWptr w).toNat ∧ (zoneWptr w ≠ 0 ∨ n < 4)
  | .read => p < (zoneWptr w).toNat
  | .reset => zoneEraseCnt w < 10

instance (op : Op) (p : ℕ) (w : BitVec 32) (n : BitVec 4) : Decidable (PermitsWord op p w n) :=
  match op with
  | .write => inferInstanceAs (Decidable (_ ∧ _ ∧ _))
  | .read => inferInstanceAs (Decidable (p < _))
  | .reset => inferInstanceAs (Decidable (zoneEraseCnt w < 10))

theorem permitsWord_zero {op : Op} {p : ℕ} {n : BitVec 4} :
    ¬ PermitsWord op p 0 n ↔
      match op with
      | .read => True
      | .write => p ≠ 0 ∨ 4 ≤ n
      | .reset => False := by
  have hw : zoneWptr 0 = 0 := by decide
  have hf : zoneIsFull 0 = false := by decide
  have he : zoneEraseCnt 0 < 10 := by decide
  have hfew : n < 4 ↔ ¬ 4 ≤ n := by simp
  cases op with
  | read =>
    rw [PermitsWord, hw]
    exact ⟨fun _ => trivial, fun _ => Nat.not_lt_zero p⟩
  | write =>
    simp only [PermitsWord, hw, hf, hfew, true_and, ne_eq, not_true_eq_false, false_or, not_and_or,
      not_not]
    rfl
  | reset => exact ⟨fun h => h he, False.elim⟩

/-- **The checker lets a request pass** exactly when the word permits it, with the thermal flag and
the address bound low; the word need not be legal. -/
theorem checkWord_permits {p : ValidatorPins} {n : BitVec 4} {op : Op} (hop : p.ioCmd = cmdOf op) :
    (checkWord p n).hasError = false ↔
      p.thermalShutdownTripped = false ∧ p.addrBoundError = false ∧
        PermitsWord op p.validatedTargetPage.toNat p.bramRdata n := by
  have hpage : p.validatedTargetPage ≠ 0#25 ++ zoneWptr p.bramRdata ↔
      p.validatedTargetPage.toNat ≠ (zoneWptr p.bramRdata).toNat := by
    rw [ne_eq, BitVec.toNat_eq, zeroExtend_wptr_toNat]
  have hread : 0#25 ++ zoneWptr p.bramRdata ≤ p.validatedTargetPage ↔
      ¬ p.validatedTargetPage.toNat < (zoneWptr p.bramRdata).toNat := by
    rw [BitVec.le_def, zeroExtend_wptr_toNat, not_lt]
  have hfew : n < 4 ↔ ¬ 4 ≤ n := by simp
  have hworn : zoneEraseCnt p.bramRdata < 10 ↔ ¬ 10 ≤ zoneEraseCnt p.bramRdata := by simp
  cases op <;>
    simp only [checkWord, znsRulesChecker, hop, cmdOf, PermitsWord, isOpeningNewZone, hpage, hread,
      hfew, hworn, BitVec.reduceEq, false_and, true_and, if_false] <;>
    split_ifs <;> simp_all [imp_iff_not_or]

theorem permitsWord_iff (hz : Encodes w z) {op : Op} {p : ℕ} {n : BitVec 4} :
    PermitsWord op p w n ↔ refusal n.toNat z op p = none := by
  cases op with
  | write =>
    have hfull : zoneIsFull w = false ↔ z.wptr < 64 := by
      have hz64 : z.wptr ≤ 64 := z.wptr_le
      rw [← Bool.not_eq_true, hz.isFull]
      change ¬ z.wptr = 64 ↔ _
      omega
    rw [PermitsWord, refusal_write_eq_none, hfull, hz.wptr, ne_eq, hz.wptr_eq, BitVec.lt_def]
    rfl
  | read => rw [PermitsWord, refusal_read_eq_none, hz.wptr]
  | reset =>
    rw [PermitsWord, refusal_reset_eq_none, BitVec.lt_def, hz.erases]
    rfl

/-- **The word of an accepted write** is the word of the next zone. -/
theorem encodes_executeWord_write (hz : Encodes w z) (h : z.wptr < 64) (d : BitVec 32) :
    Encodes (executeWord 1 w d) (z.next .write) := by
  obtain ⟨hw, he⟩ := Zone.next_write (L := znsLimits) h
  unfold executeWord
  rw [if_pos rfl]
  split_ifs with h63
  · have h63' : z.wptr = 63 := (hz.wptr_eq 63).mp h63
    refine ⟨?_, ?_, ?_⟩
    · rw [zoneWptr_packWord, hw, h63']; rfl
    · rw [zoneIsFull_packWord, eq_comm, decide_eq_true_iff, Zone.IsFull, hw, h63']; rfl
    · rw [zoneEraseCnt_packWord, he, hz.erases]
  · have h63' : z.wptr ≠ 63 := fun e => h63 ((hz.wptr_eq 63).mpr e)
    refine ⟨?_, ?_, ?_⟩
    · rw [zoneWptr_packWord, hw, BitVec.toNat_add, hz.wptr]
      exact Nat.mod_eq_of_lt (by change z.wptr + 1 < 128; omega)
    · rw [zoneIsFull_packWord, eq_comm, decide_eq_false_iff_not, Zone.IsFull, hw]
      change ¬ z.wptr + 1 = 64
      omega
    · rw [zoneEraseCnt_packWord, he, hz.erases]

/-- **The word of an accepted reset** is the word of the emptied zone. -/
theorem encodes_executeWord_reset (hz : Encodes w z) (h : z.erases < 10) (d : BitVec 32) :
    Encodes (executeWord 2 w d) (z.next .reset) := by
  obtain ⟨hw, he⟩ := Zone.next_reset (L := znsLimits) h
  have hword : executeWord 2 w d = packWord (zoneEraseCnt w + 1) false 0 := by
    rw [executeWord, if_neg (by decide), if_pos rfl, append_zero_eq_packWord]
    rfl
  rw [hword]
  refine ⟨?_, ?_, ?_⟩
  · rw [zoneWptr_packWord, hw]; rfl
  · rw [zoneIsFull_packWord, eq_comm, decide_eq_false_iff_not, Zone.IsFull, hw]; decide
  · rw [zoneEraseCnt_packWord, he, BitVec.toNat_add, hz.erases]
    exact Nat.mod_eq_of_lt (by change z.erases + 1 < 256; omega)

theorem spareClear_executeWord {cmd : BitVec 8} (h : cmd = 1 ∨ cmd = 2) (d : BitVec 32) :
    SpareClear (executeWord cmd w d) := by
  unfold executeWord
  split_ifs with h1 h63 h2
  · exact spareClear_packWord _ _ _
  · exact spareClear_packWord _ _ _
  · rw [append_zero_eq_packWord]; exact spareClear_packWord _ _ _
  · exact absurd h (not_or.mpr ⟨h1, h2⟩)

theorem openUnit_eq (z : Zone znsLimits) :
    z.openUnit = if 0 < z.wptr ∧ z.wptr < 64 then 1 else 0 := rfl

theorem toNat_pred {n : BitVec 4} (h : 0 < n.toNat) : (n - 1).toNat = n.toNat - 1 :=
  BitVec.toNat_sub_of_le (BitVec.le_def.mpr h)

/-- **The counter follows the zone**: an accepted request on an encoded zone moves it by the change
of that zone, and it never wraps. -/
theorem tracker_eq {n : BitVec 4} {op : Op} {p : ℕ} (hz : Encodes w z)
    (hacc : refusal n.toNat z op p = none) (hn : z.openUnit ≤ n.toNat) (hn4 : n.toNat ≤ 4) :
    (znsResourcesTracker false (cmdOf op) true (zoneWptr w) (zoneIsFull w) n).toNat + z.openUnit =
      n.toNat + (z.next op).openUnit := by
  have hpos : 0 < n ↔ 0 < n.toNat := BitVec.lt_def
  have hz64 : z.wptr ≤ 64 := z.wptr_le
  have hfull : z.IsFull ↔ z.wptr = 64 := Iff.rfl
  simp only [openUnit_eq] at hn ⊢
  cases op with
  | read =>
    have hkeep : znsResourcesTracker false (cmdOf .read) true (zoneWptr w) (zoneIsFull w) n = n := by
      simp [znsResourcesTracker, cmdOf]
    rw [hkeep]
    rfl
  | write =>
    obtain ⟨hcap, -, -⟩ := refusal_write_eq_none.mp hacc
    change z.wptr < 64 at hcap
    simp only [znsResourcesTracker, cmdOf, hz.wptr_eq, hz.isFull, hpos, hfull,
      (Zone.next_write (L := znsLimits) hcap).1]
    simp only [Bool.false_eq_true, BitVec.reduceEq, false_and, true_and, if_false, if_true]
    -- the zone opens at page 0, closes at page 63 and stays open in between
    rcases (by omega : z.wptr = 0 ∨ z.wptr = 63 ∨ (0 < z.wptr ∧ z.wptr < 63)) with h | h | h
    · simp [h]
      omega
    · have h0 : 0 < n.toNat := by simp [h] at hn; omega
      simp only [h, h0]
      simp
      omega
    · have h63 : z.wptr ≠ 63 := by omega
      have h0 : z.wptr ≠ 0 := by omega
      simp [h63, h0, h.1, hcap]
      omega
  | reset =>
    have her := refusal_reset_eq_none.mp hacc
    simp only [znsResourcesTracker, cmdOf, hz.wptr_eq, hz.wptr_pos, hz.isFull, hpos, hfull,
      (Zone.next_reset her).1]
    simp only [Bool.false_eq_true, BitVec.reduceEq, false_and, true_and, if_false, if_true]
    -- only an open zone releases its place
    by_cases h : 0 < z.wptr ∧ z.wptr < 64
    · have h0 : 0 < n.toNat := by simp [h] at hn; omega
      have h64 : z.wptr ≠ 64 := by omega
      simp only [h, h0, h64, and_self, not_false_eq_true, if_true, toNat_pred h0]
      simp
      omega
    · have h64 : ¬ (0 < z.wptr ∧ ¬ z.wptr = 64 ∧ 0 < n.toNat) := by omega
      simp [h, h64]

end Zones

/-! ## A memory of zone words -/

section Table

variable {ρ : Type*} [Fintype ρ]

/-- **The words `ram` and the open counter `count` stand for the device `d`.** -/
structure ZoneTable (ram : ρ → BitVec 32) (count : BitVec 4) (d : Device znsLimits ρ) : Prop where
  encodes : ∀ a, Encodes (ram a) (d.zones a)
  spare : ∀ a, SpareClear (ram a)
  count : count.toNat = d.nOpen

theorem zoneTable_fresh : ZoneTable (fun _ : ρ => 0) 0 Device.fresh where
  encodes _ := encodes_zero
  spare _ := spareClear_zero
  count := openCount_fresh.symm

variable {ram : ρ → BitVec 32} {count : BitVec 4} {d : Device znsLimits ρ} {op : Op} {r : ρ} {p : ℕ}

/-- The word of an accepted request is that of the next zone, when a read finds its own word in
`bram_wdata`. -/
theorem ZoneTable.encodes_next (h : ZoneTable ram count d) (hacc : d.refuses r op p = none)
    (wdata : BitVec 32) (hread : op = .read → wdata = ram r) :
    Encodes (executeWord (cmdOf op) (ram r) wdata) ((d.zones r).next op) ∧
      SpareClear (executeWord (cmdOf op) (ram r) wdata) := by
  have hz := h.encodes r
  cases op with
  | read =>
    have hword : executeWord (cmdOf .read) (ram r) wdata = ram r := hread rfl
    rw [hword]
    exact ⟨hz, h.spare r⟩
  | write =>
    exact ⟨encodes_executeWord_write hz (refusal_write_eq_none.mp hacc).1 _,
      spareClear_executeWord (.inl rfl) _⟩
  | reset =>
    exact ⟨encodes_executeWord_reset hz (refusal_reset_eq_none.mp hacc) _,
      spareClear_executeWord (.inr rfl) _⟩

variable [DecidableEq ρ]

/-- **An accepted request takes table and counter to those of the next device.** -/
theorem ZoneTable.step (h : ZoneTable ram count d) (hacc : d.refuses r op p = none)
    (wdata : BitVec 32) (hread : op = .read → wdata = ram r) :
    ZoneTable (Function.update ram r (executeWord (cmdOf op) (ram r) wdata))
      (znsResourcesTracker false (cmdOf op) true (zoneWptr (ram r)) (zoneIsFull (ram r)) count)
      (d.step r op p) where
  encodes := by
    rw [Device.step_of_accepted hacc]
    exact encodes_update h.encodes (h.encodes_next hacc wdata hread).1
  spare := (Function.forall_update_iff _ fun _ w => SpareClear w).mpr
    ⟨(h.encodes_next hacc wdata hread).2, fun a _ => h.spare a⟩
  count := by
    have hcount := tracker_eq (n := count) (h.encodes r) (by rw [h.count]; exact hacc)
      (by rw [h.count]; exact openUnit_le_openCount d.zones r) (by rw [h.count]; exact d.open_le)
    have hupd := openCount_update d.zones r ((d.zones r).next op)
    rw [h.count] at hcount
    rw [Device.nOpen, Device.step_of_accepted hacc]
    change _ + _ = openCount d.zones + _ at hcount
    omega

end Table

end ZnsFlash
