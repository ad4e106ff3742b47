import ZnsFlash.Rtl.Validator
import ZnsFlash.Library.Runs
import Mathlib.Data.Rat.Defs

/-!
# The co-simulation bridge

`hardware_bridge.cpp` clocks a `zns_fsm_validator` without resolver and memory: it drives the pins
itself and answers `bram_addr` from `mock_bram_storage`.

* `Bridge`, `Bridge.verilatorTickHardware`, the `sim_set_*` setters and `Bridge.simGetOutStatus`;
* `tick_idle` … `tick_error`: one tick in each control state;
* **`Bridge.completes_cases`**: a held command ends after five or six ticks, in closed form;
* **`Bridge.hasError_false_iff`**, **`Bridge.table_executed`**: commands as steps of a `Zoned.Device`.
-/

namespace ZnsFlash

open Zoned Runs

/-- `Controller::check_thermal_shutdown` -/
def checkThermalShutdown (currentTemperature : ℚ) : Bool := 85 ≤ currentTemperature

/-- The verilated automaton with its pins, and the memory of the bridge. -/
structure Bridge where
  fsm : Validator
  rst : Bool
  ioTrigger : Bool
  ioCmd : BitVec 8
  validatedZoneId : BitVec 32
  validatedTargetPage : BitVec 32
  /-- The output `bram_addr` as the last evaluation left it. -/
  bramAddr : BitVec 32
  mockBramStorage : BitVec 10 → BitVec 32
  bramRdataLatch : BitVec 32
  /-- The temperature of the controller behind `global_controller_ptr`, if it is not null. -/
  globalControllerPtr : Option ℚ

/-- The cell of `mock_bram_storage` of an address below 1024. -/
def cell (addr : BitVec 32) : BitVec 10 := addr.setWidth 10

namespace Bridge

/-- `thermal_shutdown_tripped` as a tick sets it. -/
def thermal (b : Bridge) : Bool := b.globalControllerPtr.elim false checkThermalShutdown

/-- The pins of the automaton; `addr_bound_error` is tied to zero. -/
def pins (b : Bridge) (bramRdata : BitVec 32) : ValidatorPins where
  rst := b.rst
  ioTrigger := b.ioTrigger
  ioCmd := b.ioCmd
  validatedZoneId := b.validatedZoneId
  validatedTargetPage := b.validatedTargetPage
  addrBoundError := false
  thermalShutdownTripped := b.thermal
  bramRdata := bramRdata

/-- The pin `bram_rdata` at the rising edge. -/
def rdata (b : Bridge) : BitVec 32 := if b.bramAddr < 1024 then b.bramRdataLatch else 0

/-- `bram_rdata_latch` after the rising edge. -/
def latched (b : Bridge) : BitVec 32 :=
  if b.bramAddr < 1024 then b.mockBramStorage (cell b.bramAddr) else b.bramRdataLatch

/-- **`verilator_tick_hardware`.** Address, word and write all use the `bram_addr` evaluated before
the edge, the write enable and the data are those after it. -/
def verilatorTickHardware (b : Bridge) : Bridge :=
  let fsm := b.fsm.posedge (b.pins b.rdata)
  { b with
    fsm
    bramRdataLatch := b.latched
    mockBramStorage :=
      if fsm.bramWe ∧ b.bramAddr < 1024 then
        Function.update b.mockBramStorage (cell b.bramAddr) fsm.bramWdata
      else b.mockBramStorage
    bramAddr := fsm.bramAddr (b.pins b.latched) }

def simSetIoTrigger (val : Bool) (b : Bridge) : Bridge := { b with ioTrigger := val }

def simSetIoCmd (val : BitVec 8) (b : Bridge) : Bridge := { b with ioCmd := val }

def simSetValidatedTargetPage (val : BitVec 32) (b : Bridge) : Bridge :=
  { b with validatedTargetPage := val }

def simSetValidatedZoneId (val : BitVec 32) (b : Bridge) : Bridge := { b with validatedZoneId := val }

/-- `sim_get_out_status` ticks before it reads. -/
def simGetOutStatus (b : Bridge) : Bridge × BitVec 8 :=
  (b.verilatorTickHardware, b.verilatorTickHardware.fsm.outStatus)

def simGetOutErrCode (b : Bridge) : BitVec 8 := b.fsm.outErrCode

/-- Start-up: zeroed memory and pins, one tick with `rst` high and one with it low. -/
def powerUp (junk : Validator) (addr : BitVec 32) (temperature : Option ℚ) : Bridge :=
  let b : Bridge := ⟨junk, true, false, 0, 0, 0, addr, fun _ => 0, 0, temperature⟩
  { b.verilatorTickHardware with rst := false }.verilatorTickHardware

/-! ## One tick in each control state -/

/-- `bram_addr` once the automaton is in state `st`. -/
def addrIn (b : Bridge) (st : FsmState) : BitVec 32 :=
  if st ≠ .idle ∨ b.ioTrigger then b.validatedZoneId else 0

section Tick

variable {b : Bridge} (hr : b.rst = false)

theorem tick_of_we {fsm : Validator} (h : b.fsm.posedge (b.pins b.rdata) = fsm)
    (hwe : fsm.bramWe = false) :
    b.verilatorTickHardware =
      { b with fsm, bramRdataLatch := b.latched, bramAddr := b.addrIn fsm.currentState } := by
  subst h
  simp only [verilatorTickHardware, hwe, Bool.false_eq_true, false_and, if_false]
  rfl

include hr

theorem tick_idle (h : b.fsm.currentState = .idle) :
    b.verilatorTickHardware =
      { b with
        fsm := { b.fsm with
          currentState := if b.ioTrigger then .bramRead else .idle, outStatus := 0, bramWe := false }
        bramRdataLatch := b.latched
        bramAddr := b.addrIn (if b.ioTrigger then .bramRead else .idle) } :=
  tick_of_we (posedge_idle hr h) rfl

theorem tick_bramRead (h : b.fsm.currentState = .bramRead) (hwe : b.fsm.bramWe = false) :
    b.verilatorTickHardware =
      { b with
        fsm := { b.fsm with currentState := .bramWait, outStatus := 2 }
        bramRdataLatch := b.latched, bramAddr := b.validatedZoneId } :=
  tick_of_we (posedge_bramRead hr h) hwe

theorem tick_bramWait (h : b.fsm.currentState = .bramWait) (hwe : b.fsm.bramWe = false) :
    b.verilatorTickHardware =
      { b with
        fsm := { b.fsm with currentState := .validate }
        bramRdataLatch := b.latched, bramAddr := b.validatedZoneId } :=
  tick_of_we (posedge_bramWait hr h) hwe

theorem tick_validate (h : b.fsm.currentState = .validate) (hwe : b.fsm.bramWe = false) :
    b.verilatorTickHardware =
      { b with
        fsm := { b.fsm with currentState :=
          if (checkWord (b.pins b.rdata) b.fsm.openZonesCount).hasError then .error else .execute }
        bramRdataLatch := b.latched, bramAddr := b.validatedZoneId } := by
  rw [tick_of_we (posedge_validate hr h) hwe]
  unfold addrIn
  split_ifs <;> simp_all

theorem tick_execute (h : b.fsm.currentState = .execute) :
    b.verilatorTickHardware =
      { b with
        fsm := { b.fsm with
          currentState := .updateBram, bramWe := true
          bramWdata := executeWord b.ioCmd b.rdata b.fsm.bramWdata
          openZonesCount := znsResourcesTracker false b.ioCmd true (zoneWptr b.rdata)
            (zoneIsFull b.rdata) b.fsm.openZonesCount }
        bramRdataLatch := b.latched
        mockBramStorage :=
          if b.bramAddr < 1024 then
            Function.update b.mockBramStorage (cell b.bramAddr)
              (executeWord b.ioCmd b.rdata b.fsm.bramWdata)
          else b.mockBramStorage
        bramAddr := b.validatedZoneId } := by
  have hedge : b.fsm.posedge (b.pins b.rdata) = _ := posedge_execute hr h
  simp only [verilatorTickHardware, hedge, true_and]
  rfl

theorem tick_updateBram (h : b.fsm.currentState = .updateBram) :
    b.verilatorTickHardware =
      { b with
        fsm := { b.fsm with
          currentState := if b.ioTrigger then .updateBram else .idle
          outStatus := 3, outErrCode := 0, bramWe := false }
        bramRdataLatch := b.latched
        bramAddr := b.addrIn (if b.ioTrigger then .updateBram else .idle) } :=
  tick_of_we (posedge_updateBram hr h) rfl

theorem tick_error (h : b.fsm.currentState = .error) (hwe : b.fsm.bramWe = false) :
    b.verilatorTickHardware =
      { b with
        fsm := { b.fsm with
          currentState := if b.ioTrigger then .error else .idle, outStatus := 1
          outErrCode := (checkWord (b.pins b.rdata) b.fsm.openZonesCount).errorCode }
        bramRdataLatch := b.latched
        bramAddr := b.addrIn (if b.ioTrigger then .error else .idle) } :=
  tick_of_we (posedge_error hr h) hwe

end Tick

/-! ## A command from raising the trigger to its final status -/

/-- The pins are set, the trigger is up and the automaton is idle. -/
structure Armed (b : Bridge) : Prop where
  rst : b.rst = false
  ioTrigger : b.ioTrigger = true
  idle : b.fsm.currentState = .idle
  we : b.fsm.bramWe = false

/-- The word of the zone on the pins; past the array it reads as zero. -/
def word (b : Bridge) : BitVec 32 :=
  if b.validatedZoneId < 1024 then b.mockBramStorage (cell b.validatedZoneId) else 0

/-- The verdict of the rules checker on the pins and the present word of their zone. -/
def verdict (b : Bridge) : RuleVerdict := checkWord (b.pins b.word) b.fsm.openZonesCount

/-- `bram_rdata_latch` once the address of the pins is out. -/
def settled (b : Bridge) : BitVec 32 :=
  if b.validatedZoneId < 1024 then b.mockBramStorage (cell b.validatedZoneId) else b.latched

/-- The bridge in control state `st` while the command on the pins is fetched and checked. -/
def fetching (b : Bridge) (st : FsmState) (latch : BitVec 32) (status : BitVec 8) : Bridge :=
  { b with
    fsm := { b.fsm with currentState := st, outStatus := status, bramWe := false }
    bramRdataLatch := latch, bramAddr := b.validatedZoneId }

/-- The memory after an approved command. -/
def stored (b : Bridge) : BitVec 10 → BitVec 32 :=
  if b.validatedZoneId < 1024 then
    Function.update b.mockBramStorage (cell b.validatedZoneId)
      (executeWord b.ioCmd b.word b.fsm.bramWdata)
  else b.mockBramStorage

/-- The bridge after `ST_EXECUTE`. -/
def executed (b : Bridge) : Bridge :=
  { b with
    fsm := { b.fsm with
      currentState := .updateBram, outStatus := 2, bramWe := true
      bramWdata := executeWord b.ioCmd b.word b.fsm.bramWdata
      openZonesCount := znsResourcesTracker false b.ioCmd true (zoneWptr b.word)
        (zoneIsFull b.word) b.fsm.openZonesCount }
    bramRdataLatch := b.settled, mockBramStorage := b.stored, bramAddr := b.validatedZoneId }

/-- The bridge with a final status after a rejected command. -/
def rejected (b : Bridge) : Bridge :=
  { b with
    fsm := { b.fsm with
      currentState := .error, outStatus := 1, outErrCode := b.verdict.errorCode, bramWe := false }
    bramRdataLatch := b.settled, bramAddr := b.validatedZoneId }

/-- The bridge with a final status after an approved command. -/
def approved (b : Bridge) : Bridge :=
  { b.executed with
    fsm := { b.executed.fsm with outStatus := 3, outErrCode := 0, bramWe := false }
    bramRdataLatch := b.executed.latched }

section Transaction

variable {b : Bridge}

theorem latched_fetching (st : FsmState) (status : BitVec 8) :
    (b.fetching st b.latched status).latched = b.settled := rfl

theorem latched_settled (st : FsmState) (status : BitVec 8) :
    (b.fetching st b.settled status).latched = b.settled := by
  unfold latched settled fetching
  split_ifs <;> rfl

theorem rdata_settled (st : FsmState) (status : BitVec 8) :
    (b.fetching st b.settled status).rdata = b.word := by
  unfold rdata settled fetching word
  split_ifs <;> rfl

theorem addrIn_of_trigger (h : b.ioTrigger = true) (st : FsmState) :
    b.addrIn st = b.validatedZoneId := if_pos (.inr h)

theorem Armed.rst_fetching (h : b.Armed) (st : FsmState) (latch : BitVec 32) (status : BitVec 8) :
    (b.fetching st latch status).rst = false := h.rst

theorem tick_one (h : b.Armed) :
    verilatorTickHardware^[1] b = b.fetching .bramRead b.latched 0 := by
  rw [Function.iterate_one, tick_idle h.rst h.idle, addrIn_of_trigger h.ioTrigger,
    if_pos h.ioTrigger]
  rfl

theorem tick_two (h : b.Armed) :
    verilatorTickHardware^[2] b = b.fetching .bramWait b.settled 2 := by
  rw [Function.iterate_succ_apply', tick_one h, tick_bramRead (h.rst_fetching _ _ _) rfl rfl, latched_fetching]
  rfl

theorem tick_three (h : b.Armed) :
    verilatorTickHardware^[3] b = b.fetching .validate b.settled 2 := by
  rw [Function.iterate_succ_apply', tick_two h, tick_bramWait (h.rst_fetching _ _ _) rfl rfl, latched_settled]
  rfl

theorem tick_four (h : b.Armed) :
    verilatorTickHardware^[4] b =
      b.fetching (if b.verdict.hasError then .error else .execute) b.settled 2 := by
  rw [Function.iterate_succ_apply', tick_three h, tick_validate (h.rst_fetching _ _ _) rfl rfl, latched_settled,
    rdata_settled]
  rfl

theorem tick_fetching_error (hr : b.rst = false) (ht : b.ioTrigger = true) :
    (b.fetching .error b.settled 2).verilatorTickHardware = b.rejected := by
  have hr' : (b.fetching .error b.settled 2).rst = false := hr
  have ht' : (b.fetching .error b.settled 2).ioTrigger = true := ht
  rw [tick_error hr' rfl rfl, latched_settled, rdata_settled, addrIn_of_trigger ht', if_pos ht']
  rfl

theorem tick_fetching_execute (hr : b.rst = false) :
    (b.fetching .execute b.settled 2).verilatorTickHardware = b.executed := by
  have hr' : (b.fetching .execute b.settled 2).rst = false := hr
  rw [tick_execute hr' rfl, latched_settled, rdata_settled]
  rfl

theorem tick_executed (hr : b.rst = false) (ht : b.ioTrigger = true) :
    b.executed.verilatorTickHardware = b.approved := by
  have hr' : b.executed.rst = false := hr
  have ht' : b.executed.ioTrigger = true := ht
  rw [tick_updateBram hr' rfl, addrIn_of_trigger ht', if_pos ht']
  rfl

theorem tick_five_rejected (h : b.Armed) (hv : b.verdict.hasError = true) :
    verilatorTickHardware^[5] b = b.rejected := by
  rw [Function.iterate_succ_apply', tick_four h, if_pos hv, tick_fetching_error h.rst h.ioTrigger]

theorem tick_five_approved (h : b.Armed) (hv : b.verdict.hasError = false) :
    verilatorTickHardware^[5] b = b.executed := by
  rw [Function.iterate_succ_apply', tick_four h, hv, if_neg Bool.false_ne_true,
    tick_fetching_execute h.rst]

theorem tick_six (h : b.Armed) (hv : b.verdict.hasError = false) :
    verilatorTickHardware^[6] b = b.approved := by
  rw [Function.iterate_succ_apply', tick_five_approved h hv, tick_executed h.rst h.ioTrigger]

/-- The status is final. -/
def Final (b : Bridge) : Prop := FinalStatus b.fsm.outStatus

/-- The command on the pins is held until the status is final. -/
abbrev Completes (b : Bridge) (n : ℕ) (b' : Bridge) : Prop :=
  Polls verilatorTickHardware Final n b b'

theorem status_of_le_four (h : b.Armed) {k : ℕ} (h0 : 0 < k) (h4 : k ≤ 4) :
    (verilatorTickHardware^[k] b).fsm.outStatus = 0 ∨
      (verilatorTickHardware^[k] b).fsm.outStatus = 2 := by
  rcases (by omega : k = 1 ∨ k = 2 ∨ k = 3 ∨ k = 4) with rfl | rfl | rfl | rfl
  · rw [tick_one h]; exact .inl rfl
  · rw [tick_two h]; exact .inr rfl
  · rw [tick_three h]; exact .inr rfl
  · rw [tick_four h]; exact .inr rfl

theorem status_of_le_five (h : b.Armed) (hv : b.verdict.hasError = false) {k : ℕ} (h0 : 0 < k)
    (h5 : k ≤ 5) :
    (verilatorTickHardware^[k] b).fsm.outStatus = 0 ∨
      (verilatorTickHardware^[k] b).fsm.outStatus = 2 := by
  by_cases hk : k = 5
  · subst hk
    rw [tick_five_approved h hv]
    exact .inr rfl
  · exact status_of_le_four h h0 (by omega)

theorem not_final_of_status {b : Bridge} (h : b.fsm.outStatus = 0 ∨ b.fsm.outStatus = 2) :
    ¬ b.Final := by
  unfold Final
  rcases h with h | h <;> rw [h] <;> decide

theorem completes_rejected (h : b.Armed) (hv : b.verdict.hasError = true) :
    b.Completes 5 b.rejected where
  pos := by decide
  reaches := tick_five_rejected h hv
  final := .inl rfl
  before k h0 hk := not_final_of_status (status_of_le_four h h0 (by omega))

theorem completes_approved (h : b.Armed) (hv : b.verdict.hasError = false) :
    b.Completes 6 b.approved where
  pos := by decide
  reaches := tick_six h hv
  final := .inr rfl
  before k h0 hk := not_final_of_status (status_of_le_five h hv h0 (by omega))

/-- **Every command completes**, in one of the two closed forms. -/
theorem completes_cases (h : b.Armed) {n : ℕ} {b' : Bridge} (hc : b.Completes n b') :
    (b.verdict.hasError = true ∧ n = 5 ∧ b' = b.rejected) ∨
      (b.verdict.hasError = false ∧ n = 6 ∧ b' = b.approved) := by
  cases hv : b.verdict.hasError with
  | true =>
    have h5 := completes_rejected h hv
    exact .inl ⟨rfl, hc.rounds_unique h5, hc.unique h5⟩
  | false =>
    have h6 := completes_approved h hv
    exact .inr ⟨rfl, hc.rounds_unique h6, hc.unique h6⟩

end Transaction

/-! ## Between commands -/

/-- What a bridge keeps from one command to the next. -/
@[ext] structure Core where
  mockBramStorage : BitVec 10 → BitVec 32
  openZonesCount : BitVec 4
  bramWdata : BitVec 32
  globalControllerPtr : Option ℚ

def core (b : Bridge) : Core :=
  ⟨b.mockBramStorage, b.fsm.openZonesCount, b.fsm.bramWdata, b.globalControllerPtr⟩

/-- Idle with the trigger low. -/
structure Ready (b : Bridge) : Prop where
  rst : b.rst = false
  ioTrigger : b.ioTrigger = false
  idle : b.fsm.currentState = .idle
  we : b.fsm.bramWe = false

/-- The trigger falls and the automaton sees it. -/
def drop (b : Bridge) : Bridge := (simSetIoTrigger false b).verilatorTickHardware

theorem ready_powerUp (junk : Validator) (addr : BitVec 32) (t : Option ℚ) :
    (powerUp junk addr t).Ready ∧ (powerUp junk addr t).core = ⟨fun _ => 0, 0, 0, t⟩ := by
  have hreset := tick_of_we (b := ⟨junk, true, false, 0, 0, 0, addr, fun _ => 0, 0, t⟩)
    (posedge_rst rfl) rfl
  rw [powerUp, hreset, tick_idle rfl rfl]
  exact ⟨⟨rfl, rfl, rfl, rfl⟩, rfl⟩

variable {b : Bridge}

theorem drop_rejected (h : b.rst = false) :
    b.rejected.drop.Ready ∧ b.rejected.drop.core = b.core := by
  have hr : (simSetIoTrigger false b.rejected).rst = false := h
  rw [drop, tick_error hr rfl rfl]
  exact ⟨⟨hr, rfl, rfl, rfl⟩, rfl⟩

theorem drop_approved (h : b.rst = false) :
    b.approved.drop.Ready ∧
      b.approved.drop.core =
        ⟨b.stored, b.executed.fsm.openZonesCount, executeWord b.ioCmd b.word b.fsm.bramWdata,
          b.globalControllerPtr⟩ := by
  have hr : (simSetIoTrigger false b.approved).rst = false := h
  rw [drop, tick_updateBram hr rfl]
  exact ⟨⟨hr, rfl, rfl, rfl⟩, rfl⟩

theorem tick_ready (h : b.Ready) :
    b.verilatorTickHardware.Ready ∧ b.verilatorTickHardware.core = b.core := by
  rw [tick_idle h.rst h.idle, h.ioTrigger]
  exact ⟨⟨h.rst, rfl, rfl, rfl⟩, rfl⟩

/-- A command as the software puts it on the pins. -/
structure SimCmd where
  ioCmd : BitVec 8
  zoneId : BitVec 32
  targetPage : BitVec 32
  deriving DecidableEq

/-- The pins take the command and the trigger rises. -/
def raise (b : Bridge) (c : SimCmd) : Bridge :=
  simSetIoTrigger true (simSetValidatedTargetPage c.targetPage
    (simSetValidatedZoneId c.zoneId (simSetIoCmd c.ioCmd b)))

theorem bramAddr_raise (b : Bridge) (c : SimCmd) : (b.raise c).bramAddr = b.bramAddr := rfl

theorem rdata_raise (b : Bridge) (c : SimCmd) : (b.raise c).rdata = b.rdata := by
  rw [rdata, bramAddr_raise]
  rfl

theorem globalControllerPtr_raise (b : Bridge) (c : SimCmd) :
    (b.raise c).globalControllerPtr = b.globalControllerPtr := rfl

theorem armed_raise (h : b.Ready) (c : SimCmd) : (b.raise c).Armed := ⟨h.rst, rfl, h.idle, h.we⟩

/-- **The states between transactions**, after any commands on any zones at any temperatures. -/
inductive Reach : Bridge → Prop
  | powerUp (junk : Validator) (addr : BitVec 32) (t : Option ℚ) : Reach (powerUp junk addr t)
  | transaction {b b' : Bridge} {c : SimCmd} {n : ℕ} (hb : Reach b)
      (hrun : (b.raise c).Completes n b') : Reach b'.drop
  | idle {b : Bridge} (hb : Reach b) : Reach b.verilatorTickHardware
  | heat {b : Bridge} (hb : Reach b) (t : Option ℚ) : Reach { b with globalControllerPtr := t }

theorem ready_of_completes (h : b.Armed) {n : ℕ} {b' : Bridge} (hc : b.Completes n b') :
    b'.drop.Ready := by
  rcases completes_cases h hc with ⟨-, -, rfl⟩ | ⟨-, -, rfl⟩
  · exact (drop_rejected h.rst).1
  · exact (drop_approved h.rst).1

theorem Reach.ready (h : b.Reach) : b.Ready := by
  induction h with
  | powerUp junk addr t => exact (ready_powerUp junk addr t).1
  | transaction _ hrun ih => exact ready_of_completes (armed_raise ih _) hrun
  | idle _ ih => exact (tick_ready ih).1
  | heat _ t ih => exact ⟨ih.rst, ih.ioTrigger, ih.idle, ih.we⟩

/-! ## The bridge as a zoned device -/

section Table

variable {d : Device znsLimits (BitVec 10)} {op : Op}

/-- The address of an in-range command. -/
abbrev zone (b : Bridge) : BitVec 10 := cell b.validatedZoneId

/-- **The verdict on a table of zones**: thermal flag and rules of the device. -/
theorem hasError_false_iff (ht : ZoneTable b.mockBramStorage b.fsm.openZonesCount d)
    (hop : b.ioCmd = cmdOf op) (hz : b.validatedZoneId < 1024) :
    b.verdict.hasError = false ↔
      b.thermal = false ∧ d.refuses b.zone op b.validatedTargetPage.toNat = none := by
  have hword : b.word = b.mockBramStorage b.zone := if_pos hz
  have henc : Encodes (b.pins b.word).bramRdata (d.zones b.zone) := by
    change Encodes b.word _
    rw [hword]
    exact ht.encodes b.zone
  have hcode := errorCode_eq_refusal (n := b.fsm.openZonesCount) henc hop
  rw [← Bool.not_eq_true, verdict, checkWord_hasError, not_not, hcode, ht.count]
  change (if b.thermal = true then _ else _) = _ ↔ _
  cases b.thermal with
  | true => simp
  | false =>
    cases hr : d.refuses b.zone op b.validatedTargetPage.toNat with
    | none =>
      change zoneCode (d.refuses b.zone op b.validatedTargetPage.toNat) false = 0 ↔ _
      rw [hr]
      simp [zoneCode]
    | some r =>
      change zoneCode (d.refuses b.zone op b.validatedTargetPage.toNat) false = 0 ↔ _
      rw [hr]
      simpa [zoneCode] using refusalCode_ne_zero r

/-- **An approved command takes the table to that of the next device**, when a read finds in
`bram_wdata` the word it read. -/
theorem table_executed (ht : ZoneTable b.mockBramStorage b.fsm.openZonesCount d)
    (hop : b.ioCmd = cmdOf op) (hz : b.validatedZoneId < 1024) {p : ℕ}
    (hacc : d.refuses b.zone op p = none) (hread : op = .read → b.fsm.bramWdata = b.word) :
    ZoneTable b.stored b.executed.fsm.openZonesCount (d.step b.zone op p) := by
  have hword : b.word = b.mockBramStorage b.zone := if_pos hz
  have hstep := ht.step hacc b.fsm.bramWdata (by rw [← hword]; exact hread)
  rw [← hop, ← hword] at hstep
  unfold stored
  rw [if_pos hz]
  exact hstep

end Table

end Bridge

end ZnsFlash
