import ZnsFlash.Rtl.Transaction
import ZnsFlash.Sim.Driver

/-!
# The bridge against the RTL controller

The same commands, with the protocol of the driver, on the two environments of the automaton: the
bridge with `mock_bram_storage`, and `zns_controller_top` with its resolver and its memory.

* `znsThermalManager`: the flag that the controller raises itself;
* `DriverCmd`, `Driver.pollCommand`, `driverStep`, `controllerStep`: one command on each side;
* `SameZones`: what the two sides share between commands;
* **`bridge_faithful`**: same status and error code for every command, and the same zones.
-/

namespace ZnsFlash

open Zoned Runs

/-- `out_thermal_shutdown_tripped` of `zns_thermal_manager.v` after a clock edge. -/
def znsThermalManager (rst : Bool) (rawTemperature : BitVec 8) : Bool :=
  if rst then false else decide (85 ≤ rawTemperature)

/-- A command for the driver, with the temperature that each side sees while it runs. -/
structure DriverCmd where
  op : Op
  lba : BitVec 64
  temperature : Option ℚ
  rawTemperature : BitVec 8

namespace DriverCmd

variable (c : DriverCmd)

/-- The queue entry of the command. -/
def sqe : NvmeSqe where
  opcode :=
    match c.op with
    | .read => 0x02
    | .write => 0x01
    | .reset => 0x79
  cid := 0
  slba := c.lba
  zsa := 0x04

/-- The inputs of the controller for the command. -/
def hostCmd : HostCmd := ⟨cmdOf c.op, c.lba, znsThermalManager false c.rawTemperature⟩

/-- The address lies in the 1024 zones of the bridge, and no side is too hot. -/
def Admissible : Prop :=
  c.lba < 65536 ∧ c.temperature.elim false checkThermalShutdown = false ∧ c.rawTemperature < 85

end DriverCmd

/-! ## One command on each side -/

/-- The driver while the device has the temperature of the command. -/
def Driver.heated (d : Driver) (c : DriverCmd) : Driver :=
  { d with bridge := { d.bridge with globalControllerPtr := c.temperature } }

/-- The bridge with the command on its pins. -/
def Driver.raised (d : Driver) (c : DriverCmd) : Bridge :=
  (d.heated c).bridge.raise (Driver.simCmd c.sqe (cmdOf c.op))

/-- One command on the bridge: the next state, the status and the error code. -/
def driverStep (fuel : ℕ) (d : Driver) (c : DriverCmd) :
    Option (Driver × BitVec 8 × BitVec 8) :=
  (d.heated c).pollCommand fuel c.sqe (cmdOf c.op)

instance (s : Controller) : Decidable s.Final := inferInstanceAs (Decidable (FinalStatus _))

/-- One command on the controller: the inputs are held until the status is final, then the trigger
is dropped for two cycles. -/
def controllerStep (fuel : ℕ) (s : Controller) (c : DriverCmd) :
    Option (Controller × BitVec 8 × BitVec 8) :=
  match pollFor (fun t => t.clock c.hostCmd.raised) Controller.Final fuel s with
  | none => none
  | some t =>
    some ((t.clock c.hostCmd.dropped).clock c.hostCmd.dropped, t.fsm.outStatus, t.fsm.outErrCode)

/-! ## What the two sides share -/

/-- The row of the controller that a cell of the bridge stands for. -/
def rowOf (a : BitVec 10) : BitVec 12 := a.setWidth 12

theorem rowOf_injective : Function.Injective rowOf := by
  intro a b h
  have hnat := congrArg BitVec.toNat h
  rw [rowOf, rowOf, BitVec.toNat_setWidth, BitVec.toNat_setWidth, Nat.mod_eq_of_lt (by omega),
    Nat.mod_eq_of_lt (by omega)] at hnat
  exact BitVec.eq_of_toNat_eq hnat

/-- **Both sides are between commands**, with the same zones, counter and write register. -/
structure SameZones (d : Driver) (s : Controller) : Prop where
  driver : d.bridge.Ready
  controller : s.Ready
  zones : ∀ a, d.bridge.mockBramStorage a = s.word (rowOf a)
  count : d.bridge.fsm.openZonesCount = s.fsm.openZonesCount
  wdata : d.bridge.fsm.bramWdata = s.fsm.bramWdata

theorem SameZones.heated {d : Driver} {s : Controller} {c : DriverCmd} (h : SameZones d s) :
    (d.heated c).bridge.Ready := ⟨h.driver.rst, h.driver.ioTrigger, h.driver.idle, h.driver.we⟩

theorem zones_update {mock : BitVec 10 → BitVec 32} {ram : BitVec 12 → BitVec 32}
    (h : ∀ a, mock a = ram (rowOf a)) (r : BitVec 10) (w : BitVec 32) (a : BitVec 10) :
    Function.update mock r w a = Function.update ram (rowOf r) w (rowOf a) := by
  by_cases ha : a = r
  · subst ha
    rw [Function.update_self, Function.update_self]
  · rw [Function.update_of_ne ha, Function.update_of_ne (rowOf_injective.ne ha)]
    exact h a

section Step

variable {d : Driver} {s : Controller} {c : DriverCmd} {fuel : ℕ}

theorem hostCmd_row (h : c.lba < 65536) : c.hostCmd.row = rowOf (lbaCell c.lba) := by
  have hzone : ((c.lba >>> 6).setWidth 32).toNat = c.lba.toNat / 64 := zone_toNat h
  have hlt : c.lba.toNat < 65536 := BitVec.lt_def.mp h
  apply BitVec.eq_of_toNat_eq
  rw [rowOf, BitVec.toNat_setWidth, lbaCell_toNat h]
  change (((c.lba >>> 6).setWidth 32).setWidth 12).toNat = _
  rw [BitVec.toNat_setWidth, hzone]

variable (hc : c.Admissible)

include hc

theorem lba_inside : (d.raised c).validatedZoneId < 1024 := by
  have hlt : c.lba.toNat < 65536 := BitVec.lt_def.mp hc.1
  refine BitVec.lt_def.mpr ((zone_toNat hc.1).trans_lt ?_)
  change _ < 1024
  omega

theorem same_pins (hd : d.bridge.Ready) (w : BitVec 32) :
    (d.raised c).pins w = c.hostCmd.pins w := by
  obtain ⟨hlba, hcool, hraw⟩ := hc
  have hbound : ¬ 4096 ≤ lbaZone c.lba := by
    have hlt : c.lba.toNat < 65536 := BitVec.lt_def.mp hlba
    rw [BitVec.le_def, lbaZone, BitVec.toNat_ushiftRight, Nat.shiftRight_eq_div_pow]
    change ¬ 4096 ≤ _
    omega
  have hflag : znsThermalManager false c.rawTemperature = false := by
    rw [znsThermalManager, if_neg Bool.false_ne_true, decide_eq_false_iff_not, BitVec.not_le]
    exact hraw
  have hrst : (d.raised c).rst = false := hd.rst
  have hthermal : (d.raised c).thermal = false := hcool
  rw [Bridge.pins, HostCmd.pins, hrst, hthermal]
  simp only [DriverCmd.hostCmd, hbound, hflag, decide_false]
  rfl

theorem same_word (h : SameZones d s) : (d.raised c).word = s.word c.hostCmd.row := by
  rw [Bridge.word, if_pos (lba_inside hc), hostCmd_row hc.1]
  exact h.zones _

theorem same_verdict (h : SameZones d s) : (d.raised c).verdict = s.verdict c.hostCmd := by
  rw [Bridge.verdict, Controller.verdict, same_word hc h, same_pins hc h.driver, ← h.count]
  rfl

theorem sameZones_rejected (hfuel : 6 ≤ fuel) (h : SameZones d s)
    (hv : (d.raised c).verdict.hasError = true) :
    ∃ d' s' o, driverStep fuel d c = some (d', o) ∧ controllerStep fuel s c = some (s', o) ∧
      SameZones d' s' := by
  have hv' : (s.verdict c.hostCmd).hasError = true := same_verdict hc h ▸ hv
  have hraised : ((d.heated c).bridge.raise (Driver.simCmd c.sqe (cmdOf c.op))).verdict.hasError = true := hv
  obtain ⟨d', hrun, hready, hcore⟩ := Driver.pollCommand_rejected h.heated hfuel hraised
  have hmock : d'.bridge.mockBramStorage = _ := congrArg Bridge.Core.mockBramStorage hcore
  have hcnt : d'.bridge.fsm.openZonesCount = _ := congrArg Bridge.Core.openZonesCount hcore
  have hdata : d'.bridge.fsm.bramWdata = _ := congrArg Bridge.Core.bramWdata hcore
  have hpoll := (Controller.completes_rejected h.controller hv').pollFor_eq (by omega : 5 ≤ fuel)
  have hdrop : ((s.rejected c.hostCmd).clock c.hostCmd.dropped).Ready := ⟨rfl, rfl⟩
  obtain ⟨hs, hram, hcount, hwdata⟩ := Controller.clock_idle hdrop (i := c.hostCmd.dropped) rfl
  refine ⟨d', _, (1, (s.verdict c.hostCmd).errorCode), ?_, ?_, hready, hs, fun a => ?_, ?_, ?_⟩
  · rw [← same_verdict hc h]
    exact hrun
  · rw [controllerStep, hpoll]
    rfl
  · rw [Controller.word, hram, hmock]
    exact h.zones a
  · rw [hcount, hcnt]
    exact h.count
  · rw [hwdata, hdata]
    exact h.wdata

theorem sameZones_approved (hfuel : 6 ≤ fuel) (h : SameZones d s)
    (hv : (d.raised c).verdict.hasError = false) :
    ∃ d' s' o, driverStep fuel d c = some (d', o) ∧ controllerStep fuel s c = some (s', o) ∧
      SameZones d' s' := by
  have hv' : (s.verdict c.hostCmd).hasError = false := same_verdict hc h ▸ hv
  have hraised : ((d.heated c).bridge.raise (Driver.simCmd c.sqe (cmdOf c.op))).verdict.hasError = false := hv
  obtain ⟨d', hrun, hready, hcore⟩ := Driver.pollCommand_approved h.heated hfuel hraised
  have hmock : d'.bridge.mockBramStorage = _ := congrArg Bridge.Core.mockBramStorage hcore
  have hcnt : d'.bridge.fsm.openZonesCount = _ := congrArg Bridge.Core.openZonesCount hcore
  have hdata : d'.bridge.fsm.bramWdata = _ := congrArg Bridge.Core.bramWdata hcore
  have hpoll := (Controller.completes_approved h.controller hv').pollFor_eq hfuel
  have hdrop : ((s.approved c.hostCmd).clock c.hostCmd.dropped).Ready := ⟨rfl, rfl⟩
  obtain ⟨hs, hram, hcount, hwdata⟩ := Controller.clock_idle hdrop (i := c.hostCmd.dropped) rfl
  have hword := same_word hc h
  refine ⟨d', _, (3, 0), hrun, ?_, hready, hs, fun a => ?_, ?_, ?_⟩
  · rw [controllerStep, hpoll]
    rfl
  · rw [Controller.word, hram, hmock]
    change (d.raised c).stored a = _
    rw [Bridge.stored, if_pos (lba_inside hc), hword]
    change Function.update d.bridge.mockBramStorage (lbaCell c.lba)
        (executeWord (cmdOf c.op) (s.word c.hostCmd.row) d.bridge.fsm.bramWdata) a =
      Function.update s.bram.ram c.hostCmd.row
        (executeWord (cmdOf c.op) (s.word c.hostCmd.row) s.fsm.bramWdata) (rowOf a)
    rw [h.wdata, hostCmd_row hc.1]
    exact zones_update h.zones _ _ a
  · rw [hcount, hcnt]
    change znsResourcesTracker false (cmdOf c.op) true (zoneWptr (d.raised c).word)
        (zoneIsFull (d.raised c).word) d.bridge.fsm.openZonesCount =
      znsResourcesTracker false (cmdOf c.op) true (zoneWptr (s.word c.hostCmd.row))
        (zoneIsFull (s.word c.hostCmd.row)) s.fsm.openZonesCount
    rw [hword, h.count]
  · rw [hwdata, hdata]
    change executeWord (cmdOf c.op) (d.raised c).word d.bridge.fsm.bramWdata =
      executeWord (cmdOf c.op) (s.word c.hostCmd.row) s.fsm.bramWdata
    rw [hword, h.wdata]

/-- **A command on both sides**: same status and error code, and again the same zones. -/
theorem sameZones_step (hfuel : 6 ≤ fuel) (h : SameZones d s) :
    ∃ d' s' o, driverStep fuel d c = some (d', o) ∧ controllerStep fuel s c = some (s', o) ∧
      SameZones d' s' := by
  cases hv : (d.raised c).verdict.hasError with
  | true => exact sameZones_rejected hc hfuel h hv
  | false => exact sameZones_approved hc hfuel h hv

end Step

/-! ## Runs from power-up -/

/-- The driver on a bridge that was just powered up. -/
def Driver.powerUp (d : Driver) (junk : Validator) (addr : BitVec 32) (t : Option ℚ) : Driver :=
  { d with bridge := Bridge.powerUp junk addr t }

theorem sameZones_powerUp (d : Driver) (junk : Validator) (addr : BitVec 32) (t : Option ℚ)
    (junk' : Controller) (i : HostIn) :
    SameZones (d.powerUp junk addr t) (Controller.powerUp junk' i) := by
  obtain ⟨hready, hcore⟩ := Bridge.ready_powerUp junk addr t
  refine ⟨hready, ⟨rfl, rfl⟩, fun a => ?_, ?_, ?_⟩
  · exact congrFun (congrArg Bridge.Core.mockBramStorage hcore) a
  · exact congrArg Bridge.Core.openZonesCount hcore
  · exact congrArg Bridge.Core.bramWdata hcore

/-- **The bridge is faithful to the controller.** From power-up, whatever the registers held
before it, every sequence of admissible commands gets the same statuses and error codes on both
sides, and leaves the same words in the 1024 zones of the bridge. -/
theorem bridge_faithful (d : Driver) (junk : Validator) (addr : BitVec 32) (t : Option ℚ)
    (junk' : Controller) (i : HostIn) {fuel : ℕ} (hfuel : 6 ≤ fuel) (cs : List DriverCmd)
    (hcs : ∀ c ∈ cs, c.Admissible) :
    ∃ d' s' outs,
      transcript (driverStep fuel) (d.powerUp junk addr t) cs = some (d', outs) ∧
      transcript (controllerStep fuel) (Controller.powerUp junk' i) cs = some (s', outs) ∧
      ∀ a, d'.bridge.mockBramStorage a = s'.word (rowOf a) := by
  have hstep : ∀ d s (c : DriverCmd), c.Admissible → SameZones d s →
      ∃ d' s' o, driverStep fuel d c = some (d', o) ∧ controllerStep fuel s c = some (s', o) ∧
        SameZones d' s' := fun _ _ _ hc h => sameZones_step hc hfuel h
  obtain ⟨d', s', outs, hd, hs, hsame⟩ := transcript_rel DriverCmd.Admissible hstep
    (sameZones_powerUp d junk addr t junk' i) hcs
  exact ⟨d', s', outs, hd, hs, hsame.zones⟩

/-- Writes to two zones, a read and a reset of the first one. -/
def mixedCmds : List DriverCmd :=
  [⟨.write, 0, some 40, 40⟩, ⟨.write, 64, none, 40⟩, ⟨.read, 0, none, 40⟩, ⟨.reset, 0, none, 84⟩]

theorem bridge_faithful_mixed : 6 ≤ 6 ∧ (∀ c ∈ mixedCmds, c.Admissible) ∧
    ∃ d' s' outs,
      transcript (driverStep 6)
        (Driver.powerUp ⟨Bridge.powerUp ⟨.idle, 0, 0, false, 0, 0⟩ 0 none, 0, 0, 0⟩
          ⟨.error, 3, 7, true, 1, 1⟩ 0 none) mixedCmds = some (d', outs) ∧
      transcript (controllerStep 6) (Controller.powerUp Controller.quiet ⟨false, 0, 0, false⟩)
        mixedCmds = some (s', outs) ∧
      ∀ a, d'.bridge.mockBramStorage a = s'.word (rowOf a) := by
  have hcs : ∀ c ∈ mixedCmds, c.Admissible := by
    unfold mixedCmds DriverCmd.Admissible
    decide
  exact ⟨by decide, hcs, bridge_faithful _ _ _ _ _ _ (by decide) mixedCmds hcs⟩

end ZnsFlash
