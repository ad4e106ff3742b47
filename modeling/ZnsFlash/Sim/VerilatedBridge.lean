import ZnsFlash.Rtl.VerilatedEval
import ZnsFlash.Sim.Bridge

/-!
# The bridge over the generated simulator

`hardware_bridge.cpp` as it is compiled: `top` is the simulator of Verilator, and a tick is two calls
of its `eval`.

* `VerilatedBridge`, **`VerilatedBridge.verilatorTickHardware`**, `VerilatedBridge.start`;
* `BridgeCall`, `VerilatedBridge.call`, `Bridge.call`: what driver, server and management call;
* `Simulates`, **`Simulates.call`**: the simulation relation and a call;
* **`start_unreset`**: the reset that `main` applies is not seen;
* **`transcript_verilated`**: every run of the bridge is that of `Bridge`.
-/

namespace ZnsFlash

open Runs

/-- The globals of `hardware_bridge.cpp`. -/
structure VerilatedBridge where
  top : VerilatedRoot
  mockBramStorage : BitVec 10 → BitVec 32
  bramRdataLatch : BitVec 32
  /-- The temperature of the controller behind `global_controller_ptr`, if it is not null. -/
  globalControllerPtr : Option ℚ

namespace VerilatedBridge

/-- The pins of the first call of a tick. -/
def risePins (b : VerilatedBridge) : VerilatedPins :=
  { b.top.pins with
    bramRdata := if b.top.bramAddr < 1024 then b.bramRdataLatch else 0
    thermalShutdownTripped := b.globalControllerPtr.elim false checkThermalShutdown
    addrBoundError := false
    clk := true }

/-- **`verilator_tick_hardware`**; `none` is the fatal error of a region that does not converge. -/
def verilatorTickHardware (b : VerilatedBridge) : Option VerilatedBridge := do
  let currentAddr := b.top.bramAddr
  let top ← { b.top with pins := b.risePins }.evalStep
  let latch :=
    if currentAddr < 1024 then b.mockBramStorage (cell currentAddr) else b.bramRdataLatch
  let storage :=
    if top.bramWe ∧ currentAddr < 1024 then
      Function.update b.mockBramStorage (cell currentAddr) top.bramWdata
    else b.mockBramStorage
  let top ← { top with pins := { top.pins with bramRdata := latch, clk := false } }.evalStep
  some { b with top, mockBramStorage := storage, bramRdataLatch := latch }

/-- The assignments of `main` to the pin `rst`. -/
def setRst (val : Bool) (b : VerilatedBridge) : VerilatedBridge :=
  { b with top := { b.top with pins := { b.top.pins with rst := val } } }

/-- The reset of `main`: two ticks, the first with `rst` high. -/
def start (top : VerilatedRoot) (temperature : Option ℚ) : Option VerilatedBridge := do
  let b ← (setRst true ⟨top, fun _ => 0, 0, temperature⟩).verilatorTickHardware
  (setRst false b).verilatorTickHardware

end VerilatedBridge

/-- The calls of the bridge, with what happens to its globals from outside. -/
inductive BridgeCall
  | tickHardware
  | setIoTrigger (val : Bool)
  | setIoCmd (val : BitVec 8)
  | setValidatedTargetPage (val : BitVec 32)
  | setValidatedZoneId (val : BitVec 32)
  | getOutStatus
  | getOutErrCode
  /-- The management thread clears `mock_bram_storage`. -/
  | clearStorage
  /-- The controller changes its temperature, or is registered. -/
  | setTemperature (t : Option ℚ)

/-- A call over the generated simulator, with the value it returns, zero when it returns none. -/
def VerilatedBridge.call (b : VerilatedBridge) : BridgeCall → Option (VerilatedBridge × BitVec 8)
  | .tickHardware => b.verilatorTickHardware.map fun b' => (b', 0)
  | .setIoTrigger val =>
    some ({ b with top := { b.top with pins := { b.top.pins with ioTrigger := val } } }, 0)
  | .setIoCmd val =>
    some ({ b with top := { b.top with pins := { b.top.pins with ioCmd := val } } }, 0)
  | .setValidatedTargetPage val =>
    some ({ b with top := { b.top with pins := { b.top.pins with validatedTargetPage := val } } }, 0)
  | .setValidatedZoneId val =>
    some ({ b with top := { b.top with pins := { b.top.pins with validatedZoneId := val } } }, 0)
  | .getOutStatus => b.verilatorTickHardware.map fun b' => (b', b'.top.outStatus)
  | .getOutErrCode => some (b, b.top.outErrCode)
  | .clearStorage => some ({ b with mockBramStorage := fun _ => 0 }, 0)
  | .setTemperature t => some ({ b with globalControllerPtr := t }, 0)

/-- The same calls over the design. -/
def Bridge.call (b : Bridge) : BridgeCall → Option (Bridge × BitVec 8)
  | .tickHardware => some (b.verilatorTickHardware, 0)
  | .setIoTrigger val => some (simSetIoTrigger val b, 0)
  | .setIoCmd val => some (simSetIoCmd val b, 0)
  | .setValidatedTargetPage val => some (simSetValidatedTargetPage val b, 0)
  | .setValidatedZoneId val => some (simSetValidatedZoneId val b, 0)
  | .getOutStatus => some b.simGetOutStatus
  | .getOutErrCode => some (b, b.simGetOutErrCode)
  | .clearStorage => some ({ b with mockBramStorage := fun _ => 0 }, 0)
  | .setTemperature t => some ({ b with globalControllerPtr := t }, 0)

/-! ## The simulation relation -/

/-- **The generated simulator and the design between two ticks.** The pins may have changed since the
last call of `eval`, the clock is low. -/
structure Simulates (s : VerilatedBridge) (b : Bridge) : Prop where
  settled : VerilatedRoot.Settled { s.top with pins := s.top.prev }
  fsm : s.top.Represents b.fsm
  prevClk : s.top.prev.clk = false
  clk : s.top.pins.clk = false
  rst : s.top.pins.rst = b.rst
  ioTrigger : s.top.pins.ioTrigger = b.ioTrigger
  ioCmd : s.top.pins.ioCmd = b.ioCmd
  validatedZoneId : s.top.pins.validatedZoneId = b.validatedZoneId
  validatedTargetPage : s.top.pins.validatedTargetPage = b.validatedTargetPage
  bramAddr : s.top.bramAddr = b.bramAddr
  mockBramStorage : s.mockBramStorage = b.mockBramStorage
  bramRdataLatch : s.bramRdataLatch = b.bramRdataLatch
  globalControllerPtr : s.globalControllerPtr = b.globalControllerPtr

open VerilatedRoot

theorem VerilatedRoot.evalStep_settled {r : VerilatedRoot} {v : Validator}
    (hs : Settled { r with pins := r.prev }) (hv : Represents r v) (p : VerilatedPins) :
    ∃ r', evalStep { r with pins := p } = some r' ∧ Settled r' ∧ r'.pins = p ∧
      Represents r' (v.event r.prev p) := by
  obtain ⟨r', heval, hrest⟩ := hs.eval (hv.withPins r.prev) p
  refine ⟨r', ?_, hrest⟩
  rw [evalStep, if_pos (show r.vmDidInit = true from hs.vmDidInit)]
  exact heval

theorem Validator.event_fall {v : Validator} {old new : VerilatedPins} (hclk : new.clk = false)
    (hrst : new.rst = old.rst) : v.event old new = v := by
  have hno : ¬ (old.clk = false ∧ new.clk = true) := by simp [hclk]
  have hsame : ¬ (old.rst = false ∧ new.rst = true) := by simp [hrst]
  rw [Validator.event, if_neg hno, if_neg hsame]

theorem VerilatedRoot.Settled.atPrev {r : VerilatedRoot} (hs : Settled r) :
    Settled { r with pins := r.prev } := by
  have hsame : ({ r with pins := r.prev } : VerilatedRoot) = r :=
    congrArg (fun p => { r with pins := p }) hs.prev
  rw [hsame]
  exact hs

/-- The word that a tick latches, and the memory after it. -/
def VerilatedBridge.latched (s : VerilatedBridge) : BitVec 32 :=
  if s.top.bramAddr < 1024 then s.mockBramStorage (cell s.top.bramAddr) else s.bramRdataLatch

/-- The pins of the second call of a tick. -/
def VerilatedBridge.fallPins (s : VerilatedBridge) : VerilatedPins :=
  { s.risePins with bramRdata := s.latched, clk := false }

theorem VerilatedBridge.tick_eq {s : VerilatedBridge} {r₁ r₂ : VerilatedRoot}
    (h₁ : evalStep { s.top with pins := s.risePins } = some r₁) (hpins : r₁.pins = s.risePins)
    (h₂ : evalStep { r₁ with pins := s.fallPins } = some r₂) :
    s.verilatorTickHardware = some { s with
      top := r₂
      mockBramStorage :=
        if r₁.bramWe ∧ s.top.bramAddr < 1024 then
          Function.update s.mockBramStorage (cell s.top.bramAddr) r₁.bramWdata
        else s.mockBramStorage
      bramRdataLatch := s.latched } := by
  have hfall : ({ r₁.pins with bramRdata := s.latched, clk := false } : VerilatedPins) =
      s.fallPins := by
    rw [hpins]
    rfl
  rw [verilatorTickHardware, h₁, Option.bind_eq_bind, Option.bind_some]
  show (evalStep { r₁ with pins := { r₁.pins with bramRdata := s.latched, clk := false } }).bind _ = _
  rw [hfall, h₂, Option.bind_some]
  rfl

section Tick

variable {s : VerilatedBridge} {b : Bridge} (h : Simulates s b)

include h

theorem Simulates.risePins : s.risePins.inputs = b.pins b.rdata := by
  simp only [VerilatedPins.inputs, VerilatedBridge.risePins, Bridge.pins, Bridge.rdata,
    Bridge.thermal, h.rst, h.ioTrigger, h.ioCmd, h.validatedZoneId, h.validatedTargetPage,
    h.bramAddr, h.bramRdataLatch, h.globalControllerPtr]

theorem Simulates.latched : s.latched = b.latched := by
  rw [VerilatedBridge.latched, Bridge.latched, h.bramAddr, h.mockBramStorage, h.bramRdataLatch]

theorem Simulates.fallPins : s.fallPins.inputs = b.pins b.latched := by
  have hrise := h.risePins
  rw [Bridge.pins] at hrise
  show { s.risePins.inputs with bramRdata := s.latched } = _
  rw [hrise, h.latched]
  rfl

/-- **A tick of the generated simulator is a tick of the design.** -/
theorem Simulates.tick :
    ∃ s', s.verilatorTickHardware = some s' ∧ Simulates s' b.verilatorTickHardware := by
  obtain ⟨r₁, h₁, hs₁, hp₁, hv₁⟩ := evalStep_settled h.settled h.fsm s.risePins
  have hedge : b.fsm.event s.top.prev s.risePins = b.fsm.posedge (b.pins b.rdata) := by
    have hrise : s.top.prev.clk = false ∧ s.risePins.clk = true := ⟨h.prevClk, rfl⟩
    rw [Validator.event, if_pos hrise, h.risePins]
  rw [hedge] at hv₁
  obtain ⟨r₂, h₂, hs₂, hp₂, hv₂⟩ := evalStep_settled hs₁.atPrev hv₁ s.fallPins
  have hfall : s.fallPins.rst = r₁.prev.rst := by
    rw [hs₁.prev, hp₁]
    rfl
  rw [Validator.event_fall rfl hfall] at hv₂
  refine ⟨_, VerilatedBridge.tick_eq h₁ hp₁ h₂, hs₂.atPrev, hv₂, ?_, ?_, ?_, ?_, ?_, ?_, ?_, ?_, ?_,
    h.latched, h.globalControllerPtr⟩
  · rw [hs₂.prev, hp₂]; rfl
  · rw [hp₂]; rfl
  · rw [hp₂]; exact h.rst
  · rw [hp₂]; exact h.ioTrigger
  · rw [hp₂]; exact h.ioCmd
  · rw [hp₂]; exact h.validatedZoneId
  · rw [hp₂]; exact h.validatedTargetPage
  · have haddr := (hs₂.samePorts hv₂).bramAddr
    rw [hp₂, h.fallPins] at haddr
    exact haddr
  · rw [hv₁.bramWe, hv₁.bramWdata, h.bramAddr, h.mockBramStorage]
    rfl

end Tick

/-- **A call of the bridge** returns the same value on both sides and keeps the relation. -/
theorem Simulates.call {s : VerilatedBridge} {b : Bridge} (h : Simulates s b) (c : BridgeCall) :
    ∃ s' b' val, s.call c = some (s', val) ∧ b.call c = some (b', val) ∧ Simulates s' b' := by
  cases c with
  | tickHardware =>
    obtain ⟨s', hs', h'⟩ := h.tick
    exact ⟨s', _, 0, by rw [VerilatedBridge.call, hs']; rfl, rfl, h'⟩
  | getOutStatus =>
    obtain ⟨s', hs', h'⟩ := h.tick
    refine ⟨s', _, s'.top.outStatus, by rw [VerilatedBridge.call, hs']; rfl, ?_, h'⟩
    rw [h'.fsm.outStatus]
    rfl
  | getOutErrCode =>
    refine ⟨s, b, s.top.outErrCode, rfl, ?_, h⟩
    rw [h.fsm.outErrCode]
    rfl
  | setIoTrigger val => exact ⟨_, _, 0, rfl, rfl, { h with ioTrigger := rfl, fsm := h.fsm.withPins _ }⟩
  | setIoCmd val => exact ⟨_, _, 0, rfl, rfl, { h with ioCmd := rfl, fsm := h.fsm.withPins _ }⟩
  | setValidatedTargetPage val =>
    exact ⟨_, _, 0, rfl, rfl, { h with validatedTargetPage := rfl, fsm := h.fsm.withPins _ }⟩
  | setValidatedZoneId val =>
    exact ⟨_, _, 0, rfl, rfl, { h with validatedZoneId := rfl, fsm := h.fsm.withPins _ }⟩
  | clearStorage => exact ⟨_, _, 0, rfl, rfl, { h with mockBramStorage := rfl }⟩
  | setTemperature t => exact ⟨_, _, 0, rfl, rfl, { h with globalControllerPtr := rfl }⟩

/-! ## Start-up -/

section Start

variable {r : VerilatedRoot} {v : Validator}

/-- The bridge between the two ticks of `main`, when the variables of the simulator held `v`. -/
def Bridge.unreset (r : VerilatedRoot) (v : Validator) (temperature : Option ℚ) : Bridge where
  fsm := v
  rst := false
  ioTrigger := r.pins.ioTrigger
  ioCmd := r.pins.ioCmd
  validatedZoneId := r.pins.validatedZoneId
  validatedTargetPage := r.pins.validatedTargetPage
  bramAddr := v.bramAddr r.pins.inputs
  mockBramStorage :=
    if v.bramWe ∧ r.bramAddr < 1024 then
      Function.update (fun _ => 0) (cell r.bramAddr) v.bramWdata
    else fun _ => 0
  bramRdataLatch := 0
  globalControllerPtr := temperature

/-- **The first tick changes no register**: the first call of `eval` takes `clk` and `rst`, both high, for
their previous values, and the second finds `rst` still high. -/
theorem first_tick (hr : Constructed r) (hv : Represents r v) (t : Option ℚ) :
    ∃ s, (VerilatedBridge.setRst true ⟨r, fun _ => 0, 0, t⟩).verilatorTickHardware = some s ∧
      Simulates (VerilatedBridge.setRst false s) (Bridge.unreset r v t) := by
  set s₀ := VerilatedBridge.setRst true ⟨r, fun _ => 0, 0, t⟩ with hs₀
  have hfirst : Constructed { s₀.top with pins := s₀.risePins } := ⟨hr.vstlTriggered,
    hr.vicoTriggered, hr.vicoDidInit, hr.vnbaTriggered, hr.vmDidInit⟩
  obtain ⟨r₁, h₁, hs₁, hp₁, hv₁⟩ := hfirst.evalStep (hv.withPins s₀.risePins)
  obtain ⟨r₂, h₂, hs₂, hp₂, hv₂⟩ := evalStep_settled hs₁.atPrev hv₁ s₀.fallPins
  have hp₁ : r₁.pins = s₀.risePins := hp₁
  have hfall : s₀.fallPins.rst = r₁.prev.rst := by
    rw [hs₁.prev, hp₁]
    rfl
  have hlatch : s₀.latched = 0 := by
    unfold VerilatedBridge.latched
    split_ifs <;> rfl
  rw [Validator.event_fall rfl hfall] at hv₂
  refine ⟨_, VerilatedBridge.tick_eq h₁ hp₁ h₂, hs₂.atPrev, hv₂.withPins _, ?_, ?_, rfl, ?_, ?_, ?_,
    ?_, ?_, ?_, hlatch, rfl⟩
  · show r₂.prev.clk = false
    rw [hs₂.prev, hp₂]; rfl
  · show r₂.pins.clk = false
    rw [hp₂]; rfl
  · show r₂.pins.ioTrigger = _
    rw [hp₂]; rfl
  · show r₂.pins.ioCmd = _
    rw [hp₂]; rfl
  · show r₂.pins.validatedZoneId = _
    rw [hp₂]; rfl
  · show r₂.pins.validatedTargetPage = _
    rw [hp₂]; rfl
  · have haddr := (hs₂.samePorts hv₂).bramAddr
    rw [hp₂] at haddr
    exact haddr
  · show (if r₁.bramWe = true ∧ _ then _ else _) = _
    rw [hv₁.bramWe, hv₁.bramWdata]
    rfl

/-- **The reset of `main` has no effect.** Whatever the variables of the simulator held, its start-up
leaves them as one edge with `rst` low does: the counter of open zones is not cleared, and a
command that was in progress goes on. -/
theorem start_unreset (hr : Constructed r) (hv : Represents r v) (t : Option ℚ) :
    ∃ s, VerilatedBridge.start r t = some s ∧
      s.top.Represents (v.posedge { r.pins.inputs with
        rst := false, addrBoundError := false, bramRdata := 0
        thermalShutdownTripped := t.elim false checkThermalShutdown }) := by
  obtain ⟨s₁, h₁, hsim⟩ := first_tick hr hv t
  obtain ⟨s₂, h₂, hsim₂⟩ := hsim.tick
  refine ⟨s₂, ?_, ?_⟩
  · rw [VerilatedBridge.start, h₁, Option.bind_eq_bind, Option.bind_some, h₂]
  · have hrdata : (Bridge.unreset r v t).rdata = 0 := by
      unfold Bridge.rdata
      split_ifs <;> rfl
    have hfsm := hsim₂.fsm
    rw [Bridge.verilatorTickHardware, hrdata] at hfsm
    exact hfsm

end Start

/-- Four open zones in the variables of the simulator are still counted after start-up. -/
theorem start_keeps_count :
    ∃ s, VerilatedBridge.start { ctorVarReset with openZonesCount := 4 } none = some s ∧
      s.top.Represents ⟨.idle, 4, 0, false, 0, 0⟩ :=
  start_unreset (v := ⟨.idle, 4, 0, false, 0, 0⟩) ⟨rfl, rfl, rfl, rfl, rfl⟩
    ⟨rfl, rfl, rfl, rfl, rfl, rfl⟩ none

/-- **Every run of the bridge over the generated simulator is a run of the bridge over the design**: from
the start-up of a fresh simulator, any calls return the same values and end in related states. -/
theorem transcript_verilated (t : Option ℚ) :
    ∃ s, VerilatedBridge.start ctorVarReset t = some s ∧ ∀ cs : List BridgeCall, ∃ s' b' vals,
      transcript VerilatedBridge.call s cs = some (s', vals) ∧
      transcript Bridge.call (Bridge.powerUp ⟨.idle, 0, 0, false, 0, 0⟩ 0 t) cs = some (b', vals) ∧
      Simulates s' b' := by
  obtain ⟨s₁, h₁, hsim⟩ := first_tick constructed_ctorVarReset represents_ctorVarReset t
  obtain ⟨s₂, h₂, hsim₂⟩ := hsim.tick
  refine ⟨s₂, ?_, fun cs => ?_⟩
  · rw [VerilatedBridge.start, h₁, Option.bind_eq_bind, Option.bind_some, h₂]
  · have hpower : (Bridge.unreset ctorVarReset ⟨.idle, 0, 0, false, 0, 0⟩ t).verilatorTickHardware =
        Bridge.powerUp ⟨.idle, 0, 0, false, 0, 0⟩ 0 t := by
      rfl
    rw [hpower] at hsim₂
    exact transcript_rel (fun _ => True) (fun _ _ c _ h => h.call c) hsim₂ fun _ _ => trivial

end ZnsFlash
