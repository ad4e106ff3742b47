import ZnsFlash.Rtl.Validator

/-!
# The simulator that Verilator made of `zns_fsm_validator`

`obj_dir/Vzns_fsm_validator___024root__0.cpp` and its `Slow` part. A call of `eval` compares the pins
with those of the last call, recomputes the combinational signals whose inputs have changed, and
assigns the registers whose clock or reset has risen.

* `VerilatedPins`, `VerilatedRoot`: the pins, and the variables of the simulator;
* `VerilatedRoot.evalPhaseIco`, `evalPhaseAct`, `evalPhaseNba`, **`VerilatedRoot.eval`**: the regions;
* `VerilatedRoot.evalStep`: a call, with what the first one does before.
-/

namespace ZnsFlash

/-! ## Variables -/

/-- The input pins, in the order of their change triggers. -/
structure VerilatedPins where
  clk : Bool
  rst : Bool
  ioTrigger : Bool
  ioCmd : BitVec 8
  validatedZoneId : BitVec 32
  validatedTargetPage : BitVec 32
  addrBoundError : Bool
  thermalShutdownTripped : Bool
  bramRdata : BitVec 32
  deriving DecidableEq

/-- `Vzns_fsm_validator___024root`, with `__Vm_didInit` of its `Syms`. The local copies and the counters of
loops are left out. -/
structure VerilatedRoot where
  pins : VerilatedPins
  bramAddr : BitVec 32
  bramWdata : BitVec 32
  bramWe : Bool
  outStatus : BitVec 8
  outErrCode : BitVec 8
  currentState : BitVec 3
  openZonesCount : BitVec 4
  hasError : Bool
  internalErrorCode : BitVec 8
  isOpeningNewZone : Bool
  vdlyCurrentState : BitVec 3
  /-- `__VstlTriggered[0]` -/
  vstlTriggered : BitVec 64
  /-- `__VicoTriggered` -/
  vicoTriggered : BitVec 64 × BitVec 64
  /-- `__Vtrigprevexpr___TOP__*__0` -/
  prev : VerilatedPins
  vicoDidInit : Bool
  /-- `__VactTriggered[0]` -/
  vactTriggered : BitVec 64
  /-- `__VnbaTriggered[0]` -/
  vnbaTriggered : BitVec 64
  /-- `__Vtrigprevexpr___TOP__clk__1` -/
  prevClk : Bool
  /-- `__Vtrigprevexpr___TOP__rst__1` -/
  prevRst : Bool
  vmDidInit : Bool
  deriving DecidableEq

/-- A comparison as a C integer. -/
def flag (b : Bool) : BitVec 32 := if b then 1 else 0

namespace VerilatedRoot

variable (r : VerilatedRoot)

/-! ## Combinational signals -/

/-- `_ico_comb__TOP__0` -/
def icoCombTop0 : VerilatedRoot :=
  { r with bramAddr := r.pins.validatedZoneId &&& -(flag r.pins.ioTrigger ||| flag (r.currentState ≠ 0)) }

/-- `_ico_comb__TOP__1` -/
def icoCombTop1 : VerilatedRoot :=
  { r with
    isOpeningNewZone := flag (r.pins.ioCmd = 1) &&& flag (0xff#32 &&& r.pins.bramRdata = 0) ≠ 0 }

/-- The rules that `has_error` and `internal_error_code` test in turn, with the code of each. -/
def rules : List (Bool × BitVec 8) :=
  let write := flag (r.pins.ioCmd = 1)
  let wptr := 0x7f#32 &&& r.pins.bramRdata
  let eraseCnt := 0xff#32 &&& (r.pins.bramRdata >>> 0x10)
  [(r.pins.thermalShutdownTripped, 8),
    (r.pins.ioCmd = 0x63, 6),
    (write &&& (r.pins.bramRdata >>> 7) ≠ 0, 7),
    (write &&& flag (r.pins.validatedTargetPage ≠ wptr) ≠ 0, 1),
    (write &&& flag r.isOpeningNewZone &&& flag (4 ≤ r.openZonesCount) ≠ 0, 2),
    (flag (r.pins.ioCmd = 0) &&& flag (wptr ≤ r.pins.validatedTargetPage) ≠ 0, 3),
    (flag (r.pins.ioCmd = 2) &&& flag (0x0a#32 ≤ eraseCnt) ≠ 0, 5),
    (r.pins.addrBoundError, 7)]

/-- The code of the first rule that is broken. -/
def firstBroken : List (Bool × BitVec 8) → BitVec 8
  | [] => 0
  | (broken, code) :: rest => if broken then code else firstBroken rest

/-- `_ico_comb__TOP__2` -/
def icoCombTop2 : VerilatedRoot :=
  { r with
    hasError := r.rules.any Prod.fst
    internalErrorCode := firstBroken r.rules }

/-! ## The input region -/

/-- The bits of `_eval_triggers_vec__ico`, from the pins that have changed. -/
def changeBits (clk rst trigger cmd zone page bound thermal rdata : Bool) : BitVec 32 :=
  (flag rdata <<< 8) |||
    ((((flag thermal <<< 3) ||| (flag bound <<< 2)) ||| ((flag page <<< 1) ||| flag zone)) <<< 4) |||
    (((flag cmd <<< 3) ||| (flag trigger <<< 2)) ||| ((flag rst <<< 1) ||| flag clk))

/-- `_eval_triggers_vec__ico` -/
def evalTriggersVecIco : VerilatedRoot :=
  let triggered : BitVec 64 := (changeBits (r.pins.clk ≠ r.prev.clk) (r.pins.rst ≠ r.prev.rst)
    (r.pins.ioTrigger ≠ r.prev.ioTrigger) (r.pins.ioCmd ≠ r.prev.ioCmd)
    (r.pins.validatedZoneId ≠ r.prev.validatedZoneId)
    (r.pins.validatedTargetPage ≠ r.prev.validatedTargetPage)
    (r.pins.addrBoundError ≠ r.prev.addrBoundError)
    (r.pins.thermalShutdownTripped ≠ r.prev.thermalShutdownTripped)
    (r.pins.bramRdata ≠ r.prev.bramRdata)).setWidth 64
  { r with
    prev := r.pins
    vicoDidInit := true
    vicoTriggered := (if r.vicoDidInit then triggered else 0x1ff ||| triggered, r.vicoTriggered.2) }

/-- `_eval_ico` -/
def evalIco : VerilatedRoot :=
  let t := r.vicoTriggered.1
  let r := if 0x14 &&& t ≠ 0 then r.icoCombTop0 else r
  let r := if 0x108 &&& t ≠ 0 then r.icoCombTop1 else r
  if 0x1e8 &&& t ≠ 0 then r.icoCombTop2 else r

/-- `___eval_phase__ico`, with `___trigger_anySet__ico`. -/
def evalPhaseIco : Bool × VerilatedRoot :=
  let r := r.evalTriggersVecIco
  if r.vicoTriggered.1 ≠ 0 ∨ r.vicoTriggered.2 ≠ 0 then (true, r.evalIco) else (false, r)

/-! ## The registers -/

/-- The value of `next_state` in `_nba_sequent__TOP__0`. -/
def nextState : BitVec 3 :=
  let st := r.currentState.setWidth 32
  let trigger := flag r.pins.ioTrigger
  (if 4 &&& st ≠ 0 then
    if 2 &&& st ≠ 0 then 6 &&& -(~~~st &&& trigger)
    else if 1 &&& st ≠ 0 then 5 &&& -trigger else 5
  else if 2 &&& st ≠ 0 then
    if 1 &&& st ≠ 0 then if r.hasError then 6 else 4 else 3
  else if 1 &&& st ≠ 0 then 2 else 1 &&& -trigger : BitVec 32).setWidth 3

/-- The value of `bram_wdata` in `ST_EXECUTE`. -/
def executeWdata : BitVec 32 :=
  let w := r.pins.bramRdata
  if r.pins.ioCmd = 1 then
    if 0x7f#32 &&& w = 0x3f#32 then 0xc0#32 ||| (0xff0000#32 &&& w)
    else (0xff0000#32 &&& w) ||| (0x7f#32 &&& (1#32 + w))
  else if r.pins.ioCmd = 2 then 0xff0000#32 &&& ((1#32 + (w >>> 0x10)) <<< 0x10)
  else r.bramWdata

/-- `_nba_sequent__TOP__0` -/
def nbaSequentTop0 : VerilatedRoot :=
  let st := r.currentState
  if r.pins.rst then
    { r with
      vdlyCurrentState := 0, outStatus := 0, bramWe := false, bramWdata := 0, outErrCode := 0 }
  else
    { r with
      vdlyCurrentState := r.nextState
      outStatus := if st = 0 then 0 else if st = 1 then 2 else if st = 6 then 1
        else if st ≠ 4 then if st = 5 then 3 else r.outStatus
        else r.outStatus
      bramWe := if st = 0 then false
        else if st ≠ 1 then
          if st ≠ 6 then if st = 4 then true else if st = 5 then false else r.bramWe else r.bramWe
        else r.bramWe
      bramWdata := if st ≠ 0 ∧ st ≠ 1 ∧ st ≠ 6 ∧ st = 4 then r.executeWdata else r.bramWdata
      outErrCode := if st ≠ 0 ∧ st ≠ 1 then
          if st = 6 then r.internalErrorCode
          else if st ≠ 4 then if st = 5 then 0 else r.outErrCode
          else r.outErrCode
        else r.outErrCode }

/-- The value of `open_zones_count` in `___nba_sequent__TOP__1`. -/
def nextOpenZonesCount : BitVec 4 :=
  let n := r.openZonesCount
  let write := flag (r.pins.ioCmd = 1)
  let wptr := 0x7f#32 &&& r.pins.bramRdata
  if r.pins.rst then 0
  else if r.currentState = 4 then
    let dly := if write &&& flag (0xff#32 &&& r.pins.bramRdata = 0) ≠ 0 then 1 + n else n
    if write &&& flag (wptr = 0x3f#32) &&& flag (0 < n) ≠ 0 then n - 1
    else if flag (r.pins.ioCmd = 2) &&& flag (0 < wptr) &&& ~~~(r.pins.bramRdata >>> 7) &&&
        flag (0 < n) ≠ 0 then n - 1
    else dly
  else n

/-- `___nba_sequent__TOP__1`: the counter, and the rules with the new counter. -/
def nbaSequentTop1 : VerilatedRoot := { r with openZonesCount := r.nextOpenZonesCount }.icoCombTop2

/-- `_nba_sequent__TOP__2` -/
def nbaSequentTop2 : VerilatedRoot := { r with currentState := r.vdlyCurrentState }.icoCombTop0

/-- `___eval_nba`; the first block also sets its delayed copy before. -/
def evalNba : VerilatedRoot :=
  let t := r.vnbaTriggered
  let r := if 3 &&& t ≠ 0 then r.nbaSequentTop0 else r
  let r := if 1 &&& t ≠ 0 then r.nbaSequentTop1 else r
  if 3 &&& t ≠ 0 then r.nbaSequentTop2 else r

/-! ## The other regions -/

/-- `___eval_phase__act` -/
def evalPhaseAct : Bool × VerilatedRoot :=
  let triggered : BitVec 64 :=
    ((flag r.pins.rst &&& ~~~flag r.prevRst) <<< 1 ||| (flag r.pins.clk &&& ~~~flag r.prevClk)).setWidth 64
  (false, { r with
    vactTriggered := triggered
    prevClk := r.pins.clk
    prevRst := r.pins.rst
    vnbaTriggered := r.vnbaTriggered ||| triggered })

/-- `___eval_phase__nba` -/
def evalPhaseNba : Bool × VerilatedRoot :=
  if r.vnbaTriggered ≠ 0 then (true, { r.evalNba with vnbaTriggered := 0 }) else (false, r)

/-- A region is repeated as long as it has triggers; `none` is `DIDNOTCONVERGE`. -/
def converge (phase : VerilatedRoot → Option (Bool × VerilatedRoot)) :
    ℕ → VerilatedRoot → Option VerilatedRoot
  | 0, _ => none
  | n + 1, r => do
    let (again, r) ← phase r
    if again then converge phase n r else some r

/-- The limit of 10000 repetitions, with the first run. -/
def convergeLimit : ℕ := 10001

/-- A pass of the loop over the registers: the active region first. -/
def roundNba : Option (Bool × VerilatedRoot) := do
  let r ← converge (fun r => some r.evalPhaseAct) convergeLimit r
  some r.evalPhaseNba

/-- **`___eval`** -/
def eval : Option VerilatedRoot := do
  let r ← converge (fun r => some r.evalPhaseIco) convergeLimit r
  converge roundNba convergeLimit r

/-- `___eval_static` -/
def evalStatic : VerilatedRoot := { r with prev := r.pins, prevClk := r.pins.clk, prevRst := r.pins.rst }

/-- `___eval_phase__stl`, in the first iteration or a later one. -/
def evalPhaseStl (first : Bool) : Bool × VerilatedRoot :=
  let r := { r with
    vstlTriggered := (0xfffffffffffffffe &&& r.vstlTriggered) ||| (flag first).setWidth 64 }
  if r.vstlTriggered ≠ 0 then
    (true, if 1 &&& r.vstlTriggered ≠ 0 then r.icoCombTop0.icoCombTop1.icoCombTop2 else r)
  else (false, r)

/-- `___eval_settle` -/
def evalSettle : Option VerilatedRoot :=
  match r.evalPhaseStl true with
  | (true, r) => converge (fun r => some (r.evalPhaseStl false)) (convergeLimit - 1) r
  | (false, r) => some r

/-- **`eval_step`** -/
def evalStep : Option VerilatedRoot := do
  if r.vmDidInit then r.eval
  else
    let r ← r.evalStatic.evalSettle
    { r with vmDidInit := true }.eval

/-- `___ctor_var_reset`, when the random values are zero as they are by default. -/
def ctorVarReset : VerilatedRoot :=
  let low : VerilatedPins := ⟨false, false, false, 0, 0, 0, false, false, 0⟩
  { pins := low, bramAddr := 0, bramWdata := 0, bramWe := false, outStatus := 0, outErrCode := 0
    currentState := 0, openZonesCount := 0, hasError := false, internalErrorCode := 0
    isOpeningNewZone := false, vdlyCurrentState := 0, vstlTriggered := 0, vicoTriggered := (0, 0)
    prev := low, vicoDidInit := false, vactTriggered := 0, vnbaTriggered := 0, prevClk := false
    prevRst := false, vmDidInit := false }

end VerilatedRoot

end ZnsFlash
