import ZnsFlash.Rtl.VerilatedBits

/-!
# A call of `eval` is the event of the design

The pins change between two calls. The first round of the input region brings the combinational
signals up to date, the second finds nothing to do; the registers are assigned in the first round
of the last region, and the second finds no edge.

* `VerilatedRoot.Represents`, `Settled`: the registers of the design, and what a call leaves;
* `Validator.event`: a register of the source is assigned at `posedge clk or posedge rst`, the
  counter at `posedge clk`;
* **`Settled.eval`**, **`Constructed.evalStep`**: a call, and the first one, which sees no edge;
* **`run_events`**: any sequence of calls.
-/

namespace ZnsFlash

/-- The encoding of the control states in `zns_fsm_validator.v`. -/
def FsmState.code : FsmState → BitVec 3
  | .idle => 0
  | .bramRead => 1
  | .bramWait => 2
  | .validate => 3
  | .execute => 4
  | .updateBram => 5
  | .error => 6

/-- The design when the pins go from `old` to `new`. -/
def Validator.event (v : Validator) (old new : VerilatedPins) : Validator :=
  if old.clk = false ∧ new.clk = true then v.posedge new.inputs
  else if old.rst = false ∧ new.rst = true then v.asyncReset
  else v

namespace VerilatedRoot

/-- **The registers of `r` are those of the design in state `v`.** -/
structure Represents (r : VerilatedRoot) (v : Validator) : Prop where
  currentState : r.currentState = v.currentState.code
  openZonesCount : r.openZonesCount = v.openZonesCount
  bramWdata : r.bramWdata = v.bramWdata
  bramWe : r.bramWe = v.bramWe
  outStatus : r.outStatus = v.outStatus
  outErrCode : r.outErrCode = v.outErrCode

/-- The combinational signals agree with the pins and the registers. -/
structure Consistent (r : VerilatedRoot) : Prop where
  top0 : r.icoCombTop0 = r
  top1 : r.icoCombTop1 = r
  top2 : r.icoCombTop2 = r

/-- **What a call leaves**: signals that agree with the pins, the pins as the previous ones, and no
trigger. -/
structure Settled (r : VerilatedRoot) : Prop extends Consistent r where
  prev : r.prev = r.pins
  prevClk : r.prevClk = r.pins.clk
  prevRst : r.prevRst = r.pins.rst
  vicoTriggered : r.vicoTriggered.2 = 0
  vicoDidInit : r.vicoDidInit = true
  vnbaTriggered : r.vnbaTriggered = 0
  vmDidInit : r.vmDidInit = true

variable {r : VerilatedRoot} {v : Validator}

theorem Represents.withPins (hv : Represents r v) (p : VerilatedPins) :
    Represents { r with pins := p } v :=
  ⟨hv.currentState, hv.openZonesCount, hv.bramWdata, hv.bramWe, hv.outStatus, hv.outErrCode⟩

/-! ## Triggers -/

theorem changeBits_eq_zero : ∀ clk rst trigger cmd zone page bound thermal rdata : Bool,
    (changeBits clk rst trigger cmd zone page bound thermal rdata).setWidth 64 = 0#64 ↔
      (clk || rst || trigger || cmd || zone || page || bound || thermal || rdata) = false := by
  decide +kernel

theorem changeBits_top0 : ∀ clk rst trigger cmd zone page bound thermal rdata : Bool,
    0x14 &&& (changeBits clk rst trigger cmd zone page bound thermal rdata).setWidth 64 = 0#64 ↔
      (trigger || zone) = false := by
  decide +kernel

theorem changeBits_top1 : ∀ clk rst trigger cmd zone page bound thermal rdata : Bool,
    0x108 &&& (changeBits clk rst trigger cmd zone page bound thermal rdata).setWidth 64 = 0#64 ↔
      (cmd || rdata) = false := by
  decide +kernel

theorem changeBits_top2 : ∀ clk rst trigger cmd zone page bound thermal rdata : Bool,
    0x1e8 &&& (changeBits clk rst trigger cmd zone page bound thermal rdata).setWidth 64 = 0#64 ↔
      (cmd || page || bound || thermal || rdata) = false := by
  decide +kernel

/-! ## The input region -/

/-- `_ico_comb__TOP__0` to `_ico_comb__TOP__2`, one after the other. -/
def settle (r : VerilatedRoot) : VerilatedRoot := r.icoCombTop0.icoCombTop1.icoCombTop2

theorem settle_consistent (r : VerilatedRoot) : Consistent r.settle := ⟨rfl, rfl, rfl⟩

theorem Consistent.settle (h : Consistent r) : r.settle = r := by
  rw [VerilatedRoot.settle, h.top0, h.top1, h.top2]

theorem evalIco_eq_settle (h0 : 0x14 &&& r.vicoTriggered.1 = 0 → r.icoCombTop0 = r)
    (h1 : 0x108 &&& r.vicoTriggered.1 = 0 → r.icoCombTop1 = r)
    (h2 : 0x1e8 &&& r.vicoTriggered.1 = 0 → r.icoCombTop1 = r ∧ r.icoCombTop2 = r) :
    r.evalIco = r.settle := by
  have hfirst : (if 0x14 &&& r.vicoTriggered.1 ≠ 0 then r.icoCombTop0 else r) = r.icoCombTop0 := by
    split_ifs with h
    · rfl
    · exact (h0 (not_not.mp h)).symm
  have hsecond : (if 0x108 &&& r.vicoTriggered.1 ≠ 0 then r.icoCombTop0.icoCombTop1
      else r.icoCombTop0) = r.icoCombTop0.icoCombTop1 := by
    split_ifs with h
    · rfl
    · show r.icoCombTop0 = r.icoCombTop1.icoCombTop0
      rw [h1 (not_not.mp h)]
  simp only [evalIco, hfirst, hsecond]
  split_ifs with h
  · rfl
  · obtain ⟨h1, h2⟩ := h2 (not_not.mp h)
    show r.icoCombTop0.icoCombTop1 = r.icoCombTop0.icoCombTop1.icoCombTop2
    have hcomm : r.icoCombTop0.icoCombTop1 = r.icoCombTop0 := by
      show r.icoCombTop1.icoCombTop0 = r.icoCombTop0
      rw [h1]
    rw [hcomm]
    show r.icoCombTop0 = r.icoCombTop2.icoCombTop0
    rw [h2]

/-- The state after the input region, when the pins are `p`. -/
def afterIco (r : VerilatedRoot) (p : VerilatedPins) : VerilatedRoot :=
  { r with pins := p, prev := p, vicoDidInit := true, vicoTriggered := (0, 0) }.settle

theorem evalPhaseIco_quiet (hp : r.prev = r.pins) (hi : r.vicoDidInit = true)
    (hv : r.vicoTriggered.2 = 0) : r.evalPhaseIco = (false, { r with vicoTriggered := (0, 0) }) := by
  have hno : r.evalTriggersVecIco = { r with vicoTriggered := (0, 0) } := by
    simp [evalTriggersVecIco, hp, hi, hv]
    rfl
  rw [evalPhaseIco, hno]
  simp

section Converge

variable {phase : VerilatedRoot → Option (Bool × VerilatedRoot)} {r' : VerilatedRoot} {n : ℕ}

theorem converge_done (h : phase r = some (false, r')) : converge phase (n + 1) r = some r' := by
  simp [converge, h]

theorem converge_again (h : phase r = some (true, r')) :
    converge phase (n + 1) r = converge phase n r' := by
  simp [converge, h]

end Converge

/-- The triggers of a call after the first. -/
def pinBits (old new : VerilatedPins) : BitVec 64 :=
  (changeBits (new.clk ≠ old.clk) (new.rst ≠ old.rst) (new.ioTrigger ≠ old.ioTrigger)
    (new.ioCmd ≠ old.ioCmd) (new.validatedZoneId ≠ old.validatedZoneId)
    (new.validatedTargetPage ≠ old.validatedTargetPage) (new.addrBoundError ≠ old.addrBoundError)
    (new.thermalShutdownTripped ≠ old.thermalShutdownTripped)
    (new.bramRdata ≠ old.bramRdata)).setWidth 64

theorem pinBits_eq_zero {old new : VerilatedPins} : pinBits old new = 0 ↔ new = old := by
  show (changeBits _ _ _ _ _ _ _ _ _).setWidth 64 = 0#64 ↔ _
  rw [changeBits_eq_zero]
  cases old
  cases new
  simp [and_assoc]

/-- The state in which a round of the region finds its work. -/
def withTriggers (r : VerilatedRoot) (p : VerilatedPins) (t : BitVec 64) : VerilatedRoot :=
  { r with pins := p, prev := p, vicoDidInit := true, vicoTriggered := (t, 0) }

/-- **A round brings every signal up to date**, since a signal whose trigger is low reads no pin that has
changed. -/
theorem Settled.evalIco (hs : Settled r) (p : VerilatedPins) :
    (r.withTriggers p (pinBits r.pins p)).evalIco = (r.withTriggers p (pinBits r.pins p)).settle := by
  have haddr : r.bramAddr = r.icoCombTop0.bramAddr := by rw [hs.top0]
  have hopening : r.isOpeningNewZone = r.icoCombTop1.isOpeningNewZone := by rw [hs.top1]
  have herror : r.hasError = r.icoCombTop2.hasError := by rw [hs.top2]
  have hcode : r.internalErrorCode = r.icoCombTop2.internalErrorCode := by rw [hs.top2]
  apply evalIco_eq_settle
  · intro h
    have hsame := (changeBits_top0 _ _ _ _ _ _ _ _ _).mp h
    simp at hsame
    simp [withTriggers, icoCombTop0, haddr, hsame]
  · intro h
    have hsame := (changeBits_top1 _ _ _ _ _ _ _ _ _).mp h
    simp at hsame
    simp [withTriggers, icoCombTop1, hopening, hsame]
  · intro h
    have hsame := (changeBits_top2 _ _ _ _ _ _ _ _ _).mp h
    simp at hsame
    constructor
    · simp [withTriggers, icoCombTop1, hopening, hsame]
    · simp [withTriggers, icoCombTop2, rules, herror, hcode, hsame]

theorem Settled.converge_ico (hs : Settled r) (p : VerilatedPins) :
    converge (fun r => some r.evalPhaseIco) convergeLimit { r with pins := p } =
      some (r.afterIco p) := by
  have htrig : evalTriggersVecIco { r with pins := p } = r.withTriggers p (pinBits r.pins p) := by
    simp [evalTriggersVecIco, withTriggers, pinBits, hs.prev, hs.vicoDidInit, hs.vicoTriggered]
  by_cases hp : pinBits r.pins p = 0
  · have hpins : p = r.pins := pinBits_eq_zero.mp hp
    subst hpins
    have hquiet : evalPhaseIco r = (false, { r with vicoTriggered := (0, 0) }) :=
      evalPhaseIco_quiet hs.prev hs.vicoDidInit hs.vicoTriggered
    have hkeep : r.afterIco r.pins = { r with vicoTriggered := (0, 0) } := by
      show { r.settle with
        pins := r.pins, prev := r.pins, vicoDidInit := true, vicoTriggered := (0, 0) } = _
      rw [hs.settle, ← hs.vicoDidInit]
      simp only [← hs.prev]
    rw [convergeLimit, converge_done (congrArg some hquiet), hkeep]
  · have hfirst : evalPhaseIco { r with pins := p } =
        (true, (r.withTriggers p (pinBits r.pins p)).settle) := by
      rw [evalPhaseIco, htrig, if_pos (.inl hp), hs.evalIco]
    have hsecond : evalPhaseIco (r.withTriggers p (pinBits r.pins p)).settle =
        (false, r.afterIco p) := evalPhaseIco_quiet rfl rfl rfl
    rw [convergeLimit, converge_again (congrArg some hfirst), converge_done (congrArg some hsecond)]

/-! ## The registers -/

section Registers

variable (hc : Consistent r) (hv : Represents r v)

include hc

theorem Consistent.checkWord :
    ZnsFlash.checkWord r.pins.inputs r.openZonesCount = ⟨r.hasError, r.internalErrorCode⟩ := by
  have hopening : r.isOpeningNewZone = ZnsFlash.isOpeningNewZone r.pins.ioCmd r.pins.bramRdata := by
    rw [← isOpeningNewZone_icoCombTop1, hc.top1]
  rw [checkWord_eq_rules hopening]
  show RuleVerdict.mk r.icoCombTop2.hasError r.icoCombTop2.internalErrorCode = _
  rw [hc.top2]

include hv

theorem Represents.hasError :
    r.hasError = (ZnsFlash.checkWord r.pins.inputs v.openZonesCount).hasError := by
  rw [← hv.openZonesCount, hc.checkWord]

theorem Represents.internalErrorCode :
    r.internalErrorCode = (ZnsFlash.checkWord r.pins.inputs v.openZonesCount).errorCode := by
  rw [← hv.openZonesCount, hc.checkWord]

theorem Represents.nextState : r.nextState = (ZnsFlash.nextState v r.pins.inputs).code := by
  have herror := hv.hasError hc
  have hst := hv.currentState
  have htrigger : r.pins.inputs.ioTrigger = r.pins.ioTrigger := rfl
  cases hv : v.currentState <;> rw [hv] at hst <;>
    simp only [VerilatedRoot.nextState, ZnsFlash.nextState, hst, hv, FsmState.code, herror, htrigger] <;>
    cases (ZnsFlash.checkWord r.pins.inputs v.openZonesCount).hasError <;>
    cases r.pins.ioTrigger <;> decide

omit hc in
theorem Represents.nextOpenZonesCount :
    r.nextOpenZonesCount = znsResourcesTracker r.pins.rst r.pins.ioCmd (v.currentState = .execute)
      (zoneWptr r.pins.bramRdata) (zoneIsFull r.pins.bramRdata) v.openZonesCount := by
  have hst : r.currentState = 4 ↔ v.currentState = .execute := by
    rw [hv.currentState]
    cases v.currentState <;> decide
  have h63 : 0#25 ++ zoneWptr r.pins.bramRdata = 0x3f#32 ↔ zoneWptr r.pins.bramRdata = 63 :=
    zeroExtend_eq_ofNat _ (by decide)
  have hpos : 0 < 0#25 ++ zoneWptr r.pins.bramRdata ↔ 0 < zoneWptr r.pins.bramRdata := by
    rw [BitVec.lt_def, BitVec.lt_def, zeroExtend_wptr_toNat]
    rfl
  have hnot : (~~~(r.pins.bramRdata >>> 7)).getLsbD 0 = !zoneIsFull r.pins.bramRdata := by
    rw [BitVec.getLsbD_not, getLsbD_full]
    simp
  simp only [VerilatedRoot.nextOpenZonesCount, znsResourcesTracker, getLsbD_flag, flag_and_word,
    flag_ne_zero, mask_low_byte, mask_wptr, h63, hpos, hst, hnot, hv.openZonesCount,
    Bool.and_eq_true, decide_eq_true_eq, and_assoc, Bool.not_eq_true', Bool.not_eq_true,
    BitVec.add_comm 1]

theorem Represents.outputs (hrst : r.pins.rst = false) :
    Represents { r.nbaSequentTop0 with currentState := r.nbaSequentTop0.vdlyCurrentState }
      { v.outputs r.pins.inputs with currentState := ZnsFlash.nextState v r.pins.inputs } := by
  have hst := hv.currentState
  have hcode := hv.internalErrorCode hc
  have hword := executeWdata_eq (r := r)
  have hnext := hv.nextState hc
  have hcmd : r.pins.inputs.ioCmd = r.pins.ioCmd := rfl
  have hdata : r.pins.inputs.bramRdata = r.pins.bramRdata := rfl
  constructor
  · simp [nbaSequentTop0, hrst, hnext]
  · cases h : v.currentState <;> simp [nbaSequentTop0, hrst, Validator.outputs, h, hv.openZonesCount]
  all_goals
    cases h : v.currentState <;> rw [h] at hst <;>
      simp [nbaSequentTop0, hrst, Validator.outputs, h, hst, FsmState.code, hv.bramWdata, hv.bramWe,
        hv.outStatus, hv.outErrCode, hcode, hword, hcmd, hdata]

/-- **A rising clock.** The registers take the values of the design and the signals follow. -/
theorem Represents.nba_clk :
    Represents r.nbaSequentTop0.nbaSequentTop1.nbaSequentTop2 (v.posedge r.pins.inputs) := by
  have hcount := hv.nextOpenZonesCount
  by_cases hrst : r.pins.rst = true
  · have hpos := posedge_rst (v := v) (p := r.pins.inputs) hrst
    rw [hpos]
    constructor <;>
      simp [nbaSequentTop0, nbaSequentTop1, nbaSequentTop2, icoCombTop0, icoCombTop2, hrst,
        Validator.asyncReset, FsmState.code, VerilatedRoot.nextOpenZonesCount]
  · have hlow : r.pins.rst = false := by simpa using hrst
    have hout := hv.outputs hc hlow
    have hkeep : r.nbaSequentTop0.nextOpenZonesCount = r.nextOpenZonesCount := by
      simp [nbaSequentTop0, hlow, VerilatedRoot.nextOpenZonesCount]
    have hpos : v.posedge r.pins.inputs = { v.outputs r.pins.inputs with
        currentState := ZnsFlash.nextState v r.pins.inputs
        openZonesCount := r.nextOpenZonesCount } := by
      rw [hcount, Validator.posedge, if_neg (show ¬ r.pins.inputs.rst = true from hrst)]
      rfl
    rw [hpos]
    exact ⟨hout.currentState, hkeep, hout.bramWdata, hout.bramWe, hout.outStatus, hout.outErrCode⟩

omit hc in
/-- **A rising reset, the clock as it was.** The counter is not reset. -/
theorem Represents.nba_rst (hrst : r.pins.rst = true) :
    Represents r.nbaSequentTop0.nbaSequentTop2 v.asyncReset := by
  constructor <;>
    simp [nbaSequentTop0, nbaSequentTop2, icoCombTop0, hrst, Validator.asyncReset, FsmState.code,
      hv.openZonesCount]

end Registers

theorem nbaSequentTop0_frame (r : VerilatedRoot) :
    ∃ state status we wdata code, r.nbaSequentTop0 = { r with
      vdlyCurrentState := state, outStatus := status, bramWe := we, bramWdata := wdata
      outErrCode := code } := by
  by_cases h : r.pins.rst = true
  · exact ⟨0, 0, false, 0, 0, by simp [nbaSequentTop0, h]⟩
  · exact ⟨_, _, _, _, _, by rw [nbaSequentTop0, if_neg h]⟩

theorem Consistent.top1_of_pins (hc : Consistent r) {x : VerilatedRoot} (hp : x.pins = r.pins)
    (ho : x.isOpeningNewZone = r.isOpeningNewZone) : x.icoCombTop1 = x := by
  have hopening : x.isOpeningNewZone = x.icoCombTop1.isOpeningNewZone := by
    rw [ho, ← hc.top1]
    simp [icoCombTop1, hp]
  show { x with isOpeningNewZone := x.icoCombTop1.isOpeningNewZone } = x
  rw [← hopening]

theorem Consistent.top2_of_pins (hc : Consistent r) {x : VerilatedRoot} (hp : x.pins = r.pins)
    (ho : x.isOpeningNewZone = r.isOpeningNewZone) (hn : x.openZonesCount = r.openZonesCount)
    (he : x.hasError = r.hasError) (hi : x.internalErrorCode = r.internalErrorCode) :
    x.icoCombTop2 = x := by
  have hrules : x.rules = r.rules := by simp [rules, hp, ho, hn]
  have herror : x.hasError = x.icoCombTop2.hasError := by
    rw [he, ← hc.top2]
    simp [icoCombTop2, hrules]
  have hcode : x.internalErrorCode = x.icoCombTop2.internalErrorCode := by
    rw [hi, ← hc.top2]
    simp [icoCombTop2, hrules]
  show { x with
    hasError := x.icoCombTop2.hasError, internalErrorCode := x.icoCombTop2.internalErrorCode } = x
  rw [← herror, ← hcode]

theorem Consistent.nba_clk (hc : Consistent r) :
    Consistent r.nbaSequentTop0.nbaSequentTop1.nbaSequentTop2 := by
  obtain ⟨state, status, we, wdata, code, h⟩ := nbaSequentTop0_frame r
  rw [h]
  exact ⟨rfl, hc.top1_of_pins rfl rfl, rfl⟩

theorem Consistent.nba_rst (hc : Consistent r) :
    Consistent r.nbaSequentTop0.nbaSequentTop2 := by
  obtain ⟨state, status, we, wdata, code, h⟩ := nbaSequentTop0_frame r
  rw [h]
  exact ⟨rfl, hc.top1_of_pins rfl rfl, hc.top2_of_pins rfl rfl rfl rfl rfl⟩

/-! ## A call -/

theorem actBits : ∀ clk prevClk rst prevRst : Bool,
    ((flag rst &&& ~~~flag prevRst) <<< 1 ||| (flag clk &&& ~~~flag prevClk)).setWidth 64 =
      (if prevRst = false ∧ rst = true then 2 else 0#64) |||
        (if prevClk = false ∧ clk = true then 1 else 0#64) := by
  decide

/-- What the input region leaves, when the pins were `old` at the last call. -/
structure Pending (r : VerilatedRoot) (old : VerilatedPins) : Prop extends Consistent r where
  prev : r.prev = r.pins
  prevClk : r.prevClk = old.clk
  prevRst : r.prevRst = old.rst
  vicoTriggered : r.vicoTriggered.2 = 0
  vicoDidInit : r.vicoDidInit = true
  vnbaTriggered : r.vnbaTriggered = 0
  vmDidInit : r.vmDidInit = true

theorem Settled.afterIco (hs : Settled r) (p : VerilatedPins) : Pending (r.afterIco p) r.pins where
  toConsistent := settle_consistent _
  prev := rfl
  prevClk := hs.prevClk
  prevRst := hs.prevRst
  vicoTriggered := rfl
  vicoDidInit := rfl
  vnbaTriggered := hs.vnbaTriggered
  vmDidInit := hs.vmDidInit

/-- The state in which `___eval_nba` starts. -/
def triggered (r : VerilatedRoot) (t : BitVec 64) : VerilatedRoot :=
  { r with
    vactTriggered := t, prevClk := r.pins.clk, prevRst := r.pins.rst, vnbaTriggered := t }

theorem Pending.roundNba {old : VerilatedPins} (h : Pending r old) {t : BitVec 64}
    (ht : t = (if old.rst = false ∧ r.pins.rst = true then 2 else 0#64) |||
      (if old.clk = false ∧ r.pins.clk = true then 1 else 0#64)) :
    r.roundNba = some (r.triggered t).evalPhaseNba := by
  have hact : r.evalPhaseAct = (false, r.triggered t) := by
    rw [evalPhaseAct, actBits, h.prevClk, h.prevRst, h.vnbaTriggered, ← ht]
    simp [triggered]
  rw [VerilatedRoot.roundNba, convergeLimit, converge_done (congrArg some hact)]
  rfl

theorem Settled.converge_nba (hs : Settled r) (n : ℕ) :
    converge VerilatedRoot.roundNba (n + 1) r = some { r with vactTriggered := 0 } := by
  have hpend : Pending r r.pins := ⟨hs.toConsistent, hs.prev, hs.prevClk, hs.prevRst,
    hs.vicoTriggered, hs.vicoDidInit, hs.vnbaTriggered, hs.vmDidInit⟩
  have hround := hpend.roundNba (t := 0) (by simp)
  have hquiet : (r.triggered 0).evalPhaseNba = (false, { r with vactTriggered := 0 }) := by
    simp [evalPhaseNba, triggered, ← hs.prevClk, ← hs.prevRst, ← hs.vnbaTriggered]
  rw [hquiet] at hround
  exact converge_done hround

theorem Consistent.vactTriggered (h : Consistent r) (t : BitVec 64) :
    Consistent { r with vactTriggered := t } :=
  ⟨congrArg (fun x => { x with vactTriggered := t }) h.top0,
    congrArg (fun x => { x with vactTriggered := t }) h.top1,
    congrArg (fun x => { x with vactTriggered := t }) h.top2⟩

theorem Consistent.vnbaTriggered (h : Consistent r) (t : BitVec 64) :
    Consistent { r with vnbaTriggered := t } :=
  ⟨congrArg (fun x => { x with vnbaTriggered := t }) h.top0,
    congrArg (fun x => { x with vnbaTriggered := t }) h.top1,
    congrArg (fun x => { x with vnbaTriggered := t }) h.top2⟩

theorem Consistent.triggered (h : Consistent r) (t : BitVec 64) : Consistent (r.triggered t) :=
  ⟨congrArg (fun x => x.triggered t) h.top0, congrArg (fun x => x.triggered t) h.top1,
    congrArg (fun x => x.triggered t) h.top2⟩

theorem Settled.vactTriggered (hs : Settled r) (t : BitVec 64) :
    Settled { r with vactTriggered := t } :=
  ⟨hs.toConsistent.vactTriggered t, hs.prev, hs.prevClk, hs.prevRst, hs.vicoTriggered,
    hs.vicoDidInit, hs.vnbaTriggered, hs.vmDidInit⟩

section Edges

variable {old : VerilatedPins} (h : Pending r old) (t : BitVec 64)

include h

theorem Pending.settled_clk :
    Settled { (r.triggered t).nbaSequentTop0.nbaSequentTop1.nbaSequentTop2 with
      vnbaTriggered := 0 } := by
  have hc := ((h.toConsistent.triggered t).nba_clk).vnbaTriggered 0
  obtain ⟨state, status, we, wdata, code, hframe⟩ := nbaSequentTop0_frame (r.triggered t)
  rw [hframe] at hc ⊢
  exact ⟨hc, h.prev, rfl, rfl, h.vicoTriggered, h.vicoDidInit, rfl, h.vmDidInit⟩

theorem Pending.settled_rst :
    Settled { (r.triggered t).nbaSequentTop0.nbaSequentTop2 with vnbaTriggered := 0 } := by
  have hc := ((h.toConsistent.triggered t).nba_rst).vnbaTriggered 0
  obtain ⟨state, status, we, wdata, code, hframe⟩ := nbaSequentTop0_frame (r.triggered t)
  rw [hframe] at hc ⊢
  exact ⟨hc, h.prev, rfl, rfl, h.vicoTriggered, h.vicoDidInit, rfl, h.vmDidInit⟩

end Edges

theorem Represents.triggered (hv : Represents r v) (t : BitVec 64) : Represents (r.triggered t) v :=
  ⟨hv.currentState, hv.openZonesCount, hv.bramWdata, hv.bramWe, hv.outStatus, hv.outErrCode⟩

theorem nbaSequentTop0_pins (r : VerilatedRoot) : r.nbaSequentTop0.pins = r.pins := by
  obtain ⟨state, status, we, wdata, code, h⟩ := nbaSequentTop0_frame r
  rw [h]

/-- **An edge is taken in one round**, and the next finds none. -/
theorem Pending.converge_edge {old : VerilatedPins} (h : Pending r old) {t : BitVec 64}
    (ht : t = (if old.rst = false ∧ r.pins.rst = true then 2 else 0#64) |||
      (if old.clk = false ∧ r.pins.clk = true then 1 else 0#64)) (hne : t ≠ 0)
    {r' : VerilatedRoot} (hnba : (r.triggered t).evalNba = r')
    (hs : Settled { r' with vnbaTriggered := 0 }) (n : ℕ) :
    converge VerilatedRoot.roundNba (n + 2) r =
      some { r' with vnbaTriggered := 0, vactTriggered := 0 } := by
  have hround := h.roundNba ht
  have hedge : (r.triggered t).evalPhaseNba = (true, { r' with vnbaTriggered := 0 }) := by
    rw [evalPhaseNba, if_pos (show (r.triggered t).vnbaTriggered ≠ 0 from hne), hnba]
  rw [hedge] at hround
  rw [converge_again hround, hs.converge_nba]

/-- **The regions of registers take a state to that of the event.** -/
theorem Pending.converge_nba {old : VerilatedPins} (h : Pending r old) (hv : Represents r v) (n : ℕ) :
    ∃ r', converge VerilatedRoot.roundNba (n + 2) r = some r' ∧ Settled r' ∧ r'.pins = r.pins ∧
      Represents r' (v.event old r.pins) := by
  by_cases hclk : old.clk = false ∧ r.pins.clk = true
  -- a rising clock, perhaps with a rising reset: all three regions are evaluated
  · set t : BitVec 64 := (if old.rst = false ∧ r.pins.rst = true then 2 else 0#64) ||| 1 with ht
    have hbits : t ≠ 0 ∧ 1 &&& t ≠ 0 ∧ 3 &&& t ≠ 0 := by
      rw [ht]
      split_ifs <;> decide
    have hnba : (r.triggered t).evalNba =
        (r.triggered t).nbaSequentTop0.nbaSequentTop1.nbaSequentTop2 := by
      have hv : (r.triggered t).vnbaTriggered = t := rfl
      simp only [evalNba, hv, if_pos hbits.2.1, if_pos hbits.2.2]
    refine ⟨_, h.converge_edge (by rw [if_pos hclk]) hbits.1 hnba (h.settled_clk t) n,
      (h.settled_clk t).vactTriggered 0, nbaSequentTop0_pins _, ?_⟩
    have hedge := (hv.triggered t).nba_clk (h.toConsistent.triggered t)
    rw [Validator.event, if_pos hclk]
    exact ⟨hedge.currentState, hedge.openZonesCount, hedge.bramWdata, hedge.bramWe,
      hedge.outStatus, hedge.outErrCode⟩
  · by_cases hrst : old.rst = false ∧ r.pins.rst = true
    -- a rising reset alone
    · have hnba : (r.triggered 2).evalNba = (r.triggered 2).nbaSequentTop0.nbaSequentTop2 := by
        have hv : (r.triggered 2).vnbaTriggered = 2 := rfl
        have hbits : ¬ 1 &&& (2 : BitVec 64) ≠ 0 ∧ 3 &&& (2 : BitVec 64) ≠ 0 := by decide
        simp only [evalNba, hv, if_neg hbits.1, if_pos hbits.2]
      refine ⟨_, h.converge_edge (by rw [if_neg hclk, if_pos hrst]; rfl) (by decide) hnba
        (h.settled_rst 2) n, (h.settled_rst 2).vactTriggered 0, nbaSequentTop0_pins _, ?_⟩
      have hedge := (hv.triggered 2).nba_rst hrst.2
      rw [Validator.event, if_neg hclk, if_pos hrst]
      exact ⟨hedge.currentState, hedge.openZonesCount, hedge.bramWdata, hedge.bramWe,
        hedge.outStatus, hedge.outErrCode⟩
    -- no edge: the first round is the last
    · have hround := h.roundNba (t := 0) (by rw [if_neg hclk, if_neg hrst]; rfl)
      have hquiet : (r.triggered 0).evalPhaseNba = (false, r.triggered 0) := by
        simp [evalPhaseNba, VerilatedRoot.triggered]
      rw [hquiet] at hround
      refine ⟨_, converge_done hround, ⟨h.toConsistent.triggered 0, h.prev, rfl, rfl,
        h.vicoTriggered, h.vicoDidInit, rfl, h.vmDidInit⟩, rfl, ?_⟩
      rw [Validator.event, if_neg hclk, if_neg hrst]
      exact hv.triggered 0

/-- **A call of `eval` settles, and its registers are those of the design after the event.** -/
theorem Settled.eval (hs : Settled r) (hv : Represents r v) (p : VerilatedPins) :
    ∃ r', VerilatedRoot.eval { r with pins := p } = some r' ∧ Settled r' ∧ r'.pins = p ∧
      Represents r' (v.event r.pins p) := by
  have hafter : Represents (r.afterIco p) v := ⟨hv.currentState, hv.openZonesCount, hv.bramWdata,
    hv.bramWe, hv.outStatus, hv.outErrCode⟩
  obtain ⟨r', hnba, hrest⟩ := (hs.afterIco p).converge_nba hafter 9999
  refine ⟨r', ?_, hrest⟩
  have hlimit : convergeLimit = 9999 + 2 := rfl
  rw [VerilatedRoot.eval, hs.converge_ico, Option.bind_eq_bind, Option.bind_some, hlimit, hnba]

/-! ## The first call -/

/-- What the constructor leaves, whatever the values of the variables of the design. -/
structure Constructed (r : VerilatedRoot) : Prop where
  vstlTriggered : r.vstlTriggered = 0
  vicoTriggered : r.vicoTriggered = (0, 0)
  vicoDidInit : r.vicoDidInit = false
  vnbaTriggered : r.vnbaTriggered = 0
  vmDidInit : r.vmDidInit = false

theorem evalSettle_eq (h : r.vstlTriggered = 0) :
    r.evalSettle = some { r.settle with vstlTriggered := 0 } := by
  have hfirst : r.evalPhaseStl true = (true, { r.settle with vstlTriggered := 1 }) := by
    simp [evalPhaseStl, h, flag]
    rfl
  have hsecond : ({ r.settle with vstlTriggered := 1 } : VerilatedRoot).evalPhaseStl false =
      (false, { r.settle with vstlTriggered := 0 }) := by
    simp [evalPhaseStl, flag]
  have hlimit : convergeLimit - 1 = 9999 + 1 := rfl
  simp only [evalSettle, hfirst, hlimit]
  have hdone : (fun r : VerilatedRoot => some (r.evalPhaseStl false)) { r.settle with vstlTriggered := 1 } =
      some (false, { r.settle with vstlTriggered := 0 }) := congrArg some hsecond
  exact converge_done hdone

/-- **The first call sees no edge**: it takes the pins as they are for the previous ones. -/
theorem Constructed.evalStep (h : Constructed r) (hv : Represents r v) :
    ∃ r', r.evalStep = some r' ∧ Settled r' ∧ r'.pins = r.pins ∧ Represents r' v := by
  have hsettle : r.evalStatic.evalSettle = some { r.evalStatic.settle with vstlTriggered := 0 } :=
    evalSettle_eq h.vstlTriggered
  set s : VerilatedRoot :=
    { r.evalStatic.settle with vstlTriggered := 0, vmDidInit := true } with hs
  -- every trigger of the input region is raised once
  set t : VerilatedRoot := { s with vicoDidInit := true, vicoTriggered := (0x1ff, 0) } with ht
  have htrig : s.evalTriggersVecIco = t := by
    have hbits : pinBits s.pins s.pins = 0 := pinBits_eq_zero.mpr rfl
    have hraised : s.evalTriggersVecIco =
        { s with vicoDidInit := true, vicoTriggered := (0x1ff ||| pinBits s.pins s.pins, 0) } := by
      have hico : s.vicoTriggered = (0, 0) := h.vicoTriggered
      have hdid : s.vicoDidInit = false := h.vicoDidInit
      simp only [evalTriggersVecIco, hico, hdid]
      rfl
    rw [hraised, hbits]
    rfl
  have hcons : Consistent t := ⟨rfl, rfl, rfl⟩
  have hfirst : s.evalPhaseIco = (true, t) := by
    have hico : t.evalIco = t.settle :=
      evalIco_eq_settle (fun _ => hcons.top0) (fun _ => hcons.top1)
        (fun _ => ⟨hcons.top1, hcons.top2⟩)
    have hraised : t.vicoTriggered.1 ≠ 0 := show (0x1ff : BitVec 64) ≠ 0 by decide
    rw [evalPhaseIco, htrig, if_pos (.inl hraised), hico, hcons.settle]
  have hsecond : t.evalPhaseIco = (false, { t with vicoTriggered := (0, 0) }) :=
    evalPhaseIco_quiet rfl rfl rfl
  have hpend : Pending { t with vicoTriggered := (0, 0) } t.pins :=
    ⟨⟨rfl, rfl, rfl⟩, rfl, rfl, rfl, rfl, rfl, h.vnbaTriggered, rfl⟩
  have hrep : Represents { t with vicoTriggered := (0, 0) } v := ⟨hv.currentState, hv.openZonesCount,
    hv.bramWdata, hv.bramWe, hv.outStatus, hv.outErrCode⟩
  obtain ⟨r', hnba, hset, hpins, hrep'⟩ := hpend.converge_nba hrep 9999
  have hsame : v.event t.pins t.pins = v := by
    have hclk : ¬ (t.pins.clk = false ∧ t.pins.clk = true) := by simp
    have hrst : ¬ (t.pins.rst = false ∧ t.pins.rst = true) := by simp
    rw [Validator.event, if_neg hclk, if_neg hrst]
  refine ⟨r', ?_, hset, hpins, hsame ▸ hrep'⟩
  have hico : converge (fun r => some r.evalPhaseIco) (9999 + 2) s =
      some { t with vicoTriggered := (0, 0) } := by
    rw [converge_again (congrArg some hfirst), converge_done (congrArg some hsecond)]
  have hlimit : convergeLimit = 9999 + 2 := rfl
  rw [VerilatedRoot.evalStep, if_neg (by simp [h.vmDidInit]), hsettle, Option.bind_eq_bind,
    Option.bind_some]
  rw [VerilatedRoot.eval, hlimit, hico, Option.bind_eq_bind, Option.bind_some, hnba]

/-! ## Runs -/

/-- Setting the pins and calling `eval`, for each entry in turn. -/
def run (r : VerilatedRoot) : List VerilatedPins → Option VerilatedRoot :=
  List.foldlM (fun r p => evalStep { r with pins := p }) r

end VerilatedRoot

/-- The design while the pins take the values `ps`, from `old`. -/
def Validator.events (v : Validator) (old : VerilatedPins) : List VerilatedPins → Validator
  | [] => v
  | p :: ps => (v.event old p).events p ps

namespace VerilatedRoot

variable {r : VerilatedRoot} {v : Validator}

/-- **Every output port of the simulator is that of the design.** -/
structure SamePorts (r : VerilatedRoot) (v : Validator) : Prop where
  bramAddr : r.bramAddr = v.bramAddr r.pins.inputs
  bramWdata : r.bramWdata = v.bramWdata
  bramWe : r.bramWe = v.bramWe
  outStatus : r.outStatus = v.outStatus
  outErrCode : r.outErrCode = v.outErrCode

theorem Settled.samePorts (hs : Settled r) (hv : Represents r v) : SamePorts r v where
  bramAddr := by
    have haddr : r.bramAddr = r.icoCombTop0.bramAddr := by rw [hs.top0]
    have hst : r.currentState = 0 ↔ v.currentState = .idle := by
      rw [hv.currentState]
      cases v.currentState <;> decide
    have htrig : r.pins.inputs.ioTrigger = r.pins.ioTrigger := rfl
    rw [haddr]
    simp only [icoCombTop0, Validator.bramAddr, ne_eq, hst, htrig]
    have hones : r.pins.validatedZoneId &&& 4294967295#32 = r.pins.inputs.validatedZoneId :=
      BitVec.and_allOnes
    cases r.pins.ioTrigger <;> by_cases h : v.currentState = .idle <;> simp [flag, h, hones]
  bramWdata := hv.bramWdata
  bramWe := hv.bramWe
  outStatus := hv.outStatus
  outErrCode := hv.outErrCode

theorem Settled.run (hs : Settled r) (hv : Represents r v) (ps : List VerilatedPins) :
    ∃ r', r.run ps = some r' ∧ Settled r' ∧ Represents r' (v.events r.pins ps) := by
  induction ps generalizing r v with
  | nil => exact ⟨r, rfl, hs, hv⟩
  | cons p ps ih =>
    obtain ⟨r₁, heval, hs₁, hpins, hv₁⟩ := hs.eval hv p
    obtain ⟨r', hrun, hs', hv'⟩ := ih hs₁ hv₁
    rw [hpins] at hv'
    refine ⟨r', ?_, hs', hv'⟩
    have hstep : evalStep { r with pins := p } = some r₁ := by
      rw [VerilatedRoot.evalStep, if_pos hs.vmDidInit, heval]
    rw [VerilatedRoot.run, List.foldlM_cons, hstep]
    exact hrun

/-- **The generated simulator is the design.** From any contents of its variables after the constructor,
no sequence of calls fails to converge, and after it every register and every port is that of the
design, whose events are the changes of the pins after the first call. -/
theorem run_events (hr : Constructed r) (hv : Represents r v) (p : VerilatedPins)
    (ps : List VerilatedPins) :
    ∃ r', r.run (p :: ps) = some r' ∧ Represents r' (v.events p ps) ∧
      SamePorts r' (v.events p ps) := by
  have hfirst : Constructed { r with pins := p } := ⟨hr.vstlTriggered, hr.vicoTriggered,
    hr.vicoDidInit, hr.vnbaTriggered, hr.vmDidInit⟩
  obtain ⟨r₁, heval, hs₁, hpins, hv₁⟩ := hfirst.evalStep (hv.withPins p)
  obtain ⟨r', hrun, hs', hv'⟩ := hs₁.run hv₁ ps
  have hpins₁ : r₁.pins = p := hpins
  rw [hpins₁] at hv'
  refine ⟨r', ?_, hv', hs'.samePorts hv'⟩
  rw [VerilatedRoot.run, List.foldlM_cons, heval]
  exact hrun

theorem constructed_ctorVarReset : Constructed ctorVarReset := ⟨rfl, rfl, rfl, rfl, rfl⟩

theorem represents_ctorVarReset : Represents ctorVarReset ⟨.idle, 0, 0, false, 0, 0⟩ :=
  ⟨rfl, rfl, rfl, rfl, rfl, rfl⟩

/-- A fresh simulator: `rst` is high in the first two calls, rises in the fourth, `clk` in the first. -/
theorem run_events_fresh :
    let pins (clk rst : Bool) : VerilatedPins := ⟨clk, rst, false, 0, 0, 0, false, false, 0⟩
    let rest := [pins false true, pins false false, pins false true]
    ∃ r', ctorVarReset.run (pins true true :: rest) = some r' ∧
      Represents r' (Validator.events ⟨.idle, 0, 0, false, 0, 0⟩ (pins true true) rest) ∧
      SamePorts r' (Validator.events ⟨.idle, 0, 0, false, 0, 0⟩ (pins true true) rest) :=
  run_events constructed_ctorVarReset represents_ctorVarReset _ _

end VerilatedRoot

end ZnsFlash
