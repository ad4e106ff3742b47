import ZnsFlash.Sim.Bridge

/-!
# The firmware driver

`zns_driver.c` over the bridge: the registers it writes, the polling loop and the completion entry.

* `Driver`, `Driver.csrWrite32`, `pollStatus`, `Driver.znsProcessNvmeCommand`;
* `Driver.pollCommand`: its part that drives the automaton;
* `Driver.issue`, `Driver.issue_eq`: the register writes, and the pins after them;
* **`Driver.process_rejected`**, **`Driver.process_approved`**: what a command does from a ready
  bridge, with enough fuel for six polls.
-/

namespace ZnsFlash

open Zoned Runs

/-- The fields of `nvme_sqe_t` that the driver reads. -/
structure NvmeSqe where
  opcode : BitVec 8
  cid : BitVec 16
  slba : BitVec 64
  zsa : BitVec 32
  deriving DecidableEq

/-- The fields of `nvme_cqe_t` that the driver writes. -/
structure NvmeCqe where
  cdw0 : BitVec 32
  cid : BitVec 16
  status : BitVec 16
  deriving DecidableEq

/-- The register addresses of `generated/csr.h`, which are pairwise distinct. -/
inductive Csr
  | trigger
  | nvmeOpcode
  | nvmeLbaLo
  | nvmeLbaHi
  | nvmeBlocks
  | sqTailDb
  | cqHeadDb
  deriving DecidableEq

/-- The bridge with the static data of the driver. -/
structure Driver where
  bridge : Bridge
  currentLbaAccumulator : BitVec 64
  stubSqTail : BitVec 32
  stubCqHead : BitVec 32

namespace Driver

/-- Both address registers cut the accumulator into page and zone. -/
def simSetAddress (lba : BitVec 64) (b : Bridge) : Bridge :=
  let localPage := (lba &&& 0x3F#64).setWidth 32
  let zoneId := ((lba >>> 6) &&& 0xFFFFFFFF#64).setWidth 32
  Bridge.simSetValidatedZoneId zoneId (Bridge.simSetValidatedTargetPage localPage b)

/-- `csr_write32` -/
def csrWrite32 (d : Driver) (val : BitVec 32) (addr : Csr) : Driver :=
  match addr with
  | .trigger => { d with bridge := Bridge.simSetIoTrigger (val.getLsbD 0) d.bridge }
  | .nvmeLbaLo =>
    let lba := (d.currentLbaAccumulator &&& 0xFFFFFFFF00000000#64) ||| val.setWidth 64
    { d with currentLbaAccumulator := lba, bridge := simSetAddress lba d.bridge }
  | .nvmeLbaHi =>
    let lba := (d.currentLbaAccumulator &&& 0x00000000FFFFFFFF#64) ||| (val.setWidth 64 <<< 32)
    { d with currentLbaAccumulator := lba, bridge := simSetAddress lba d.bridge }
  | .nvmeOpcode => { d with bridge := Bridge.simSetIoCmd ((val &&& 0xFF#32).setWidth 8) d.bridge }
  | .nvmeBlocks => d
  | .sqTailDb => { d with stubSqTail := val }
  | .cqHeadDb => { d with stubCqHead := val }

end Driver

/-- The loop `do hw_status = …; while (hw_status == 2 || hw_status == 0)`, for at most `fuel`
rounds. -/
def pollStatus : ℕ → Bridge → Option (Bridge × BitVec 8)
  | 0, _ => none
  | fuel + 1, b =>
    let (b', hwStatus) := b.simGetOutStatus
    if hwStatus = 2 ∨ hwStatus = 0 then pollStatus fuel b' else some (b', hwStatus)

/-- The opcode of the automaton for an entry, or the completion status that refuses it. -/
def hardwareCmd (sqe : NvmeSqe) : Except (BitVec 16) (BitVec 8) :=
  if sqe.opcode = 0x02 then .ok 0
  else if sqe.opcode = 0x01 then .ok 1
  else if sqe.opcode = 0x79 then
    if sqe.zsa &&& 0xFF#32 = 0x04 then .ok 2 else .error ((1#16 <<< 9) ||| (0x02 <<< 1))
  else .error ((1#16 <<< 9) ||| (0x01 <<< 1))

/-- `nvme_sc` of an error code of the automaton. -/
def nvmeSc (hwError : BitVec 8) : BitVec 16 :=
  if hwError = 0x01 then 0x82
  else if hwError = 0x02 then 0x81
  else if hwError = 0x03 then 0x80
  else if hwError = 0x05 then 0x24
  else if hwError = 0x07 then 0x83
  else if hwError = 0x08 then 0x24
  else 0x06

namespace Driver

/-- The register writes that start a command. -/
def issue (d : Driver) (sqe : NvmeSqe) (hardwareCmd : BitVec 8) : Driver :=
  let d := d.csrWrite32 (((sqe.slba >>> 32) &&& 0xFFFFFFFF#64).setWidth 32) .nvmeLbaHi
  let d := d.csrWrite32 ((sqe.slba &&& 0xFFFFFFFF#64).setWidth 32) .nvmeLbaLo
  let d := d.csrWrite32 (hardwareCmd.setWidth 32) .nvmeOpcode
  let d := d.csrWrite32 0 .nvmeBlocks
  d.csrWrite32 1 .trigger

/-- The completion status for a status and an error code of the automaton. -/
def cqeStatus (hwStatus hwError : BitVec 8) : BitVec 16 :=
  if hwStatus = 3 then 0 else (1#16 <<< 9) ||| (nvmeSc hwError <<< 1)

/-- **`zns_process_nvme_command`**, with at most `fuel` polls. -/
def znsProcessNvmeCommand (fuel : ℕ) (d : Driver) (sqe : NvmeSqe) : Option (Driver × NvmeCqe) :=
  match hardwareCmd sqe with
  | .error status => some (d, ⟨0, sqe.cid, status⟩)
  | .ok hardwareCmd =>
    let d := d.issue sqe hardwareCmd
    match pollStatus fuel d.bridge with
    | none => none
    | some (b, hwStatus) =>
      let d := { d with bridge := b }.csrWrite32 0 .trigger
      some ({ d with bridge := d.bridge.verilatorTickHardware.verilatorTickHardware },
        ⟨0, sqe.cid, cqeStatus hwStatus b.simGetOutErrCode⟩)

/-- The part of `zns_process_nvme_command` that drives the automaton: the status and the error code
that it reads. -/
def pollCommand (fuel : ℕ) (d : Driver) (sqe : NvmeSqe) (cmd : BitVec 8) :
    Option (Driver × BitVec 8 × BitVec 8) :=
  let d := d.issue sqe cmd
  match pollStatus fuel d.bridge with
  | none => none
  | some (b, hwStatus) =>
    let d := { d with bridge := b }.csrWrite32 0 .trigger
    some ({ d with bridge := d.bridge.verilatorTickHardware.verilatorTickHardware }, hwStatus,
      b.simGetOutErrCode)

theorem znsProcessNvmeCommand_eq (fuel : ℕ) (d : Driver) {sqe : NvmeSqe} {cmd : BitVec 8}
    (hcmd : hardwareCmd sqe = .ok cmd) :
    d.znsProcessNvmeCommand fuel sqe = (d.pollCommand fuel sqe cmd).map fun r =>
      (r.1, ⟨0, sqe.cid, cqeStatus r.2.1 r.2.2⟩) := by
  unfold znsProcessNvmeCommand pollCommand
  rw [hcmd]
  dsimp only
  cases pollStatus fuel (d.issue sqe cmd).bridge <;> rfl

/-! ## What a command does -/

/-- The pins that a command puts out. -/
def simCmd (sqe : NvmeSqe) (cmd : BitVec 8) : Bridge.SimCmd :=
  ⟨cmd, (sqe.slba >>> 6).setWidth 32, (sqe.slba &&& 0x3F#64).setWidth 32⟩

theorem getLsbD_loMask {i : ℕ} (hi : i < 64) :
    (0x00000000FFFFFFFF#64).getLsbD i = decide (i < 32) := by
  revert i
  decide

theorem getLsbD_hiMask {i : ℕ} (hi : i < 64) :
    (0xFFFFFFFF00000000#64).getLsbD i = decide (32 ≤ i) := by
  revert i
  decide

theorem lba_halves (acc slba : BitVec 64) :
    (((acc &&& 0x00000000FFFFFFFF#64) |||
          ((((slba >>> 32) &&& 0xFFFFFFFF#64).setWidth 32).setWidth 64 <<< 32)) &&&
        0xFFFFFFFF00000000#64) ||| ((slba &&& 0xFFFFFFFF#64).setWidth 32).setWidth 64 = slba := by
  apply BitVec.eq_of_getLsbD_eq
  intro i hi
  simp only [BitVec.getLsbD_or, BitVec.getLsbD_and, BitVec.getLsbD_setWidth,
    BitVec.getLsbD_shiftLeft, BitVec.getLsbD_ushiftRight, getLsbD_loMask hi, getLsbD_hiMask hi,
    getLsbD_loMask (show i - 32 < 64 by omega)]
  by_cases h32 : i < 32
  · simp [h32, hi]
  · have hadd : 32 + (i - 32) = i := by omega
    have hle : 32 ≤ i := by omega
    have hsub : i - 32 < 32 := by omega
    have hsub64 : i - 32 < 64 := by omega
    simp only [h32, hi, hadd, hle, hsub, hsub64, decide_true, decide_false, Bool.and_false,
      Bool.not_false, Bool.true_and, Bool.and_true, Bool.false_or, Bool.or_false]

theorem zone_bits (lba : BitVec 64) :
    ((lba >>> 6) &&& 0xFFFFFFFF#64).setWidth 32 = (lba >>> 6).setWidth 32 := by
  apply BitVec.eq_of_getLsbD_eq
  intro i hi
  have hmask := getLsbD_loMask (show i < 64 by omega)
  simp only [BitVec.getLsbD_setWidth, BitVec.getLsbD_and]
  rw [hmask]
  simp [hi]

theorem command_byte (cmd : BitVec 8) : (cmd.setWidth 32 &&& 0xFF#32).setWidth 8 = cmd := by
  have hmask : ∀ i < 8, (0xFF#32).getLsbD i = true := by decide
  apply BitVec.eq_of_getLsbD_eq
  intro i hi
  simp only [BitVec.getLsbD_setWidth, BitVec.getLsbD_and, hmask i hi]
  simp [hi]
  omega

/-- **The register writes put the command on the pins** and raise the trigger. -/
theorem issue_eq (d : Driver) (sqe : NvmeSqe) (cmd : BitVec 8) :
    d.issue sqe cmd =
      { d with
        bridge := d.bridge.raise (simCmd sqe cmd), currentLbaAccumulator := sqe.slba } := by
  simp only [issue, csrWrite32, lba_halves, command_byte, simSetAddress, zone_bits]
  rfl

end Driver

theorem pollStatus_eq {fuel n : ℕ} {b : Bridge} (hpos : 0 < n) (hfuel : n ≤ fuel)
    (hbusy : ∀ k, 0 < k → k < n →
      (Bridge.verilatorTickHardware^[k] b).fsm.outStatus = 0 ∨
        (Bridge.verilatorTickHardware^[k] b).fsm.outStatus = 2)
    (hdone : (Bridge.verilatorTickHardware^[n] b).Final) :
    pollStatus fuel b = some (Bridge.verilatorTickHardware^[n] b,
      (Bridge.verilatorTickHardware^[n] b).fsm.outStatus) := by
  induction fuel generalizing b n with
  | zero => omega
  | succ fuel ih =>
    unfold pollStatus Bridge.simGetOutStatus
    by_cases h1 : n = 1
    · subst h1
      have hnot : ¬ ((Bridge.verilatorTickHardware b).fsm.outStatus = 2 ∨
          (Bridge.verilatorTickHardware b).fsm.outStatus = 0) := fun h =>
        Bridge.not_final_of_status h.symm hdone
      simp only [hnot, if_false]
      rfl
    · obtain ⟨m, rfl⟩ : ∃ m, n = m + 1 := ⟨n - 1, by omega⟩
      have hone : (Bridge.verilatorTickHardware b).fsm.outStatus = 0 ∨
          (Bridge.verilatorTickHardware b).fsm.outStatus = 2 := hbusy 1 (by omega) (by omega)
      simp only [hone.symm, if_true]
      exact ih (by omega) (by omega) (fun k h0 hk => hbusy (k + 1) (by omega) (by omega)) hdone

/-- The cell of an address in the array of 1024 zones. -/
def lbaCell (lba : BitVec 64) : BitVec 10 := cell ((lba >>> 6).setWidth 32)

section Address

variable {lba : BitVec 64}

theorem zone_toNat (h : lba < 65536) : ((lba >>> 6).setWidth 32).toNat = lba.toNat / 64 := by
  have hlt : lba.toNat < 65536 := BitVec.lt_def.mp h
  rw [BitVec.toNat_setWidth, BitVec.toNat_ushiftRight, Nat.shiftRight_eq_div_pow]
  exact Nat.mod_eq_of_lt (by change _ / 64 < _; omega)

theorem lbaCell_toNat (h : lba < 65536) : (lbaCell lba).toNat = lba.toNat / 64 := by
  have hlt : lba.toNat < 65536 := BitVec.lt_def.mp h
  rw [lbaCell, cell, BitVec.toNat_setWidth, zone_toNat h]
  exact Nat.mod_eq_of_lt (by omega)

theorem localPage_toNat (lba : BitVec 64) :
    ((lba &&& 0x3F#64).setWidth 32).toNat = lba.toNat % 64 := by
  have hmask : (lba &&& 0x3F#64).toNat = lba.toNat % 64 := by
    rw [BitVec.toNat_and]
    exact Nat.and_two_pow_sub_one_eq_mod lba.toNat 6
  rw [BitVec.toNat_setWidth, hmask]
  exact Nat.mod_eq_of_lt (by omega)

end Address

namespace Driver

section Process

variable {d : Driver} {sqe : NvmeSqe} {cmd : BitVec 8} {fuel : ℕ}

theorem pollCommand_of_poll {b' : Bridge} {st : BitVec 8}
    (hpoll : pollStatus fuel (d.bridge.raise (simCmd sqe cmd)) = some (b', st)) :
    d.pollCommand fuel sqe cmd =
      some ({ d with bridge := b'.drop.verilatorTickHardware, currentLbaAccumulator := sqe.slba },
        st, b'.fsm.outErrCode) := by
  unfold pollCommand
  simp only [issue_eq, hpoll]
  rfl

/-- A rejected command reads status `1` with the code of the checker, and leaves what the bridge
keeps. -/
theorem pollCommand_rejected (hd : d.bridge.Ready) (hfuel : 6 ≤ fuel)
    (hv : (d.bridge.raise (simCmd sqe cmd)).verdict.hasError = true) :
    ∃ d', d.pollCommand fuel sqe cmd =
        some (d', 1, (d.bridge.raise (simCmd sqe cmd)).verdict.errorCode) ∧
      d'.bridge.Ready ∧ d'.bridge.core = d.bridge.core := by
  have harm := Bridge.armed_raise hd (simCmd sqe cmd)
  have hrun := Bridge.completes_rejected harm hv
  have hpoll := pollStatus_eq hrun.pos (by omega : 5 ≤ fuel)
    (fun k h0 hk => Bridge.status_of_le_four harm h0 (by omega)) (hrun.reaches ▸ hrun.final)
  rw [hrun.reaches] at hpoll
  obtain ⟨hready, hcore⟩ := Bridge.drop_rejected harm.rst
  obtain ⟨hready', hcore'⟩ := Bridge.tick_ready hready
  exact ⟨_, pollCommand_of_poll hpoll, hready', hcore'.trans hcore⟩

theorem pollCommand_approved (hd : d.bridge.Ready) (hfuel : 6 ≤ fuel)
    (hv : (d.bridge.raise (simCmd sqe cmd)).verdict.hasError = false) :
    ∃ d', d.pollCommand fuel sqe cmd = some (d', 3, 0) ∧ d'.bridge.Ready ∧
      d'.bridge.core =
        ⟨(d.bridge.raise (simCmd sqe cmd)).stored,
          (d.bridge.raise (simCmd sqe cmd)).executed.fsm.openZonesCount,
          executeWord cmd (d.bridge.raise (simCmd sqe cmd)).word d.bridge.fsm.bramWdata,
          d.bridge.globalControllerPtr⟩ := by
  have harm := Bridge.armed_raise hd (simCmd sqe cmd)
  have hrun := Bridge.completes_approved harm hv
  have hpoll := pollStatus_eq hrun.pos hfuel
    (fun k h0 hk => Bridge.status_of_le_five harm hv h0 (by omega)) (hrun.reaches ▸ hrun.final)
  rw [hrun.reaches] at hpoll
  obtain ⟨hready, hcore⟩ := Bridge.drop_approved harm.rst
  obtain ⟨hready', hcore'⟩ := Bridge.tick_ready hready
  exact ⟨_, pollCommand_of_poll hpoll, hready', hcore'.trans hcore⟩

theorem cqeStatus_ne_zero (hwError : BitVec 8) : cqeStatus 1 hwError ≠ 0 := by
  rw [cqeStatus, if_neg (by decide)]
  unfold nvmeSc
  split_ifs <;> decide

/-- **A rejected command** completes with a non-zero status and leaves what the bridge keeps. -/
theorem process_rejected (hd : d.bridge.Ready) (hfuel : 6 ≤ fuel)
    (hcmd : hardwareCmd sqe = .ok cmd)
    (hv : (d.bridge.raise (simCmd sqe cmd)).verdict.hasError = true) :
    ∃ d' cqe, d.znsProcessNvmeCommand fuel sqe = some (d', cqe) ∧ cqe.status ≠ 0 ∧
      d'.bridge.Ready ∧ d'.bridge.core = d.bridge.core := by
  obtain ⟨d', hrun, hready, hcore⟩ := pollCommand_rejected hd hfuel hv
  refine ⟨d', ⟨0, sqe.cid, cqeStatus 1 (d.bridge.raise (simCmd sqe cmd)).verdict.errorCode⟩, ?_,
    cqeStatus_ne_zero _, hready, hcore⟩
  rw [znsProcessNvmeCommand_eq fuel d hcmd, hrun, Option.map_some]

/-- **An approved command** completes with status zero and executes. -/
theorem process_approved (hd : d.bridge.Ready) (hfuel : 6 ≤ fuel)
    (hcmd : hardwareCmd sqe = .ok cmd)
    (hv : (d.bridge.raise (simCmd sqe cmd)).verdict.hasError = false) :
    ∃ d' cqe, d.znsProcessNvmeCommand fuel sqe = some (d', cqe) ∧ cqe.status = 0 ∧
      d'.bridge.Ready ∧
      d'.bridge.core =
        ⟨(d.bridge.raise (simCmd sqe cmd)).stored,
          (d.bridge.raise (simCmd sqe cmd)).executed.fsm.openZonesCount,
          executeWord cmd (d.bridge.raise (simCmd sqe cmd)).word d.bridge.fsm.bramWdata,
          d.bridge.globalControllerPtr⟩ := by
  obtain ⟨d', hrun, hready, hcore⟩ := pollCommand_approved hd hfuel hv
  refine ⟨d', ⟨0, sqe.cid, 0⟩, ?_, rfl, hready, hcore⟩
  rw [znsProcessNvmeCommand_eq fuel d hcmd, hrun, Option.map_some]
  rfl

/-- **A command on a table of zones**, below the 1024 zones: refused without effect, or executed
as the step of the device. -/
theorem process_cases {dev : Device znsLimits (BitVec 10)} {op : Op} (hd : d.bridge.Ready)
    (hfuel : 6 ≤ fuel)
    (ht : ZoneTable d.bridge.mockBramStorage d.bridge.fsm.openZonesCount dev)
    (hcmd : hardwareCmd sqe = .ok (cmdOf op)) (hlba : sqe.slba < 65536) :
    (¬ (d.bridge.thermal = false ∧
          dev.refuses (lbaCell sqe.slba) op (sqe.slba.toNat % 64) = none) ∧
        ∃ d' cqe, d.znsProcessNvmeCommand fuel sqe = some (d', cqe) ∧ cqe.status ≠ 0 ∧
          d'.bridge.Ready ∧ d'.bridge.core = d.bridge.core) ∨
      (d.bridge.thermal = false ∧
        dev.refuses (lbaCell sqe.slba) op (sqe.slba.toNat % 64) = none ∧
        ∃ d' cqe, d.znsProcessNvmeCommand fuel sqe = some (d', cqe) ∧ cqe.status = 0 ∧
          d'.bridge.Ready ∧
          d'.bridge.globalControllerPtr = d.bridge.globalControllerPtr ∧
          d'.bridge.fsm.bramWdata = executeWord (cmdOf op)
            (d.bridge.mockBramStorage (lbaCell sqe.slba)) d.bridge.fsm.bramWdata ∧
          d'.bridge.mockBramStorage = Function.update d.bridge.mockBramStorage (lbaCell sqe.slba)
            (executeWord (cmdOf op) (d.bridge.mockBramStorage (lbaCell sqe.slba))
              d.bridge.fsm.bramWdata) ∧
          ((op = .read →
              d.bridge.fsm.bramWdata = d.bridge.mockBramStorage (lbaCell sqe.slba)) →
            ZoneTable d'.bridge.mockBramStorage d'.bridge.fsm.openZonesCount
              (dev.step (lbaCell sqe.slba) op (sqe.slba.toNat % 64)))) := by
  have hin : (d.bridge.raise (simCmd sqe (cmdOf op))).validatedZoneId < 1024 := by
    have hlt : sqe.slba.toNat < 65536 := BitVec.lt_def.mp hlba
    refine BitVec.lt_def.mpr ((zone_toNat hlba).trans_lt ?_)
    change _ < 1024
    omega
  have hpage : (d.bridge.raise (simCmd sqe (cmdOf op))).validatedTargetPage.toNat =
      sqe.slba.toNat % 64 := localPage_toNat sqe.slba
  have hiff := Bridge.hasError_false_iff (b := d.bridge.raise (simCmd sqe (cmdOf op))) ht rfl hin
  rw [hpage] at hiff
  have hword : (d.bridge.raise (simCmd sqe (cmdOf op))).word =
      d.bridge.mockBramStorage (lbaCell sqe.slba) := if_pos hin
  -- the verdict is that of the cycle in which the word has come
  cases hv : (d.bridge.raise (simCmd sqe (cmdOf op))).verdict.hasError with
  | true =>
    left
    refine ⟨fun h => ?_, process_rejected hd hfuel hcmd hv⟩
    rw [hiff.mpr h] at hv
    exact Bool.noConfusion hv
  | false =>
    right
    obtain ⟨hcool, hacc⟩ := hiff.mp hv
    obtain ⟨d', cqe, hrun, hst, hready, hcore⟩ := process_approved hd hfuel hcmd hv
    have hmock : d'.bridge.mockBramStorage = _ := congrArg Bridge.Core.mockBramStorage hcore
    have hcount : d'.bridge.fsm.openZonesCount = _ := congrArg Bridge.Core.openZonesCount hcore
    have hwdata : d'.bridge.fsm.bramWdata = _ := congrArg Bridge.Core.bramWdata hcore
    refine ⟨hcool, hacc, d', cqe, hrun, hst, hready, congrArg Bridge.Core.globalControllerPtr hcore,
      ?_, ?_, fun hread => ?_⟩
    · rw [hwdata, hword]
    · rw [hmock]
      change (if _ then _ else _) = _
      rw [if_pos hin, hword]
      rfl
    · rw [hmock, hcount]
      exact Bridge.table_executed (b := d.bridge.raise (simCmd sqe (cmdOf op))) ht rfl hin hacc
        fun h => (hread h).trans hword.symm

end Process

end Driver

end ZnsFlash
