import ZnsFlash.Library.ZonedLog
import ZnsFlash.Sim.Completion
import ZnsFlash.Sim.Faithful

/-!
# What the driver answers, told from its answers

The status of a completion follows from the entries before it and from their completions.

* `NvmeSqe.op`, `NvmeSqe.answered`, `driverLog`: the entries with their completions, as the log of a
  zoned device; an entry that the driver itself refuses does not come to the device;
* `Driver.Models`, `log_command`: one command;
* **`driver_answers`**: every run of commands from power-up.
-/

namespace ZnsFlash

open Zoned Runs

/-- What an entry asks for, when the driver does not refuse it. -/
def NvmeSqe.op (sqe : NvmeSqe) : Op :=
  if sqe.opcode = 0x01 then .write else if sqe.opcode = 0x79 then .reset else .read

/-- An entry with its completion, in the log of a zoned device. -/
def NvmeSqe.answered (sqe : NvmeSqe) (cqe : NvmeCqe) : Answered (BitVec 10) :=
  ⟨lbaCell sqe.slba, sqe.op, sqe.slba.toNat % 64, (hardwareCmd sqe).isOk, cqe.status = 0⟩

/-- The entries with their completions. -/
def driverLog (sqes : List NvmeSqe) (cqes : List NvmeCqe) : List (Answered (BitVec 10)) :=
  List.zipWith NvmeSqe.answered sqes cqes

namespace Driver

/-- **The driver between two commands stands for the device**, and is cool. -/
structure Models (d : Driver) (dev : Device znsLimits (BitVec 10)) : Prop where
  ready : d.bridge.Ready
  cool : d.bridge.thermal = false
  table : ZoneTable d.bridge.mockBramStorage d.bridge.fsm.openZonesCount dev

variable {d : Driver} {dev : Device znsLimits (BitVec 10)} {sqe : NvmeSqe}

theorem models_powerUp (d : Driver) (junk : Validator) (addr : BitVec 32) {t : Option ℚ}
    (ht : t.elim false checkThermalShutdown = false) :
    (d.powerUp junk addr t).Models Device.fresh := by
  obtain ⟨hready, hcore⟩ := Bridge.ready_powerUp junk addr t
  have hmock : (d.powerUp junk addr t).bridge.mockBramStorage = fun _ => 0 :=
    congrArg Bridge.Core.mockBramStorage hcore
  have hcount : (d.powerUp junk addr t).bridge.fsm.openZonesCount = 0 :=
    congrArg Bridge.Core.openZonesCount hcore
  refine ⟨hready, ht, ?_⟩
  rw [hmock, hcount]
  exact zoneTable_fresh

theorem hardwareCmd_cases (sqe : NvmeSqe) :
    hardwareCmd sqe = .ok (cmdOf sqe.op) ∨ ∃ status, hardwareCmd sqe = .error status := by
  unfold hardwareCmd NvmeSqe.op
  split_ifs with h2 h1
  · rw [h2] at h1
    exact absurd h1 (by decide)
  all_goals simp_all [cmdOf]

theorem Models.kept {d' : Driver} (h : d.Models dev) (hready : d'.bridge.Ready)
    (hcore : d'.bridge.core = d.bridge.core) : d'.Models dev := by
  have hmock : d'.bridge.mockBramStorage = d.bridge.mockBramStorage :=
    congrArg Bridge.Core.mockBramStorage hcore
  have hcount : d'.bridge.fsm.openZonesCount = d.bridge.fsm.openZonesCount :=
    congrArg Bridge.Core.openZonesCount hcore
  have hptr : d'.bridge.globalControllerPtr = d.bridge.globalControllerPtr :=
    congrArg Bridge.Core.globalControllerPtr hcore
  refine ⟨hready, ?_, ?_⟩
  · rw [Bridge.thermal, hptr]
    exact h.cool
  · rw [hmock, hcount]
    exact h.table

theorem log_command {log : List (Answered (BitVec 10))} {fuel : ℕ} (h : d.Models dev)
    (hl : DeviceLog log dev) (hfuel : 6 ≤ fuel) (hread : sqe.opcode ≠ 0x02)
    (hlba : sqe.slba < 65536) :
    ∃ d' cqe, d.znsProcessNvmeCommand fuel sqe = some (d', cqe) ∧
      ∃ dev', d'.Models dev' ∧ DeviceLog (log ++ [sqe.answered cqe]) dev' := by
  rcases hardwareCmd_cases sqe with hcmd | ⟨status, hcmd⟩
  · have hne : sqe.op ≠ .read := by
      intro hop
      rw [hop] at hcmd
      unfold hardwareCmd at hcmd
      split_ifs at hcmd <;> simp_all [cmdOf]
    have hreached : (hardwareCmd sqe).isOk = true := by
      rw [hcmd]
      rfl
    rcases process_cases h.ready hfuel h.table hcmd hlba with
      ⟨hrefused, d', cqe, hrun, hstatus, hready, hcore⟩ |
      ⟨-, hacc, d', cqe, hrun, hstatus, hready, hptr, -, -, htable⟩
    · refine ⟨d', cqe, hrun, dev, h.kept hready hcore, hl.concat ?_ ?_⟩
      · simp only [NvmeSqe.answered, decide_eq_true_eq]
        exact iff_of_false hstatus fun hall => hrefused ⟨h.cool, hall.2⟩
      · simp only [NvmeSqe.answered, decide_eq_true_eq, if_neg hstatus]
    · refine ⟨d', cqe, hrun, dev.step (lbaCell sqe.slba) sqe.op (sqe.slba.toNat % 64),
        ⟨hready, ?_, htable fun hop => absurd hop hne⟩, hl.concat ?_ ?_⟩
      · rw [Bridge.thermal, hptr]
        exact h.cool
      · simp only [NvmeSqe.answered, decide_eq_true_eq]
        exact iff_of_true hstatus ⟨hreached, hacc⟩
      · simp only [NvmeSqe.answered, decide_eq_true_eq, if_pos hstatus]
  · have hstatus := hardwareCmd_error hcmd
    refine ⟨d, ⟨0, sqe.cid, status⟩, ?_, dev, h, hl.concat ?_ ?_⟩
    · rw [znsProcessNvmeCommand, hcmd]
    · simp only [NvmeSqe.answered, decide_eq_true_eq, hcmd]
      exact iff_of_false hstatus fun hall => Bool.false_ne_true hall.1
    · simp only [NvmeSqe.answered, decide_eq_true_eq, if_neg hstatus]

end Driver

/-- **The driver answers from its answers.** Every run of NVMe entries other than reads, on addresses
of the 1024 zones, from power-up with a cool controller ends, with one completion for each. The status
of a completion is zero exactly if the driver knows the command and the entries before it, with their
completions, allow it. -/
theorem driver_answers (d : Driver) (junk : Validator) (addr : BitVec 32) {t : Option ℚ}
    (ht : t.elim false checkThermalShutdown = false) {fuel : ℕ} (hfuel : 6 ≤ fuel)
    {sqes : List NvmeSqe} (h : ∀ sqe ∈ sqes, sqe.opcode ≠ 0x02 ∧ sqe.slba < 65536) :
    ∃ d' cqes,
      transcript (Driver.znsProcessNvmeCommand fuel) (d.powerUp junk addr t) sqes = some (d', cqes) ∧
      cqes.length = sqes.length ∧ History znsLimits (driverLog sqes cqes) := by
  have hstart : ∃ dev, (d.powerUp junk addr t).Models dev ∧ DeviceLog [] dev :=
    ⟨_, d.models_powerUp junk addr ht, deviceLog_fresh⟩
  have hstep : ∀ log (d : Driver) (sqe : NvmeSqe), sqe.opcode ≠ 0x02 ∧ sqe.slba < 65536 →
      (∃ dev, d.Models dev ∧ DeviceLog log dev) →
      ∃ d' cqe, d.znsProcessNvmeCommand fuel sqe = some (d', cqe) ∧
        ∃ dev, d'.Models dev ∧ DeviceLog (log ++ [sqe.answered cqe]) dev := by
    rintro log d sqe ⟨hread, hlba⟩ ⟨dev, hmodels, hlog⟩
    exact Driver.log_command hmodels hlog hfuel hread hlba
  obtain ⟨d', cqes, hrun, hlength, dev, -, hlog⟩ := transcript_log _ _ hstep hstart h
  exact ⟨d', cqes, hrun, hlength, hlog.history⟩

/-- A first page, a command that the driver does not know, and the zone emptied. -/
def threeEntries : List NvmeSqe := [⟨0x01, 7, 64, 0⟩, ⟨0x05, 8, 0, 0⟩, ⟨0x79, 9, 64, 4⟩]

theorem driver_answers_threeEntries :
    ∃ d' cqes,
      transcript (Driver.znsProcessNvmeCommand 6)
        (freshDriver.powerUp ⟨.idle, 0, 0, false, 0, 0⟩ 0 none) threeEntries = some (d', cqes) ∧
      cqes.length = 3 ∧ History znsLimits (driverLog threeEntries cqes) :=
  driver_answers freshDriver ⟨.idle, 0, 0, false, 0, 0⟩ 0 rfl (le_refl 6) (by decide)

end ZnsFlash
