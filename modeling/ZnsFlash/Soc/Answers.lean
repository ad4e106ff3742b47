import ZnsFlash.Library.ZonedLog
import ZnsFlash.Soc.Command

/-!
# What the SoC answers, told from its answers

The status of a command follows from the commands before it and from their statuses.

* `SocRequest.answered`, `socLog`: the commands with their statuses, as the log of a zoned device;
* `deviceCommand_eq_zero`, `log_deviceCommand`: one command;
* **`soc_answers`**: every run of write and reset commands from power-up.
-/

namespace ZnsFlash

open Zoned Runs

/-- A command with its status, in the log of a zoned device: it comes to the device if its zone is
inside the geometry. -/
def SocRequest.answered (q : SocRequest) (status : BitVec 32) : Answered (BitVec 12) :=
  ⟨q.hostCmd.row, q.op, (lbaPage q.lba).toNat, lbaZone q.lba < 4096, status = 0⟩

/-- The commands with their statuses. -/
def socLog (qs : List SocRequest) (statuses : List (BitVec 32)) : List (Answered (BitVec 12)) :=
  List.zipWith SocRequest.answered qs statuses

section Command

variable {d : Device znsLimits (BitVec 12)} {q : SocRequest} {log : List (Answered (BitVec 12))}

theorem atomicCode_hostCmd :
    atomicCode q.hostCmd q.op d.nOpen (d.zones q.hostCmd.row) = 0 ↔
      lbaZone q.lba < 4096 ∧ d.refuses q.hostCmd.row q.op (lbaPage q.lba).toNat = none :=
  atomicCode_eq_zero.trans (and_iff_right rfl)

theorem deviceCommand_eq_zero : (deviceCommand d q).2 = 0 ↔
    atomicCode q.hostCmd q.op d.nOpen (d.zones q.hostCmd.row) = 0 := by
  rw [deviceCommand]
  split_ifs with hcode
  · exact iff_of_true rfl hcode
  · refine iff_of_false (fun hzero => ?_) hcode
    have hbit := congrArg (fun status : BitVec 32 => status.getLsbD 8) hzero
    simp only [BitVec.getLsbD_setWidth, BitVec.getLsbD_append, if_neg (lt_irrefl 8)] at hbit
    exact absurd hbit (by decide)

theorem log_deviceCommand (h : DeviceLog log d) :
    DeviceLog (log ++ [q.answered (deviceCommand d q).2]) (deviceCommand d q).1 := by
  have hzero := deviceCommand_eq_zero (d := d) (q := q)
  refine h.concat ?_ ?_
  · simp only [SocRequest.answered, decide_eq_true_eq, hzero]
    exact atomicCode_hostCmd
  · by_cases hcode : atomicCode q.hostCmd q.op d.nOpen (d.zones q.hostCmd.row) = 0
    · have hok : (q.answered (deviceCommand d q).2).ok = true := decide_eq_true (hzero.mpr hcode)
      rw [if_pos hok, deviceCommand, if_pos hcode]
      rfl
    · have hok : ¬ (q.answered (deviceCommand d q).2).ok = true := fun hok =>
        hcode (hzero.mp (of_decide_eq_true hok))
      rw [if_neg hok, deviceCommand, if_neg hcode]

end Command

/-- **The SoC answers from its answers.** Every run of write and reset commands over the bus from
power-up ends, with one status for each. The status of a command is zero exactly if its zone is inside
the geometry and the commands before it, with their statuses, allow it. -/
theorem soc_answers (junk : Controller) (tripped : Bool) (i : Wishbone) (fuel : ℕ)
    {qs : List SocRequest} (h : ∀ q ∈ qs, q.op ≠ .read) :
    ∃ s' statuses,
      transcript (Soc.command (fuel + 4)) (Soc.powerUp junk tripped i) qs = some (s', statuses) ∧
      statuses.length = qs.length ∧ History znsLimits (socLog qs statuses) := by
  have hstart : ∃ d, (Soc.powerUp junk tripped i).Models d ∧ DeviceLog [] d :=
    ⟨_, Soc.models_powerUp junk tripped i, deviceLog_fresh⟩
  have hstep : ∀ log (s : Soc) (q : SocRequest), q.op ≠ .read →
      (∃ d, s.Models d ∧ DeviceLog log d) →
      ∃ s' status, s.command (fuel + 4) q = some (s', status) ∧
        ∃ d, s'.Models d ∧ DeviceLog (log ++ [q.answered status]) d := by
    rintro log s q hne ⟨d, hmodels, hlog⟩
    obtain ⟨s', hcommand, hmodels'⟩ := hmodels.command hne fuel
    exact ⟨s', _, hcommand, _, hmodels', log_deviceCommand hlog⟩
  obtain ⟨s', statuses, hrun, hlength, d, -, hlog⟩ := transcript_log _ _ hstep hstart h
  exact ⟨s', statuses, hrun, hlength, hlog.history⟩

theorem soc_answers_threeRequests :
    ∃ s' statuses,
      transcript (Soc.command 4) (Soc.powerUp Controller.quiet true busIdle) threeRequests =
        some (s', statuses) ∧
      statuses.length = threeRequests.length ∧ History znsLimits (socLog threeRequests statuses) :=
  soc_answers Controller.quiet true busIdle 0 (by decide)

end ZnsFlash
