import ZnsFlash.Sim.Driver

/-!
# Addresses past the zones of the bridge

The driver cuts the zone number of an address to 32 bits, and the bridge ties `addr_bound_error` to
zero: an address past the 1024 zones meets only the rules of the word that the bridge shows for it.

* `Bridge.shown`: that word;
* `Bridge.Refuses`: the thermal flag or the rules refuse a command;
* **`command_refused_iff`**: only then it fails without side effects.
-/

namespace ZnsFlash

open Zoned

namespace Bridge

variable (b : Bridge)

/-- The word that the rules see for an address: that of the zone with the low 32 bits of the zone
number, and zero past the array. -/
def shown (lba : BitVec 64) : BitVec 32 :=
  if (lba >>> 6).setWidth 32 < 1024#32 then b.mockBramStorage (lbaCell lba) else 0

/-- **What refuses a command** on an address. Past the array the rules see an empty zone: it has no
page to read, takes page 0 while fewer than four zones count as open, and can always be reset. -/
def Refuses (op : Op) (lba : BitVec 64) : Prop :=
  b.thermal = true ∨
    if (lba >>> 6).setWidth 32 < 1024#32 then
      ¬ PermitsWord op (lba.toNat % 64) (b.mockBramStorage (lbaCell lba)) b.fsm.openZonesCount
    else
      match op with
      | .read => True
      | .write => lba.toNat % 64 ≠ 0 ∨ 4 ≤ b.fsm.openZonesCount
      | .reset => False

variable {b}

theorem refuses_iff {op : Op} {lba : BitVec 64} :
    b.Refuses op lba ↔ b.thermal = true ∨
      ¬ PermitsWord op (lba.toNat % 64) (b.shown lba) b.fsm.openZonesCount := by
  unfold Refuses shown
  split_ifs with hz
  · exact Iff.rfl
  · exact or_congr_right permitsWord_zero.symm

instance (op : Op) (lba : BitVec 64) : Decidable (b.Refuses op lba) :=
  decidable_of_iff _ refuses_iff.symm

theorem verdict_raise {sqe : NvmeSqe} {op : Op} :
    (b.raise (Driver.simCmd sqe (cmdOf op))).verdict.hasError = true ↔ b.Refuses op sqe.slba := by
  have hpage : (b.raise (Driver.simCmd sqe (cmdOf op))).validatedTargetPage.toNat =
      sqe.slba.toNat % 64 := localPage_toNat sqe.slba
  have hpermits : (b.raise (Driver.simCmd sqe (cmdOf op))).verdict.hasError = false ↔
      b.thermal = false ∧ false = false ∧
        PermitsWord op (b.raise (Driver.simCmd sqe (cmdOf op))).validatedTargetPage.toNat
          (b.shown sqe.slba) b.fsm.openZonesCount := checkWord_permits rfl
  rw [hpage, ← Bool.not_eq_true, ← Bool.not_eq_true b.thermal] at hpermits
  rw [refuses_iff, ← not_iff_not, hpermits, not_or, not_not]
  exact and_congr_right fun _ => and_iff_right rfl

end Bridge

/-- The command failed, and neither a word nor the open counter changed. -/
def FailsWithoutEffect (d d' : Driver) (cqe : NvmeCqe) : Prop :=
  cqe.status ≠ 0 ∧ d'.bridge.mockBramStorage = d.bridge.mockBramStorage ∧
    d'.bridge.fsm.openZonesCount = d.bridge.fsm.openZonesCount

section Process

variable {d : Driver} {sqe : NvmeSqe} {op : Op} {fuel : ℕ}

/-- **Commands on any address**, those past the zones of the bridge included. Every read, write and
reset completes. It fails without side effects exactly when the thermal flag or the rules refuse it
on the word shown for its address; no address is refused for its range. -/
theorem command_refused_iff (hb : d.bridge.Reach) (hfuel : 6 ≤ fuel)
    (hcmd : hardwareCmd sqe = .ok (cmdOf op)) :
    ∃ d' cqe, d.znsProcessNvmeCommand fuel sqe = some (d', cqe) ∧
      (FailsWithoutEffect d d' cqe ↔ d.bridge.Refuses op sqe.slba) := by
  rw [← Bridge.verdict_raise]
  cases hv : (d.bridge.raise (Driver.simCmd sqe (cmdOf op))).verdict.hasError with
  | true =>
    obtain ⟨d', cqe, hrun, hst, -, hcore⟩ := Driver.process_rejected hb.ready hfuel hcmd hv
    refine ⟨d', cqe, hrun, fun _ => rfl, fun _ => ⟨hst, ?_, ?_⟩⟩
    · exact congrArg Bridge.Core.mockBramStorage hcore
    · exact congrArg Bridge.Core.openZonesCount hcore
  | false =>
    obtain ⟨d', cqe, hrun, hst, -, -⟩ := Driver.process_approved hb.ready hfuel hcmd hv
    exact ⟨d', cqe, hrun, fun h => absurd hst h.1, fun h => Bool.noConfusion h⟩

end Process

/-! ## A write to the first zone past the array -/

/-- Page 0 of zone 1024. -/
def farWrite : NvmeSqe := ⟨0x01, 7, 1024 * 64, 0⟩

/-- The driver right after power-up. -/
def freshDriver : Driver := ⟨Bridge.powerUp ⟨.idle, 0, 0, false, 0, 0⟩ 0 none, 0, 0, 0⟩

theorem command_refused_iff_farWrite : freshDriver.bridge.Reach ∧ 6 ≤ 6 ∧
    hardwareCmd farWrite = .ok (cmdOf .write) ∧
    ∃ d' cqe, freshDriver.znsProcessNvmeCommand 6 farWrite = some (d', cqe) ∧
      (FailsWithoutEffect freshDriver d' cqe ↔
        freshDriver.bridge.Refuses .write farWrite.slba) :=
  ⟨.powerUp _ _ _, by decide, rfl, command_refused_iff (.powerUp _ _ _) (by decide) rfl⟩

/-- **The write succeeds**, and a place among the open zones is gone although no word changed. -/
theorem far_write_accepted :
    ¬ ∀ (d : Driver) (sqe : NvmeSqe) (op : Op), d.bridge.Reach →
      hardwareCmd sqe = .ok (cmdOf op) → 1024 ≤ sqe.slba.toNat / 64 →
      ∀ fuel d' cqe, d.znsProcessNvmeCommand fuel sqe = some (d', cqe) →
        FailsWithoutEffect d d' cqe := by
  intro h
  have hv : (freshDriver.bridge.raise (Driver.simCmd farWrite 1)).verdict.hasError = false := by
    decide
  have hcmd : hardwareCmd farWrite = .ok 1 := rfl
  obtain ⟨d', cqe, hrun, hst, -, -⟩ := Driver.process_approved
    (Bridge.ready_powerUp ⟨.idle, 0, 0, false, 0, 0⟩ 0 none).1 (le_refl 6) hcmd hv
  exact (h freshDriver farWrite .write (.powerUp _ _ _) rfl (by decide) 6 d' cqe hrun).1 hst

end ZnsFlash
