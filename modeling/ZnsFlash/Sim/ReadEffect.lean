import ZnsFlash.Rtl.Accounting
import ZnsFlash.Sim.Bridge

/-!
# What commands other than write and reset do to the metadata

`ST_EXECUTE` raises the write enable for every command, but loads `bram_wdata` only for writes and
resets; any other approved command stores what an earlier one left there.

* `Harmless`: refused, or finding in `bram_wdata` the word it overwrites;
* **`metadata_kept_iff_harmless`**: these commands keep the metadata exactly when they are harmless,
  on the controller and on the bridge.
-/

namespace ZnsFlash

open Zoned Runs

/-- The rules refuse the command on the pins `p`, or `bram_wdata` already holds the word that they
show. -/
def Harmless (p : ValidatorPins) (bramWdata : BitVec 32) : Prop :=
  p.thermalShutdownTripped = true ∨ p.ioCmd = 99 ∨
    (p.ioCmd = 0 ∧ 0#25 ++ zoneWptr p.bramRdata ≤ p.validatedTargetPage) ∨
    p.addrBoundError = true ∨ bramWdata = p.bramRdata

instance (p : ValidatorPins) (bramWdata : BitVec 32) : Decidable (Harmless p bramWdata) :=
  inferInstanceAs (Decidable (_ ∨ _))

section Verdict

variable {p : ValidatorPins} {n : BitVec 4} {wdata : BitVec 32}

theorem harmless_of_hasError (h1 : p.ioCmd ≠ 1) (h2 : p.ioCmd ≠ 2)
    (h : (checkWord p n).hasError = true) : Harmless p wdata := by
  unfold checkWord znsRulesChecker at h
  unfold Harmless
  grind

theorem harmless_of_approved (h : (checkWord p n).hasError = false) :
    Harmless p wdata ↔ wdata = p.bramRdata := by
  unfold checkWord znsRulesChecker at h
  unfold Harmless
  split_ifs at h
  simp_all

end Verdict

theorem executeWord_other {cmd : BitVec 8} (h1 : cmd ≠ 1) (h2 : cmd ≠ 2) (w wdata : BitVec 32) :
    executeWord cmd w wdata = wdata := by
  rw [executeWord, if_neg h1, if_neg h2]

theorem tracker_other {cmd : BitVec 8} (h1 : cmd ≠ 1) (h2 : cmd ≠ 2) (w : BitVec 7) (f : Bool)
    (n : BitVec 4) : znsResourcesTracker false cmd true w f n = n := by
  simp only [znsResourcesTracker, h1, h2, Bool.false_eq_true, false_and, if_false, if_true]

section Controller

variable {s s' : Controller} {c : HostCmd} {n : ℕ}

theorem Controller.kept_iff_harmless (hs : s.Ready) (h1 : c.ioCmd ≠ 1) (h2 : c.ioCmd ≠ 2)
    (hrun : s.Completes c n s') :
    ((s'.clock c.dropped).bram.ram = s.bram.ram ∧
        (s'.clock c.dropped).fsm.openZonesCount = s.fsm.openZonesCount) ↔
      Harmless (c.pins (s.word c.row)) s.fsm.bramWdata := by
  rcases Controller.completes_cases hs hrun with ⟨hv, rfl⟩ | ⟨hv, rfl⟩
  · exact ⟨fun _ => harmless_of_hasError h1 h2 hv, fun _ => ⟨rfl, rfl⟩⟩
  · have hram : ((s.approved c).clock c.dropped).bram.ram =
        Function.update s.bram.ram c.row s.fsm.bramWdata := by
      rw [Controller.clock_dropped_approved, Controller.approved, executeWord_other h1 h2]
    have hcount : ((s.approved c).clock c.dropped).fsm.openZonesCount = s.fsm.openZonesCount :=
      tracker_other h1 h2 _ _ _
    rw [harmless_of_approved hv, hram, hcount, Function.update_eq_self_iff]
    exact and_iff_left rfl

end Controller

section Bridge

variable {b b' : Bridge} {n : ℕ}

theorem Bridge.kept_iff_harmless (h : b.Armed) (h1 : b.ioCmd ≠ 1) (h2 : b.ioCmd ≠ 2)
    (hrun : b.Completes n b') :
    (b'.drop.mockBramStorage = b.mockBramStorage ∧
        b'.drop.fsm.openZonesCount = b.fsm.openZonesCount) ↔
      (1024 ≤ b.validatedZoneId ∨ Harmless (b.pins b.word) b.fsm.bramWdata) := by
  rcases Bridge.completes_cases h hrun with ⟨hv, -, rfl⟩ | ⟨hv, -, rfl⟩
  · have hcore := (Bridge.drop_rejected h.rst).2
    exact ⟨fun _ => .inr (harmless_of_hasError h1 h2 hv),
      fun _ => ⟨congrArg Bridge.Core.mockBramStorage hcore,
        congrArg Bridge.Core.openZonesCount hcore⟩⟩
  · have hcore := (Bridge.drop_approved h.rst).2
    have hmock : b.approved.drop.mockBramStorage = b.stored :=
      congrArg Bridge.Core.mockBramStorage hcore
    have hcount : b.approved.drop.fsm.openZonesCount = b.fsm.openZonesCount :=
      (congrArg Bridge.Core.openZonesCount hcore).trans (tracker_other h1 h2 _ _ _)
    rw [harmless_of_approved hv, hmock, hcount, Bridge.stored, executeWord_other h1 h2,
      ← BitVec.not_lt]
    by_cases hz : b.validatedZoneId < 1024
    · have hword : (b.pins b.word).bramRdata = b.mockBramStorage (cell b.validatedZoneId) :=
        if_pos hz
      rw [if_pos hz, Function.update_eq_self_iff, hword, and_iff_left rfl]
      exact ⟨.inr, fun h => h.resolve_left (not_not_intro hz)⟩
    · rw [if_neg hz]
      exact ⟨fun _ => .inl hz, fun _ => ⟨rfl, rfl⟩⟩

end Bridge

/-- **Commands that are neither writes nor resets** keep every word and the open counter exactly
when they are harmless: on the controller with its own memory, and on the bridge, where they may
also address a zone past the memory. -/
theorem metadata_kept_iff_harmless {ioCmd : BitVec 8} (h1 : ioCmd ≠ 1) (h2 : ioCmd ≠ 2) :
    (∀ s c n s', Reach (fun _ => True) s → c.ioCmd = ioCmd → s.Completes c n s' →
      (((s'.clock c.dropped).bram.ram = s.bram.ram ∧
          (s'.clock c.dropped).fsm.openZonesCount = s.fsm.openZonesCount) ↔
        Harmless (c.pins (s.word c.row)) s.fsm.bramWdata)) ∧
    (∀ b c n b', Bridge.Reach b → c.ioCmd = ioCmd → (b.raise c).Completes n b' →
      ((b'.drop.mockBramStorage = b.mockBramStorage ∧
          b'.drop.fsm.openZonesCount = b.fsm.openZonesCount) ↔
        (1024 ≤ c.zoneId ∨ Harmless ((b.raise c).pins (b.raise c).word) b.fsm.bramWdata))) := by
  constructor
  · rintro s c n s' hs rfl hrun
    exact Controller.kept_iff_harmless hs.ready h1 h2 hrun
  · rintro b c n b' hb rfl hrun
    exact Bridge.kept_iff_harmless (Bridge.armed_raise hb.ready c) h1 h2 hrun

/-- The controller after the first page of zone 0 is written. -/
def Controller.onePage : Controller :=
  (Controller.quiet.approved ⟨1, 0, false⟩).clock (HostCmd.dropped ⟨1, 0, false⟩)

/-- The controller after two pages of zone 0 and then one of zone 1 are written. -/
def Controller.twoAndOne : Controller :=
  let s := (Controller.onePage.approved ⟨1, 1, false⟩).clock (HostCmd.dropped ⟨1, 1, false⟩)
  (s.approved ⟨1, 64, false⟩).clock (HostCmd.dropped ⟨1, 64, false⟩)

theorem reach_onePage : Reach (fun _ => True) Controller.onePage := by
  have h0 : Reach (fun _ => True) Controller.quiet := .powerUp Controller.quiet ⟨false, 0, 0, false⟩
  exact h0.transaction (c := ⟨1, 0, false⟩) trivial
    (Controller.completes_approved h0.ready (by decide))

theorem reach_twoAndOne : Reach (fun _ => True) Controller.twoAndOne := by
  have h1 := reach_onePage.transaction (c := ⟨1, 1, false⟩) trivial
    (Controller.completes_approved reach_onePage.ready (by decide))
  exact h1.transaction (c := ⟨1, 64, false⟩) trivial
    (Controller.completes_approved h1.ready (by decide))

theorem metadata_kept_reading_last_zone :
    ∃ n s', Controller.onePage.Completes ⟨0, 0, false⟩ n s' ∧ s'.fsm.outStatus = 3 ∧
      (s'.clock (HostCmd.dropped ⟨0, 0, false⟩)).bram.ram = Controller.onePage.bram.ram := by
  have hrun := Controller.completes_approved (c := ⟨0, 0, false⟩) reach_onePage.ready (by decide)
  have hiff := (metadata_kept_iff_harmless (by decide) (by decide)).1 _ _ _ _ reach_onePage rfl hrun
  exact ⟨6, _, hrun, rfl, (hiff.mpr (by decide)).1⟩

theorem read_rolls_back_zone :
    ¬ ∀ s c n s', Reach (fun _ => True) s → c.ioCmd ≠ 1 → c.ioCmd ≠ 2 → s.Completes c n s' →
      (∀ a, (s'.clock c.dropped).word a = s.word a) ∧
        (s'.clock c.dropped).fsm.openZonesCount = s.fsm.openZonesCount := by
  intro h
  have hrun := Controller.completes_approved (c := ⟨0, 0, false⟩) reach_twoAndOne.ready (by decide)
  have hword := (h _ _ _ _ reach_twoAndOne (by decide) (by decide) hrun).1 0
  revert hword
  decide

end ZnsFlash
