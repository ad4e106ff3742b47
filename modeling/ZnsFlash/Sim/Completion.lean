import ZnsFlash.Sim.OutOfRange

/-!
# The driver finishes

`zns_process_nvme_command` from any bridge that rests in `ST_IDLE` with the trigger low, whatever
else its registers hold.

* `Bridge.AtRest`, `Bridge.settled`: such bridges, and their write enable cleared by the first tick;
* `pollTrace`, `Driver.commandTrace`: the bridge after each poll, and after each tick of a command;
* `pollTrace_eq`: the polls are the first ticks, up to the one that shows a final status;
* **`command_finishes`**: at most six polls, the bridge at rest again, and status zero exactly when
  the automaton executed the command on its own zone and page.
-/

namespace ZnsFlash

open Runs

namespace Bridge

/-- In `ST_IDLE` with the trigger low; `rst` is high only during start-up. -/
structure AtRest (b : Bridge) : Prop where
  rst : b.rst = false
  ioTrigger : b.ioTrigger = false
  idle : b.fsm.currentState = .idle

/-- The write enable is low. -/
def settle (b : Bridge) : Bridge := { b with fsm := { b.fsm with bramWe := false } }

theorem Ready.atRest {b : Bridge} (h : b.Ready) : b.AtRest := ⟨h.rst, h.ioTrigger, h.idle⟩

theorem AtRest.ready {b : Bridge} (h : b.AtRest) : b.settle.Ready := ⟨h.rst, h.ioTrigger, h.idle, rfl⟩

theorem AtRest.tick_raise {b : Bridge} (h : b.AtRest) (c : SimCmd) :
    (b.raise c).verilatorTickHardware = (b.settle.raise c).verilatorTickHardware := by
  have hst : (b.raise c).fsm.currentState = .idle := h.idle
  have hst' : (b.settle.raise c).fsm.currentState = .idle := h.idle
  rw [tick_idle (b := b.raise c) h.rst hst, tick_idle (b := b.settle.raise c) h.rst hst']
  rfl

end Bridge

/-- The bridge after each poll of `pollStatus`. -/
def pollTrace : ℕ → Bridge → List Bridge
  | 0, _ => []
  | fuel + 1, b =>
    let (b', hwStatus) := b.simGetOutStatus
    b' :: if hwStatus = 2 ∨ hwStatus = 0 then pollTrace fuel b' else []

theorem polls_congr {a b : Bridge} (h : a.verilatorTickHardware = b.verilatorTickHardware)
    (fuel : ℕ) : pollStatus fuel a = pollStatus fuel b ∧ pollTrace fuel a = pollTrace fuel b := by
  cases fuel with
  | zero => exact ⟨rfl, rfl⟩
  | succ fuel =>
    unfold pollStatus pollTrace Bridge.simGetOutStatus
    rw [h]
    exact ⟨rfl, rfl⟩

theorem pollTrace_eq {fuel n : ℕ} {b : Bridge} (hpos : 0 < n) (hfuel : n ≤ fuel)
    (hbusy : ∀ k, 0 < k → k < n →
      (Bridge.verilatorTickHardware^[k] b).fsm.outStatus = 0 ∨
        (Bridge.verilatorTickHardware^[k] b).fsm.outStatus = 2)
    (hdone : (Bridge.verilatorTickHardware^[n] b).Final) :
    pollTrace fuel b = (List.range n).map fun k => Bridge.verilatorTickHardware^[k + 1] b := by
  induction fuel generalizing b n with
  | zero => omega
  | succ fuel ih =>
    unfold pollTrace Bridge.simGetOutStatus
    obtain ⟨m, rfl⟩ : ∃ m, n = m + 1 := ⟨n - 1, by omega⟩
    rw [List.range_succ_eq_map, List.map_cons, List.map_map]
    refine congrArg (_ :: ·) ?_
    by_cases h1 : m = 0
    · subst h1
      have hnot : ¬ ((Bridge.verilatorTickHardware b).fsm.outStatus = 2 ∨
          (Bridge.verilatorTickHardware b).fsm.outStatus = 0) := fun h =>
        Bridge.not_final_of_status h.symm hdone
      exact if_neg hnot
    · have hone : (Bridge.verilatorTickHardware b).fsm.outStatus = 0 ∨
          (Bridge.verilatorTickHardware b).fsm.outStatus = 2 := hbusy 1 (by omega) (by omega)
      rw [if_pos hone.symm]
      exact ih (by omega) (by omega) (fun k h0 hk => hbusy (k + 1) (by omega) (by omega)) hdone

namespace Bridge

/-- The automaton is in `ST_EXECUTE` for a zone and a page. -/
structure Executes (b : Bridge) (zone page : ℕ) : Prop where
  execute : b.fsm.currentState = .execute
  zone : b.validatedZoneId.toNat = zone
  page : b.validatedTargetPage.toNat = page

variable {a : Bridge} {zone page k fuel : ℕ}

theorem not_executes (h : a.fsm.currentState ≠ .execute) : ¬ a.Executes zone page :=
  fun he => h he.execute

theorem not_executes_early (h : a.Armed) (h0 : 0 < k) (h3 : k ≤ 3) :
    ¬ (verilatorTickHardware^[k] a).Executes zone page := by
  apply not_executes
  rcases (by omega : k = 1 ∨ k = 2 ∨ k = 3) with rfl | rfl | rfl
  · rw [tick_one h]
    exact FsmState.noConfusion
  · rw [tick_two h]
    exact FsmState.noConfusion
  · rw [tick_three h]
    exact FsmState.noConfusion

/-- **The polls of a held command**: their end, and whether one of them sees the command executed. -/
structure Polled (a : Bridge) (fuel : ℕ) (b : Bridge) (st : BitVec 8) : Prop where
  polls : pollStatus fuel a = some (b, st)
  few : (pollTrace fuel a).length ≤ 6
  ready : b.drop.Ready
  executes : ∀ zone page, a.validatedZoneId.toNat = zone → a.validatedTargetPage.toNat = page →
    (st = 3 ↔ ∃ t ∈ pollTrace fuel a, t.Executes zone page)

theorem polled_rejected (h : a.Armed) (hv : a.verdict.hasError = true) (hfuel : 6 ≤ fuel) :
    a.Polled fuel a.rejected 1 := by
  have hrun := completes_rejected h hv
  have hbusy := fun k h0 (hk : k < 5) => status_of_le_four (k := k) h h0 (by omega)
  have hdone := hrun.reaches ▸ hrun.final
  have hpoll := pollStatus_eq hrun.pos (by omega : 5 ≤ fuel) hbusy hdone
  have htrace := pollTrace_eq hrun.pos (by omega : 5 ≤ fuel) hbusy hdone
  rw [hrun.reaches] at hpoll
  refine ⟨hpoll, by simp [htrace], (drop_rejected h.rst).1, fun zone page _ _ => ?_⟩
  refine iff_of_false (by decide) ?_
  rintro ⟨t, ht, hexec⟩
  rw [htrace] at ht
  obtain ⟨k, hk, rfl⟩ := List.mem_map.mp ht
  have hk5 := List.mem_range.mp hk
  rcases (by omega : k + 1 ≤ 3 ∨ k = 3 ∨ k = 4) with h3 | rfl | rfl
  · exact not_executes_early h (by omega) h3 hexec
  · refine not_executes ?_ hexec
    rw [tick_four h, if_pos hv]
    exact FsmState.noConfusion
  · refine not_executes ?_ hexec
    rw [hrun.reaches]
    exact FsmState.noConfusion

theorem polled_approved (h : a.Armed) (hv : a.verdict.hasError = false) (hfuel : 6 ≤ fuel) :
    a.Polled fuel a.approved 3 := by
  have hrun := completes_approved h hv
  have hbusy := fun k h0 (hk : k < 6) => status_of_le_five (k := k) h hv h0 (by omega)
  have hdone := hrun.reaches ▸ hrun.final
  have hpoll := pollStatus_eq hrun.pos hfuel hbusy hdone
  have htrace := pollTrace_eq hrun.pos hfuel hbusy hdone
  rw [hrun.reaches] at hpoll
  refine ⟨hpoll, by simp [htrace], (drop_approved h.rst).1, fun zone page hz hp => ?_⟩
  refine iff_of_true rfl ⟨verilatorTickHardware^[4] a, ?_, ?_⟩
  · rw [htrace]
    exact List.mem_map.mpr ⟨3, by simp, rfl⟩
  · rw [tick_four h, hv]
    exact ⟨rfl, hz, hp⟩

theorem Polled.of_tick {b c : Bridge} {st : BitVec 8} (h : a.Polled fuel b st)
    (htick : c.verilatorTickHardware = a.verilatorTickHardware)
    (hzone : c.validatedZoneId = a.validatedZoneId)
    (hpage : c.validatedTargetPage = a.validatedTargetPage) : c.Polled fuel b st := by
  obtain ⟨hpolls, htrace⟩ := polls_congr htick fuel
  exact ⟨hpolls.trans h.polls, htrace ▸ h.few, h.ready, by rw [hzone, hpage, htrace]; exact h.executes⟩

theorem exists_polled (h : a.Armed) :
    ∃ b st, (st = 1 ∨ st = 3) ∧ ∀ fuel, 6 ≤ fuel → a.Polled fuel b st := by
  cases hv : a.verdict.hasError with
  | true => exact ⟨_, 1, .inl rfl, fun _ => polled_rejected h hv⟩
  | false => exact ⟨_, 3, .inr rfl, fun _ => polled_approved h hv⟩

end Bridge

namespace Driver

variable {d : Driver} {sqe : NvmeSqe} {cmd : BitVec 8} {fuel : ℕ}

/-- The bridge after every tick of a command: of its polls, and of the two ticks behind them. -/
def commandTrace (fuel : ℕ) (d : Driver) (sqe : NvmeSqe) : List Bridge :=
  match hardwareCmd sqe with
  | .error _ => []
  | .ok hardwareCmd =>
    let b := (d.issue sqe hardwareCmd).bridge
    pollTrace fuel b ++
      match pollStatus fuel b with
      | none => []
      | some (b', _) => [b'.drop, b'.drop.verilatorTickHardware]

/-- The number of status polls of a command. -/
def statusPolls (fuel : ℕ) (d : Driver) (sqe : NvmeSqe) : ℕ :=
  match hardwareCmd sqe with
  | .error _ => 0
  | .ok hardwareCmd => (pollTrace fuel (d.issue sqe hardwareCmd).bridge).length

theorem hardwareCmd_error {status : BitVec 16} (h : hardwareCmd sqe = .error status) :
    status ≠ 0 := by
  unfold hardwareCmd at h
  split_ifs at h <;> cases h <;> decide

theorem cqeStatus_eq_zero {st hwError : BitVec 8} (h : st = 1 ∨ st = 3) :
    cqeStatus st hwError = 0 ↔ st = 3 := by
  rcases h with rfl | rfl
  · exact iff_of_false (cqeStatus_ne_zero hwError) (by decide)
  · exact iff_of_true rfl rfl

section Polled

variable {b : Bridge} {st : BitVec 8} (hcmd : hardwareCmd sqe = .ok cmd)
  (hp : (d.bridge.raise (simCmd sqe cmd)).Polled fuel b st)

include hcmd hp

theorem process_of_polled : d.znsProcessNvmeCommand fuel sqe =
    some ({ d with bridge := b.drop.verilatorTickHardware, currentLbaAccumulator := sqe.slba },
      ⟨0, sqe.cid, cqeStatus st b.fsm.outErrCode⟩) := by
  rw [znsProcessNvmeCommand_eq fuel d hcmd, pollCommand_of_poll hp.polls, Option.map_some]

theorem commandTrace_of_polled : d.commandTrace fuel sqe =
    pollTrace fuel (d.bridge.raise (simCmd sqe cmd)) ++ [b.drop, b.drop.verilatorTickHardware] := by
  unfold commandTrace
  rw [hcmd]
  simp only [issue_eq, hp.polls]

theorem statusPolls_of_polled : d.statusPolls fuel sqe ≤ 6 := by
  unfold statusPolls
  rw [hcmd]
  simp only [issue_eq]
  exact hp.few

theorem executes_of_polled (hlba : sqe.slba < 65536) :
    st = 3 ↔ ∃ t ∈ d.commandTrace fuel sqe,
      t.Executes (sqe.slba.toNat / 64) (sqe.slba.toNat % 64) := by
  have hidle : ∀ t ∈ [b.drop, b.drop.verilatorTickHardware],
      ¬ t.Executes (sqe.slba.toNat / 64) (sqe.slba.toNat % 64) := by
    intro t ht hexec
    have hready : t.Ready := by
      rcases List.mem_pair.mp ht with rfl | rfl
      · exact hp.ready
      · exact (Bridge.tick_ready hp.ready).1
    exact FsmState.noConfusion (hready.idle.symm.trans hexec.execute)
  rw [hp.executes _ _ (zone_toNat hlba) (localPage_toNat sqe.slba),
    commandTrace_of_polled hcmd hp]
  constructor
  · rintro ⟨t, ht, hexec⟩
    exact ⟨t, List.mem_append_left _ ht, hexec⟩
  · rintro ⟨t, ht, hexec⟩
    exact ⟨t, (List.mem_append.mp ht).resolve_right fun h => hidle t h hexec, hexec⟩

end Polled

end Driver

open Driver in
/-- **The driver always finishes**: from a bridge at rest, every command ends after at most six
polls with the bridge at rest again, as the trace of the command ends. A refused entry does not touch
the hardware; below address 65536 the status is zero exactly when the automaton executed the command
for the zone and the page of the address. -/
theorem command_finishes {d : Driver} (hd : d.bridge.AtRest) (sqe : NvmeSqe) :
    ∃ d' cqe,
      (∀ fuel, 6 ≤ fuel → d.znsProcessNvmeCommand fuel sqe = some (d', cqe) ∧
        d.statusPolls fuel sqe ≤ 6 ∧
        (d.commandTrace fuel sqe).getLastD d.bridge = d'.bridge ∧
        (sqe.slba < 65536 → (cqe.status = 0 ↔ ∃ t ∈ d.commandTrace fuel sqe,
          t.Executes (sqe.slba.toNat / 64) (sqe.slba.toNat % 64)))) ∧
      d'.bridge.AtRest ∧
      (∀ cmd, hardwareCmd sqe = .ok cmd → d'.bridge.fsm.bramWe = false) ∧
      cqe.cid = sqe.cid ∧
      ∀ status, hardwareCmd sqe = .error status →
        d' = d ∧ cqe.status ≠ 0 ∧ ∀ fuel, d.commandTrace fuel sqe = [] := by
  -- an opcode or action that is not supported never comes to the bridge
  cases hcmd : hardwareCmd sqe with
  | error status =>
    have htrace : ∀ fuel, d.commandTrace fuel sqe = [] := by
      intro fuel
      rw [commandTrace, hcmd]
    have hne := hardwareCmd_error hcmd
    refine ⟨d, ⟨0, sqe.cid, status⟩, fun fuel _ => ⟨?_, ?_, ?_, fun _ => ?_⟩, hd, ?_, rfl, ?_⟩
    · rw [znsProcessNvmeCommand, hcmd]
    · rw [statusPolls, hcmd]
      exact Nat.zero_le 6
    · rw [htrace, List.getLastD_nil]
    · rw [htrace]
      exact iff_of_false hne (by simp)
    · intro cmd h
      cases h
    · intro status' _
      exact ⟨rfl, hne, htrace⟩
  | ok cmd =>
    -- `fuel` does not matter: one final state, found in six polls
    obtain ⟨b, st, hst, hpolled⟩ := Bridge.exists_polled
      (Bridge.armed_raise hd.ready (simCmd sqe cmd))
    have hp : ∀ fuel, 6 ≤ fuel → (d.bridge.raise (simCmd sqe cmd)).Polled fuel b st :=
      fun fuel hfuel => (hpolled fuel hfuel).of_tick (hd.tick_raise _) rfl rfl
    have hready := (Bridge.tick_ready (hp 6 le_rfl).ready).1
    refine ⟨_, _, fun fuel hfuel => ⟨process_of_polled hcmd (hp fuel hfuel),
      statusPolls_of_polled hcmd (hp fuel hfuel), ?_, fun hlba => ?_⟩, hready.atRest,
      fun _ _ => hready.we, rfl, ?_⟩
    · rw [commandTrace_of_polled hcmd (hp fuel hfuel), List.getLastD_eq_getLast?,
        List.getLast?_append]
      rfl
    · exact (cqeStatus_eq_zero hst).trans (executes_of_polled hcmd (hp fuel hfuel) hlba)
    · intro status h
      cases h

/-- A write of page 0 of zone 1. -/
def pageWrite : NvmeSqe := ⟨0x01, 7, 64, 0⟩

theorem command_finishes_pageWrite : freshDriver.bridge.AtRest ∧
    ∃ d' cqe, freshDriver.znsProcessNvmeCommand 6 pageWrite = some (d', cqe) ∧ cqe.status = 0 ∧
      freshDriver.statusPolls 6 pageWrite ≤ 6 ∧
      (freshDriver.commandTrace 6 pageWrite).getLastD freshDriver.bridge = d'.bridge ∧
      ∃ t ∈ freshDriver.commandTrace 6 pageWrite, t.Executes 1 0 := by
  have hrest : freshDriver.bridge.AtRest := (Bridge.Reach.powerUp _ _ _).ready.atRest
  obtain ⟨d', cqe, hends, -⟩ := command_finishes hrest pageWrite
  obtain ⟨hrun, hpolls, hlast, hstatus⟩ := hends 6 le_rfl
  have hzero : (freshDriver.znsProcessNvmeCommand 6 pageWrite).map (·.2.status) = some 0 := by decide
  rw [hrun] at hzero
  have hok : cqe.status = 0 := Option.some.inj hzero
  exact ⟨hrest, d', cqe, hrun, hok, hpolls, hlast, (hstatus (by decide)).mp hok⟩

end ZnsFlash
