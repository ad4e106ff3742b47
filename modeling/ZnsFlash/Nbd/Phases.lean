import ZnsFlash.Nbd.Server

/-!
# The phases of the automaton between requests

A read, a trim and a zone reset tick twice and leave the automaton where it is then; a write polls
until the status is final, from wherever the request before it left the automaton.

* `Bridge.Boundary`: the phases that requests leave;
* **`boundary_short`**: two ticks lead from one phase to the next;
* `Bridge.Ends`, `ends_idle` … `ends_error`: what the polling loop of a write does from each phase;
* **`Server.Reach.boundary`**: every reachable server is in one of the phases.
-/

namespace ZnsFlash

open Runs

namespace Bridge

/-- **Between requests** the trigger and the write enable are low, no controller is behind the
bridge, and the automaton is in one of four states. -/
structure Boundary (b : Bridge) : Prop where
  rst : b.rst = false
  ioTrigger : b.ioTrigger = false
  we : b.fsm.bramWe = false
  cool : b.globalControllerPtr = none
  phase : b.fsm.currentState = .idle ∨
    (b.fsm.currentState = .bramWait ∧ b.fsm.outStatus = 2) ∨
    (b.fsm.currentState = .execute ∧ b.fsm.outStatus = 2) ∨ b.fsm.currentState = .error

/-- Two ticks with the trigger up in the first: all that a read, a trim or a reset does. -/
def short (b : Bridge) (c : SimCmd) : Bridge := (b.raise c).verilatorTickHardware.drop

section Short

variable {b : Bridge} (c : SimCmd)

theorem boundary_of_ready (h : b.Ready) (hc : b.globalControllerPtr = none) : b.Boundary :=
  ⟨h.rst, h.ioTrigger, h.we, hc, .inl h.idle⟩

theorem short_of_tick {t : Bridge} (h1 : (b.raise c).verilatorTickHardware = t) :
    b.short c = (simSetIoTrigger false t).verilatorTickHardware := by
  rw [short, drop, h1]

theorem short_idle (h : b.Boundary) (hi : b.fsm.currentState = .idle) :
    (b.raise c).verilatorTickHardware.fsm.outStatus = 0 ∧ (b.short c).Boundary ∧
      (b.short c).fsm.currentState = .bramWait := by
  have h1 := tick_idle (b := b.raise c) h.rst hi
  have h2 := (short_of_tick c h1).trans (tick_bramRead h.rst rfl rfl)
  rw [h2, h1]
  exact ⟨rfl, ⟨h.rst, rfl, rfl, h.cool, .inr (.inl ⟨rfl, rfl⟩)⟩, rfl⟩

/-- From `ST_BRAM_WAIT`, the command is validated with whatever word was fetched before. -/
theorem short_bramWait (h : b.Boundary) (hi : b.fsm.currentState = .bramWait)
    (hs : b.fsm.outStatus = 2) :
    (b.raise c).verilatorTickHardware.fsm.outStatus = 2 ∧ (b.short c).Boundary := by
  have h1 := tick_bramWait (b := b.raise c) h.rst hi h.we
  have h2 := (short_of_tick c h1).trans (tick_validate h.rst rfl h.we)
  rw [h2, h1]
  refine ⟨hs, ⟨h.rst, rfl, h.we, h.cool, ?_⟩⟩
  dsimp only
  split_ifs
  · exact .inr (.inr (.inr rfl))
  · exact .inr (.inr (.inl ⟨rfl, hs⟩))

theorem short_execute (h : b.Boundary) (hi : b.fsm.currentState = .execute)
    (hs : b.fsm.outStatus = 2) :
    (b.raise c).verilatorTickHardware.fsm.outStatus = 2 ∧ (b.short c).Boundary := by
  have h1 := tick_execute (b := b.raise c) h.rst hi
  have h2 := (short_of_tick c h1).trans (tick_updateBram h.rst rfl)
  rw [h2, h1]
  exact ⟨hs, ⟨h.rst, rfl, rfl, h.cool, .inl rfl⟩⟩

theorem short_error (h : b.Boundary) (hi : b.fsm.currentState = .error) :
    (b.raise c).verilatorTickHardware.fsm.outStatus = 1 ∧ (b.short c).Boundary := by
  have h1 := tick_error (b := b.raise c) h.rst hi h.we
  have h2 := (short_of_tick c h1).trans (tick_error h.rst rfl h.we)
  rw [h2, h1]
  exact ⟨rfl, ⟨h.rst, rfl, h.we, h.cool, .inl rfl⟩⟩

theorem short_error_mock (h : b.Boundary) (hi : b.fsm.currentState = .error) :
    (b.short c).mockBramStorage = b.mockBramStorage := by
  have h1 := tick_error (b := b.raise c) h.rst hi h.we
  have h2 := (short_of_tick c h1).trans (tick_error h.rst rfl h.we)
  rw [h2]
  rfl

/-- **Two ticks lead from phase to phase**, and the first reads status `1` only in `ST_ERROR`. -/
theorem boundary_short (h : b.Boundary) :
    (b.short c).Boundary ∧ ((b.raise c).verilatorTickHardware.fsm.outStatus = 1 ↔
      b.fsm.currentState = .error) := by
  rcases h.phase with hi | ⟨hi, hs⟩ | ⟨hi, hs⟩ | hi
  · obtain ⟨hst, hb, -⟩ := short_idle c h hi
    exact ⟨hb, by rw [hst, hi]; decide⟩
  · obtain ⟨hst, hb⟩ := short_bramWait c h hi hs
    exact ⟨hb, by rw [hst, hi]; decide⟩
  · obtain ⟨hst, hb⟩ := short_execute c h hi hs
    exact ⟨hb, by rw [hst, hi]; decide⟩
  · obtain ⟨hst, hb⟩ := short_error c h hi
    exact ⟨hb, by rw [hst, hi]; decide⟩

end Short

/-! ## Polling from each phase -/

/-- **What polling does**: within ten ticks the command on the pins ends with the status `st`, and
after the trigger falls the automaton is idle over the memory `mock`. -/
def Ends (b : Bridge) (st : BitVec 8) (mock : BitVec 10 → BitVec 32) : Prop :=
  ∃ n b', n ≤ 10 ∧ b.Completes n b' ∧ b'.fsm.outStatus = st ∧ b'.drop.Ready ∧
    b'.drop.mockBramStorage = mock ∧ b'.drop.globalControllerPtr = b.globalControllerPtr

/-- The same with all that the bridge keeps; a refusal shows a code of the checker for the open
counter. -/
def Finishes (b : Bridge) (st : BitVec 8) (core : Core) : Prop :=
  ∃ n b', n ≤ 10 ∧ b.Completes n b' ∧ b'.fsm.outStatus = st ∧ b'.drop.Ready ∧
    b'.drop.core = core ∧
    (st = 1 → ∃ p, b'.drop.fsm.outErrCode = (checkWord p b.fsm.openZonesCount).errorCode)

/-- What the bridge keeps after an approved command. -/
def approvedCore (b : Bridge) : Core :=
  ⟨b.stored, b.executed.fsm.openZonesCount, executeWord b.ioCmd b.word b.fsm.bramWdata,
    b.globalControllerPtr⟩

/-- The pins are set and the trigger is up, in a phase that the request before may have left. -/
structure Raised (b : Bridge) : Prop where
  rst : b.rst = false
  ioTrigger : b.ioTrigger = true
  we : b.fsm.bramWe = false

section Polling

variable {b : Bridge}

theorem Finishes.ends {st : BitVec 8} {core : Core} (h : b.Finishes st core)
    (hptr : core.globalControllerPtr = b.globalControllerPtr) :
    b.Ends st core.mockBramStorage := by
  obtain ⟨n, b', hn, hrun, hst, hready, hcore, -⟩ := h
  exact ⟨n, b', hn, hrun, hst, hready, congrArg Core.mockBramStorage hcore,
    (congrArg Core.globalControllerPtr hcore).trans hptr⟩

theorem Finishes.ends_of_verdict {refused : Bool}
    (h : b.Finishes (if refused then 1 else 3) (if refused then b.core else b.approvedCore)) :
    b.Ends (if refused then 1 else 3) (if refused then b.mockBramStorage else b.stored) := by
  cases refused with
  | true => exact h.ends rfl
  | false => exact h.ends rfl

theorem code_drop_rejected (h : b.rst = false) :
    ∃ p, b.rejected.drop.fsm.outErrCode = (checkWord p b.fsm.openZonesCount).errorCode := by
  have hr : (simSetIoTrigger false b.rejected).rst = false := h
  rw [drop, tick_error hr rfl rfl]
  exact ⟨_, rfl⟩

theorem finishes_rejected {n : ℕ} (hr : b.rst = false) (hn : n ≤ 10)
    (hrun : b.Completes n b.rejected) : b.Finishes 1 b.core := by
  obtain ⟨hready, hcore⟩ := drop_rejected hr
  exact ⟨n, _, hn, hrun, rfl, hready, hcore, fun _ => code_drop_rejected hr⟩

theorem finishes_approved {n : ℕ} (hr : b.rst = false) (hn : n ≤ 10)
    (hrun : b.Completes n b.approved) : b.Finishes 3 b.approvedCore := by
  obtain ⟨hready, hcore⟩ := drop_approved hr
  exact ⟨n, _, hn, hrun, rfl, hready, hcore, fun h => absurd h (by decide)⟩

theorem finishes_idle (h : b.Raised) (hi : b.fsm.currentState = .idle) :
    b.Finishes (if b.verdict.hasError then 1 else 3)
      (if b.verdict.hasError then b.core else b.approvedCore) := by
  have harm : b.Armed := ⟨h.rst, h.ioTrigger, hi, h.we⟩
  cases hv : b.verdict.hasError with
  | true => exact finishes_rejected h.rst (by decide) (completes_rejected harm hv)
  | false => exact finishes_approved h.rst (by decide) (completes_approved harm hv)

theorem ends_idle (h : b.Raised) (hi : b.fsm.currentState = .idle) :
    b.Ends (if b.verdict.hasError then 1 else 3)
      (if b.verdict.hasError then b.mockBramStorage else b.stored) :=
  (finishes_idle h hi).ends_of_verdict

theorem ends_error (h : b.Raised) (hi : b.fsm.currentState = .error) :
    b.Ends 1 b.mockBramStorage := by
  have h1 := tick_error h.rst hi h.we
  have hr : (simSetIoTrigger false b.verilatorTickHardware).rst = false := h.rst
  have hst : (simSetIoTrigger false b.verilatorTickHardware).fsm.currentState = .error := by
    rw [h1]; exact if_pos h.ioTrigger
  have hwe : (simSetIoTrigger false b.verilatorTickHardware).fsm.bramWe = false := by
    rw [h1]; exact h.we
  have hstatus : b.verilatorTickHardware.fsm.outStatus = 1 := by rw [h1]
  refine ⟨1, b.verilatorTickHardware, by decide, ⟨by decide, rfl, .inl hstatus, ?_⟩, hstatus, ?_⟩
  · intro k h0 h1
    omega
  · rw [drop, tick_error hr hst hwe, h1]
    exact ⟨⟨h.rst, rfl, rfl, h.we⟩, rfl, rfl⟩

/-- What the bridge keeps after a command that starts in `ST_EXECUTE`: it is executed on the word
fetched before, at the address of the request before. -/
def executeCore (b : Bridge) : Core :=
  ⟨if b.bramAddr < 1024 then
      Function.update b.mockBramStorage (cell b.bramAddr)
        (executeWord b.ioCmd b.rdata b.fsm.bramWdata) else b.mockBramStorage,
    znsResourcesTracker false b.ioCmd true (zoneWptr b.rdata) (zoneIsFull b.rdata)
      b.fsm.openZonesCount,
    executeWord b.ioCmd b.rdata b.fsm.bramWdata, b.globalControllerPtr⟩

theorem finishes_execute (h : b.Raised) (hi : b.fsm.currentState = .execute)
    (hs : b.fsm.outStatus = 2) : b.Finishes 3 b.executeCore := by
  have h1 := tick_execute h.rst hi
  have hr1 : b.verilatorTickHardware.rst = false := h.rst
  have ht1 : b.verilatorTickHardware.ioTrigger = true := h.ioTrigger
  have hi1 : b.verilatorTickHardware.fsm.currentState = .updateBram := by rw [h1]
  have h2 := tick_updateBram hr1 hi1
  rw [if_pos ht1] at h2
  have hr2 : (simSetIoTrigger false b.verilatorTickHardware.verilatorTickHardware).rst = false :=
    h.rst
  have hi2 : (simSetIoTrigger false
      b.verilatorTickHardware.verilatorTickHardware).fsm.currentState = .updateBram := by
    rw [h2]; rfl
  have hstatus : b.verilatorTickHardware.verilatorTickHardware.fsm.outStatus = 3 := by rw [h2]
  refine ⟨2, b.verilatorTickHardware.verilatorTickHardware, by decide,
    ⟨by decide, rfl, .inr hstatus, ?_⟩, hstatus, ?_⟩
  · intro k h0 hk
    obtain rfl : k = 1 := by omega
    apply not_final_of_status
    change b.verilatorTickHardware.fsm.outStatus = 0 ∨ b.verilatorTickHardware.fsm.outStatus = 2
    rw [h1]
    exact .inr hs
  · rw [drop, tick_updateBram hr2 hi2, h2, h1]
    exact ⟨⟨h.rst, rfl, rfl, rfl⟩, rfl, fun h => absurd h (by decide)⟩

theorem ends_execute (h : b.Raised) (hi : b.fsm.currentState = .execute)
    (hs : b.fsm.outStatus = 2) : b.Ends 3 b.executeCore.mockBramStorage :=
  (finishes_execute h hi hs).ends rfl

/-- The verdict on the word that was fetched before the pins were set. -/
def staleVerdict (b : Bridge) : RuleVerdict := checkWord (b.pins b.latched) b.fsm.openZonesCount

/-- In `ST_BRAM_WAIT` the command is checked on the word of the zone before it, and executed on
its own. -/
theorem finishes_bramWait (h : b.Raised) (hi : b.fsm.currentState = .bramWait)
    (hs : b.fsm.outStatus = 2) (hz : b.validatedZoneId < 1024) :
    b.Finishes (if b.staleVerdict.hasError then 1 else 3)
      (if b.staleVerdict.hasError then b.core else b.approvedCore) := by
  -- the automaton is one state ahead: the word it checks is the one latched before
  have h1 : b.verilatorTickHardware = b.fetching .validate b.latched 2 := by
    rw [tick_bramWait h.rst hi h.we, fetching, ← hs, ← h.we]
  have hr : (b.fetching .validate b.latched 2).rst = false := h.rst
  have hrdata : (b.fetching .validate b.latched 2).rdata = b.latched := if_pos hz
  have h2 : b.verilatorTickHardware.verilatorTickHardware =
      b.fetching (if b.staleVerdict.hasError then .error else .execute) b.settled 2 := by
    rw [h1, tick_validate hr rfl rfl, latched_fetching, hrdata]
    rfl
  have hstatus1 : b.verilatorTickHardware.fsm.outStatus = 2 := by rw [h1]; rfl
  have hstatus2 : b.verilatorTickHardware.verilatorTickHardware.fsm.outStatus = 2 := by rw [h2]; rfl
  cases hv : b.staleVerdict.hasError with
  | true =>
    have h3 : verilatorTickHardware^[3] b = b.rejected := by
      change b.verilatorTickHardware.verilatorTickHardware.verilatorTickHardware = _
      rw [h2, if_pos hv, tick_fetching_error h.rst h.ioTrigger]
    refine finishes_rejected h.rst (n := 3) (by decide) ⟨by decide, h3, .inl rfl, ?_⟩
    intro k h0 hk
    apply not_final_of_status
    rcases (by omega : k = 1 ∨ k = 2) with rfl | rfl
    · exact .inr hstatus1
    · exact .inr hstatus2
  | false =>
    have h3 : verilatorTickHardware^[3] b = b.executed := by
      change b.verilatorTickHardware.verilatorTickHardware.verilatorTickHardware = _
      rw [h2, hv, if_neg Bool.false_ne_true, tick_fetching_execute h.rst]
    have h4 : verilatorTickHardware^[4] b = b.approved := by
      rw [Function.iterate_succ_apply', h3, tick_executed h.rst h.ioTrigger]
    refine finishes_approved h.rst (n := 4) (by decide) ⟨by decide, h4, .inr rfl, ?_⟩
    intro k h0 hk
    apply not_final_of_status
    rcases (by omega : k = 1 ∨ k = 2 ∨ k = 3) with rfl | rfl | rfl
    · exact .inr hstatus1
    · exact .inr hstatus2
    · rw [h3]
      exact .inr rfl

theorem ends_bramWait (h : b.Raised) (hi : b.fsm.currentState = .bramWait)
    (hs : b.fsm.outStatus = 2) (hz : b.validatedZoneId < 1024) :
    b.Ends (if b.staleVerdict.hasError then 1 else 3)
      (if b.staleVerdict.hasError then b.mockBramStorage else b.stored) :=
  (finishes_bramWait h hi hs hz).ends_of_verdict

end Polling

end Bridge

theorem pollWrite_of_completes {b b' : Bridge} {n fuel : ℕ} (h : b.Completes n b') (hn : n ≤ fuel)
    (st : BitVec 8) : pollWrite fuel st b = (b', b'.fsm.outStatus) := by
  induction fuel generalizing b n st with
  | zero =>
    have hpos := h.pos
    omega
  | succ fuel ih =>
    unfold pollWrite Bridge.simGetOutStatus
    by_cases h1 : n = 1
    · subst h1
      have hb : b.verilatorTickHardware = b' := h.reaches
      have hfin : b'.fsm.outStatus = 3 ∨ b'.fsm.outStatus = 1 := h.final.symm
      dsimp only
      rw [hb, if_pos hfin]
    · have hpos := h.pos
      have hnot : ¬ (b.verilatorTickHardware.fsm.outStatus = 3 ∨
          b.verilatorTickHardware.fsm.outStatus = 1) := fun hc =>
        h.before 1 (by omega) (by omega) hc.symm
      dsimp only
      rw [if_neg hnot]
      obtain ⟨m, rfl⟩ : ∃ m, n = m + 1 := ⟨n - 1, by omega⟩
      have hnext : b.verilatorTickHardware.Completes m b' :=
        ⟨by omega, h.reaches, h.final, fun k _ hk => h.before (k + 1) (by omega) (by omega)⟩
      exact ih hnext (by omega) _

theorem pollWrite_of_ends {b : Bridge} {st : BitVec 8} {mock : BitVec 10 → BitVec 32}
    (h : b.Ends st mock) :
    (pollWrite 10 0 b).2 = st ∧ (pollWrite 10 0 b).1.drop.Ready ∧
      (pollWrite 10 0 b).1.drop.mockBramStorage = mock ∧
      (pollWrite 10 0 b).1.drop.globalControllerPtr = b.globalControllerPtr := by
  obtain ⟨n, b', hn, hrun, hst, hready, hmock, hptr⟩ := h
  rw [pollWrite_of_completes hrun hn 0]
  exact ⟨hst, hready, hmock, hptr⟩

theorem pollWrite_of_finishes {b : Bridge} {st : BitVec 8} {core : Bridge.Core}
    (h : b.Finishes st core) :
    (pollWrite 10 0 b).2 = st ∧ (pollWrite 10 0 b).1.drop.Ready ∧
      (pollWrite 10 0 b).1.drop.core = core ∧
      (st = 1 → ∃ p, (pollWrite 10 0 b).1.drop.fsm.outErrCode =
        (checkWord p b.fsm.openZonesCount).errorCode) := by
  obtain ⟨n, b', hn, hrun, hst, hready, hcore, hcode⟩ := h
  rw [pollWrite_of_completes hrun hn 0]
  exact ⟨hst, hready, hcore, hcode⟩

/-! ## The server between requests -/

namespace Server

variable {s : Server} {r : NbdRequest}

theorem raised_write (h : s.bridge.Boundary) : ((s.aligned r).raise (r.simCmd 1)).Raised :=
  ⟨h.rst, rfl, h.we⟩

/-- **How a write ends**, by the phase it starts in: rejected without effect, executed on the
aligned word of its own zone, or executed on the word left in `ST_EXECUTE`. -/
theorem ends_write (h : s.bridge.Boundary) (hz : targetZoneId r.offset < 1024) :
    ((s.aligned r).raise (r.simCmd 1)).Ends 1 (s.aligned r).mockBramStorage ∨
      ((s.aligned r).raise (r.simCmd 1)).Ends 3 ((s.aligned r).raise (r.simCmd 1)).stored ∨
      (s.bridge.fsm.currentState = .execute ∧
        ∃ mock, ((s.aligned r).raise (r.simCmd 1)).Ends 3 mock) := by
  have hraised := raised_write (r := r) h
  rcases h.phase with hi | ⟨hi, hs⟩ | ⟨hi, hs⟩ | hi
  · have hends := Bridge.ends_idle hraised hi
    cases hv : ((s.aligned r).raise (r.simCmd 1)).verdict.hasError with
    | true => rw [hv] at hends; exact .inl hends
    | false => rw [hv] at hends; exact .inr (.inl hends)
  · have hends := Bridge.ends_bramWait hraised hi hs hz
    cases hv : ((s.aligned r).raise (r.simCmd 1)).staleVerdict.hasError with
    | true => rw [hv] at hends; exact .inl hends
    | false => rw [hv] at hends; exact .inr (.inl hends)
  · exact .inr (.inr ⟨hi, _, Bridge.ends_execute hraised hi hs⟩)
  · exact .inl (Bridge.ends_error hraised hi)

theorem exists_ends_write (h : s.bridge.Boundary) (hz : targetZoneId r.offset < 1024) :
    ∃ st mock, ((s.aligned r).raise (r.simCmd 1)).Ends st mock := by
  rcases ends_write h hz with h | h | ⟨-, mock, h⟩
  · exact ⟨_, _, h⟩
  · exact ⟨_, _, h⟩
  · exact ⟨_, _, h⟩

theorem boundary_handle {i : ServerInput} {h : Handled} (hb : s.bridge.Boundary)
    (hi : s.handle i = some h) : h.server.bridge.Boundary := by
  cases i with
  | read r =>
    have hnext := (Bridge.boundary_short (r.simCmd 0) hb).1
    change s.read r = some h at hi
    simp only [read] at hi
    split_ifs at hi <;> cases hi <;> exact hnext
  | write r payload =>
    change s.write r payload = some h at hi
    simp only [write] at hi
    split_ifs at hi with hz <;> cases hi
    all_goals
      obtain ⟨st, mock, hends⟩ := exists_ends_write hb hz
      obtain ⟨-, hready, -, hptr⟩ := pollWrite_of_ends hends
      exact Bridge.boundary_of_ready hready (hptr.trans hb.cool)
  | trim r =>
    have hnext := (Bridge.boundary_short
      ⟨2, targetZoneId r.offset, s.bridge.validatedTargetPage⟩ hb).1
    change s.trim r = some h at hi
    simp only [trim] at hi
    split_ifs at hi
    cases hi
    exact hnext
  | reset zoneId =>
    have hnext := (Bridge.boundary_short
      ⟨2, zoneId.setWidth 32, s.bridge.validatedTargetPage⟩ hb).1
    change s.managementReset zoneId = some h at hi
    simp only [managementReset] at hi
    split_ifs at hi
    cases hi
    exact ⟨hnext.rst, hnext.ioTrigger, hnext.we, hnext.cool, hnext.phase⟩

theorem boundary_powerUp (junk : Validator) (addr : BitVec 32) :
    (powerUp junk addr).bridge.Boundary := by
  obtain ⟨hready, hcore⟩ := Bridge.ready_powerUp junk addr none
  exact Bridge.boundary_of_ready hready (congrArg Bridge.Core.globalControllerPtr hcore)

theorem Reach.boundary (h : s.Reach) : s.bridge.Boundary := by
  induction h with
  | powerUp junk addr => exact boundary_powerUp junk addr
  | handle _ hi ih => exact boundary_handle ih hi

end Server

end ZnsFlash
