import ZnsFlash.Nbd.OpenZones

/-!
# The server under writes

Between writes alone the automaton rests, and the whole server is a small machine.

* `Server.lands_idle`, **`Server.written_counts`**: one write from idle;
* `WriteMachine`, `WriteMachine.write`: the counter of the tracker and the disk; `Server.Shows`: the
  server that stands for it; `Server.Shows.write`: one write of both;
* **`writes_refine`**: every run of writes from start-up.
-/

namespace ZnsFlash

open Runs

namespace Server

/-! ## One write from idle -/

section Idle

variable {s : Server} {r : NbdRequest} (hi : s.bridge.fsm.currentState = .idle)

include hi

theorem lands_idle : s.Lands r ↔ targetPage r.offset = 0 → s.openZonesCount.toNat < 4 := by
  have hword : (s.aligned r).mockBramStorage (cell (targetZoneId r.offset)) =
      alignedWord (s.target r) (targetPage r.offset) := by
    rw [aligned_at, if_pos rfl]
  rw [Lands, hi]
  change PermitsWord _ _ ((s.aligned r).mockBramStorage (cell (targetZoneId r.offset))) _ ↔ _
  rw [hword, permitsWord_aligned (targetPage_lt r.offset), BitVec.lt_def]
  exact imp_iff_not_or.symm

/-- **A write from idle** ends idle, and moves the counter if it lands. -/
theorem written_counts (hb : s.bridge.Boundary) {payload : List Byte}
    (hr : (ServerInput.write r payload).InRange) (hfew : s.openZonesCount.toNat ≤ 4) :
    (s.written r).fsm.currentState = .idle ∧
      (s.written r).fsm.openZonesCount.toNat =
        if s.Lands r then
          if targetPage r.offset = 63 ∧ 0 < s.openZonesCount.toNat then s.openZonesCount.toNat - 1
          else if targetPage r.offset = 0 then s.openZonesCount.toNat + 1
          else s.openZonesCount.toNat
        else s.openZonesCount.toNat := by
  have hverdict : ((s.aligned r).raise (r.simCmd 1)).verdict.hasError = false ↔ s.Lands r := by
    rw [Bridge.verdict, permits_raised hb, word_aligned (targetZoneId_lt hr.2.1),
      permitsWord_aligned (targetPage_lt r.offset), BitVec.lt_def, lands_idle hi]
    exact imp_iff_not_or.symm
  have hfin := Bridge.finishes_idle (raised_write (r := r) hb) hi
  have hptr := globalControllerPtr_finished s r ((s.aligned r).raise (r.simCmd 1)).verdict.hasError
  have hleaves := leaves_of_finishes hr hfin hptr
  have hcount := (own_counts hr hleaves hfew).1
  have hready := hleaves.ready
  have hnext : (s.next (.write r payload)).bridge = s.written r := by
    have hhandle : s.handle (.write r payload) = some _ := (write_eq hb hr.1 hr.2.1 payload).1
    rw [next_of_handle hhandle]
  rw [openZonesCount, hnext] at hcount
  rw [hnext] at hready
  refine ⟨hready.idle, hcount.trans ?_⟩
  by_cases hl : s.Lands r
  · rw [if_pos hl, hverdict.mpr hl, if_neg Bool.false_ne_true]
  · rw [if_neg hl, if_pos (Bool.not_eq_false _ ▸ mt hverdict.mp hl)]

end Idle

end Server

/-! ## The server as a machine -/

/-- What decides about writes: the counter of the tracker, and the disk. -/
structure WriteMachine where
  opened : ℕ
  disk : ℕ → Byte

/-- A write is lost if it is the first page of a zone while the counter stands at four. The first page
of a zone counts one up, whether the zone is open or not, and the last one down. -/
def WriteMachine.write (m : WriteMachine) (w : NbdRequest × List Byte) : WriteMachine :=
  if targetPage w.1.offset = 0 ∧ 4 ≤ m.opened then m
  else
    { opened :=
        if targetPage w.1.offset = 63 then m.opened - 1
        else if targetPage w.1.offset = 0 then m.opened + 1
        else m.opened
      disk := copyBytes m.disk w.1.offset.toNat w.2 }

/-- The machine at start-up. -/
def WriteMachine.start : WriteMachine := ⟨0, fun _ => 0⟩

/-- A write, with the bytes that answer it. -/
def Server.answerWrite (s : Server) (w : NbdRequest × List Byte) : Option (Server × List Byte) :=
  (s.write w.1 w.2).map fun h => (h.server, h.out)

/-- **The server stands for the machine**: it rests, with this counter and this disk. -/
structure Server.Shows (s : Server) (m : WriteMachine) : Prop where
  boundary : s.bridge.Boundary
  idle : s.bridge.fsm.currentState = .idle
  count : s.openZonesCount.toNat = m.opened
  few : m.opened ≤ 4
  disk : s.userDiskStorage = m.disk

namespace Server

theorem shows_powerUp (junk : Validator) (addr : BitVec 32) : (powerUp junk addr).Shows .start := by
  obtain ⟨hready, hcore⟩ := Bridge.ready_powerUp junk addr none
  refine ⟨boundary_powerUp junk addr, hready.idle, ?_, Nat.zero_le 4, rfl⟩
  exact congrArg BitVec.toNat (congrArg Bridge.Core.openZonesCount hcore)

/-- **One write of both**, acknowledged whether it lands or not. -/
theorem Shows.write {s : Server} {m : WriteMachine} (h : s.Shows m) {w : NbdRequest × List Byte}
    (hw : (ServerInput.write w.1 w.2).InRange) :
    ∃ s', s.answerWrite w = some (s', w.1.reply 0) ∧ s'.Shows (m.write w) := by
  obtain ⟨r, payload⟩ := w
  obtain ⟨hrun, hboundary⟩ := write_eq h.boundary hw.1 hw.2.1 payload
  obtain ⟨hidle, hcount⟩ := written_counts h.idle h.boundary hw (h.count.trans_le h.few)
  have hlands := lands_idle (r := r) h.idle
  have hfew := h.few
  have hstep : s.answerWrite (r, payload) = some _ := congrArg (Option.map _) hrun
  refine ⟨_, hstep, ?_⟩
  rw [h.count] at hlands hcount
  by_cases hlost : targetPage r.offset = 0 ∧ 4 ≤ m.opened
  · have hl : ¬ s.Lands r := fun hl => absurd (hlands.mp hl hlost.1) (Nat.not_lt.mpr hlost.2)
    rw [if_neg hl] at hcount
    rw [WriteMachine.write, if_pos hlost, if_neg hl]
    exact ⟨hboundary, hidle, hcount, hfew, h.disk⟩
  · have hl : s.Lands r := hlands.mpr fun hpage => by
      by_contra hle
      exact hlost ⟨hpage, Nat.le_of_not_lt hle⟩
    rw [if_pos hl] at hcount
    rw [WriteMachine.write, if_neg hlost, if_pos hl]
    refine ⟨hboundary, hidle, hcount.trans ?_, ?_, ?_⟩
    · by_cases hlast : targetPage r.offset = 63
      · simp only [hlast, true_and, if_true]
        split_ifs with hpos h0
        · rfl
        · exact absurd h0 (by decide)
        · omega
      · simp only [hlast, false_and, if_false]
    · dsimp only
      split_ifs with hlast hfirst
      · omega
      · have := hlands.mp hl hfirst
        omega
      · exact hfew
    · change copyBytes s.userDiskStorage _ _ = copyBytes m.disk _ _
      rw [h.disk]

end Server

/-- **Under writes the server is the machine.** Every run of writes from start-up is acknowledged, write
by write, and leaves the counter and the disk of the machine; then a read returns the bytes of this
disk. -/
theorem writes_refine (junk : Validator) (addr : BitVec 32) {ws : List (NbdRequest × List Byte)}
    (hws : ∀ w ∈ ws, (ServerInput.write w.1 w.2).InRange) :
    let m := run WriteMachine.write .start ws
    ∃ s', transcript Server.answerWrite (.powerUp junk addr) ws =
        some (s', ws.map fun w => w.1.reply 0) ∧
      s'.openZonesCount.toNat = m.opened ∧ s'.userDiskStorage = m.disk ∧
      ∀ r : NbdRequest, r.InStorage → ∃ h, s'.read r = some h ∧
        h.out = r.reply 0 ++ readBytes m.disk r.offset.toNat r.len.toNat := by
  intro m
  have hstart : (Server.powerUp junk addr).Shows (run WriteMachine.write .start []) ∧
      ([] : List (List Byte)) = [].map fun w : NbdRequest × List Byte => w.1.reply 0 :=
    ⟨Server.shows_powerUp junk addr, rfl⟩
  have hstep : ∀ ws outs (s : Server) (w : NbdRequest × List Byte),
      (ServerInput.write w.1 w.2).InRange →
      (s.Shows (run WriteMachine.write .start ws) ∧ outs = ws.map fun w => w.1.reply 0) →
      ∃ s' out, s.answerWrite w = some (s', out) ∧
        (s'.Shows (run WriteMachine.write .start (ws ++ [w])) ∧
          outs ++ [out] = (ws ++ [w]).map fun w => w.1.reply 0) := by
    rintro ws outs s w hw ⟨hshows, rfl⟩
    obtain ⟨s', hrun, hshows'⟩ := hshows.write hw
    rw [run_concat, List.map_append]
    exact ⟨s', _, hrun, hshows', rfl⟩
  obtain ⟨s', outs, htranscript, hshows, rfl⟩ := transcript_all _ hstep hstart hws
  refine ⟨s', htranscript, hshows.count, hshows.disk, fun r hr => ?_⟩
  obtain ⟨st, hread⟩ := Server.read_eq hshows.boundary hr
  have hne : ¬ s'.bridge.fsm.currentState = .error := fun he =>
    FsmState.noConfusion (hshows.idle.symm.trans he)
  refine ⟨_, hread, ?_⟩
  rw [if_neg hne, hshows.disk]

/-- Two bytes at the start of each of the first five zones. -/
def fiveWrites : List (NbdRequest × List Byte) :=
  (List.range 5).map fun z => (⟨requestMagic, 1, 0, BitVec.ofNat 64 (z * zoneSizeBytes), 2⟩, [7, 8])

/-- The fifth is acknowledged, and lost. -/
theorem writes_refine_fiveWrites :
    ∃ s', transcript Server.answerWrite Server.start fiveWrites =
        some (s', fiveWrites.map fun w => w.1.reply 0) ∧
      s'.userDiskStorage (3 * zoneSizeBytes) = 7 ∧ s'.userDiskStorage (4 * zoneSizeBytes) = 0 := by
  have hws : ∀ w ∈ fiveWrites, (ServerInput.write w.1 w.2).InRange := by decide
  obtain ⟨s', hrun, -, hdisk, -⟩ := writes_refine ⟨.idle, 0, 0, false, 0, 0⟩ 0 hws
  refine ⟨s', hrun, ?_⟩
  rw [hdisk]
  decide +kernel

end ZnsFlash
