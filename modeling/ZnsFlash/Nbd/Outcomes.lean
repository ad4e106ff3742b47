import ZnsFlash.Nbd.Requests

/-!
# The outcome of each request

* `Server.transmission`: one round of the transmission loop;
* `Server.Lands`: when a write is stored, by the phase the automaton is in;
* **`Server.write_eq`**, **`Server.read_eq`**, **`Server.reset_eq`**: what writes, reads and zone
  resets do to a server between requests.
-/

namespace ZnsFlash

namespace Server

/-- `EINVAL` -/
def einval : BitVec 32 := 22

/-- One round of `handle_nbd_transmission_loop`; `none` when the connection ends. -/
def transmission (s : Server) (r : NbdRequest) (payload : List Byte) :
    Option (Server × List Byte) :=
  if r.magic ≠ requestMagic then none
  else if r.type = 0 then (s.read r).map fun h => (h.server, h.out)
  else if r.type = 1 then (s.write r payload).map fun h => (h.server, h.out)
  else if r.type = 5 then (s.trim r).map fun h => (h.server, h.out)
  else if r.type = 2 then none
  else if r.type = 3 then some (s, r.reply 0)
  else some (s, r.reply einval)

section Transmission

variable {s : Server} {r : NbdRequest} {h : Handled}

theorem transmission_read (hm : r.magic = requestMagic) (ht : r.type = 0) (hrun : s.read r = some h)
    (payload : List Byte) : s.transmission r payload = some (h.server, h.out) := by
  rw [transmission, if_neg (not_not_intro hm), if_pos ht, hrun, Option.map_some]

theorem transmission_write {payload : List Byte} (hm : r.magic = requestMagic) (ht : r.type = 1)
    (hrun : s.write r payload = some h) : s.transmission r payload = some (h.server, h.out) := by
  have h0 : ¬ r.type = 0 := by
    rw [ht]
    decide
  rw [transmission, if_neg (not_not_intro hm), if_neg h0, if_pos ht, hrun, Option.map_some]

end Transmission

/-! ## Writes -/

/-- **When a write is stored**: by the rules on its own aligned word from idle, by the rules on the
word of the request before it in `ST_BRAM_WAIT`, always in `ST_EXECUTE`, never in `ST_ERROR`. -/
def Lands (s : Server) (r : NbdRequest) : Prop :=
  match s.bridge.fsm.currentState with
  | .idle => PermitsWord .write (targetPage r.offset).toNat
      ((s.aligned r).mockBramStorage (cell (targetZoneId r.offset))) s.bridge.fsm.openZonesCount
  | .bramWait => PermitsWord .write (targetPage r.offset).toNat (s.aligned r).latched
      s.bridge.fsm.openZonesCount
  | .execute => True
  | _ => False

instance (s : Server) (r : NbdRequest) : Decidable (s.Lands r) :=
  match h : s.bridge.fsm.currentState with
  | .idle => decidable_of_iff (PermitsWord .write (targetPage r.offset).toNat
      ((s.aligned r).mockBramStorage (cell (targetZoneId r.offset))) s.bridge.fsm.openZonesCount)
      (by rw [Lands, h])
  | .bramWait => decidable_of_iff (PermitsWord .write (targetPage r.offset).toNat
      (s.aligned r).latched s.bridge.fsm.openZonesCount) (by rw [Lands, h])
  | .execute => isTrue (by rw [Lands, h]; trivial)
  | .bramRead | .validate | .updateBram | .error => isFalse (by rw [Lands, h]; exact id)

theorem lands_congr {s t : Server} (h : s.bridge = t.bridge) (r : NbdRequest) :
    s.Lands r ↔ t.Lands r := by
  unfold Lands aligned
  rw [h]

variable {s : Server} {r : NbdRequest}

theorem permits_raised (hb : s.bridge.Boundary) (w : BitVec 32) (n : BitVec 4) :
    (checkWord (((s.aligned r).raise (r.simCmd 1)).pins w) n).hasError = false ↔
      PermitsWord .write (targetPage r.offset).toNat w n := by
  have hcool : ((s.aligned r).raise (r.simCmd 1)).thermal = false := by
    have hptr : ((s.aligned r).raise (r.simCmd 1)).globalControllerPtr = none := hb.cool
    rw [Bridge.thermal, hptr]
    rfl
  exact (checkWord_permits rfl).trans ⟨fun h => h.2.2, fun h => ⟨hcool, rfl, h⟩⟩

theorem ends_of_lands (hb : s.bridge.Boundary) (hz : targetZoneId r.offset < 1024) :
    ∃ mock, ((s.aligned r).raise (r.simCmd 1)).Ends (if s.Lands r then 3 else 1) mock := by
  have hraised := raised_write (r := r) hb
  have hverdict : ∀ {v : Bool} {mock}, (s.Lands r ↔ v = false) →
      ((s.aligned r).raise (r.simCmd 1)).Ends (if v then 1 else 3) mock →
      ∃ mock, ((s.aligned r).raise (r.simCmd 1)).Ends (if s.Lands r then 3 else 1) mock := by
    intro v mock hlands hends
    cases v with
    | true =>
      rw [if_neg fun h => Bool.noConfusion (hlands.mp h)]
      exact ⟨mock, hends⟩
    | false =>
      rw [if_pos (hlands.mpr rfl)]
      exact ⟨mock, hends⟩
  rcases hb.phase with hi | ⟨hi, hs⟩ | ⟨hi, hs⟩ | hi
  · refine hverdict ?_ (Bridge.ends_idle hraised hi)
    have hword : ((s.aligned r).raise (r.simCmd 1)).word =
        (s.aligned r).mockBramStorage (cell (targetZoneId r.offset)) := if_pos hz
    rw [Bridge.verdict, permits_raised hb, hword, Lands, hi]
    rfl
  · refine hverdict ?_ (Bridge.ends_bramWait hraised hi hs hz)
    rw [Bridge.staleVerdict, permits_raised hb, Lands, hi]
    rfl
  · have hlands : s.Lands r := by
      rw [Lands, hi]
      trivial
    rw [if_pos hlands]
    exact ⟨_, Bridge.ends_execute hraised hi hs⟩
  · have hlands : ¬ s.Lands r := by
      rw [Lands, hi]
      exact id
    rw [if_neg hlands]
    exact ⟨_, Bridge.ends_error hraised hi⟩

/-- **A write** is answered without error; it is stored when it lands. -/
theorem write_eq (hb : s.bridge.Boundary) (hin : r.InStorage)
    (hstart : r.offset.toNat < totalSizeBytes) (payload : List Byte) :
    s.write r payload = some ⟨⟨s.written r, if s.Lands r then
        copyBytes s.userDiskStorage r.offset.toNat payload else s.userDiskStorage⟩,
      if s.Lands r then 3 else 1, r.reply 0⟩ ∧ (s.written r).Boundary := by
  have hz := targetZoneId_lt hstart
  obtain ⟨mock, hends⟩ := ends_of_lands hb hz
  obtain ⟨hrun, hready, -, hptr⟩ := write_of_ends hin hz hends payload
  refine ⟨?_, Bridge.boundary_of_ready hready (hptr.trans hb.cool)⟩
  rw [hrun]
  by_cases hl : s.Lands r
  · simp only [if_pos hl]
    rfl
  · simp only [if_neg hl]
    rfl

/-! ## Reads and resets -/

/-- **A read** is refused exactly in `ST_ERROR`, whatever was written. -/
theorem read_eq (hb : s.bridge.Boundary) (hin : r.InStorage) :
    ∃ st, s.read r = some ⟨{ s with bridge := s.bridge.short (r.simCmd 0) }, st,
      if s.bridge.fsm.currentState = .error then r.reply eio
      else r.reply 0 ++ readBytes s.userDiskStorage r.offset.toNat r.len.toNat⟩ := by
  have herror := (Bridge.boundary_short (r.simCmd 0) hb).2
  refine ⟨(s.bridge.raise (r.simCmd 0)).verilatorTickHardware.fsm.outStatus, ?_⟩
  unfold read Bridge.simGetOutStatus
  by_cases he : s.bridge.fsm.currentState = .error
  · simp only [if_pos (herror.mpr he), if_pos he]
    rfl
  · simp only [if_neg (mt herror.mp he), if_neg he, if_pos hin]
    rfl

/-- The bridge that a zone reset leaves. -/
def cleared (s : Server) (zoneId : BitVec 64) : Bridge :=
  { s.bridge.short ⟨2, zoneId.setWidth 32, s.bridge.validatedTargetPage⟩ with
    mockBramStorage := fun _ => 0 }

theorem managementReset_eq {zoneId : BitVec 64} {start : ℕ}
    (hstart : (zoneId * BitVec.ofNat 64 zoneSizeBytes).toNat = start)
    (hin : start ≤ totalSizeBytes - zoneSizeBytes) :
    ∃ st, s.managementReset zoneId = some
      ⟨⟨s.cleared zoneId, clearBytes s.userDiskStorage start zoneSizeBytes⟩, st, [1]⟩ := by
  subst hstart
  refine ⟨(s.bridge.raise ⟨2, zoneId.setWidth 32,
    s.bridge.validatedTargetPage⟩).verilatorTickHardware.fsm.outStatus, ?_⟩
  unfold managementReset
  simp only [if_pos hin]
  rfl

theorem resetStart_eq {zoneId : ℕ} (hz : zoneId < 1024) :
    (BitVec.ofNat 64 zoneId * BitVec.ofNat 64 zoneSizeBytes).toNat = zoneId * zoneSizeBytes := by
  unfold zoneSizeBytes
  rw [BitVec.toNat_mul, BitVec.toNat_ofNat, BitVec.toNat_ofNat]
  omega

/-- **A reset** of an existing zone is acknowledged and clears its bytes. -/
theorem reset_eq {zoneId : ℕ} (hz : zoneId < 1024) :
    ∃ st, s.managementReset (BitVec.ofNat 64 zoneId) = some ⟨⟨s.cleared (BitVec.ofNat 64 zoneId),
      clearBytes s.userDiskStorage (zoneId * zoneSizeBytes) zoneSizeBytes⟩, st, [1]⟩ := by
  have hin : zoneId * zoneSizeBytes ≤ totalSizeBytes - zoneSizeBytes := by
    unfold zoneSizeBytes totalSizeBytes
    omega
  exact managementReset_eq (resetStart_eq hz) hin

theorem boundary_cleared (hb : s.bridge.Boundary) (zoneId : BitVec 64) :
    (s.cleared zoneId).Boundary := by
  have hshort := (Bridge.boundary_short
    ⟨2, zoneId.setWidth 32, s.bridge.validatedTargetPage⟩ hb).1
  exact ⟨hshort.rst, hshort.ioTrigger, hshort.we, hshort.cool, hshort.phase⟩

end Server

end ZnsFlash
