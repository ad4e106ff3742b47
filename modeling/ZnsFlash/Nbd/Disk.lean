import ZnsFlash.Library.Overlay
import ZnsFlash.Nbd.Outcomes

/-!
# The disk behind the server

`user_disk_storage` over whole runs: requests of the transmission loop and resets of the management
socket, in any order.

* `Server.effect`, `Server.effects`: what a request changes on the disk, and what a run does;
  `handle_disk`: so does the handler;
* `Server.latestByte`, `run_latestByte`: the last change of a byte;
* **`disk_keeps_latest`**: every byte is the one that was stored or cleared last, and a read that is
  not refused returns these bytes.
-/

namespace ZnsFlash

open Runs

namespace Server

/-- What a request changes on the disk: the payload of a write that lands, zeros for a trim or a reset. -/
def effect (s : Server) : ServerInput → ℕ → Option Byte
  | .read _ => fun _ => none
  | .write r payload => if s.Lands r then Overlay.span r.offset.toNat payload else fun _ => none
  | .trim r => Overlay.span r.offset.toNat (List.replicate r.len.toNat 0)
  | .reset zoneId => Overlay.span (zoneId.toNat * zoneSizeBytes) (List.replicate zoneSizeBytes 0)

/-- The changes of a run, in order. -/
def effects : Server → List ServerInput → List (ℕ → Option Byte)
  | _, [] => []
  | s, i :: is => s.effect i :: effects (s.next i) is

end Server

/-! ## One request -/

section Bytes

variable (storage : ℕ → Byte) (start : ℕ)

theorem copyBytes_eq_apply (bytes : List Byte) :
    copyBytes storage start bytes = Overlay.apply (Overlay.span start bytes) storage := by
  rw [Overlay.apply_span storage 0]
  rfl

theorem clearBytes_eq_apply (len : ℕ) :
    clearBytes storage start len = Overlay.apply (Overlay.span start (List.replicate len 0)) storage := by
  rw [Overlay.apply_span storage 0]
  funext i
  rw [clearBytes, List.length_replicate]
  by_cases h : start ≤ i ∧ i < start + len
  · have hlt : i - start < len := by omega
    rw [if_pos h, if_pos h, List.getD_eq_getElem _ _ (by rwa [List.length_replicate]), List.getElem_replicate]
  · rw [if_neg h, if_neg h]

end Bytes

namespace Server

variable {s : Server} {i : ServerInput}

theorem trim_eq {r : NbdRequest} (hin : r.InStorage) :
    ∃ h, s.trim r = some h ∧
      h.server.userDiskStorage = clearBytes s.userDiskStorage r.offset.toNat r.len.toNat := by
  simp only [trim, if_pos hin]
  exact ⟨_, rfl, rfl⟩

theorem handle_disk (hb : s.bridge.Boundary) (hi : i.InRange) :
    ∃ h, s.handle i = some h ∧ h.server.userDiskStorage = Overlay.apply (s.effect i) s.userDiskStorage := by
  cases i with
  | read r =>
    obtain ⟨st, hrun⟩ := read_eq hb hi
    exact ⟨_, hrun, rfl⟩
  | write r payload =>
    obtain ⟨hin, hstart, -⟩ := hi
    refine ⟨_, (write_eq hb hin hstart payload).1, ?_⟩
    show (if s.Lands r then _ else _) = _
    rw [effect]
    split_ifs
    · exact copyBytes_eq_apply _ _ _
    · rfl
  | trim r =>
    obtain ⟨h, hrun, hdisk⟩ := trim_eq (s := s) hi
    exact ⟨h, hrun, hdisk.trans (clearBytes_eq_apply _ _ _)⟩
  | reset zoneId =>
    have hz : zoneId.toNat < 1024 := hi
    obtain ⟨st, hrun⟩ := reset_eq (s := s) hz
    rw [BitVec.ofNat_toNat, BitVec.setWidth_eq] at hrun
    exact ⟨_, hrun, clearBytes_eq_apply _ _ _⟩

/-! ## Runs -/

theorem next_disk (hb : s.bridge.Boundary) (hi : i.InRange) :
    (s.next i).userDiskStorage = Overlay.apply (s.effect i) s.userDiskStorage := by
  obtain ⟨h, hrun, hdisk⟩ := handle_disk hb hi
  rw [next_of_handle hrun]
  exact hdisk

theorem run_disk (hb : s.bridge.Boundary) {is : List ServerInput} (his : ∀ i ∈ is, i.InRange) :
    (run next s is).userDiskStorage =
      (s.effects is).foldl (fun m p => Overlay.apply p m) s.userDiskStorage := by
  induction is generalizing s with
  | nil => rfl
  | cons i is ih =>
    have hrest := ih (boundary_next hb i) fun j hj => his j (List.mem_cons_of_mem i hj)
    rw [next_disk hb (his i List.mem_cons_self)] at hrest
    exact hrest

theorem boundary_run (hb : s.bridge.Boundary) (is : List ServerInput) :
    (run next s is).bridge.Boundary := by
  induction is generalizing s with
  | nil => exact hb
  | cons i is ih => exact ih (boundary_next hb i)

/-- What a byte of the disk should be after a run from start-up. -/
def latestByte (junk : Validator) (addr : BitVec 32) (is : List ServerInput) (k : ℕ) : Byte :=
  (Overlay.latest ((powerUp junk addr).effects is) k).getD 0

theorem run_latestByte (junk : Validator) (addr : BitVec 32) {is : List ServerInput}
    (his : ∀ i ∈ is, i.InRange) :
    (run next (powerUp junk addr) is).userDiskStorage = latestByte junk addr is := by
  funext k
  rw [run_disk (Reach.powerUp junk addr).boundary his, Overlay.foldl_apply]
  rfl

end Server

/-- **The disk keeps the latest bytes.** After any requests and zone resets from start-up, each byte is the
last that was stored or cleared there, or zero; a read is answered with these bytes, or refused in
`ST_ERROR`. -/
theorem disk_keeps_latest (junk : Validator) (addr : BitVec 32) (is : List ServerInput)
    (his : ∀ i ∈ is, i.InRange) :
    let s := run Server.next (.powerUp junk addr) is
    let bytes := Server.latestByte junk addr is
    s.userDiskStorage = bytes ∧
      ∀ r : NbdRequest, r.InStorage → ∃ h, s.read r = some h ∧ h.out =
        if s.bridge.fsm.currentState = .error then r.reply eio
        else r.reply 0 ++ (List.range r.len.toNat).map fun k => bytes (r.offset.toNat + k) := by
  intro s bytes
  have hdisk : s.userDiskStorage = bytes := Server.run_latestByte junk addr his
  refine ⟨hdisk, fun r hr => ?_⟩
  obtain ⟨st, hread⟩ := Server.read_eq (Server.boundary_run (Server.Reach.powerUp junk addr).boundary is) hr
  refine ⟨_, hread, ?_⟩
  rw [hdisk]
  rfl

/-- Two bytes are written to zone 3, the first of them is trimmed, and zone 4 is reset. -/
def diskRequests : List ServerInput :=
  [.write ⟨requestMagic, 1, 0, BitVec.ofNat 64 (3 * zoneSizeBytes), 2⟩ [7, 8],
    .trim (Server.firstPageWrite 3), .reset 4]

theorem disk_keeps_latest_diskRequests :
    let r : NbdRequest := ⟨requestMagic, 0, 0, BitVec.ofNat 64 (3 * zoneSizeBytes), 2⟩
    ∃ h, (run Server.next Server.start diskRequests).read r = some h ∧ h.out = r.reply 0 ++ [0, 8] := by
  intro r
  have his : ∀ i ∈ diskRequests, i.InRange := by decide
  obtain ⟨h, hread, hout⟩ := (disk_keeps_latest ⟨.idle, 0, 0, false, 0, 0⟩ 0 diskRequests his).2 r (by decide)
  refine ⟨h, hread, hout.trans ?_⟩
  rw [if_neg (by decide)]
  exact congrArg (r.reply 0 ++ ·) (by decide +kernel)

end ZnsFlash
