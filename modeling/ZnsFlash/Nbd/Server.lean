import ZnsFlash.Nbd.Wire
import ZnsFlash.Sim.Bridge

/-!
# The requests of the server

`handle_nbd_transmission_loop` of `nbd_server.cpp` and the zone reset of `management_socket_thread`
in `sim_main.cpp`, one complete request at a time.

* `Server`: the bridge and `user_disk_storage`;
* `Server.read`, `Server.write`, `Server.trim`, `Server.managementReset`: the four requests that
  drive the automaton; `none` is an access outside an array;
* `ServerInput`, `Server.handle`, `Server.Reach`: requests one after another.
-/

namespace ZnsFlash

/-! ## Geometry -/

/-- `PAGE_SIZE` -/
def pageSize : ℕ := 4096

/-- `TOTAL_SIZE_BYTES / NUM_ZONES` -/
def zoneSizeBytes : ℕ := 262144

/-- `TOTAL_SIZE_BYTES` -/
def totalSizeBytes : ℕ := 268435456

/-- `target_zone_id`, cut to 32 bits. -/
def targetZoneId (offset : BitVec 64) : BitVec 32 := BitVec.ofNat 32 (offset.toNat / zoneSizeBytes)

/-- `target_page` -/
def targetPage (offset : BitVec 64) : BitVec 32 :=
  BitVec.ofNat 32 (offset.toNat % zoneSizeBytes / pageSize)

/-! ## The server -/

structure Server where
  bridge : Bridge
  userDiskStorage : ℕ → Byte

/-- `&user_disk_storage[start]`, `len` bytes. -/
def readBytes (storage : ℕ → Byte) (start len : ℕ) : List Byte :=
  (List.range len).map fun k => storage (start + k)

/-- `memcpy(&user_disk_storage[start], bytes)` -/
def copyBytes (storage : ℕ → Byte) (start : ℕ) (bytes : List Byte) : ℕ → Byte := fun i =>
  if start ≤ i ∧ i < start + bytes.length then bytes.getD (i - start) 0 else storage i

/-- `memset(&user_disk_storage[start], 0, len)` -/
def clearBytes (storage : ℕ → Byte) (start len : ℕ) : ℕ → Byte := fun i =>
  if start ≤ i ∧ i < start + len then 0 else storage i

theorem clearBytes_insideZone (storage : ℕ → Byte) {zoneId i : ℕ} (hi : i / zoneSizeBytes = zoneId) :
    clearBytes storage (zoneId * zoneSizeBytes) zoneSizeBytes i = 0 := by
  refine if_pos ?_
  unfold zoneSizeBytes at *
  omega

theorem clearBytes_outsideZone (storage : ℕ → Byte) {zoneId i : ℕ} (hi : i / zoneSizeBytes ≠ zoneId) :
    clearBytes storage (zoneId * zoneSizeBytes) zoneSizeBytes i = storage i := by
  refine if_neg ?_
  unfold zoneSizeBytes at *
  omega

theorem zone_of_byte (z : ℕ) {k : ℕ} (hk : k < zoneSizeBytes) :
    (z * zoneSizeBytes + k) / zoneSizeBytes = z := by
  unfold zoneSizeBytes at *
  omega

/-- `EIO` -/
def eio : BitVec 32 := 5

/-- The reply to a request. -/
def NbdRequest.reply (r : NbdRequest) (error : BitVec 32) : List Byte :=
  NbdReply.encode ⟨replyMagic, error, r.handle⟩

/-- The byte range of a request lies in `user_disk_storage`. -/
def NbdRequest.InStorage (r : NbdRequest) : Prop := r.offset.toNat + r.len.toNat ≤ totalSizeBytes

instance (r : NbdRequest) : Decidable r.InStorage := inferInstanceAs (Decidable (_ ≤ _))

/-- A handled request: the next state, the status of the automaton that the handler read, and the
bytes sent back. -/
structure Handled where
  server : Server
  status : BitVec 8
  out : List Byte

/-- The command of a request on the pins. -/
def NbdRequest.simCmd (r : NbdRequest) (ioCmd : BitVec 8) : Bridge.SimCmd :=
  ⟨ioCmd, targetZoneId r.offset, targetPage r.offset⟩

/-- The word `(erase_cnt << 16) | (0 << 7) | (target_page & 0x7F)`. -/
def alignedWord (currentMeta targetPage : BitVec 32) : BitVec 32 :=
  (((currentMeta >>> 16) &&& 0xFF#32) <<< 16) ||| (targetPage &&& 0x7F#32)

/-- The polling loop of a write: at most `fuel` more rounds, after `status` was read. -/
def pollWrite : ℕ → BitVec 8 → Bridge → Bridge × BitVec 8
  | 0, status, b => (b, status)
  | fuel + 1, _, b =>
    let (b', status) := b.simGetOutStatus
    if status = 3 ∨ status = 1 then (b', status) else pollWrite fuel status b'

namespace Server

variable (s : Server)

/-- `NBD_CMD_LOCAL_READ` -/
def read (r : NbdRequest) : Option Handled :=
  let polled := (s.bridge.raise (r.simCmd 0)).simGetOutStatus
  let s' : Server := { s with bridge := polled.1.drop }
  if polled.2 = 1 then some ⟨s', polled.2, r.reply eio⟩
  else if r.InStorage then
    some ⟨s', polled.2,
      r.reply 0 ++ readBytes s.userDiskStorage r.offset.toNat r.len.toNat⟩
  else none

/-- The pointer of the target zone is forced to the target page before validation. -/
def aligned (r : NbdRequest) : Bridge :=
  { s.bridge with
    mockBramStorage := Function.update s.bridge.mockBramStorage (cell (targetZoneId r.offset))
      (alignedWord (s.bridge.mockBramStorage (cell (targetZoneId r.offset))) (targetPage r.offset)) }

/-- `NBD_CMD_LOCAL_WRITE`, its payload received. A rejected write is answered with error `0`. -/
def write (r : NbdRequest) (payload : List Byte) : Option Handled :=
  if targetZoneId r.offset < 1024 then
    let polled := pollWrite 10 0 ((s.aligned r).raise (r.simCmd 1))
    let b := polled.1.drop
    if polled.2 = 1 then some ⟨{ s with bridge := b }, polled.2, r.reply 0⟩
    else if r.InStorage then
      some ⟨⟨b, copyBytes s.userDiskStorage r.offset.toNat payload⟩, polled.2, r.reply 0⟩
    else none
  else none

/-- `NBD_CMD_LOCAL_TRIM`; the page on the pins stays. -/
def trim (r : NbdRequest) : Option Handled :=
  let polled := (s.bridge.raise
    ⟨2, targetZoneId r.offset, s.bridge.validatedTargetPage⟩).simGetOutStatus
  if r.InStorage then
    some ⟨⟨polled.1.drop, clearBytes s.userDiskStorage r.offset.toNat r.len.toNat⟩, polled.2,
      r.reply 0⟩
  else none

/-- The zone reset of the management socket: after two ticks all of `mock_bram_storage` and the
bytes of the zone are cleared, and `1` is sent back. -/
def managementReset (zoneId : BitVec 64) : Option Handled :=
  let polled := (s.bridge.raise
    ⟨2, zoneId.setWidth 32, s.bridge.validatedTargetPage⟩).simGetOutStatus
  let start := (zoneId * BitVec.ofNat 64 zoneSizeBytes).toNat
  if start ≤ totalSizeBytes - zoneSizeBytes then
    some ⟨⟨{ polled.1.drop with mockBramStorage := fun _ => 0 },
      clearBytes s.userDiskStorage start zoneSizeBytes⟩, polled.2, [1]⟩
  else none

end Server

/-- A request that drives the automaton. -/
inductive ServerInput
  | read (r : NbdRequest)
  | write (r : NbdRequest) (payload : List Byte)
  | trim (r : NbdRequest)
  | reset (zoneId : BitVec 64)

def ServerInput.IsWrite : ServerInput → Prop
  | .write _ _ => True
  | _ => False

instance : DecidablePred ServerInput.IsWrite
  | .read _ | .trim _ | .reset _ => isFalse id
  | .write _ _ => isTrue trivial

namespace Server

/-- One request. -/
def handle (s : Server) : ServerInput → Option Handled
  | .read r => s.read r
  | .write r payload => s.write r payload
  | .trim r => s.trim r
  | .reset zoneId => s.managementReset zoneId

/-- The server at start-up: no controller behind the bridge, zeroed storage. -/
def powerUp (junk : Validator) (addr : BitVec 32) : Server :=
  ⟨Bridge.powerUp junk addr none, fun _ => 0⟩

/-- **The states between requests.** -/
inductive Reach : Server → Prop
  | powerUp (junk : Validator) (addr : BitVec 32) : Reach (powerUp junk addr)
  | handle {s : Server} {i : ServerInput} {h : Handled} (hs : Reach s) (hi : s.handle i = some h) :
      Reach h.server

end Server

end ZnsFlash
