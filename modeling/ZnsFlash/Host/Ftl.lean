import ZnsFlash.Library.Call
import ZnsFlash.Nbd.Server

/-!
# The host-managed FTL

`host_ftl`: logical pages on the zones of a device behind two sockets.

* `HostFtl`, `L2pTable`, `IoError`: the state and the errors;
* `Link`: what the peer does with the bytes it is sent;
* `appendToZone`, `logicalRead`, `zoneReset`, `logicalWrite`: the calls of the FTL.
-/

namespace ZnsFlash

/-- `NUM_ZONES` -/
def numZones : ℕ := 1024

/-- `total_logical_pages` -/
def totalLogicalPages : ℕ := 65536

inductive ErrorKind
  | invalidInput
  | storageFull
  | unexpectedEof
  | other
  deriving DecidableEq

/-- `std::io::Error` -/
structure IoError where
  kind : ErrorKind
  message : String
  deriving DecidableEq

namespace IoError

def logicalPageOutOfBounds : IoError := ⟨.invalidInput, "Logical page ID out of bounds"⟩

def zoneOutOfRange : IoError := ⟨.invalidInput, "Zone ID out of range"⟩

def allZonesFull : IoError := ⟨.storageFull, "All ZNS zones are full"⟩

def rtlBlocked (code : BitVec 32) : IoError :=
  ⟨.storageFull, "RTL заблокировал запись, код: " ++ toString code.toNat⟩

end IoError

structure ZoneDescriptor where
  writePointer : ℕ
  isFull : Bool
  deriving DecidableEq

structure PhysicalAddress where
  zoneId : ℕ
  pageOffset : ℕ
  deriving DecidableEq

/-- `global_offset` of a mapped page. -/
def PhysicalAddress.byteOffset (p : PhysicalAddress) : ℕ :=
  p.zoneId * zoneSizeBytes + p.pageOffset * pageSize

/-- A page filled with one byte. -/
def filledPage (b : Byte) : List Byte := List.replicate pageSize b

@[simp] theorem length_filledPage (b : Byte) : (filledPage b).length = pageSize :=
  List.length_replicate

/-! ## The mapping table -/

/-- The entries of the table; only those below `totalLogicalPages` exist. -/
abbrev L2pTable := ℕ → Option PhysicalAddress

namespace L2pTable

def new : L2pTable := fun _ => none

def get (t : L2pTable) (logicalPageId : ℕ) : Option PhysicalAddress :=
  if logicalPageId < totalLogicalPages then t logicalPageId else none

def set (t : L2pTable) (logicalPageId : ℕ) (paddr : PhysicalAddress) : L2pTable :=
  if logicalPageId < totalLogicalPages then Function.update t logicalPageId (some paddr) else t

def invalidateZone (t : L2pTable) (zoneId : ℕ) : L2pTable := fun l =>
  match t l with
  | some addr => if addr.zoneId = zoneId then none else some addr
  | none => none

theorem invalidateZone_eq_some (t : L2pTable) (zoneId l : ℕ) (p : PhysicalAddress) :
    t.invalidateZone zoneId l = some p ↔ t l = some p ∧ p.zoneId ≠ zoneId := by
  unfold invalidateZone
  cases h : t l with
  | none => simp
  | some addr =>
    by_cases hz : addr.zoneId = zoneId
    · simp only [if_pos hz, reduceCtorEq, false_iff]
      rintro ⟨heq, hne⟩
      cases heq
      exact hne hz
    · simp only [if_neg hz]
      constructor
      · intro heq
        cases heq
        exact ⟨rfl, hz⟩
      · exact fun heq => heq.1

end L2pTable

/-! ## The sockets -/

/-- The peer of both sockets, with states in `δ`. -/
structure Link (δ : Type) where
  /-- The bytes written to the TCP socket, and those that come back. -/
  tcp : δ → List Byte → δ × Except IoError (List Byte)
  /-- The zone written to the management socket, and the acknowledgement. -/
  mgmt : δ → BitVec 64 → δ × Except IoError Byte

/-- `HostManagedFtl`, with its peer and the bytes that have come back and are not yet read. -/
structure HostFtl (δ : Type) where
  peer : δ
  inbox : List Byte
  zones : ℕ → ZoneDescriptor
  l2pTable : L2pTable
  currentWriteZone : ℕ

/-- A method of the FTL. -/
abbrev FtlCall (δ : Type) := Call (HostFtl δ) IoError

namespace HostFtl

variable {δ : Type}

def new (peer : δ) : HostFtl δ := ⟨peer, [], fun _ => ⟨0, false⟩, L2pTable.new, 0⟩

/-- `self.zones[zone_id]` -/
def zoneAt (zoneId : ℕ) : FtlCall δ ZoneDescriptor := fun s =>
  if zoneId < numZones then (.ok (s.zones zoneId), s) else (.panics, s)

/-- `read_exact` on the TCP socket. -/
def readExact (n : ℕ) : FtlCall δ (List Byte) := fun s =>
  if n ≤ s.inbox.length then (.ok (s.inbox.take n), { s with inbox := s.inbox.drop n })
  else (.blocks, s)

/-- The search `while self.zones[zone_id].is_full`, for at most `fuel` zones. -/
def writableZone (zones : ℕ → ZoneDescriptor) : ℕ → ℕ → Option ℕ
  | 0, _ => none
  | fuel + 1, zoneId =>
    if (zones zoneId).isFull then
      if numZones ≤ zoneId + 1 then none else writableZone zones fuel (zoneId + 1)
    else some zoneId

/-- The header of an append. -/
def appendRequest (zoneId writePointer len : ℕ) : NbdRequest where
  magic := requestMagic
  type := 1
  handle := 0
  offset := BitVec.ofNat 64 (zoneId * zoneSizeBytes + writePointer)
  len := BitVec.ofNat 32 len

/-- The header of a page read. -/
def readRequest (paddr : PhysicalAddress) : NbdRequest where
  magic := requestMagic
  type := 0
  handle := 0
  offset := BitVec.ofNat 64 (paddr.zoneId * zoneSizeBytes + paddr.pageOffset * pageSize)
  len := BitVec.ofNat 32 pageSize

variable (link : Link δ)

/-- `write_all` and `flush` on the TCP socket. -/
def writeAll (bytes : List Byte) : FtlCall δ Unit := fun s =>
  match link.tcp s.peer bytes with
  | (peer, .ok reply) => (.ok (), { s with peer, inbox := s.inbox ++ reply })
  | (peer, .error e) => (.err e, { s with peer })

/-- `append_to_zone` -/
def appendToZone (zoneId : ℕ) (data : List Byte) : FtlCall δ ℕ := do
  let zone ← zoneAt zoneId
  writeAll link ((appendRequest zoneId zone.writePointer data.length).encode ++ data)
  let replyBuf ← readExact 16
  let errorCode := replyError replyBuf
  if errorCode ≠ 0 then Call.fail (.rtlBlocked errorCode)
  else do
    let writePointer := zone.writePointer + data.length
    let isFull := zone.isFull || decide (zoneSizeBytes ≤ writePointer)
    Call.modify fun s => { s with zones := Function.update s.zones zoneId ⟨writePointer, isFull⟩ }
    pure writePointer

/-- `logical_read`; the error field of the reply is not looked at. -/
def logicalRead (logicalPageId : ℕ) : FtlCall δ (List Byte) := do
  if totalLogicalPages ≤ logicalPageId then Call.fail .logicalPageOutOfBounds
  else do
    let s ← Call.get
    match s.l2pTable.get logicalPageId with
    | none => pure (filledPage 0)
    | some paddr => do
      writeAll link (readRequest paddr).encode
      let _replyBuf ← readExact 16
      readExact pageSize

/-- `backend_zone_reset` -/
def backendZoneReset (zoneId : ℕ) : FtlCall δ Unit := fun s =>
  if numZones ≤ zoneId then (.err .zoneOutOfRange, s)
  else
    match link.mgmt s.peer (BitVec.ofNat 64 zoneId) with
    | (peer, .ok _) => (.ok (), { s with peer })
    | (peer, .error e) => (.err e, { s with peer })

/-- `zone_reset` -/
def zoneReset (zoneId : ℕ) : FtlCall δ Unit := do
  if numZones ≤ zoneId then Call.fail .zoneOutOfRange
  else do
    backendZoneReset link zoneId
    Call.modify fun s =>
      { s with
        zones := Function.update s.zones zoneId ⟨0, false⟩
        l2pTable := s.l2pTable.invalidateZone zoneId }

/-- `logical_write`; after a failed append the zone is reset and the append repeated, with the page
offset of before. -/
def logicalWrite (logicalPageId : ℕ) (data : List Byte) : FtlCall δ (List Byte) := do
  if totalLogicalPages ≤ logicalPageId then Call.fail .logicalPageOutOfBounds
  else do
    let s ← Call.get
    let _ ← zoneAt s.currentWriteZone
    match writableZone s.zones numZones s.currentWriteZone with
    | none => Call.fail .allZonesFull
    | some zoneId => do
      Call.modify fun s => { s with currentWriteZone := zoneId }
      let pageOffset := (s.zones zoneId).writePointer / pageSize
      let _ ← Call.recover (appendToZone link zoneId data) do
        zoneReset link zoneId
        appendToZone link zoneId data
      Call.modify fun s => { s with l2pTable := s.l2pTable.set logicalPageId ⟨zoneId, pageOffset⟩ }
      pure data

/-- The assignment to the public field `current_write_zone`. -/
def assignWriteZone (zoneId : ℕ) : FtlCall δ Unit :=
  Call.modify fun s => { s with currentWriteZone := zoneId }

theorem writableZone_self {zones : ℕ → ZoneDescriptor} {zoneId : ℕ} (fuel : ℕ)
    (h : (zones zoneId).isFull = false) : writableZone zones (fuel + 1) zoneId = some zoneId := by
  rw [writableZone, h, if_neg Bool.false_ne_true]

/-! ## Geometry -/

theorem appendRequest_offset {zoneId writePointer : ℕ} (hz : zoneId < numZones)
    (hw : writePointer ≤ zoneSizeBytes) (len : ℕ) :
    (appendRequest zoneId writePointer len).offset.toNat = zoneId * zoneSizeBytes + writePointer := by
  unfold numZones at hz
  unfold zoneSizeBytes at hw
  change (BitVec.ofNat 64 _).toNat = _
  rw [BitVec.toNat_ofNat]
  refine Nat.mod_eq_of_lt ?_
  unfold zoneSizeBytes
  omega

theorem readRequest_offset {p : PhysicalAddress} (hz : p.zoneId < numZones)
    (hp : p.pageOffset < 64) : (readRequest p).offset.toNat = p.byteOffset := by
  unfold numZones at hz
  change (BitVec.ofNat 64 _).toNat = _
  rw [BitVec.toNat_ofNat]
  refine Nat.mod_eq_of_lt ?_
  unfold zoneSizeBytes pageSize
  omega

theorem appendRequest_inStorage {zoneId writePointer : ℕ} (hz : zoneId < numZones)
    (hfit : writePointer + pageSize ≤ zoneSizeBytes) :
    (appendRequest zoneId writePointer pageSize).InStorage := by
  rw [NbdRequest.InStorage, appendRequest_offset hz (by omega)]
  change _ + 4096 ≤ _
  unfold numZones at hz
  unfold zoneSizeBytes pageSize totalSizeBytes at *
  omega

theorem readRequest_inStorage {p : PhysicalAddress} (hz : p.zoneId < numZones)
    (hp : p.pageOffset < 64) : (readRequest p).InStorage := by
  rw [NbdRequest.InStorage, readRequest_offset hz hp]
  change _ + 4096 ≤ _
  unfold numZones at hz
  unfold PhysicalAddress.byteOffset zoneSizeBytes pageSize totalSizeBytes
  omega

/-- A page behind the pointer of its zone does not meet the page at the pointer of a zone. -/
theorem byteOffset_disjoint {p : PhysicalAddress} {z w : ℕ} (hp : p.pageOffset < 64)
    (hw : w + pageSize ≤ zoneSizeBytes) (hbelow : p.zoneId = z → p.pageOffset < w / pageSize) :
    p.byteOffset + pageSize ≤ z * zoneSizeBytes + w ∨
      z * zoneSizeBytes + w + pageSize ≤ p.byteOffset := by
  unfold PhysicalAddress.byteOffset zoneSizeBytes pageSize at *
  by_cases hz : p.zoneId = z
  · have hlt := hbelow hz
    omega
  · omega

theorem byteOffset_disjoint_of_ne {p q : PhysicalAddress} (hp : p.pageOffset < 64)
    (hq : q.pageOffset < 64) (hne : p ≠ q) :
    p.byteOffset + pageSize ≤ q.byteOffset ∨ q.byteOffset + pageSize ≤ p.byteOffset := by
  have hparts : p.zoneId ≠ q.zoneId ∨ p.pageOffset ≠ q.pageOffset := by
    by_contra h
    rw [not_or, not_not, not_not] at h
    cases p
    cases q
    exact hne (congrArg₂ PhysicalAddress.mk h.1 h.2)
  unfold PhysicalAddress.byteOffset zoneSizeBytes pageSize
  omega

theorem byteOffset_div {p : PhysicalAddress} (hp : p.pageOffset < 64) {k : ℕ} (hk : k < pageSize) :
    (p.byteOffset + k) / zoneSizeBytes = p.zoneId := by
  unfold PhysicalAddress.byteOffset zoneSizeBytes pageSize at *
  omega

/-! ## What the calls do when the peer answers -/

section Answers

variable {link} {s : HostFtl δ} {peer : δ} {reply : List Byte} {zoneId : ℕ}

theorem readExact_append {n : ℕ} {bytes rest : List Byte} (hs : s.inbox = bytes ++ rest)
    (hn : bytes.length = n) : readExact n s = (.ok bytes, { s with inbox := rest }) := by
  subst hn
  have hlen : bytes.length ≤ s.inbox.length := by
    rw [hs, List.length_append]
    omega
  rw [readExact, if_pos hlen, hs, List.take_left, List.drop_left]

theorem readExact_short {n : ℕ} (hs : s.inbox.length < n) : readExact n s = (.blocks, s) :=
  if_neg (by omega)

theorem writeAll_ok {bytes : List Byte} (h : link.tcp s.peer bytes = (peer, .ok reply)) :
    writeAll link bytes s = (.ok (), { s with peer, inbox := s.inbox ++ reply }) := by
  rw [writeAll, h]

theorem appendToZone_ok {data : List Byte} (hz : zoneId < numZones) (hs : s.inbox = [])
    (h : link.tcp s.peer
      ((appendRequest zoneId (s.zones zoneId).writePointer data.length).encode ++ data) =
        (peer, .ok reply))
    (hlen : reply.length = 16) (herr : replyError reply = 0) :
    appendToZone link zoneId data s = (.ok ((s.zones zoneId).writePointer + data.length),
      { s with
        peer
        zones := Function.update s.zones zoneId ⟨(s.zones zoneId).writePointer + data.length,
          (s.zones zoneId).isFull ||
            decide (zoneSizeBytes ≤ (s.zones zoneId).writePointer + data.length)⟩ }) := by
  have hzone : zoneAt zoneId s = (.ok (s.zones zoneId), s) := if_pos hz
  have hread : readExact 16 { s with peer, inbox := s.inbox ++ reply } =
      (.ok reply, { s with peer, inbox := [] }) :=
    readExact_append (by simp [hs]) hlen
  rw [appendToZone, Call.bind_of_ok hzone, Call.bind_of_ok (writeAll_ok h), Call.bind_of_ok hread,
    if_neg (not_not_intro herr), ← hs]
  rfl

theorem appendToZone_refused {data : List Byte} (hz : zoneId < numZones) (hs : s.inbox = [])
    (h : link.tcp s.peer
      ((appendRequest zoneId (s.zones zoneId).writePointer data.length).encode ++ data) =
        (peer, .ok reply))
    (hlen : reply.length = 16) (herr : replyError reply ≠ 0) :
    appendToZone link zoneId data s = (.err (.rtlBlocked (replyError reply)), { s with peer }) := by
  have hzone : zoneAt zoneId s = (.ok (s.zones zoneId), s) := if_pos hz
  have hread : readExact 16 { s with peer, inbox := s.inbox ++ reply } =
      (.ok reply, { s with peer, inbox := [] }) :=
    readExact_append (by simp [hs]) hlen
  rw [appendToZone, Call.bind_of_ok hzone, Call.bind_of_ok (writeAll_ok h), Call.bind_of_ok hread,
    if_pos herr, ← hs]
  rfl

theorem zoneReset_ok {ack : Byte} (hz : zoneId < numZones)
    (h : link.mgmt s.peer (BitVec.ofNat 64 zoneId) = (peer, .ok ack)) :
    zoneReset link zoneId s = (.ok (),
      { s with
        peer
        zones := Function.update s.zones zoneId ⟨0, false⟩
        l2pTable := s.l2pTable.invalidateZone zoneId }) := by
  have hback : backendZoneReset link zoneId s = (.ok (), { s with peer }) := by
    rw [backendZoneReset, if_neg (by omega), h]
  rw [zoneReset, if_neg (by omega), Call.bind_of_ok hback]
  rfl

theorem zoneReset_err {e : IoError} (hz : zoneId < numZones)
    (h : link.mgmt s.peer (BitVec.ofNat 64 zoneId) = (peer, .error e)) :
    zoneReset link zoneId s = (.err e, { s with peer }) := by
  have hback : backendZoneReset link zoneId s = (.err e, { s with peer }) := by
    rw [backendZoneReset, if_neg (by omega), h]
  rw [zoneReset, if_neg (by omega), Call.bind_of_err hback]

theorem logicalWrite_ok {l n : ℕ} {data : List Byte} {s' : HostFtl δ}
    (hl : l < totalLogicalPages) (hz : s.currentWriteZone < numZones)
    (hfind : writableZone s.zones numZones s.currentWriteZone = some zoneId)
    (h : appendToZone link zoneId data { s with currentWriteZone := zoneId } = (.ok n, s')) :
    logicalWrite link l data s = (.ok data,
      { s' with l2pTable :=
          s'.l2pTable.set l ⟨zoneId, (s.zones zoneId).writePointer / pageSize⟩ }) := by
  have hget : (Call.get : FtlCall δ _) s = (.ok s, s) := rfl
  have hzone : zoneAt s.currentWriteZone s = (.ok (s.zones s.currentWriteZone), s) := if_pos hz
  have hmod : (Call.modify fun s => { s with currentWriteZone := zoneId } : FtlCall δ _) s =
      (.ok (), { s with currentWriteZone := zoneId }) := rfl
  rw [logicalWrite, if_neg (by omega), Call.bind_of_ok hget, Call.bind_of_ok hzone]
  simp only [hfind]
  rw [Call.bind_of_ok hmod, Call.bind_of_ok (Call.recover_of_ok h)]
  rfl

theorem logicalWrite_outOfBounds {l : ℕ} (hl : totalLogicalPages ≤ l) (data : List Byte) :
    logicalWrite link l data s = (.err .logicalPageOutOfBounds, s) := by
  rw [logicalWrite, if_pos hl]
  rfl

theorem logicalWrite_full {l : ℕ} (hl : l < totalLogicalPages) (hz : s.currentWriteZone < numZones)
    (hfind : writableZone s.zones numZones s.currentWriteZone = none) (data : List Byte) :
    logicalWrite link l data s = (.err .allZonesFull, s) := by
  have hget : (Call.get : FtlCall δ _) s = (.ok s, s) := rfl
  have hzone : zoneAt s.currentWriteZone s = (.ok (s.zones s.currentWriteZone), s) := if_pos hz
  rw [logicalWrite, if_neg (by omega), Call.bind_of_ok hget, Call.bind_of_ok hzone]
  simp only [hfind]
  rfl

theorem zoneReset_outOfRange (hz : numZones ≤ zoneId) :
    zoneReset link zoneId s = (.err .zoneOutOfRange, s) := by
  rw [zoneReset, if_pos hz]
  rfl

theorem logicalRead_outOfBounds {l : ℕ} (hl : totalLogicalPages ≤ l) :
    logicalRead link l s = (.err .logicalPageOutOfBounds, s) := by
  rw [logicalRead, if_pos hl]
  rfl

theorem logicalRead_unmapped {l : ℕ} (hl : l < totalLogicalPages) (h : s.l2pTable l = none) :
    logicalRead link l s = (.ok (filledPage 0), s) := by
  have hget : (Call.get : FtlCall δ _) s = (.ok s, s) := rfl
  have hnone : s.l2pTable.get l = none := by rw [L2pTable.get, if_pos hl, h]
  rw [logicalRead, if_neg (by omega), Call.bind_of_ok hget]
  simp only [hnone]
  rfl

theorem logicalRead_ok {l : ℕ} {paddr : PhysicalAddress} {bytes : List Byte}
    (hl : l < totalLogicalPages) (hp : s.l2pTable l = some paddr) (hs : s.inbox = [])
    (h : link.tcp s.peer (readRequest paddr).encode = (peer, .ok (reply ++ bytes)))
    (hlen : reply.length = 16) (hbytes : bytes.length = pageSize) :
    logicalRead link l s = (.ok bytes, { s with peer }) := by
  have hget : (Call.get : FtlCall δ _) s = (.ok s, s) := rfl
  have hsome : s.l2pTable.get l = some paddr := by rw [L2pTable.get, if_pos hl, hp]
  have hread : readExact 16 { s with peer, inbox := s.inbox ++ (reply ++ bytes) } =
      (.ok reply, { s with peer, inbox := bytes }) :=
    readExact_append (by simp [hs]) hlen
  have hpage : readExact pageSize { s with peer, inbox := bytes } =
      (.ok bytes, { s with peer, inbox := [] }) :=
    readExact_append (by simp) hbytes
  rw [logicalRead, if_neg (by omega), Call.bind_of_ok hget]
  simp only [hsome]
  rw [Call.bind_of_ok (writeAll_ok h), Call.bind_of_ok hread, hpage, ← hs]

theorem logicalRead_blocks {l : ℕ} {paddr : PhysicalAddress} (hl : l < totalLogicalPages)
    (hp : s.l2pTable l = some paddr) (hs : s.inbox = [])
    (h : link.tcp s.peer (readRequest paddr).encode = (peer, .ok reply))
    (hlen : reply.length = 16) :
    logicalRead link l s = (.blocks, { s with peer }) := by
  have hget : (Call.get : FtlCall δ _) s = (.ok s, s) := rfl
  have hsome : s.l2pTable.get l = some paddr := by rw [L2pTable.get, if_pos hl, hp]
  have hread : readExact 16 { s with peer, inbox := s.inbox ++ reply } =
      (.ok reply, { s with peer, inbox := [] }) :=
    readExact_append (by simp [hs]) hlen
  have hshort : readExact pageSize { s with peer, inbox := [] } =
      (.blocks, { s with peer, inbox := [] }) :=
    readExact_short (show 0 < pageSize by decide)
  rw [logicalRead, if_neg (by omega), Call.bind_of_ok hget]
  simp only [hsome]
  rw [Call.bind_of_ok (writeAll_ok h), Call.bind_of_ok hread, hshort, ← hs]

end Answers

end HostFtl

end ZnsFlash
