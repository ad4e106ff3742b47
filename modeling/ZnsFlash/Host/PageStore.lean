import ZnsFlash.Library.Segments
import ZnsFlash.Host.Ftl
import ZnsFlash.Nbd.Requests

/-!
# The FTL as a store of pages

* `Accepting`: a device that accepts every append and reset and keeps what it is sent;
* `FtlOp`, `recordStep`: the calls of a client, with their history;
* `ZoneDescriptor.Valid`, `L2pTable.Injective`, `HostFtl.Consistent`: table, pointers, device and
  history fit together;
* **`page_store`**: what reads return after any calls, and the invariants of the tables.
-/

namespace ZnsFlash

open Runs Segments

/-- **A device that accepts** every append and reset and returns the bytes last stored. -/
structure Accepting {δ : Type} (link : Link δ) where
  stored : δ → ℕ → Byte
  write : ∀ d (r : NbdRequest) (payload : List Byte), r.magic = requestMagic → r.type = 1 →
    r.InStorage → payload.length = r.len.toNat →
    ∃ d' reply, link.tcp d (r.encode ++ payload) = (d', .ok reply) ∧ reply.length = 16 ∧
      replyError reply = 0 ∧ stored d' = copyBytes (stored d) r.offset.toNat payload
  read : ∀ d (r : NbdRequest), r.magic = requestMagic → r.type = 0 → r.InStorage →
    ∃ d' reply, link.tcp d r.encode =
        (d', .ok (reply ++ readBytes (stored d) r.offset.toNat r.len.toNat)) ∧
      reply.length = 16 ∧ stored d' = stored d
  reset : ∀ d zoneId, zoneId < numZones →
    ∃ d' ack, link.mgmt d (BitVec.ofNat 64 zoneId) = (d', .ok ack) ∧
      ∀ i, i / zoneSizeBytes ≠ zoneId → stored d' i = stored d i

/-! ## Calls and their history -/

/-- What a client calls, and the assignment to `current_write_zone`. -/
inductive FtlOp
  | write (logicalPageId : ℕ) (data : List Byte)
  | read (logicalPageId : ℕ)
  | reset (zoneId : ℕ)
  | assign (zoneId : ℕ)
  deriving DecidableEq

/-- Whole pages are written, and the write zone exists. -/
def FtlOp.Allowed : FtlOp → Prop
  | .write _ data => data.length = pageSize
  | .assign zoneId => zoneId < numZones
  | .read _ | .reset _ => True

/-- The pages that came into zones, by logical page, and the zones erased. -/
abbrev PageHistory := List (Event ℕ ℕ (List Byte))

namespace HostFtl

variable {δ : Type} (link : Link δ)

def perform : FtlOp → FtlCall δ (List Byte)
  | .write l data => logicalWrite link l data
  | .read l => logicalRead link l
  | .reset zoneId => do
    zoneReset link zoneId
    pure []
  | .assign zoneId => do
    assignWriteZone zoneId
    pure []

/-- What a successful call leaves in the history; the page went to what is the write zone now. -/
def eventsOf (op : FtlOp) (o : Outcome IoError (List Byte)) (s : HostFtl δ) : PageHistory :=
  match op, o with
  | .write l data, .ok _ => [.stored l s.currentWriteZone data]
  | .reset zoneId, .ok _ => [.erased zoneId]
  | _, _ => []

/-- One call. -/
def recordStep (x : HostFtl δ × PageHistory) (op : FtlOp) : HostFtl δ × PageHistory :=
  let (o, s) := perform link op x.1
  (s, eventsOf op o s ++ x.2)

theorem recordStep_eq {link : Link δ} {s s' : HostFtl δ} {h : PageHistory} {op : FtlOp}
    {o : Outcome IoError (List Byte)} (hrun : perform link op s = (o, s')) :
    recordStep link (s, h) op = (s', eventsOf op o s' ++ h) := by
  rw [recordStep, hrun]

end HostFtl

/-- A page-aligned pointer within the zone, at its end exactly when the zone is full. -/
structure ZoneDescriptor.Valid (d : ZoneDescriptor) : Prop where
  aligned : d.writePointer % pageSize = 0
  le : d.writePointer ≤ zoneSizeBytes
  full : d.isFull = true ↔ d.writePointer = zoneSizeBytes

namespace ZoneDescriptor

theorem valid_empty : (⟨0, false⟩ : ZoneDescriptor).Valid :=
  ⟨rfl, Nat.zero_le _, show false = true ↔ 0 = 262144 by decide⟩

variable {d : ZoneDescriptor}

theorem Valid.room (h : d.Valid) (hd : d.isFull = false) :
    d.writePointer + pageSize ≤ zoneSizeBytes := by
  have haligned := h.aligned
  have hle := h.le
  have hne : d.writePointer ≠ zoneSizeBytes := by
    intro heq
    rw [h.full.mpr heq] at hd
    exact Bool.noConfusion hd
  unfold zoneSizeBytes pageSize at *
  omega

theorem Valid.append (h : d.Valid) (hd : d.isFull = false) :
    (⟨d.writePointer + pageSize,
      d.isFull || decide (zoneSizeBytes ≤ d.writePointer + pageSize)⟩ : ZoneDescriptor).Valid := by
  have haligned := h.aligned
  have hroom := h.room hd
  refine ⟨?_, hroom, ?_⟩
  · unfold pageSize at *
    dsimp only
    omega
  · simp only [hd, Bool.false_or, decide_eq_true_iff]
    omega

end ZoneDescriptor

namespace L2pTable

variable {t : L2pTable} {l : ℕ} {p : PhysicalAddress}

/-- No two pages share an address. -/
def Injective (t : L2pTable) : Prop := ∀ l l' p, t l = some p → t l' = some p → l = l'

theorem Injective.update (h : t.Injective) (hfresh : ∀ l', t l' ≠ some p) :
    Injective (Function.update t l (some p)) := by
  intro l₁ l₂ q hq₁ hq₂
  by_cases h₁ : l₁ = l
  · by_cases h₂ : l₂ = l
    · rw [h₁, h₂]
    · rw [h₁, Function.update_self] at hq₁
      rw [Function.update_of_ne h₂, ← hq₁] at hq₂
      exact absurd hq₂ (hfresh l₂)
  · by_cases h₂ : l₂ = l
    · rw [h₂, Function.update_self] at hq₂
      rw [Function.update_of_ne h₁, ← hq₂] at hq₁
      exact absurd hq₁ (hfresh l₁)
    · rw [Function.update_of_ne h₁] at hq₁
      rw [Function.update_of_ne h₂] at hq₂
      exact h l₁ l₂ q hq₁ hq₂

theorem Injective.invalidateZone (h : t.Injective) (zoneId : ℕ) :
    Injective (t.invalidateZone zoneId) := by
  intro l l' p hp hp'
  rw [invalidateZone_eq_some] at hp hp'
  exact h l l' p hp.1 hp'.1

end L2pTable

/-! ## Tables of whole pages -/

/-- Pointers are page-aligned, and the pages mapped lie below them, each mapped once. -/
structure Tidy (zones : ℕ → ZoneDescriptor) (t : L2pTable) : Prop where
  valid : ∀ z, (zones z).Valid
  below : ∀ l p, t l = some p → p.pageOffset < (zones p.zoneId).writePointer / pageSize
  injective : t.Injective

namespace Tidy

variable {zones : ℕ → ZoneDescriptor} {t : L2pTable}

theorem new : Tidy (fun _ => ⟨0, false⟩) L2pTable.new where
  valid _ := ZoneDescriptor.valid_empty
  below _ _ h := nomatch h
  injective _ _ _ h := nomatch h

theorem pageOffset_lt (h : Tidy zones t) {l : ℕ} {p : PhysicalAddress} (hp : t l = some p) :
    p.pageOffset < 64 := by
  have hbelow := h.below l p hp
  have hle := (h.valid p.zoneId).le
  unfold pageSize at hbelow
  unfold zoneSizeBytes at hle
  omega

theorem below_append (h : Tidy zones t) {z : ℕ} {full : Bool} {l : ℕ} {p : PhysicalAddress}
    (hp : t l = some p) :
    p.pageOffset < (Function.update zones z ⟨(zones z).writePointer + pageSize, full⟩
      p.zoneId).writePointer / pageSize := by
  have hbelow := h.below l p hp
  by_cases hzz : p.zoneId = z
  · rw [hzz] at hbelow ⊢
    rw [Function.update_self]
    unfold pageSize at *
    dsimp only
    omega
  · rw [Function.update_of_ne hzz]
    exact hbelow

theorem append (h : Tidy zones t) {z : ℕ} (hroom : (zones z).isFull = false) (l : ℕ) :
    Tidy (Function.update zones z ⟨(zones z).writePointer + pageSize,
        (zones z).isFull || decide (zoneSizeBytes ≤ (zones z).writePointer + pageSize)⟩)
      (t.set l ⟨z, (zones z).writePointer / pageSize⟩) := by
  have hvalid : ∀ z', (Function.update zones z ⟨(zones z).writePointer + pageSize,
      (zones z).isFull || decide (zoneSizeBytes ≤ (zones z).writePointer + pageSize)⟩ z').Valid :=
    (Function.forall_update_iff zones fun _ d => d.Valid).mpr
      ⟨(h.valid z).append hroom, fun z' _ => h.valid z'⟩
  unfold L2pTable.set
  split_ifs
  swap
  · exact ⟨hvalid, fun l' p hp => h.below_append hp, h.injective⟩
  refine ⟨hvalid, ?_, ?_⟩
  · refine (Function.forall_update_iff t fun _ o => ∀ p, o = some p →
      p.pageOffset < (Function.update zones z _ p.zoneId).writePointer / pageSize).mpr ⟨?_, ?_⟩
    · intro p hp
      cases hp
      rw [Function.update_self]
      unfold pageSize
      dsimp only
      omega
    · exact fun l' _ p hp => h.below_append hp
  · apply h.injective.update
    intro l' hp
    exact absurd (h.below l' _ hp) (lt_irrefl _)

theorem erase (h : Tidy zones t) (z : ℕ) :
    Tidy (Function.update zones z ⟨0, false⟩) (t.invalidateZone z) := by
  refine ⟨?_, fun l p hp => ?_, h.injective.invalidateZone z⟩
  · exact (Function.forall_update_iff zones fun _ d => d.Valid).mpr
      ⟨ZoneDescriptor.valid_empty, fun z' _ => h.valid z'⟩
  · obtain ⟨hp, hzz⟩ := (L2pTable.invalidateZone_eq_some t z l p).mp hp
    rw [Function.update_of_ne hzz]
    exact h.below l p hp

end Tidy

namespace HostFtl

variable {δ : Type} {link : Link δ}

/-- **Table, pointers, device and history fit together.** -/
structure Consistent (A : Accepting link) (s : HostFtl δ) (h : PageHistory) : Prop where
  inbox : s.inbox = []
  zone : s.currentWriteZone < numZones
  valid : ∀ z, (s.zones z).Valid
  exists_zone : ∀ l p, s.l2pTable l = some p → p.zoneId < numZones
  below : ∀ l p, s.l2pTable l = some p →
    p.pageOffset < (s.zones p.zoneId).writePointer / pageSize
  injective : s.l2pTable.Injective
  content : ∀ l, live h l = (s.l2pTable l).map fun p =>
    (p.zoneId, readBytes (A.stored s.peer) p.byteOffset pageSize)

theorem consistent_new (A : Accepting link) (peer : δ) : (new peer).Consistent A [] where
  inbox := rfl
  zone := show 0 < 1024 by decide
  valid _ := ZoneDescriptor.valid_empty
  exists_zone _ _ h := nomatch h
  below _ _ h := nomatch h
  injective _ _ _ h := nomatch h
  content _ := rfl

theorem writableZone_some {zones : ℕ → ZoneDescriptor} {fuel zoneId z : ℕ} (hz : zoneId < numZones)
    (h : writableZone zones fuel zoneId = some z) : z < numZones ∧ (zones z).isFull = false := by
  induction fuel generalizing zoneId with
  | zero => cases h
  | succ fuel ih =>
    rw [writableZone] at h
    by_cases hfull : (zones zoneId).isFull = true
    · rw [if_pos hfull] at h
      by_cases hlast : numZones ≤ zoneId + 1
      · rw [if_pos hlast] at h
        cases h
      · rw [if_neg hlast] at h
        exact ih (by omega) h
    · rw [if_neg hfull] at h
      cases h
      exact ⟨hz, by simpa using hfull⟩

/-- **A read of a mapped page**, when the device answers with the bytes it stores; `Q` says what else is
known of the device. -/
theorem logicalRead_mapped {s : HostFtl δ} {stored : ℕ → Byte} {Q : δ → Prop} {l : ℕ}
    {p : PhysicalAddress} (hs : s.inbox = []) (hl : l < totalLogicalPages)
    (hp : s.l2pTable l = some p) (hz : p.zoneId < numZones) (hoff : p.pageOffset < 64)
    (hread : ∀ r : NbdRequest, r.magic = requestMagic → r.type = 0 → r.InStorage →
      ∃ d' reply, link.tcp s.peer r.encode =
          (d', .ok (reply ++ readBytes stored r.offset.toNat r.len.toNat)) ∧
        reply.length = 16 ∧ Q d') :
    ∃ peer, logicalRead link l s = (.ok (readBytes stored p.byteOffset pageSize), { s with peer }) ∧
      Q peer := by
  obtain ⟨peer, reply, htcp, h16, hpeer⟩ :=
    hread (readRequest p) rfl rfl (readRequest_inStorage hz hoff)
  rw [readRequest_offset hz hoff] at htcp
  exact ⟨peer, logicalRead_ok hl hp hs htcp h16 (length_readBytes _ _ _), hpeer⟩

/-- **An append that fits into its zone** is accepted and stored. -/
theorem appendToZone_fits (A : Accepting link) {s : HostFtl δ} (hs : s.inbox = []) {zoneId : ℕ}
    (hz : zoneId < numZones) {data : List Byte}
    (hfit : (s.zones zoneId).writePointer + data.length ≤ zoneSizeBytes) :
    ∃ peer, appendToZone link zoneId data s =
        (.ok ((s.zones zoneId).writePointer + data.length),
          { s with
            peer
            zones := Function.update s.zones zoneId ⟨(s.zones zoneId).writePointer + data.length,
              (s.zones zoneId).isFull ||
                decide (zoneSizeBytes ≤ (s.zones zoneId).writePointer + data.length)⟩ }) ∧
      A.stored peer = copyBytes (A.stored s.peer)
        (zoneId * zoneSizeBytes + (s.zones zoneId).writePointer) data := by
  have hoff := appendRequest_offset hz (Nat.le_of_add_right_le hfit) data.length
  have hlen : data.length = (BitVec.ofNat 32 data.length).toNat := by
    rw [BitVec.toNat_ofNat]
    refine (Nat.mod_eq_of_lt ?_).symm
    unfold zoneSizeBytes at hfit
    omega
  have hin : (appendRequest zoneId (s.zones zoneId).writePointer data.length).InStorage := by
    rw [NbdRequest.InStorage, hoff]
    change _ + (BitVec.ofNat 32 data.length).toNat ≤ _
    rw [← hlen]
    unfold numZones at hz
    unfold zoneSizeBytes totalSizeBytes at *
    omega
  obtain ⟨peer, reply, htcp, h16, herr, hstored⟩ := A.write s.peer _ data rfl rfl hin hlen
  rw [hoff] at hstored
  exact ⟨peer, appendToZone_ok hz hs htcp h16 herr, hstored⟩

namespace Consistent

variable {A : Accepting link} {s : HostFtl δ} {h : PageHistory}

theorem tidy (hc : s.Consistent A h) : Tidy s.zones s.l2pTable :=
  ⟨hc.valid, hc.below, hc.injective⟩

theorem pageOffset_lt (hc : s.Consistent A h) {l : ℕ} {p : PhysicalAddress}
    (hp : s.l2pTable l = some p) : p.pageOffset < 64 := hc.tidy.pageOffset_lt hp

/-! ## One call -/

/-- **A write over an accepting device** appends to a zone with room, and maps the page there. -/
theorem logicalWrite_eq (hc : s.Consistent A h) {l : ℕ} (hl : l < totalLogicalPages) {z : ℕ}
    (hfind : writableZone s.zones numZones s.currentWriteZone = some z) {data : List Byte}
    (hdata : data.length = pageSize) :
    ∃ peer, logicalWrite link l data s = (.ok data,
        { s with
          peer
          zones := Function.update s.zones z ⟨(s.zones z).writePointer + pageSize,
            (s.zones z).isFull || decide (zoneSizeBytes ≤ (s.zones z).writePointer + pageSize)⟩
          l2pTable := s.l2pTable.set l ⟨z, (s.zones z).writePointer / pageSize⟩
          currentWriteZone := z }) ∧
      A.stored peer =
        copyBytes (A.stored s.peer) (z * zoneSizeBytes + (s.zones z).writePointer) data := by
  have hfit := (hc.valid z).room (writableZone_some hc.zone hfind).2
  obtain ⟨peer, happend, hstored⟩ := appendToZone_fits A (s := { s with currentWriteZone := z })
    hc.inbox (writableZone_some hc.zone hfind).1 (hdata ▸ hfit)
  refine ⟨peer, ?_, hstored⟩
  rw [logicalWrite_ok hl hc.zone hfind happend, hdata]

theorem history_write (hc : s.Consistent A h) {l : ℕ} (hl : l < totalLogicalPages) {z : ℕ}
    (hfind : writableZone s.zones numZones s.currentWriteZone = some z) {data : List Byte}
    (hdata : data.length = pageSize) :
    (recordStep link (s, h) (.write l data)).2 = .stored l z data :: h := by
  obtain ⟨peer, hwrite, -⟩ := hc.logicalWrite_eq hl hfind hdata
  have hrun : perform link (.write l data) s = _ := hwrite
  rw [recordStep_eq hrun]
  rfl

theorem read_appended (hc : s.Consistent A h) {z : ℕ} {data : List Byte} (hdata : data.length = pageSize) :
    readBytes (copyBytes (A.stored s.peer) (z * zoneSizeBytes + (s.zones z).writePointer) data)
      (PhysicalAddress.byteOffset ⟨z, (s.zones z).writePointer / pageSize⟩) pageSize = data := by
  have haligned := (hc.valid z).aligned
  have hoffset : PhysicalAddress.byteOffset ⟨z, (s.zones z).writePointer / pageSize⟩ =
      z * zoneSizeBytes + (s.zones z).writePointer := by
    unfold PhysicalAddress.byteOffset pageSize at *
    dsimp only
    omega
  rw [hoffset, ← hdata]
  exact readBytes_copyBytes _ _ data

theorem read_kept (hc : s.Consistent A h) {l z : ℕ} {p : PhysicalAddress} {data : List Byte}
    (hp : s.l2pTable l = some p) (hroom : (s.zones z).isFull = false) (hdata : data.length = pageSize) :
    readBytes (copyBytes (A.stored s.peer) (z * zoneSizeBytes + (s.zones z).writePointer) data)
      p.byteOffset pageSize = readBytes (A.stored s.peer) p.byteOffset pageSize := by
  have hbelow : p.zoneId = z → p.pageOffset < (s.zones z).writePointer / pageSize := by
    intro hzz
    rw [← hzz]
    exact hc.below l p hp
  refine readBytes_copyBytes_of_disjoint (A.stored s.peer) _ ?_
  rw [hdata]
  exact byteOffset_disjoint (hc.pageOffset_lt hp) ((hc.valid z).room hroom) hbelow

theorem append (hc : s.Consistent A h) {l z : ℕ} {data : List Byte} {peer : δ}
    (hl : l < totalLogicalPages) (hz : z < numZones) (hroom : (s.zones z).isFull = false)
    (hdata : data.length = pageSize)
    (hstored : A.stored peer =
      copyBytes (A.stored s.peer) (z * zoneSizeBytes + (s.zones z).writePointer) data) :
    Consistent A
      { s with
        peer
        zones := Function.update s.zones z ⟨(s.zones z).writePointer + pageSize,
          (s.zones z).isFull || decide (zoneSizeBytes ≤ (s.zones z).writePointer + pageSize)⟩
        l2pTable := s.l2pTable.set l ⟨z, (s.zones z).writePointer / pageSize⟩
        currentWriteZone := z }
      (.stored l z data :: h) := by
  have htidy := hc.tidy.append hroom l
  have hset : s.l2pTable.set l ⟨z, (s.zones z).writePointer / pageSize⟩ =
      Function.update s.l2pTable l (some ⟨z, (s.zones z).writePointer / pageSize⟩) := if_pos hl
  rw [hset] at htidy ⊢
  refine ⟨hc.inbox, hz, htidy.valid, ?_, htidy.below, htidy.injective, ?_⟩
  · refine (Function.forall_update_iff s.l2pTable fun _ o =>
      ∀ p, o = some p → p.zoneId < numZones).mpr ⟨?_, fun l' _ => hc.exists_zone l'⟩
    intro p hp
    cases hp
    exact hz
  · intro l'
    by_cases hll : l' = l
    · subst hll
      simp only [live_stored_self, Function.update_self, Option.map_some, hstored,
        hc.read_appended hdata]
    · rw [live_stored_of_ne hll]
      simp only [Function.update_of_ne hll, hc.content l', hstored]
      cases hp : s.l2pTable l' with
      | none => simp only [Option.map_none]
      | some p => simp only [Option.map_some, hc.read_kept hp hroom hdata]

theorem write (hc : s.Consistent A h) {l : ℕ} {data : List Byte} (hdata : data.length = pageSize) :
    (recordStep link (s, h) (.write l data)).1.Consistent A
      (recordStep link (s, h) (.write l data)).2 := by
  by_cases hl : l < totalLogicalPages
  · cases hfind : writableZone s.zones numZones s.currentWriteZone with
    | none =>
      have hrun : perform link (.write l data) s = _ := logicalWrite_full hl hc.zone hfind data
      rw [recordStep_eq hrun]
      exact hc
    | some z =>
      obtain ⟨hz, hroom⟩ := writableZone_some hc.zone hfind
      obtain ⟨peer, hwrite, hstored⟩ := hc.logicalWrite_eq hl hfind hdata
      have hrun : perform link (.write l data) s = _ := hwrite
      rw [recordStep_eq hrun]
      exact hc.append hl hz hroom hdata hstored
  · have hrun : perform link (.write l data) s = _ :=
      logicalWrite_outOfBounds (Nat.le_of_not_lt hl) data
    rw [recordStep_eq hrun]
    exact hc

/-- **A read over an accepting device** returns the bytes at the address of the page. -/
theorem logicalRead_eq (hc : s.Consistent A h) {l : ℕ} (hl : l < totalLogicalPages) :
    ∃ peer, logicalRead link l s =
        (.ok (((live h l).map Prod.snd).getD (filledPage 0)), { s with peer }) ∧
      A.stored peer = A.stored s.peer := by
  have hcontent := hc.content l
  cases hp : s.l2pTable l with
  | none =>
    rw [hp] at hcontent
    refine ⟨s.peer, ?_, rfl⟩
    rw [logicalRead_unmapped hl hp, hcontent]
    rfl
  | some p =>
    rw [hp] at hcontent
    obtain ⟨peer, hread, hstored⟩ := logicalRead_mapped (Q := fun d => A.stored d = A.stored s.peer)
      hc.inbox hl hp (hc.exists_zone l p hp) (hc.pageOffset_lt hp) (A.read s.peer)
    refine ⟨peer, ?_, hstored⟩
    simp only [hcontent, Option.map_some, Option.getD_some]
    exact hread

theorem congr_peer (hc : s.Consistent A h) {peer : δ} (hstored : A.stored peer = A.stored s.peer) :
    Consistent A { s with peer } h := by
  refine ⟨hc.inbox, hc.zone, hc.valid, hc.exists_zone, hc.below, hc.injective, ?_⟩
  intro l
  simp only [hstored]
  exact hc.content l

theorem read (hc : s.Consistent A h) (l : ℕ) :
    (recordStep link (s, h) (.read l)).1.Consistent A (recordStep link (s, h) (.read l)).2 := by
  by_cases hl : l < totalLogicalPages
  · obtain ⟨peer, hread, hstored⟩ := hc.logicalRead_eq hl
    have hrun : perform link (.read l) s = _ := hread
    rw [recordStep_eq hrun]
    exact hc.congr_peer hstored
  · have hrun : perform link (.read l) s = _ := logicalRead_outOfBounds (Nat.le_of_not_lt hl)
    rw [recordStep_eq hrun]
    exact hc

theorem erase (hc : s.Consistent A h) {z : ℕ} {peer : δ}
    (hstored : ∀ i, i / zoneSizeBytes ≠ z → A.stored peer i = A.stored s.peer i) :
    Consistent A
      { s with
        peer
        zones := Function.update s.zones z ⟨0, false⟩
        l2pTable := s.l2pTable.invalidateZone z }
      (.erased z :: h) := by
  have htidy := hc.tidy.erase z
  refine ⟨hc.inbox, hc.zone, htidy.valid, ?_, htidy.below, htidy.injective, ?_⟩
  · intro l p hp
    exact hc.exists_zone l p ((L2pTable.invalidateZone_eq_some s.l2pTable z l p).mp hp).1
  · intro l
    have hcontent := hc.content l
    cases hp : s.l2pTable l with
    | none =>
      rw [hp] at hcontent
      simp only [L2pTable.invalidateZone, hp, Option.map_none]
      exact live_erased_none hcontent
    | some p =>
      rw [hp, Option.map_some] at hcontent
      by_cases hzz : p.zoneId = z
      · simp only [L2pTable.invalidateZone, hp, if_pos hzz, Option.map_none]
        rw [hzz] at hcontent
        exact live_erased_self hcontent
      · have hsame : readBytes (A.stored peer) p.byteOffset pageSize =
            readBytes (A.stored s.peer) p.byteOffset pageSize := by
          unfold readBytes
          apply List.map_congr_left
          intro k hk
          apply hstored
          rw [byteOffset_div (hc.pageOffset_lt hp) (List.mem_range.mp hk)]
          exact hzz
        simp only [L2pTable.invalidateZone, hp, if_neg hzz, Option.map_some, hsame]
        exact live_erased_eq_some.mpr ⟨hcontent, hzz⟩

theorem reset (hc : s.Consistent A h) (z : ℕ) :
    (recordStep link (s, h) (.reset z)).1.Consistent A (recordStep link (s, h) (.reset z)).2 := by
  by_cases hz : z < numZones
  · obtain ⟨peer, ack, hmgmt, hstored⟩ := A.reset s.peer z hz
    have hrun : perform link (.reset z) s = _ := Call.bind_of_ok (zoneReset_ok hz hmgmt)
    rw [recordStep_eq hrun]
    exact hc.erase hstored
  · have hrun : perform link (.reset z) s = _ :=
      Call.bind_of_err (zoneReset_outOfRange (Nat.le_of_not_lt hz))
    rw [recordStep_eq hrun]
    exact hc

theorem step (hc : s.Consistent A h) {op : FtlOp} (hop : op.Allowed) :
    (recordStep link (s, h) op).1.Consistent A (recordStep link (s, h) op).2 := by
  cases op with
  | write l data => exact hc.write hop
  | read l => exact hc.read l
  | reset z => exact hc.reset z
  | assign z =>
    exact ⟨hc.inbox, hop, hc.valid, hc.exists_zone, hc.below, hc.injective, hc.content⟩

end Consistent

/-! ## Runs of calls -/

theorem consistent_run (A : Accepting link) (peer : δ) {ops : List FtlOp}
    (hops : ∀ op ∈ ops, op.Allowed) :
    (run (recordStep link) (new peer, []) ops).1.Consistent A
      (run (recordStep link) (new peer, []) ops).2 := by
  have halong : Along (recordStep link) (fun _ op => op.Allowed) (new peer, []) ops :=
    (along_const FtlOp.Allowed _ _).mpr hops
  have hstep : ∀ (x : HostFtl δ × PageHistory) op, x.1.Consistent A x.2 → op.Allowed →
      (recordStep link x op).1.Consistent A (recordStep link x op).2 :=
    fun _ _ hc hop => hc.step hop
  exact run_inv_of_along hstep (consistent_new A peer) halong

/-- **The FTL is a store of logical pages.** After any allowed calls over an accepting device, a
read of a page returns what was last written to it successfully, if the zone that received it was
not reset since, and a zero page otherwise; every zone of the device can be reset; the table is
injective and points below the pointers, which are page-aligned, within the zone, and at its end
exactly when the zone is full. -/
theorem page_store (A : Accepting link) (peer : δ) {ops : List FtlOp}
    (hops : ∀ op ∈ ops, op.Allowed) :
    let x := run (recordStep link) (new peer, []) ops
    (∀ l, l < totalLogicalPages →
      (∀ z data, Survives x.2 l z data → (logicalRead link l x.1).1 = .ok data) ∧
      ((¬ ∃ z data, Survives x.2 l z data) →
        (logicalRead link l x.1).1 = .ok (filledPage 0))) ∧
    (∀ l, totalLogicalPages ≤ l →
      (logicalRead link l x.1).1 = .err .logicalPageOutOfBounds) ∧
    (∀ z, z < numZones → (zoneReset link z x.1).1 = .ok ()) ∧
    (∀ l l' p, x.1.l2pTable l = some p → x.1.l2pTable l' = some p → l = l') ∧
    (∀ l p, x.1.l2pTable l = some p →
      p.pageOffset < (x.1.zones p.zoneId).writePointer / pageSize) ∧
    (∀ z, (x.1.zones z).writePointer % pageSize = 0 ∧
      (x.1.zones z).writePointer ≤ zoneSizeBytes ∧
      ((x.1.zones z).isFull = true ↔ (x.1.zones z).writePointer = zoneSizeBytes)) := by
  intro x
  have hc : x.1.Consistent A x.2 := consistent_run A peer hops
  refine ⟨?_, ?_, ?_, hc.injective, hc.below, fun z =>
    ⟨(hc.valid z).aligned, (hc.valid z).le, (hc.valid z).full⟩⟩
  · intro l hl
    obtain ⟨peer', hread, -⟩ := hc.logicalRead_eq hl
    constructor
    · intro z data hsurvives
      rw [hread, live_eq_some_iff.mpr hsurvives]
      rfl
    · intro hnone
      have hlive : live x.2 l = none := by
        cases hlive : live x.2 l with
        | none => rfl
        | some q => exact absurd ⟨q.1, q.2, live_eq_some_iff.mp hlive⟩ hnone
      rw [hread, hlive]
      rfl
  · intro l hl
    rw [logicalRead_outOfBounds hl]
  · intro z hz
    obtain ⟨peer', ack, hmgmt, -⟩ := A.reset x.1.peer z hz
    rw [zoneReset_ok hz hmgmt]

end HostFtl

/-! ## A memory as device -/

/-- A memory that does what it is told. -/
def ramLink : Link (ℕ → Byte) where
  tcp mem bytes :=
    match NbdRequest.decode bytes with
    | none => (mem, .error ⟨.other, "Invalid request"⟩)
    | some r =>
      if r.type = 1 then
        (copyBytes mem r.offset.toNat (bytes.drop 28), .ok (r.reply 0))
      else (mem, .ok (r.reply 0 ++ readBytes mem r.offset.toNat r.len.toNat))
  mgmt mem zoneId := (clearBytes mem (zoneId.toNat * zoneSizeBytes) zoneSizeBytes, .ok 1)

theorem length_reply (r : NbdRequest) (error : BitVec 32) : (r.reply error).length = 16 :=
  NbdReply.length_encode _

def ramAccepting : Accepting ramLink where
  stored mem := mem
  write mem r payload _ htype _ _ := by
    refine ⟨_, r.reply 0, ?_, length_reply r 0, replyError_encode _, rfl⟩
    simp only [ramLink, NbdRequest.decode_encode, htype, if_true, NbdRequest.drop_encode]
  read mem r _ htype _ := by
    refine ⟨mem, r.reply 0, ?_, length_reply r 0, rfl⟩
    simp only [ramLink, NbdRequest.decode_encode_self, htype]
    rfl
  reset mem zoneId hz := by
    refine ⟨_, 1, rfl, ?_⟩
    intro i hi
    have hz' : (BitVec.ofNat 64 zoneId).toNat = zoneId := by
      unfold numZones at hz
      rw [BitVec.toNat_ofNat]
      exact Nat.mod_eq_of_lt (by omega)
    rw [hz']
    exact clearBytes_outsideZone mem hi

namespace HostFtl

theorem page_store_reset_and_write :
    (logicalRead ramLink 5 (run (recordStep ramLink) (new fun _ => 0, [])
      [.reset 1, .write 5 (filledPage 7)]).1).1 = .ok (filledPage 7) := by
  have hops : ∀ op ∈ [FtlOp.reset 1, .write 5 (filledPage 7)], op.Allowed := by
    simp [FtlOp.Allowed]
  have hreset : ∀ op ∈ [FtlOp.reset 1], op.Allowed := by simp [FtlOp.Allowed]
  have hc := consistent_run ramAccepting (fun _ => 0) hreset
  have hhistory := hc.history_write (show 5 < totalLogicalPages by decide) rfl (length_filledPage 7)
  have hrun : run (recordStep ramLink) (new fun _ => 0, [])
      [.reset 1, .write 5 (filledPage 7)] =
        recordStep ramLink (run (recordStep ramLink) (new fun _ => 0, []) [.reset 1])
          (.write 5 (filledPage 7)) := run_concat _ [FtlOp.reset 1] _
  apply ((page_store ramAccepting (fun _ => 0) hops).1 5 (by decide)).1 0
  rw [hrun]
  exact ⟨[], _, hhistory, by simp, by simp⟩

end HostFtl

end ZnsFlash
