import ZnsFlash.Nbd.Outcomes

/-!
# The arrays behind the server

Which cells of `mock_bram_storage` and which bytes of `user_disk_storage` a request touches.

* `Access`, `Server.readAccesses`, …, `Server.resetAccesses`: the accesses of each handler, in order;
* `transmission_isSome_iff`, `reset_isSome_iff`: a handler has a result exactly when they are inside;
* `Server.Confined`, `Server.ResetConfined`, **`confined_iff`**: which requests stay inside;
* `Server.TouchesOnly`, **`reset_touches_only_iff`**: when a zone reset leaves the other zones alone.
-/

namespace ZnsFlash

/-! ## Accesses -/

/-- An access to one of the two arrays. -/
inductive Access
  /-- `mock_bram_storage[index]` -/
  | mockBram (index : ℕ)
  /-- `len` bytes from `user_disk_storage[start]` on. -/
  | userDisk (start len : ℕ)

/-- The access lies inside its array. -/
def Access.Inside : Access → Prop
  | .mockBram index => index < 1024
  | .userDisk start len => start + len ≤ totalSizeBytes

/-- All accesses lie inside their arrays. -/
def AllInside (as : List Access) : Prop := ∀ a ∈ as, a.Inside

@[simp] theorem allInside_nil : AllInside [] := fun _ h => absurd h List.not_mem_nil

theorem allInside_cons {a : Access} {as : List Access} :
    AllInside (a :: as) ↔ a.Inside ∧ AllInside as := List.forall_mem_cons

@[simp] theorem allInside_append {as bs : List Access} :
    AllInside (as ++ bs) ↔ AllInside as ∧ AllInside bs := List.forall_mem_append

theorem allInside_mockBram {index : ℕ} : AllInside [.mockBram index] ↔ index < 1024 := by
  rw [allInside_cons, and_iff_left allInside_nil]
  rfl

theorem allInside_userDisk {start len : ℕ} :
    AllInside [.userDisk start len] ↔ start + len ≤ totalSizeBytes := by
  rw [allInside_cons, and_iff_left allInside_nil]
  rfl

theorem allInside_request {r : NbdRequest} :
    AllInside [.userDisk r.offset.toNat r.len.toNat] ↔ r.InStorage := allInside_userDisk

namespace Bridge

/-- A tick looks at `mock_bram_storage` below 1024 only. -/
def tickAccesses (b : Bridge) : List Access :=
  if b.bramAddr < 1024 then [.mockBram b.bramAddr.toNat] else []

@[simp] theorem allInside_tick (b : Bridge) : AllInside b.tickAccesses := by
  unfold tickAccesses
  split_ifs with h
  · exact allInside_mockBram.mpr (BitVec.lt_def.mp h)
  · exact allInside_nil

/-- The accesses of the two ticks of a read, a trim or a reset. -/
def shortAccesses (b : Bridge) (c : SimCmd) : List Access :=
  (b.raise c).tickAccesses ++
    (simSetIoTrigger false (b.raise c).verilatorTickHardware).tickAccesses

@[simp] theorem allInside_short (b : Bridge) (c : SimCmd) : AllInside (b.shortAccesses c) := by
  simp [shortAccesses]

/-- The accesses of the polling loop of a write. -/
def pollAccesses : ℕ → Bridge → List Access
  | 0, _ => []
  | fuel + 1, b =>
    let (b', status) := b.simGetOutStatus
    b.tickAccesses ++ if status = 3 ∨ status = 1 then [] else pollAccesses fuel b'

@[simp] theorem allInside_poll (fuel : ℕ) (b : Bridge) : AllInside (pollAccesses fuel b) := by
  induction fuel generalizing b with
  | zero => exact allInside_nil
  | succ fuel ih =>
    simp only [pollAccesses, allInside_append, allInside_tick, true_and]
    split_ifs
    · exact allInside_nil
    · exact ih _

end Bridge

namespace Server

variable {s : Server} {r : NbdRequest} {zoneId : BitVec 64}

/-- `NBD_CMD_LOCAL_READ` -/
def readAccesses (s : Server) (r : NbdRequest) : List Access :=
  s.bridge.shortAccesses (r.simCmd 0) ++
    if (s.bridge.raise (r.simCmd 0)).simGetOutStatus.2 = 1 then []
    else [.userDisk r.offset.toNat r.len.toNat]

/-- `NBD_CMD_LOCAL_WRITE`, up to the first access outside. -/
def writeAccesses (s : Server) (r : NbdRequest) : List Access :=
  .mockBram (targetZoneId r.offset).toNat ::
    if targetZoneId r.offset < 1024 then
      let raised := (s.aligned r).raise (r.simCmd 1)
      let polled := pollWrite 10 0 raised
      Bridge.pollAccesses 10 raised ++ (Bridge.simSetIoTrigger false polled.1).tickAccesses ++
        if polled.2 = 1 then [] else [.userDisk r.offset.toNat r.len.toNat]
    else []

/-- `NBD_CMD_LOCAL_TRIM` -/
def trimAccesses (s : Server) (r : NbdRequest) : List Access :=
  s.bridge.shortAccesses ⟨2, targetZoneId r.offset, s.bridge.validatedTargetPage⟩ ++
    [.userDisk r.offset.toNat r.len.toNat]

/-- The zone reset of the management socket; the product is taken modulo `2^64`. -/
def resetAccesses (s : Server) (zoneId : BitVec 64) : List Access :=
  s.bridge.shortAccesses ⟨2, zoneId.setWidth 32, s.bridge.validatedTargetPage⟩ ++
    (List.range 1024).map .mockBram ++
    [.userDisk (zoneId * BitVec.ofNat 64 zoneSizeBytes).toNat zoneSizeBytes]

/-! ## Handlers inside the arrays -/

theorem read_isSome_iff : (s.read r).isSome ↔ AllInside (s.readAccesses r) := by
  simp only [read, readAccesses, allInside_append, Bridge.allInside_short, true_and]
  split_ifs with h1 hin
  · simp
  · simp [allInside_request, hin]
  · simp [allInside_request, hin]

theorem write_isSome_iff (payload : List Byte) :
    (s.write r payload).isSome ↔ AllInside (s.writeAccesses r) := by
  rw [writeAccesses, ← List.singleton_append, allInside_append, allInside_mockBram]
  by_cases hz : targetZoneId r.offset < 1024
  · have hlt : (targetZoneId r.offset).toNat < 1024 := BitVec.lt_def.mp hz
    simp only [write, if_pos hz, hlt, allInside_append, Bridge.allInside_poll,
      Bridge.allInside_tick, true_and]
    split_ifs with h1 hin
    · simp
    · simp [allInside_request, hin]
    · simp [allInside_request, hin]
  · have hge : ¬ (targetZoneId r.offset).toNat < 1024 := fun h => hz (BitVec.lt_def.mpr h)
    simp only [write, if_neg hz, hge, false_and, Option.isSome_none, Bool.false_eq_true]

theorem trim_isSome_iff : (s.trim r).isSome ↔ AllInside (s.trimAccesses r) := by
  simp only [trim, trimAccesses, allInside_append, Bridge.allInside_short, true_and,
    allInside_request]
  split_ifs with hin <;> simp [hin]

theorem allInside_words : AllInside ((List.range 1024).map .mockBram) := by
  intro a ha
  obtain ⟨i, hi, rfl⟩ := List.mem_map.mp ha
  exact List.mem_range.mp hi

theorem reset_isSome_iff :
    (s.managementReset zoneId).isSome ↔ AllInside (s.resetAccesses zoneId) := by
  simp only [managementReset, resetAccesses, allInside_append, Bridge.allInside_short,
    allInside_words, true_and, allInside_userDisk]
  generalize (zoneId * BitVec.ofNat 64 zoneSizeBytes).toNat = start
  have hroom : start ≤ totalSizeBytes - zoneSizeBytes ↔ start + zoneSizeBytes ≤ totalSizeBytes :=
    Nat.le_sub_iff_add_le (by decide)
  simp only [hroom]
  split_ifs with hin <;> simp [hin]

end Server

/-! ## Requests that stay inside -/

/-- READ, WRITE and TRIM name bytes of the disk. -/
def NbdRequest.HasRange (r : NbdRequest) : Prop := r.type = 0 ∨ r.type = 1 ∨ r.type = 5

theorem replyError_reply (r : NbdRequest) (error : BitVec 32) :
    replyError (r.reply error) = error := replyError_encode _

namespace Server

variable {s : Server} {r : NbdRequest} {payload : List Byte} {zoneId : BitVec 64}

/-- The accesses of one round of the transmission loop. -/
def accesses (s : Server) (r : NbdRequest) : List Access :=
  if r.type = 0 then s.readAccesses r
  else if r.type = 1 then s.writeAccesses r
  else if r.type = 5 then s.trimAccesses r
  else []

theorem accesses_of_other (h : ¬ r.HasRange) : s.accesses r = [] := by
  obtain ⟨h0, h1, h5⟩ : r.type ≠ 0 ∧ r.type ≠ 1 ∧ r.type ≠ 5 :=
    ⟨fun h' => h (.inl h'), fun h' => h (.inr (.inl h')), fun h' => h (.inr (.inr h'))⟩
  rw [accesses, if_neg h0, if_neg h1, if_neg h5]

/-- A round has a result exactly when its accesses are inside; a disconnect has none. -/
theorem transmission_isSome_iff (hm : r.magic = requestMagic) :
    (s.transmission r payload).isSome ↔ AllInside (s.accesses r) ∧ r.type ≠ 2 := by
  rw [transmission, if_neg (not_not_intro hm)]
  by_cases h0 : r.type = 0
  · simp [accesses, h0, read_isSome_iff]
  by_cases h1 : r.type = 1
  · simp [accesses, h1, write_isSome_iff]
  by_cases h5 : r.type = 5
  · simp [accesses, h5, trim_isSome_iff]
  have hother : ¬ r.HasRange := fun h => h.elim h0 fun h => h.elim h1 h5
  rw [accesses_of_other hother, if_neg h0, if_neg h1, if_neg h5, and_iff_right allInside_nil]
  split_ifs with h2 h3
  · simp [h2]
  · exact iff_of_true rfl h2
  · exact iff_of_true rfl h2

/-- Both arrays are as before. -/
def SameArrays (s t : Server) : Prop :=
  t.bridge.mockBramStorage = s.bridge.mockBramStorage ∧ t.userDiskStorage = s.userDiskStorage

/-- **The request stays inside the arrays**, and is answered with an error, without effect on them,
when its bytes do not fit. -/
structure Confined (s : Server) (r : NbdRequest) (payload : List Byte) : Prop where
  inside : AllInside (s.accesses r)
  refused : r.HasRange → ¬ r.InStorage → ∃ t error, error ≠ 0 ∧
    s.transmission r payload = some (t, r.reply error) ∧ s.SameArrays t

/-- The same of a zone reset; its only reply is the acknowledgement `1`. -/
structure ResetConfined (s : Server) (zoneId : BitVec 64) : Prop where
  inside : AllInside (s.resetAccesses zoneId)
  refused : 1024 ≤ zoneId.toNat → ∃ h, s.managementReset zoneId = some h ∧ h.out ≠ [1] ∧
    s.SameArrays h.server

/-- **When a request stays inside**: its bytes fit, or it is a read that meets the automaton in
`ST_ERROR`. A write also has to start inside. -/
def Fits (s : Server) (r : NbdRequest) : Prop :=
  (r.type = 0 → r.InStorage ∨ s.bridge.fsm.currentState = .error) ∧
    (r.type = 1 → r.InStorage ∧ r.offset.toNat < totalSizeBytes) ∧ (r.type = 5 → r.InStorage)

/-! ### Reads -/

theorem read_inside_iff (hb : s.bridge.Boundary) :
    AllInside (s.readAccesses r) ↔ s.bridge.fsm.currentState = .error ∨ r.InStorage := by
  have herror := (Bridge.boundary_short (r.simCmd 0) hb).2
  rw [readAccesses, allInside_append, and_iff_right (Bridge.allInside_short _ _), ← herror]
  split_ifs with h1
  · exact iff_of_true allInside_nil (.inl h1)
  · rw [allInside_request]
    exact ⟨.inr, fun h => h.resolve_left h1⟩

theorem read_refused (hb : s.bridge.Boundary) (he : s.bridge.fsm.currentState = .error) :
    ∃ h, s.read r = some h ∧ h.out = r.reply eio ∧ s.SameArrays h.server := by
  have hstatus := (Bridge.boundary_short (r.simCmd 0) hb).2.mpr he
  refine ⟨⟨{ s with bridge := s.bridge.short (r.simCmd 0) }, _, r.reply eio⟩, if_pos hstatus, rfl,
    ?_, rfl⟩
  exact Bridge.short_error_mock _ hb he

theorem confined_read (hb : s.bridge.Boundary) (hm : r.magic = requestMagic) (ht : r.type = 0) :
    s.Confined r payload ↔ r.InStorage ∨ s.bridge.fsm.currentState = .error := by
  have hacc : s.accesses r = s.readAccesses r := if_pos ht
  constructor
  · intro h
    exact ((read_inside_iff hb).mp (hacc ▸ h.inside)).symm
  · intro h
    refine ⟨hacc ▸ (read_inside_iff hb).mpr h.symm, fun _ hout => ?_⟩
    obtain ⟨h', hrun, hreply, hsame⟩ := read_refused (r := r) hb (h.resolve_left hout)
    refine ⟨h'.server, eio, by decide, ?_, hsame⟩
    rw [transmission_read hm ht hrun, hreply]

/-! ### Writes -/

theorem write_out {h : Handled} (hrun : s.write r payload = some h) : h.out = r.reply 0 := by
  simp only [write] at hrun
  split_ifs at hrun <;> cases hrun <;> rfl

theorem start_lt (hin : r.InStorage) (hzone : (targetZoneId r.offset).toNat < 1024) :
    r.offset.toNat < totalSizeBytes := by
  unfold NbdRequest.InStorage totalSizeBytes at *
  unfold targetZoneId zoneSizeBytes at hzone
  rw [BitVec.toNat_ofNat] at hzone
  omega

theorem confined_write (hb : s.bridge.Boundary) (hm : r.magic = requestMagic) (ht : r.type = 1) :
    s.Confined r payload ↔ r.InStorage ∧ r.offset.toNat < totalSizeBytes := by
  have hacc : s.accesses r = s.writeAccesses r := by
    rw [accesses, if_neg (by rw [ht]; decide), if_pos ht]
  constructor
  · intro h
    have hinside : AllInside (s.writeAccesses r) := hacc ▸ h.inside
    obtain ⟨h', hrun⟩ := Option.isSome_iff_exists.mp
      ((write_isSome_iff payload).mpr hinside)
    have hin : r.InStorage := by
      by_contra hout
      obtain ⟨t, error, hne, htrans, -⟩ := h.refused (.inr (.inl ht)) hout
      rw [transmission_write hm ht hrun, write_out hrun] at htrans
      have hreply := congrArg (fun p => replyError p.2) (Option.some.inj htrans)
      simp only [replyError_reply] at hreply
      exact hne hreply.symm
    exact ⟨hin, start_lt hin (hinside _ List.mem_cons_self)⟩
  · rintro ⟨hin, hstart⟩
    refine ⟨?_, fun _ hout => absurd hin hout⟩
    rw [hacc, ← write_isSome_iff payload, (write_eq hb hin hstart payload).1]
    rfl

/-! ### All requests -/

theorem confined_trim (ht : r.type = 5) : s.Confined r payload ↔ r.InStorage := by
  have hacc : s.accesses r = s.trimAccesses r := by
    rw [accesses, if_neg (by rw [ht]; decide), if_neg (by rw [ht]; decide), if_pos ht]
  have hinside : AllInside (s.trimAccesses r) ↔ r.InStorage := by
    rw [trimAccesses, allInside_append, and_iff_right (Bridge.allInside_short _ _),
      allInside_request]
  constructor
  · intro h
    exact hinside.mp (hacc ▸ h.inside)
  · intro hin
    exact ⟨hacc ▸ hinside.mpr hin, fun _ hout => absurd hin hout⟩

theorem confined_request (hb : s.bridge.Boundary) (hm : r.magic = requestMagic) :
    s.Confined r payload ↔ s.Fits r := by
  unfold Fits
  by_cases h0 : r.type = 0
  · rw [confined_read hb hm h0]
    simp [h0]
  by_cases h1 : r.type = 1
  · rw [confined_write hb hm h1]
    simp [h1]
  by_cases h5 : r.type = 5
  · rw [confined_trim h5]
    simp [h5]
  have hrange : ¬ r.HasRange := fun h => h.elim h0 fun h => h.elim h1 h5
  refine iff_of_true ⟨accesses_of_other hrange ▸ allInside_nil, fun h => absurd h hrange⟩ ?_
  exact ⟨fun h => absurd h h0, fun h => absurd h h1, fun h => absurd h h5⟩

theorem confined_reset : s.ResetConfined zoneId ↔ zoneId.toNat < 1024 := by
  constructor
  · intro h
    by_contra hge
    obtain ⟨h', hrun, hout, -⟩ := h.refused (Nat.le_of_not_lt hge)
    simp only [managementReset] at hrun
    split_ifs at hrun
    cases hrun
    exact hout rfl
  · intro hz
    refine ⟨?_, fun hge => absurd hz (Nat.not_lt.mpr hge)⟩
    obtain ⟨st, hrun⟩ := reset_eq (s := s) hz
    rw [BitVec.ofNat_toNat, BitVec.setWidth_eq] at hrun
    rw [← reset_isSome_iff, hrun]
    rfl

/-- **What stays inside the arrays**, in every state between requests: of the transmission loop,
the requests that fit; of the management socket, the resets of existing zones. Past the arrays no
handler has a result. -/
theorem confined_iff (hs : s.Reach) :
    (∀ r payload, r.magic = requestMagic → (s.Confined r payload ↔ s.Fits r) ∧
      ((s.transmission r payload).isSome ↔ AllInside (s.accesses r) ∧ r.type ≠ 2)) ∧
      ∀ zoneId, (s.ResetConfined zoneId ↔ zoneId.toNat < 1024) ∧
        ((s.managementReset zoneId).isSome ↔ AllInside (s.resetAccesses zoneId)) :=
  ⟨fun _ _ hm => ⟨confined_request hs.boundary hm, transmission_isSome_iff hm⟩,
    fun _ => ⟨confined_reset, reset_isSome_iff⟩⟩

theorem confined_iff_start :
    (start.Confined (firstPageWrite 3) [7] ↔ start.Fits (firstPageWrite 3)) ∧
      (start.transmission (firstPageWrite 3) [7]).isSome ∧
      (start.ResetConfined 3 ↔ (3 : BitVec 64).toNat < 1024) ∧ (start.managementReset 3).isSome := by
  have h := confined_iff (s := start) (.powerUp _ _)
  have hwrite := h.1 (firstPageWrite 3) [7] rfl
  have hreset := h.2 3
  have hfits : start.Fits (firstPageWrite 3) := by
    unfold Fits NbdRequest.InStorage
    decide
  exact ⟨hwrite.1, hwrite.2.mpr ⟨(hwrite.1.mpr hfits).inside, by decide⟩, hreset.1,
    hreset.2.mpr (hreset.1.mpr (by decide)).inside⟩

/-- A trim of the first byte past the disk clears it. -/
theorem trim_past_end :
    ¬ ∀ s r payload, Reach s → r.magic = requestMagic → s.Confined r payload := by
  intro h
  have hconf := h start ⟨requestMagic, 5, 0, BitVec.ofNat 64 totalSizeBytes, 1⟩ [] (.powerUp _ _) rfl
  exact absurd ((confined_trim rfl).mp hconf) (by decide)

/-! ## Zones beside a reset -/

/-- **The reset of zone `z` touches only that zone**: it is empty, its bytes are zero, its erase
count has not fallen, and words and bytes of the other zones are as before. -/
structure TouchesOnly (s t : Server) (z : ℕ) : Prop where
  wptr : zoneWptr (t.bridge.mockBramStorage (BitVec.ofNat 10 z)) = 0
  full : zoneIsFull (t.bridge.mockBramStorage (BitVec.ofNat 10 z)) = false
  cleared : ∀ k < zoneSizeBytes, t.userDiskStorage (z * zoneSizeBytes + k) = 0
  erases : zoneEraseCnt (s.bridge.mockBramStorage (BitVec.ofNat 10 z)) ≤
    zoneEraseCnt (t.bridge.mockBramStorage (BitVec.ofNat 10 z))
  words : ∀ z' < 1024, z' ≠ z →
    t.bridge.mockBramStorage (BitVec.ofNat 10 z') = s.bridge.mockBramStorage (BitVec.ofNat 10 z')
  bytes : ∀ z' < 1024, z' ≠ z → ∀ k < zoneSizeBytes,
    t.userDiskStorage (z' * zoneSizeBytes + k) = s.userDiskStorage (z' * zoneSizeBytes + k)

theorem zoneIsFull_zero : zoneIsFull 0 = false := by decide

/-- **When a zone reset touches only its zone**: the words of all other zones, and the erase count
of its own, are zero before. -/
theorem reset_touches_only_iff (s : Server) {z : ℕ} (hz : z < 1024) :
    ∃ h, s.managementReset (BitVec.ofNat 64 z) = some h ∧ h.out = [1] ∧
      (s.TouchesOnly h.server z ↔
        zoneEraseCnt (s.bridge.mockBramStorage (BitVec.ofNat 10 z)) = 0 ∧
          ∀ z' < 1024, z' ≠ z → s.bridge.mockBramStorage (BitVec.ofNat 10 z') = 0) := by
  obtain ⟨st, hrun⟩ := reset_eq (s := s) hz
  refine ⟨_, hrun, rfl, ?_⟩
  constructor
  · intro h
    refine ⟨?_, fun z' hz' hne => (h.words z' hz' hne).symm⟩
    have herases : zoneEraseCnt (s.bridge.mockBramStorage (BitVec.ofNat 10 z)) ≤ zoneEraseCnt 0 :=
      h.erases
    exact BitVec.le_zero_iff.mp herases
  · rintro ⟨herases, hwords⟩
    exact
      { wptr := rfl
        full := zoneIsFull_zero
        cleared := fun k hk => clearBytes_insideZone _ (zone_of_byte z hk)
        erases := herases ▸ Nat.zero_le _
        words := fun z' hz' hne => (hwords z' hz' hne).symm
        bytes := fun z' _ hne k hk => clearBytes_outsideZone _ (by rwa [zone_of_byte z' hk]) }

theorem reset_touches_only_iff_start :
    ∃ h, start.managementReset 3 = some h ∧ h.out = [1] ∧ (start.TouchesOnly h.server 3 ↔
      zoneEraseCnt (start.bridge.mockBramStorage 3) = 0 ∧
        ∀ z' < 1024, z' ≠ 3 → start.bridge.mockBramStorage (BitVec.ofNat 10 z') = 0) :=
  reset_touches_only_iff start (by decide)

/-- A page of zone 1 is written, then zone 0 is reset: the pointer of zone 1 is gone. -/
theorem reset_clears_other_word :
    ¬ ∀ (s : Server) (z : ℕ) (h : Handled), s.Reach → z < 1024 →
      s.managementReset (BitVec.ofNat 64 z) = some h → s.TouchesOnly h.server z := by
  intro hall
  have hreach : (start.next (.write (firstPageWrite 1) [7])).Reach := Reach.next (.powerUp _ _) _
  obtain ⟨st, hrun⟩ := reset_eq (s := start.next (.write (firstPageWrite 1) [7]))
    (show 0 < 1024 by decide)
  have hword : 0 = (start.next (.write (firstPageWrite 1) [7])).bridge.mockBramStorage 1 :=
    (hall _ 0 _ hreach (by decide) hrun).words 1 (by decide) (by decide)
  exact absurd hword (by decide)

end Server

end ZnsFlash
