import ZnsFlash.Library.Runs
import ZnsFlash.Host.Simulator

/-!
# The stress test

`main.rs`: workers that share one FTL on the simulator, each writing and reading back the pages of
its own zone, in any interleaving of their critical sections.

* `Stress`, `Stress.turn`, `Stress.step`, `Stress.start`: the workers;
* `Stress.Succeeds`, `Stress.InPhase`: what the test asks of a section, and when it is met;
* `Stress.Orderly`: what holds between sections while all succeed;
* **`Stress.succeeds_while_in_phase`**: the runs in which every section succeeds.
-/

namespace ZnsFlash

open Runs HostFtl

/-- The workers of the test. -/
structure Stress (n : ℕ) where
  ftl : HostFtl Server
  /-- The critical sections that a worker has behind it: two for each of 64 pages. -/
  finished : Fin n → ℕ
  /-- A call that never returns keeps the lock, one that panics poisons it. -/
  locked : Bool

namespace Stress

/-- Two critical sections for each of `ZONE_SIZE_PAGES` pages. -/
def sections : ℕ := 128

/-- `target_lba` in the section after `k` others. -/
def targetLba (w k : ℕ) : ℕ := w * 100 + k / 2

/-- `write_buffer` -/
def writeBuffer (w : ℕ) : List Byte := filledPage (BitVec.ofNat 8 (w + 1))

def afterReset (ftl : HostFtl Server) (z : ℕ) : HostFtl Server := (zoneReset simulatorLink z ftl).2

/-- The simulator after start-up and the reset of the zones of the workers. -/
def start (n : ℕ) (junk : Validator) (addr : BitVec 32) : Stress n where
  ftl := run afterReset (new (Server.powerUp junk addr)) (List.range n)
  finished _ := 0
  locked := false

variable {n : ℕ} (s : Stress n) (w : Fin n)

/-- The next section of a worker writes; else it reads back. -/
def Writes : Prop := s.finished w % 2 = 0

instance : Decidable (s.Writes w) := inferInstanceAs (Decidable (_ = _))

/-- The next critical section of a worker. -/
def turn : Outcome IoError (List Byte) × HostFtl Server :=
  if s.Writes w then
    (do
      assignWriteZone w
      logicalWrite simulatorLink (targetLba w (s.finished w)) (writeBuffer w)) s.ftl
  else logicalRead simulatorLink (targetLba w (s.finished w)) s.ftl

/-- One critical section. After an error, or a page that differs, the worker leaves its loop. -/
def step : Stress n :=
  if s.locked ∨ sections ≤ s.finished w then s
  else
    match s.turn w with
    | (.ok data, ftl) =>
      if s.Writes w ∨ data = writeBuffer w then
        { s with ftl, finished := Function.update s.finished w (s.finished w + 1) }
      else { s with ftl, finished := Function.update s.finished w sections }
    | (.err _, ftl) => { s with ftl, finished := Function.update s.finished w sections }
    | (.panics, ftl) | (.blocks, ftl) => { s with ftl, locked := true }

/-- **What the test asks**: the call returns without error, and a read returns the page that the
worker wrote. -/
def Succeeds : Prop :=
  sections ≤ s.finished w ∨ (s.locked = false ∧
    ∃ data, (s.turn w).1 = .ok data ∧ (¬ s.Writes w → data = writeBuffer w))

/-- The request of the next write of a worker. -/
def nextAppend : NbdRequest := appendRequest w (s.ftl.zones w).writePointer pageSize

/-- **The automaton is in phase**: a write would land, or a read does not meet `ST_ERROR`. -/
def InPhase : Prop :=
  sections ≤ s.finished w ∨
    if s.Writes w then s.ftl.peer.Lands (s.nextAppend w)
    else s.ftl.peer.bridge.fsm.currentState ≠ .error

instance : Decidable (s.InPhase w) := by
  unfold InPhase
  infer_instance

/-- The pages a worker has appended. -/
def appended : ℕ := (s.finished w + 1) / 2

/-- The bytes of a page on the disk. -/
def page (i : ℕ) : List Byte :=
  readBytes s.ftl.peer.userDiskStorage (PhysicalAddress.mk w i).byteOffset pageSize

/-- **Between sections**, while all succeed: the tables of the FTL follow the workers, and what is
not yet appended is blank. -/
structure Orderly : Prop where
  unlocked : s.locked = false
  inbox : s.ftl.inbox = []
  boundary : s.ftl.peer.bridge.Boundary
  finished_le : ∀ w, s.finished w ≤ sections
  zones : ∀ w : Fin n, s.ftl.zones w = ⟨s.appended w * pageSize, decide (64 ≤ s.appended w)⟩
  mapped : ∀ (w : Fin n) i, i < s.appended w → s.ftl.l2pTable (w * 100 + i) = some ⟨w, i⟩
  blank : ∀ (w : Fin n) i, s.appended w ≤ i → i < 64 → s.page w i = filledPage 0

/-- What a worker will read back is what it wrote. -/
def Kept : Prop := ¬ s.Writes w → s.page w (s.finished w / 2) = writeBuffer w

/-- What a worker will read back was never stored. -/
def Lost : Prop :=
  ¬ s.Writes w ∧ s.finished w ≤ sections ∧ s.page w (s.finished w / 2) = filledPage 0

/-! ## The start -/

/-- The FTL and the simulator before the first section. -/
structure Fresh (ftl : HostFtl Server) : Prop where
  inbox : ftl.inbox = []
  zones : ftl.zones = fun _ => ⟨0, false⟩
  boundary : ftl.peer.bridge.Boundary
  storage : ftl.peer.userDiskStorage = fun _ => 0

theorem fresh_reset {ftl : HostFtl Server} (h : Fresh ftl) {z : ℕ} (hz : z < 1024) :
    Fresh (afterReset ftl z) := by
  obtain ⟨st, hreset⟩ := Server.reset_eq (s := ftl.peer) hz
  rw [afterReset, zoneReset_ok hz (simulatorLink_mgmt hreset)]
  refine ⟨h.inbox, ?_, Server.boundary_cleared h.boundary _, ?_⟩
  · funext z'
    by_cases hzz : z' = z
    · subst hzz
      exact Function.update_self _ _ _
    · exact (Function.update_of_ne hzz _ _).trans (congrFun h.zones z')
  · funext i
    change clearBytes ftl.peer.userDiskStorage _ _ i = 0
    rw [clearBytes, h.storage]
    exact ite_self _

theorem fresh_start (hn : n ≤ 4) (junk : Validator) (addr : BitVec 32) :
    Fresh (start n junk addr).ftl := by
  have hzones : ∀ z ∈ List.range n, z < 1024 := by
    intro z hz
    have hlt := List.mem_range.mp hz
    omega
  have hnew : Fresh (new (Server.powerUp junk addr)) :=
    ⟨rfl, rfl, Server.boundary_powerUp junk addr, rfl⟩
  have hstep : ∀ ftl z, Fresh ftl → z < 1024 → Fresh (afterReset ftl z) :=
    fun _ _ hfresh hz => fresh_reset hfresh hz
  exact run_inv_of_along hstep hnew ((along_const (fun z => z < 1024) _ _).mpr hzones)

theorem readBytes_zero (from' len : ℕ) :
    readBytes (fun _ => 0) from' len = List.replicate len 0 := by
  simp [readBytes, List.map_const']

theorem orderly_start (hn : n ≤ 4) (junk : Validator) (addr : BitVec 32) :
    (start n junk addr).Orderly := by
  have hfresh := fresh_start hn junk addr
  have happended : ∀ w, (start n junk addr).appended w = 0 := by
    intro w
    show (0 + 1) / 2 = 0
    rfl
  refine ⟨rfl, hfresh.inbox, hfresh.boundary, fun _ => Nat.zero_le _, ?_, ?_, ?_⟩
  · intro w
    rw [hfresh.zones, happended]
    rfl
  · intro w i hi
    rw [happended] at hi
    exact absurd hi (Nat.not_lt_zero i)
  · intro w i _ _
    rw [page, hfresh.storage, readBytes_zero]
    rfl

/-! ## One section -/

section Sections

variable {s : Stress n} {w : Fin n}

theorem step_of_ok (hs : s.locked = false) (hw : s.finished w < sections) {data : List Byte}
    {ftl : HostFtl Server} (hturn : s.turn w = (.ok data, ftl))
    (hdata : s.Writes w ∨ data = writeBuffer w) :
    s.step w = { s with ftl, finished := Function.update s.finished w (s.finished w + 1) } := by
  have hgo : ¬ (s.locked = true ∨ sections ≤ s.finished w) := by
    rw [hs]
    rintro (h | h)
    · exact Bool.noConfusion h
    · omega
  rw [step, if_neg hgo, hturn]
  exact if_pos hdata

theorem Orderly.zone_eq (hs : s.Orderly) (hw : s.finished w < sections) (hwrites : s.Writes w) :
    s.ftl.zones w = ⟨s.finished w / 2 * pageSize, false⟩ := by
  have happended : s.appended w = s.finished w / 2 := by
    unfold appended
    unfold Writes at hwrites
    omega
  have hroom : ¬ 64 ≤ s.finished w / 2 := by
    unfold sections at hw
    omega
  rw [hs.zones w, happended, decide_eq_false hroom]

/-- **A writing section** returns without error, whatever the automaton does. -/
theorem Orderly.turn_write (hs : s.Orderly) (hn : n ≤ 4) (hw : s.finished w < sections)
    (hwrites : s.Writes w) :
    s.turn w = (.ok (writeBuffer w),
      { s.ftl with
        peer := ⟨s.ftl.peer.written (s.nextAppend w),
          if s.ftl.peer.Lands (s.nextAppend w) then
            copyBytes s.ftl.peer.userDiskStorage
              (PhysicalAddress.mk w (s.finished w / 2)).byteOffset (writeBuffer w)
          else s.ftl.peer.userDiskStorage⟩
        zones := Function.update s.ftl.zones w ⟨(s.finished w / 2 + 1) * pageSize,
          decide (64 ≤ s.finished w / 2 + 1)⟩
        l2pTable := Function.update s.ftl.l2pTable (targetLba w (s.finished w))
          (some ⟨w, s.finished w / 2⟩)
        currentWriteZone := w }) ∧
      (s.ftl.peer.written (s.nextAppend w)).Boundary := by
  have hzone := hs.zone_eq hw hwrites
  have hwptr : (s.ftl.zones w).writePointer = s.finished w / 2 * pageSize := by rw [hzone]
  have hroom : (s.ftl.zones w).isFull = false := by rw [hzone]
  have hz : (w : ℕ) < numZones := by
    have hlt := w.isLt
    unfold numZones
    omega
  have hk : s.finished w / 2 < 64 := by
    unfold sections at hw
    omega
  have hfit : (s.ftl.zones w).writePointer + pageSize ≤ zoneSizeBytes := by
    rw [hwptr]
    unfold pageSize zoneSizeBytes
    omega
  have hoff : (appendRequest w (s.finished w / 2 * pageSize) pageSize).offset.toNat =
      (PhysicalAddress.mk w (s.finished w / 2)).byteOffset :=
    appendRequest_offset hz (by omega) _
  have hstart : (s.nextAppend w).offset.toNat < totalSizeBytes := by
    have hin := appendRequest_inStorage hz hfit
    rw [NbdRequest.InStorage] at hin
    change (s.nextAppend w).offset.toNat + 4096 ≤ _ at hin
    omega
  have hlen : (writeBuffer w).length = pageSize := length_filledPage _
  -- the server answers without error, whether the page lands or not
  obtain ⟨hrun, hb⟩ :=
    Server.write_eq hs.boundary (appendRequest_inStorage hz hfit) hstart (writeBuffer w)
  refine ⟨?_, hb⟩
  have happend := appendToZone_ok (s := { s.ftl with currentWriteZone := w }) hz hs.inbox
    (tcp_append hlen hrun) (NbdReply.length_encode _) (replyError_encode _)
  have hl : targetLba w (s.finished w) < totalLogicalPages := by
    have hlt := w.isLt
    unfold targetLba totalLogicalPages
    omega
  have hwrite := logicalWrite_ok (s := { s.ftl with currentWriteZone := w }) hl hz
    (writableZone_self 1023 hroom) happend
  -- the worker puts the cursor on its own zone, which has room
  have hassign : assignWriteZone (w : ℕ) s.ftl =
      (.ok (), { s.ftl with currentWriteZone := (w : ℕ) }) := rfl
  have hset : ∀ p, s.ftl.l2pTable.set (targetLba w (s.finished w)) p =
      Function.update s.ftl.l2pTable (targetLba w (s.finished w)) (some p) := fun _ => if_pos hl
  have hpage : s.finished w / 2 * pageSize / pageSize = s.finished w / 2 :=
    Nat.mul_div_cancel _ (by decide)
  have hnext : s.finished w / 2 * pageSize + pageSize = (s.finished w / 2 + 1) * pageSize :=
    (Nat.succ_mul _ _).symm
  have hfull : zoneSizeBytes ≤ (s.finished w / 2 + 1) * pageSize ↔ 64 ≤ s.finished w / 2 + 1 := by
    unfold zoneSizeBytes pageSize
    omega
  rw [turn, if_pos hwrites, Call.bind_of_ok hassign, hwrite]
  simp only [nextAppend, hset, hwptr, hroom, hlen, hoff, hpage, hnext, hfull, Bool.false_or]

/-- **A reading section** returns what is on the disk, and never returns in `ST_ERROR`. -/
theorem Orderly.turn_read (hs : s.Orderly) (hn : n ≤ 4) (hw : s.finished w < sections)
    (hreads : ¬ s.Writes w) :
    s.turn w = (if s.ftl.peer.bridge.fsm.currentState = .error then .blocks
        else .ok (s.page w (s.finished w / 2)),
      { s.ftl with peer := { s.ftl.peer with
          bridge := s.ftl.peer.bridge.short
            ((readRequest ⟨w, s.finished w / 2⟩).simCmd 0) } }) := by
  have hz : (w : ℕ) < numZones := by
    have hlt := w.isLt
    unfold numZones
    omega
  have hk : s.finished w / 2 < 64 := by
    unfold sections at hw
    omega
  have hl : targetLba w (s.finished w) < totalLogicalPages := by
    have hlt := w.isLt
    unfold targetLba totalLogicalPages
    omega
  have hmapped : s.ftl.l2pTable (targetLba w (s.finished w)) = some ⟨w, s.finished w / 2⟩ := by
    apply hs.mapped
    unfold appended
    unfold Writes at hreads
    omega
  obtain ⟨st, hrun⟩ := Server.read_eq hs.boundary
    (readRequest_inStorage (p := ⟨w, s.finished w / 2⟩) hz hk)
  have htcp := tcp_read hrun
  rw [turn, if_neg hreads]
  by_cases he : s.ftl.peer.bridge.fsm.currentState = .error
  · rw [if_pos he] at htcp ⊢
    exact logicalRead_blocks hl hmapped hs.inbox htcp (NbdReply.length_encode _)
  · rw [if_neg he] at htcp ⊢
    rw [readRequest_offset (p := ⟨w, s.finished w / 2⟩) hz hk] at htcp
    exact logicalRead_ok hl hmapped hs.inbox htcp (NbdReply.length_encode _)
      (length_readBytes _ _ _)

theorem readBytes_page {storage : ℕ → Byte} {p q : PhysicalAddress} {bytes : List Byte}
    (hlen : bytes.length = pageSize) (hp : p.pageOffset < 64) (hq : q.pageOffset < 64)
    (hne : q ≠ p) :
    readBytes (copyBytes storage p.byteOffset bytes) q.byteOffset pageSize =
      readBytes storage q.byteOffset pageSize := by
  apply readBytes_copyBytes_of_disjoint
  rw [hlen]
  exact byteOffset_disjoint_of_ne hq hp hne

section Writing

variable (hs : s.Orderly) (hn : n ≤ 4) (hw : s.finished w < sections) (hwrites : s.Writes w)

include hs hn hw hwrites

theorem Orderly.finished_write :
    (s.step w).finished = Function.update s.finished w (s.finished w + 1) := by
  rw [step_of_ok hs.unlocked hw (hs.turn_write hn hw hwrites).1 (.inl hwrites)]

theorem Orderly.bridge_write :
    (s.step w).ftl.peer.bridge = s.ftl.peer.written (s.nextAppend w) := by
  rw [step_of_ok hs.unlocked hw (hs.turn_write hn hw hwrites).1 (.inl hwrites)]

theorem Orderly.page_write_self :
    (s.step w).page w (s.finished w / 2) =
      if s.ftl.peer.Lands (s.nextAppend w) then writeBuffer w else filledPage 0 := by
  rw [step_of_ok hs.unlocked hw (hs.turn_write hn hw hwrites).1 (.inl hwrites)]
  unfold page
  by_cases hl : s.ftl.peer.Lands (s.nextAppend w)
  · have hread := readBytes_copyBytes s.ftl.peer.userDiskStorage
      (PhysicalAddress.mk w (s.finished w / 2)).byteOffset (writeBuffer w)
    have hlen : (writeBuffer w).length = pageSize := length_filledPage _
    rw [hlen] at hread
    simp only [if_pos hl, hread]
  · simp only [if_neg hl]
    apply hs.blank w
    · unfold appended
      unfold Writes at hwrites
      omega
    · unfold sections at hw
      omega

theorem Orderly.page_write_of_ne {w' : Fin n} {i : ℕ} (hi : i < 64)
    (hne : w' ≠ w ∨ i ≠ s.finished w / 2) : (s.step w).page w' i = s.page w' i := by
  have hk : s.finished w / 2 < 64 := by
    unfold sections at hw
    omega
  have hne' : PhysicalAddress.mk w' i ≠ ⟨w, s.finished w / 2⟩ := by
    intro heq
    injection heq with hww hii
    exact hne.elim (fun h => h (Fin.ext hww)) (fun h => h hii)
  rw [step_of_ok hs.unlocked hw (hs.turn_write hn hw hwrites).1 (.inl hwrites)]
  unfold page
  by_cases hl : s.ftl.peer.Lands (s.nextAppend w)
  · simp only [if_pos hl]
    exact readBytes_page (length_filledPage _) hk hi hne'
  · simp only [if_neg hl]

theorem Orderly.appended_write :
    (s.step w).appended = Function.update s.appended w (s.finished w / 2 + 1) := by
  funext w'
  unfold appended
  rw [hs.finished_write hn hw hwrites]
  by_cases hww : w' = w
  · subst hww
    rw [Function.update_self, Function.update_self]
    unfold Writes at hwrites
    omega
  · rw [Function.update_of_ne hww, Function.update_of_ne hww]

/-- **A writing section keeps the order**, whether or not the write lands. -/
theorem Orderly.orderly_write : (s.step w).Orderly := by
  obtain ⟨hturn, hboundary⟩ := hs.turn_write hn hw hwrites
  have hstep := step_of_ok hs.unlocked hw hturn (.inl hwrites)
  have happended := hs.appended_write hn hw hwrites
  have hbefore : s.appended w = s.finished w / 2 := by
    unfold appended
    unfold Writes at hwrites
    omega
  refine ⟨?_, ?_, ?_, ?_, ?_, ?_, ?_⟩
  · rw [hstep]
    exact hs.unlocked
  · rw [hstep]
    exact hs.inbox
  · rw [hstep]
    exact hboundary
  · rw [hs.finished_write hn hw hwrites]
    exact (Function.forall_update_iff s.finished fun _ k => k ≤ sections).mpr
      ⟨hw, fun w' _ => hs.finished_le w'⟩
  -- the zones: one more page in that of the worker
  · intro w'
    rw [happended, hstep]
    by_cases hww : w' = w
    · subst hww
      rw [Function.update_self]
      exact Function.update_self _ _ _
    · rw [Function.update_of_ne hww, ← hs.zones w']
      exact Function.update_of_ne (fun h => hww (Fin.ext h)) _ _
  -- the table: one more entry of the worker, the entries of others lie elsewhere
  · intro w' i hi
    rw [happended] at hi
    rw [hstep]
    by_cases hww : w' = w
    · subst hww
      rw [Function.update_self] at hi
      by_cases hlast : i = s.finished w' / 2
      · subst hlast
        exact Function.update_self _ _ _
      · rw [← hs.mapped w' i (by omega)]
        refine Function.update_of_ne (fun h => hlast ?_) _ _
        unfold targetLba at h
        omega
    · rw [Function.update_of_ne hww] at hi
      rw [← hs.mapped w' i hi]
      refine Function.update_of_ne (fun h => hww (Fin.ext ?_)) _ _
      have hle := hs.finished_le w'
      unfold targetLba at h
      unfold appended at hi
      unfold sections at hle hw
      omega
  -- pages that were not appended yet stay blank
  · intro w' i hi hi64
    rw [happended] at hi
    by_cases hww : w' = w
    · subst hww
      rw [Function.update_self] at hi
      rw [hs.page_write_of_ne hn hw hwrites hi64 (.inr (by omega))]
      exact hs.blank w' i (by omega) hi64
    · rw [Function.update_of_ne hww] at hi
      rw [hs.page_write_of_ne hn hw hwrites hi64 (.inl hww)]
      exact hs.blank w' i hi hi64

end Writing

section Reading

variable (hs : s.Orderly) (hn : n ≤ 4) (hw : s.finished w < sections) (hreads : ¬ s.Writes w)
  (he : s.ftl.peer.bridge.fsm.currentState ≠ .error)
  (hpage : s.page w (s.finished w / 2) = writeBuffer w)

include hs hn hw hreads he hpage

theorem Orderly.step_read_eq :
    s.step w = { s with
      ftl := { s.ftl with peer := { s.ftl.peer with
        bridge := s.ftl.peer.bridge.short ((readRequest ⟨w, s.finished w / 2⟩).simCmd 0) } }
      finished := Function.update s.finished w (s.finished w + 1) } := by
  have hturn := hs.turn_read hn hw hreads
  rw [if_neg he] at hturn
  exact step_of_ok hs.unlocked hw hturn (.inr hpage)

theorem Orderly.finished_read :
    (s.step w).finished = Function.update s.finished w (s.finished w + 1) := by
  rw [hs.step_read_eq hn hw hreads he hpage]

theorem Orderly.bridge_read :
    (s.step w).ftl.peer.bridge =
      s.ftl.peer.bridge.short ((readRequest ⟨w, s.finished w / 2⟩).simCmd 0) := by
  rw [hs.step_read_eq hn hw hreads he hpage]

theorem Orderly.page_read (w' : Fin n) (i : ℕ) : (s.step w).page w' i = s.page w' i := by
  rw [hs.step_read_eq hn hw hreads he hpage]
  rfl

theorem Orderly.appended_read : (s.step w).appended = s.appended := by
  funext w'
  unfold appended
  rw [hs.finished_read hn hw hreads he hpage]
  by_cases hww : w' = w
  · subst hww
    rw [Function.update_self]
    unfold Writes at hreads
    omega
  · rw [Function.update_of_ne hww]

theorem Orderly.orderly_read : (s.step w).Orderly := by
  have hstep := hs.step_read_eq hn hw hreads he hpage
  have happended := hs.appended_read hn hw hreads he hpage
  refine ⟨?_, ?_, ?_, ?_, ?_, ?_, ?_⟩
  · rw [hstep]
    exact hs.unlocked
  · rw [hstep]
    exact hs.inbox
  · rw [hstep]
    exact (Bridge.boundary_short _ hs.boundary).1
  · rw [hs.finished_read hn hw hreads he hpage]
    exact (Function.forall_update_iff s.finished fun _ k => k ≤ sections).mpr
      ⟨hw, fun w' _ => hs.finished_le w'⟩
  · intro w'
    rw [happended, ← hs.zones w', hstep]
  · intro w' i hi
    rw [happended] at hi
    rw [← hs.mapped w' i hi, hstep]
  · intro w' i hi hi64
    rw [happended] at hi
    rw [hs.page_read hn hw hreads he hpage]
    exact hs.blank w' i hi hi64

end Reading

theorem step_of_done (hw : sections ≤ s.finished w) : s.step w = s := if_pos (.inr hw)

theorem Orderly.read_of_succeeds (hs : s.Orderly) (hn : n ≤ 4) (hw : s.finished w < sections)
    (hreads : ¬ s.Writes w) (hok : s.Succeeds w) :
    s.ftl.peer.bridge.fsm.currentState ≠ .error ∧
      s.page w (s.finished w / 2) = writeBuffer w := by
  have hturn := hs.turn_read hn hw hreads
  rcases hok with hdone | ⟨-, data, hdata, hsame⟩
  · omega
  · rw [hturn] at hdata
    by_cases he : s.ftl.peer.bridge.fsm.currentState = .error
    · rw [if_pos he] at hdata
      cases hdata
    · rw [if_neg he] at hdata
      injection hdata with hpage
      exact ⟨he, hpage.trans (hsame hreads)⟩

/-- **A successful section** keeps the order, and nothing of the other workers changes. -/
theorem Orderly.step_succeeds (hs : s.Orderly) (hn : n ≤ 4) (hok : s.Succeeds w) :
    (s.step w).Orderly ∧ ∀ w', w' ≠ w → (s.step w).finished w' = s.finished w' ∧
      ∀ i, i < 64 → (s.step w).page w' i = s.page w' i := by
  by_cases hw : s.finished w < sections
  · by_cases hwrites : s.Writes w
    · refine ⟨hs.orderly_write hn hw hwrites, fun w' hww => ⟨?_, fun i hi => ?_⟩⟩
      · rw [hs.finished_write hn hw hwrites, Function.update_of_ne hww]
      · exact hs.page_write_of_ne hn hw hwrites hi (.inl hww)
    · obtain ⟨he, hpage⟩ := hs.read_of_succeeds hn hw hwrites hok
      refine ⟨hs.orderly_read hn hw hwrites he hpage, fun w' hww => ⟨?_, fun i _ => ?_⟩⟩
      · rw [hs.finished_read hn hw hwrites he hpage, Function.update_of_ne hww]
      · exact hs.page_read hn hw hwrites he hpage w' i
  · rw [step_of_done (by omega)]
    exact ⟨hs, fun _ _ => ⟨rfl, fun _ _ => rfl⟩⟩

theorem Orderly.pending_lt (hs : s.Orderly) (hreads : ¬ s.Writes w) : s.finished w / 2 < 64 := by
  have hle := hs.finished_le w
  unfold sections at hle
  unfold Writes at hreads
  omega

theorem Orderly.kept_of_same (hs : s.Orderly) {t : Stress n} (hkept : s.Kept w)
    (hfinished : t.finished w = s.finished w)
    (hpages : ∀ i, i < 64 → t.page w i = s.page w i) : t.Kept w := by
  intro hreads
  unfold Writes at hreads
  rw [hfinished] at hreads ⊢
  rw [hpages _ (hs.pending_lt hreads)]
  exact hkept hreads

/-- **A section in phase succeeds**, and all that is to be read back is kept. -/
theorem Orderly.succeeds_of_inPhase (hs : s.Orderly) (hn : n ≤ 4) (hkept : ∀ w, s.Kept w)
    (hphase : s.InPhase w) : s.Succeeds w ∧ ∀ w', (s.step w).Kept w' := by
  by_cases hw : s.finished w < sections
  · rcases hphase with hdone | hphase
    · omega
    · by_cases hwrites : s.Writes w
      -- a page that lands is what the worker will read back; other workers keep theirs
      · rw [if_pos hwrites] at hphase
        obtain ⟨hturn, -⟩ := hs.turn_write hn hw hwrites
        have hfinished := hs.finished_write hn hw hwrites
        have hown := hs.page_write_self hn hw hwrites
        rw [if_pos hphase] at hown
        refine ⟨.inr ⟨hs.unlocked, _, congrArg Prod.fst hturn, fun h => absurd hwrites h⟩, ?_⟩
        intro w'
        by_cases hww : w' = w
        · subst hww
          intro _
          have hhalf : (s.finished w' + 1) / 2 = s.finished w' / 2 := by
            unfold Writes at hwrites
            omega
          rw [hfinished, Function.update_self, hhalf]
          exact hown
        · refine hs.kept_of_same (hkept w') ?_ fun i hi =>
            hs.page_write_of_ne hn hw hwrites hi (.inl hww)
          rw [hfinished, Function.update_of_ne hww]
      -- reading back moves no page
      · rw [if_neg hwrites] at hphase
        have hpage := hkept w hwrites
        have hturn := hs.turn_read hn hw hwrites
        rw [if_neg hphase] at hturn
        have hfinished := hs.finished_read hn hw hwrites hphase hpage
        refine ⟨.inr ⟨hs.unlocked, _, congrArg Prod.fst hturn, fun _ => hpage⟩, ?_⟩
        intro w'
        by_cases hww : w' = w
        · subst hww
          intro hreads
          unfold Writes at hreads hwrites
          rw [hfinished, Function.update_self] at hreads
          omega
        · refine hs.kept_of_same (hkept w') ?_ fun i _ =>
            hs.page_read hn hw hwrites hphase hpage w' i
          rw [hfinished, Function.update_of_ne hww]
  · rw [step_of_done (by omega)]
    exact ⟨.inl (by omega), hkept⟩

/-! ## Writes out of phase -/

theorem Orderly.lost_of_not_lands (hs : s.Orderly) (hn : n ≤ 4) (hw : s.finished w < sections)
    (hwrites : s.Writes w) (hl : ¬ s.ftl.peer.Lands (s.nextAppend w)) : (s.step w).Lost w := by
  have hown := hs.page_write_self hn hw hwrites
  have hhalf : (s.finished w + 1) / 2 = s.finished w / 2 := by
    unfold Writes at hwrites
    omega
  rw [if_neg hl] at hown
  unfold Lost Writes
  rw [hs.finished_write hn hw hwrites, Function.update_self, hhalf]
  refine ⟨?_, hw, hown⟩
  unfold Writes at hwrites
  omega

theorem writeBuffer_ne (hn : n ≤ 4) (w : Fin n) : writeBuffer w ≠ filledPage 0 := by
  intro heq
  have hlt := w.isLt
  have hbyte : BitVec.ofNat 8 (w + 1) = 0 := (List.replicate_inj.mp heq).2.resolve_left (by decide)
  have hnat := congrArg BitVec.toNat hbyte
  rw [BitVec.toNat_ofNat, Nat.mod_eq_of_lt (by omega)] at hnat
  exact Nat.succ_ne_zero _ hnat

theorem Orderly.not_succeeds_of_lost (hs : s.Orderly) (hn : n ≤ 4) (hlost : s.Lost w) :
    ¬ s.Succeeds w := by
  obtain ⟨hreads, hle, hpage⟩ := hlost
  intro hok
  have hw : s.finished w < sections := by
    unfold sections at *
    unfold Writes at hreads
    omega
  have hread := (hs.read_of_succeeds hn hw hreads hok).2
  rw [hpage] at hread
  exact writeBuffer_ne hn w hread.symm

/-- **What is lost stays lost**: its worker fails, and the others do not help. -/
theorem Orderly.lost_step (hs : s.Orderly) (hn : n ≤ 4) (hlost : s.Lost w) {w' : Fin n}
    (hok : s.Succeeds w') : (s.step w').Lost w := by
  by_cases hww : w = w'
  · subst hww
    exact absurd hok (hs.not_succeeds_of_lost hn hlost)
  · obtain ⟨hreads, hle, hpage⟩ := hlost
    obtain ⟨hfinished, hpages⟩ := (hs.step_succeeds hn hok).2 w hww
    unfold Lost Writes
    rw [hfinished, hpages _ (hs.pending_lt hreads)]
    exact ⟨hreads, hle, hpage⟩

theorem Orderly.inPhase_or_lost (hs : s.Orderly) (hn : n ≤ 4) (hok : s.Succeeds w) :
    s.InPhase w ∨ (s.step w).Lost w := by
  by_cases hw : s.finished w < sections
  · by_cases hwrites : s.Writes w
    · by_cases hl : s.ftl.peer.Lands (s.nextAppend w)
      · left
        right
        rw [if_pos hwrites]
        exact hl
      · exact .inr (hs.lost_of_not_lands hn hw hwrites hl)
    · left
      right
      rw [if_neg hwrites]
      exact (hs.read_of_succeeds hn hw hwrites hok).1
  · exact .inl (.inl (by omega))

end Sections

/-! ## Runs -/

section Interleavings

variable {s : Stress n} (hn : n ≤ 4)

include hn

theorem Orderly.lost_run {w : Fin n} {schedule : List (Fin n)} (hs : s.Orderly) (hlost : s.Lost w)
    (hok : Along step Succeeds s schedule) : (run step s schedule).Lost w := by
  have hstep : ∀ (t : Stress n) w', (t.Orderly ∧ t.Lost w) → t.Succeeds w' →
      (t.step w').Orderly ∧ (t.step w').Lost w := fun _ _ ht hok =>
    ⟨(ht.1.step_succeeds hn hok).1, ht.1.lost_step hn ht.2 hok⟩
  exact (run_inv_of_along hstep ⟨hs, hlost⟩ hok).2

/-- When every section succeeds and none was cut off before reading back, all were in phase. -/
theorem Orderly.inPhase_of_succeeds {schedule : List (Fin n)} (hs : s.Orderly)
    (hok : Along step Succeeds s schedule) (hend : ∀ w, (run step s schedule).Writes w) :
    Along step InPhase s schedule := by
  induction schedule generalizing s with
  | nil => trivial
  | cons w schedule ih =>
    have hnext := (hs.step_succeeds hn hok.1).1
    refine ⟨?_, ih hnext hok.2 hend⟩
    rcases hs.inPhase_or_lost hn hok.1 with hphase | hlost
    · exact hphase
    · exact absurd (hend w) (hnext.lost_run hn hlost hok.2).1

/-- **The stress test passes while the automaton is in phase.** In every interleaving whose
sections are all in phase, every section succeeds; and when every section of an interleaving
succeeds, with no worker between its write and its read at the end, all were in phase. -/
theorem succeeds_while_in_phase (junk : Validator) (addr : BitVec 32) (schedule : List (Fin n)) :
    (Along step InPhase (start n junk addr) schedule →
      Along step Succeeds (start n junk addr) schedule) ∧
    (Along step Succeeds (start n junk addr) schedule →
      (∀ w, (run step (start n junk addr) schedule).Writes w) →
        Along step InPhase (start n junk addr) schedule) := by
  have hstart := orderly_start hn junk addr
  have hkept : ∀ w, (start n junk addr).Kept w := fun _ h => absurd rfl h
  refine ⟨fun hphase => ?_, fun hok hend => hstart.inPhase_of_succeeds hn hok hend⟩
  refine along_of_inv (fun (t : Stress n) w (ht : t.Orderly ∧ ∀ w, t.Kept w) hphase => ?_)
    (fun t w ht hphase => (ht.1.succeeds_of_inPhase hn ht.2 hphase).1) ⟨hstart, hkept⟩ hphase
  obtain ⟨hok, hkept⟩ := ht.1.succeeds_of_inPhase hn ht.2 hphase
  exact ⟨(ht.1.step_succeeds hn hok).1, hkept⟩

end Interleavings

/-- The registers of the automaton before the reset. -/
def junk : Validator := ⟨.idle, 0, 0, false, 0, 0⟩

theorem succeeds_while_in_phase_first_page :
    Along step Succeeds (start 3 junk 0) [0, 0] := by
  have hn : 3 ≤ 4 := by decide
  have hs := orderly_start hn junk 0
  have hreads : ¬ ((start 3 junk 0).step 0).Writes 0 := by
    rw [Writes, hs.finished_write hn (by decide) rfl]
    decide
  refine (succeeds_while_in_phase hn junk 0 [0, 0]).1 ⟨by decide, .inr ?_, trivial⟩
  rw [if_neg hreads, hs.bridge_write hn (by decide) rfl]
  decide

/-- The second worker starts after the first has read back: its first page is checked against the
zone of the first worker, refused, acknowledged, and missing when it is read back. -/
theorem second_worker_loses_page :
    ¬ ∀ (n : ℕ), n ≤ 4 → ∀ (junk : Validator) (addr : BitVec 32) (schedule : List (Fin n)),
      Along step Succeeds (start n junk addr) schedule := by
  intro hall
  have hn : 3 ≤ 4 := by decide
  obtain ⟨hok₀, hok₁, hok₂, hok₃, -⟩ := hall 3 hn junk 0 [0, 0, 1, 1]
  have hs₀ := orderly_start hn junk 0
  obtain ⟨hs₁, hother₁⟩ := hs₀.step_succeeds hn hok₀
  obtain ⟨hs₂, hother₂⟩ := hs₁.step_succeeds hn hok₁
  have hs₃ := (hs₂.step_succeeds hn hok₂).1
  have hfinished₁ : ((start 3 junk 0).step 0).finished 0 = 1 := by
    rw [hs₀.finished_write hn (by decide) rfl]
    rfl
  have hfinished₂ : (((start 3 junk 0).step 0).step 0).finished 1 = 0 := by
    rw [(hother₂ 1 (by decide)).1, (hother₁ 1 (by decide)).1]
    rfl
  have hw₁ : ((start 3 junk 0).step 0).finished 0 < sections := by
    rw [hfinished₁]
    decide
  have hreads₁ : ¬ ((start 3 junk 0).step 0).Writes 0 := by
    rw [Writes, hfinished₁]
    decide
  have hw₂ : (((start 3 junk 0).step 0).step 0).finished 1 < sections := by
    rw [hfinished₂]
    decide
  have hwrites₂ : (((start 3 junk 0).step 0).step 0).Writes 1 := by
    rw [Writes, hfinished₂]
  have hrequest : (((start 3 junk 0).step 0).step 0).nextAppend 1 = appendRequest 1 0 pageSize := by
    rw [nextAppend, hs₂.zone_eq hw₂ hwrites₂, hfinished₂]
    rfl
  obtain ⟨he, hpage⟩ := hs₁.read_of_succeeds hn hw₁ hreads₁ hok₁
  have hbridge := hs₁.bridge_read hn hw₁ hreads₁ he hpage
  rw [hs₀.bridge_write hn (by decide) rfl, hfinished₁] at hbridge
  have hlands : ¬ (((start 3 junk 0).step 0).step 0).ftl.peer.Lands
      ((((start 3 junk 0).step 0).step 0).nextAppend 1) := by
    rw [hrequest, Server.lands_congr (t := ⟨_, fun _ => 0⟩) hbridge]
    decide
  exact hs₃.not_succeeds_of_lost hn (hs₂.lost_of_not_lands hn hw₂ hwrites₂ hlands) hok₃

end Stress

end ZnsFlash
