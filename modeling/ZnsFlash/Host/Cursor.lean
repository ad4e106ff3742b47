import ZnsFlash.Host.Reach

/-!
# The search for a zone with room

`logical_write` searches upwards from `current_write_zone`, which a reset never moves back.

* `writableZone_eq_none`: what the search sees;
* `ReportsFull`: a full device is reported exactly when it is full;
* **`reportsFull_iff`**: when the search behind the cursor is not missed.
-/

namespace ZnsFlash

open Runs

/-- The errors of the sockets are not the one of the FTL. -/
structure OsErrors {δ : Type} (link : Link δ) : Prop where
  tcp : ∀ d bytes e, (link.tcp d bytes).2 = .error e → e ≠ .allZonesFull
  mgmt : ∀ d zoneId e, (link.mgmt d zoneId).2 = .error e → e ≠ .allZonesFull

theorem IoError.rtlBlocked_ne (code : BitVec 32) : IoError.rtlBlocked code ≠ .allZonesFull := by
  intro h
  have hmessage : "RTL заблокировал запись, код: " ++ toString code.toNat =
      "All ZNS zones are full" := congrArg IoError.message h
  have hfirst := congrArg List.head? (congrArg String.toList hmessage)
  have hR : "RTL заблокировал запись, код: ".toList.head? = some 'R' := by decide
  have hA : "All ZNS zones are full".toList.head? = some 'A' := by decide
  rw [String.toList_append, List.head?_append, hR, hA] at hfirst
  cases hfirst

/-- What fills and empties zones. -/
def FtlOp.Fills : FtlOp → Prop
  | .write _ _ | .reset _ => True
  | .read _ | .assign _ => False

namespace HostFtl

variable {δ : Type} {link : Link δ}

/-! ## The search -/

section Search

variable {zones : ℕ → ZoneDescriptor}

theorem writableZone_eq_none {fuel zoneId : ℕ} (hfuel : numZones ≤ zoneId + fuel)
    (hz : zoneId < numZones) :
    writableZone zones fuel zoneId = none ↔
      ∀ z, zoneId ≤ z → z < numZones → (zones z).isFull = true := by
  induction fuel generalizing zoneId with
  | zero => omega
  | succ fuel ih =>
    rw [writableZone]
    by_cases hfull : (zones zoneId).isFull = true
    swap
    · rw [if_neg hfull]
      simp only [reduceCtorEq, false_iff]
      exact fun h => hfull (h zoneId le_rfl hz)
    rw [if_pos hfull]
    have hfirst : (∀ z, zoneId ≤ z → z < numZones → (zones z).isFull = true) ↔
        ∀ z, zoneId + 1 ≤ z → z < numZones → (zones z).isFull = true := by
      refine ⟨fun h z hle => h z (by omega), fun h z hle hlt => ?_⟩
      rcases Nat.eq_or_lt_of_le hle with rfl | hlt'
      · exact hfull
      · exact h z hlt' hlt
    rw [hfirst]
    by_cases hlast : numZones ≤ zoneId + 1
    · rw [if_pos hlast]
      simp only [true_iff]
      intro z hle hlt
      omega
    · rw [if_neg hlast]
      exact ih (by omega) (by omega)

theorem writableZone_passed {fuel zoneId found : ℕ} (h : writableZone zones fuel zoneId = some found)
    {z : ℕ} (hle : zoneId ≤ z) (hlt : z < found) : (zones z).isFull = true := by
  induction fuel generalizing zoneId with
  | zero => cases h
  | succ fuel ih =>
    rw [writableZone] at h
    by_cases hfull : (zones zoneId).isFull = true
    swap
    · rw [if_neg hfull] at h
      cases h
      omega
    rw [if_pos hfull] at h
    split_ifs at h
    rcases Nat.eq_or_lt_of_le hle with rfl | hlt'
    · exact hfull
    · exact ih h hlt'

end Search

/-! ## What a call does to the cursor -/

variable {s : HostFtl δ}

/-- **A write** leaves cursor and zones alone, or moves the cursor to the zone it selects, and
changes no other zone. -/
theorem logicalWrite_cursor (s : HostFtl δ) (l : ℕ) (data : List Byte) :
    (logicalWrite link l data s).2 = s ∨
    ∃ zoneId, s.Selects l zoneId ∧ (logicalWrite link l data s).2.currentWriteZone = zoneId ∧
      ∀ z, z ≠ zoneId → (logicalWrite link l data s).2.zones z = s.zones z := by
  have houtcome : WriteOutcome link s l data := logicalWrite_outcome s l data
  cases houtcome with
  | outOfBounds _ hrun | noZone _ hrun | full _ _ _ hrun =>
    left
    rw [hrun]
  | accepted zoneId h peer inbox _ hrun =>
    right
    rw [hrun]
    exact ⟨zoneId, h, rfl, fun z hz => Function.update_of_ne hz _ _⟩
  | stopped zoneId h o peer inbox _ _ hrun =>
    right
    rw [hrun]
    exact ⟨zoneId, h, rfl, fun z _ => rfl⟩
  | emptied zoneId h o peer inbox _ _ hrun =>
    right
    rw [hrun]
    exact ⟨zoneId, h, rfl, fun z hz => Function.update_of_ne hz _ _⟩
  | retried zoneId h peer inbox _ hrun =>
    obtain ⟨s₁, s₂, s₃, h⟩ := h
    right
    rw [hrun]
    refine ⟨zoneId, h.selects, rfl, fun z hz => ?_⟩
    exact (Function.update_of_ne hz _ _).trans (Function.update_of_ne hz _ _)

/-- **A reset** leaves the cursor alone, and changes no other zone. -/
theorem next_reset_cursor (s : HostFtl δ) (zoneId : ℕ) :
    (next link s (.reset zoneId)).currentWriteZone = s.currentWriteZone ∧
    ∀ z, z ≠ zoneId → (next link s (.reset zoneId)).zones z = s.zones z := by
  rcases next_reset s zoneId with ⟨peer, hcall⟩ | ⟨peer, hcall⟩
  · rw [hcall]
    exact ⟨rfl, fun _ _ => rfl⟩
  · rw [hcall]
    exact ⟨rfl, fun z hz => Function.update_of_ne hz _ _⟩

theorem next_zone {op : FtlOp} (hop : op.Fills) (hs : s.currentWriteZone < numZones) :
    (next link s op).currentWriteZone < numZones := by
  cases op with
  | write l data =>
    show (logicalWrite link l data s).2.currentWriteZone < numZones
    rcases logicalWrite_cursor s l data with hsame | ⟨zoneId, h, hcursor, -⟩
    · rw [hsame]
      exact hs
    · rw [hcursor]
      exact h.exists_zone.1
  | reset zoneId =>
    rw [(next_reset_cursor s zoneId).1]
    exact hs
  | read l => exact hop.elim
  | assign zoneId => exact hop.elim

/-- The zones behind the cursor are full. -/
def FullBehind (s : HostFtl δ) : Prop := ∀ z, z < s.currentWriteZone → (s.zones z).isFull = true

/-- The call resets no zone behind the cursor. -/
def ResetsAhead (s : HostFtl δ) (op : FtlOp) : Prop :=
  ∀ zoneId, op = .reset zoneId → s.currentWriteZone ≤ zoneId

theorem FullBehind.next {op : FtlOp} (hs : s.FullBehind) (hop : op.Fills) (hahead : s.ResetsAhead op) :
    (next link s op).FullBehind := by
  cases op with
  | write l data =>
    show (logicalWrite link l data s).2.FullBehind
    rcases logicalWrite_cursor s l data with hsame | ⟨zoneId, h, hcursor, hzones⟩
    · rw [hsame]
      exact hs
    · intro z hz
      rw [hcursor] at hz
      rw [hzones z (Nat.ne_of_lt hz)]
      by_cases hbehind : z < s.currentWriteZone
      · exact hs z hbehind
      · exact writableZone_passed h.found (Nat.le_of_not_lt hbehind) hz
  | reset zoneId =>
    intro z hz
    obtain ⟨hcursor, hzones⟩ := next_reset_cursor s zoneId
    rw [hcursor] at hz
    have hle := hahead zoneId rfl
    rw [hzones z (by omega)]
    exact hs z hz
  | read l => exact hop.elim
  | assign zoneId => exact hop.elim

/-! ## Full devices -/

/-- **A full device is reported exactly when it is full**, by writes to the page `l`, and the search
finds a zone with room otherwise. -/
structure ReportsFull (link : Link δ) (s : HostFtl δ) (l : ℕ) : Prop where
  reports : ∀ data, (logicalWrite link l data s).1 = .err .allZonesFull ↔
    ∀ z, z < numZones → (s.zones z).isFull = true
  selects : (∃ z, z < numZones ∧ (s.zones z).isFull = false) →
    ∃ z, writableZone s.zones numZones s.currentWriteZone = some z ∧ z < numZones ∧
      (s.zones z).isFull = false

/-- There is room from the cursor on, or none behind it. -/
def RoomAhead (s : HostFtl δ) : Prop :=
  (∃ z, s.currentWriteZone ≤ z ∧ z < numZones ∧ (s.zones z).isFull = false) ∨ s.FullBehind

theorem PeerError.ne_allZonesFull (hE : OsErrors link) {e : IoError} (h : PeerError link e) :
    e ≠ .allZonesFull := by
  cases h with
  | tcp d bytes _ htcp => exact hE.tcp d bytes e htcp
  | mgmt d zoneId _ hmgmt => exact hE.mgmt d zoneId e hmgmt
  | blocked code => exact IoError.rtlBlocked_ne code

theorem Stopped.ne_allZonesFull (hE : OsErrors link) {α : Type} {o : Outcome IoError α}
    (h : Stopped link o) : o ≠ .err .allZonesFull := by
  intro ho
  cases h with
  | err e he => exact he.ne_allZonesFull hE (Outcome.err.inj ho)
  | blocks => cases ho

/-- **A full device is reported** exactly when the search ends. -/
theorem logicalWrite_allZonesFull (hE : OsErrors link) (hs : s.currentWriteZone < numZones) {l : ℕ}
    (hl : l < totalLogicalPages) (data : List Byte) :
    (logicalWrite link l data s).1 = .err .allZonesFull ↔
      ∀ z, s.currentWriteZone ≤ z → z < numZones → (s.zones z).isFull = true := by
  rw [← writableZone_eq_none (Nat.le_add_left numZones _) hs]
  constructor
  · intro herr
    have houtcome : WriteOutcome link s l data := logicalWrite_outcome s l data
    cases houtcome with
    | outOfBounds h => omega
    | noZone h => omega
    | full _ _ h => exact h
    | accepted _ _ _ _ _ hrun | retried _ _ _ _ _ hrun =>
      rw [hrun] at herr
      cases herr
    | stopped _ _ o _ _ why _ hrun | emptied _ _ o _ _ why _ hrun =>
      rw [hrun] at herr
      exact absurd herr (why.ne_allZonesFull hE)
  · intro hnone
    rw [logicalWrite_full hl hs hnone]

theorem reportsFull_iff_roomAhead (hE : OsErrors link) (hs : s.currentWriteZone < numZones) {l : ℕ}
    (hl : l < totalLogicalPages) : ReportsFull link s l ↔ s.RoomAhead := by
  constructor
  · intro h
    by_cases hahead : ∀ z, s.currentWriteZone ≤ z → z < numZones → (s.zones z).isFull = true
    · right
      have hall := (h.reports []).mp ((logicalWrite_allZonesFull hE hs hl []).mpr hahead)
      exact fun z hz => hall z (by omega)
    · left
      push Not at hahead
      obtain ⟨z, hle, hlt, hroom⟩ := hahead
      exact ⟨z, hle, hlt, by simpa using hroom⟩
  · intro h
    have hall : (∀ z, s.currentWriteZone ≤ z → z < numZones → (s.zones z).isFull = true) ↔
        ∀ z, z < numZones → (s.zones z).isFull = true := by
      refine ⟨fun hahead z hz => ?_, fun hall z _ hz => hall z hz⟩
      rcases h with ⟨z', hle, hlt, hroom⟩ | hbehind
      · rw [hahead z' hle hlt] at hroom
        cases hroom
      · by_cases hz' : z < s.currentWriteZone
        · exact hbehind z hz'
        · exact hahead z (Nat.le_of_not_lt hz') hz
    refine ⟨fun data => (logicalWrite_allZonesFull hE hs hl data).trans hall, ?_⟩
    rintro ⟨z, hz, hroom⟩
    cases hfind : writableZone s.zones numZones s.currentWriteZone with
    | none =>
      have hfull := hall.mp ((writableZone_eq_none (Nat.le_add_left numZones _) hs).mp hfind) z hz
      rw [hfull] at hroom
      cases hroom
    | some z' => exact ⟨z', rfl, writableZone_some hs hfind⟩

theorem run_zone (link : Link δ) (peer : δ) {ops : List FtlOp} (hops : ∀ op ∈ ops, op.Fills) :
    (run (next link) (new peer) ops).currentWriteZone < numZones := by
  have halong : Along (next link) (fun _ op => op.Fills) (new peer) ops :=
    (along_const FtlOp.Fills _ _).mpr hops
  have hstep : ∀ (s : HostFtl δ) op, s.currentWriteZone < numZones → op.Fills →
      (next link s op).currentWriteZone < numZones := fun _ _ hs hop => next_zone hop hs
  exact run_inv_of_along hstep (show 0 < 1024 by decide) halong

theorem run_fullBehind (link : Link δ) (peer : δ) {ops : List FtlOp} (hops : ∀ op ∈ ops, op.Fills)
    (hahead : Along (next link) ResetsAhead (new peer) ops) :
    (run (next link) (new peer) ops).FullBehind := by
  have halong : Along (next link) (fun s op => op.Fills ∧ s.ResetsAhead op) (new peer) ops :=
    (along_and _ _ _ _).mpr ⟨(along_const FtlOp.Fills _ _).mpr hops, hahead⟩
  exact run_inv_of_along (fun s op hs hop => hs.next hop.1 hop.2)
    (fun z hz => absurd hz (Nat.not_lt_zero z)) halong

/-- **Is a full device reported exactly when it is full?** After any writes and resets: if and only if
there is room from the cursor on, or none behind it. While no zone behind the cursor is reset,
always. -/
theorem reportsFull_iff (hE : OsErrors link) (peer : δ) {ops : List FtlOp}
    (hops : ∀ op ∈ ops, op.Fills) {l : ℕ} (hl : l < totalLogicalPages) :
    (ReportsFull link (run (next link) (new peer) ops) l ↔
      (run (next link) (new peer) ops).RoomAhead) ∧
    (Along (next link) ResetsAhead (new peer) ops →
      ReportsFull link (run (next link) (new peer) ops) l) := by
  have hiff := reportsFull_iff_roomAhead hE (run_zone link peer hops) hl
  exact ⟨hiff, fun hahead => hiff.mpr (.inr (run_fullBehind link peer hops hahead))⟩

theorem osErrors_countdown : OsErrors countdownLink where
  tcp _ _ _ h := by cases h
  mgmt _ _ _ h := by cases h

theorem reportsFull_iff_reset_and_write :
    ReportsFull countdownLink
      (run (next countdownLink) (new 0) [.reset 5, .write 0 (filledPage 0)]) 0 := by
  have hops : ∀ op ∈ [FtlOp.reset 5, .write 0 (filledPage 0)], op.Fills := by simp [FtlOp.Fills]
  refine (reportsFull_iff osErrors_countdown 0 hops (show 0 < totalLogicalPages by decide)).2 ?_
  refine ⟨fun _ _ => Nat.zero_le _, ?_, trivial⟩
  intro zoneId hop
  cases hop

/-! ## A device filled by pages -/

/-- The tables after `n` pages, written one behind the other. -/
structure FilledTo (n : ℕ) (s : HostFtl δ) : Prop where
  zone : s.currentWriteZone = (n - 1) / 64
  zones : ∀ z, s.zones z = ⟨(min n (64 * (z + 1)) - 64 * z) * pageSize, decide (64 * (z + 1) ≤ n)⟩

theorem filledTo_new (peer : δ) : FilledTo 0 (new peer) := by
  refine ⟨rfl, fun z => ?_⟩
  show (⟨0, false⟩ : ZoneDescriptor) = _
  simp

namespace FilledTo

variable {n : ℕ} (h : FilledTo n s)

include h

theorem found (hn : n < 65536) :
    writableZone s.zones numZones s.currentWriteZone = some (n / 64) := by
  have hzone := h.zone
  have hlt : s.currentWriteZone < numZones := by
    unfold numZones
    omega
  have hroom : (s.zones (n / 64)).isFull = false := by
    rw [h.zones]
    exact decide_eq_false (by omega)
  cases hfind : writableZone s.zones numZones s.currentWriteZone with
  | none =>
    have hfull := (writableZone_eq_none (Nat.le_add_left numZones _) hlt).mp hfind (n / 64)
      (by omega) (by unfold numZones; omega)
    rw [hfull] at hroom
    cases hroom
  | some z =>
    have hz := (writableZone_some hlt hfind).2
    rw [h.zones, decide_eq_false_iff_not] at hz
    have hle : z ≤ n / 64 := by
      by_contra hgt
      rw [writableZone_passed hfind (by omega) (Nat.lt_of_not_le hgt)] at hroom
      cases hroom
    rw [show z = n / 64 by omega]

theorem full (hn : n = 65536) : writableZone s.zones numZones s.currentWriteZone = none := by
  have hzone := h.zone
  have hlt : s.currentWriteZone < numZones := by
    unfold numZones
    omega
  rw [writableZone_eq_none (Nat.le_add_left numZones _) hlt]
  intro z _ hz
  rw [h.zones]
  unfold numZones at hz
  exact decide_eq_true (by omega)

theorem page {ε : Type} {t : HostFtl ε} (hzone : t.currentWriteZone = n / 64)
    (hzones : t.zones = Function.update s.zones (n / 64)
      ⟨(s.zones (n / 64)).writePointer + pageSize, (s.zones (n / 64)).isFull ||
        decide (zoneSizeBytes ≤ (s.zones (n / 64)).writePointer + pageSize)⟩) :
    FilledTo (n + 1) t := by
  refine ⟨hzone, fun z => ?_⟩
  rw [hzones]
  by_cases hzn : z = n / 64
  · rw [hzn, Function.update_self, h.zones, ZoneDescriptor.mk.injEq, Bool.eq_iff_iff, Bool.or_eq_true,
      decide_eq_true_iff, decide_eq_true_iff, decide_eq_true_iff]
    unfold zoneSizeBytes pageSize
    dsimp only
    omega
  · rw [Function.update_of_ne hzn, h.zones, ZoneDescriptor.mk.injEq, Bool.eq_iff_iff,
      decide_eq_true_iff, decide_eq_true_iff]
    unfold pageSize
    omega

end FilledTo

/-- After `n` pages, and the countdown has not begun. -/
structure Filled (n : ℕ) (s : HostFtl ℕ) : Prop extends FilledTo n s where
  peer : s.peer = 0
  inbox : s.inbox = []

theorem Filled.write {s : HostFtl ℕ} {n : ℕ} (h : Filled n s) (hn : n < 65536) :
    Filled (n + 1) (next countdownLink s (.write 0 (filledPage 0))) := by
  have hselects : s.Selects 0 (n / 64) :=
    ⟨by decide, by rw [h.zone]; unfold numZones; omega, h.found hn⟩
  have hpeer1 : s.peer ≠ 1 := by
    rw [h.peer]
    decide
  rw [countdown_write h.inbox hpeer1 hselects]
  have hpeer : s.peer - 1 = 0 := by rw [h.peer]
  refine ⟨h.page rfl ?_, hpeer, h.inbox⟩
  rw [← length_filledPage 0]
  rfl

theorem filled_run (n : ℕ) (hn : n ≤ 65536) :
    Filled n (run (next countdownLink) (new 0) (List.replicate n (.write 0 (filledPage 0)))) := by
  induction n with
  | zero => exact ⟨filledTo_new 0, rfl, rfl⟩
  | succ n ih =>
    rw [List.replicate_succ', run_concat]
    exact (ih (by omega)).write (by omega)

/-- **The device is full, its first zone is reset, and no zone is found.** -/
theorem reset_zone_missed :
    ¬ ∀ (ops : List FtlOp), (∀ op ∈ ops, op.Fills) → ∀ l, l < totalLogicalPages →
      ReportsFull countdownLink (run (next countdownLink) (new 0) ops) l := by
  intro h
  obtain ⟨writes, hwrites⟩ : ∃ writes, writes = List.replicate 65536 (FtlOp.write 0 (filledPage 0)) :=
    ⟨_, rfl⟩
  have hfills : ∀ op ∈ writes ++ [.reset 0], op.Fills := by
    intro op hop
    rw [hwrites] at hop
    rcases List.mem_append.mp hop with hwrite | hreset
    · rw [List.eq_of_mem_replicate hwrite]
      trivial
    · rw [List.mem_singleton.mp hreset]
      trivial
  have hfilled := filled_run 65536 le_rfl
  rw [← hwrites] at hfilled
  have hreports := h _ hfills 0 (by decide)
  rw [run_concat] at hreports
  revert hreports hfilled
  generalize run (next countdownLink) (new 0) writes = s
  intro hfilled hreports
  have hrun : zoneReset countdownLink 0 s = (.ok (), s.emptied s.peer 0) :=
    zoneReset_ok (show 0 < 1024 by decide) rfl
  have hreset : next countdownLink s (.reset 0) = s.emptied s.peer 0 :=
    congrArg Prod.snd (Call.bind_of_ok hrun)
  rw [hreset] at hreports
  obtain ⟨z, hfound, -⟩ := hreports.selects ⟨0, by decide, by rw [emptied_zone]⟩
  have hnone : writableZone (s.emptied s.peer 0).zones numZones s.currentWriteZone = none := by
    rw [writableZone_eq_none (Nat.le_add_left numZones _) (by rw [hfilled.zone]; decide)]
    intro z hle hz
    rw [hfilled.zone] at hle
    unfold numZones at hz
    show (Function.update s.zones 0 _ z).isFull = true
    rw [Function.update_of_ne (by omega), hfilled.zones]
    exact decide_eq_true (by omega)
  cases hnone.symm.trans hfound

end HostFtl

end ZnsFlash
