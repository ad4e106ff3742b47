import ZnsFlash.Nbd.Outcomes
import ZnsFlash.Rtl.Accounting

/-!
# The open-zone counter behind the server

A write aligns the word of its zone before the automaton sees it, a zone reset clears all words
after two ticks: the counter of the tracker follows neither.

* `openCells`: the number of open words in `mock_bram_storage`;
* `Server.Truthful`: the counter is that number, and only four open zones refuse with code `2`;
* `Server.Tracked`: when a request keeps it so, by the phase it starts in;
* **`Server.truthful_iff_tracked`**: along every run of writes and resets.
-/

namespace ZnsFlash

open Zoned Runs

/-- The number of words with `0 < wptr` and the full bit clear. -/
def openCells (mock : BitVec 10 → BitVec 32) : ℕ :=
  (Finset.univ.filter fun a => OpenWord (mock a)).card

theorem openCells_update (mock : BitVec 10 → BitVec 32) (a : BitVec 10) (w : BitVec 32) :
    openCells (Function.update mock a w) + openBit (mock a) = openCells mock + openBit w :=
  card_filter_update OpenWord mock a w

theorem not_openWord_zero : ¬ OpenWord 0 := by decide

theorem openCells_zero : openCells (fun _ => 0) = 0 :=
  Finset.card_eq_zero.mpr (Finset.filter_false_of_mem fun _ _ => not_openWord_zero)

theorem openBit_le_openCells (mock : BitVec 10 → BitVec 32) (a : BitVec 10) :
    openBit (mock a) ≤ openCells mock := by
  have h := openCells_update mock a 0
  have h0 : openBit 0 = 0 := if_neg not_openWord_zero
  omega

/-! ## The words of a write -/

section Words

variable {w page : BitVec 32} (hp : page.toNat < 64)

include hp

theorem openWord_alignedWord : OpenWord (alignedWord w page) ↔ page ≠ 0 := by
  have hw := zoneWptr_alignedWord_eq_zero (w := w) hp
  refine (and_iff_left (zoneIsFull_alignedWord w page)).trans ?_
  rw [← not_iff_not, not_not, ← hw, BitVec.not_lt]
  exact BitVec.le_zero_iff

theorem openBit_alignedWord : openBit (alignedWord w page) = if page = 0 then 0 else 1 := by
  by_cases h : page = 0
  · rw [openBit, if_neg fun h' => (openWord_alignedWord hp).mp h' h, if_pos h]
  · rw [openBit, if_pos ((openWord_alignedWord hp).mpr h), if_neg h]

theorem openWord_written (e : BitVec 8) :
    OpenWord (packWord e (page = 63) (page.setWidth 7 + 1)) ↔ page ≠ 63 := by
  have hone : (1 : BitVec 7).toNat = 1 := rfl
  have hwptr : (page.setWidth 7 + 1).toNat = page.toNat + 1 := by
    rw [BitVec.toNat_add, setWidth_page hp, hone]
    exact Nat.mod_eq_of_lt (by omega)
  have hpos : 0#7 < page.setWidth 7 + 1 := by
    rw [BitVec.lt_def, hwptr]
    exact Nat.succ_pos _
  rw [OpenWord, zoneWptr_packWord, zoneIsFull_packWord, and_iff_right hpos, decide_eq_false_iff_not]

theorem openBit_written (e : BitVec 8) :
    openBit (packWord e (page = 63) (page.setWidth 7 + 1)) = if page = 63 then 0 else 1 := by
  by_cases h : page = 63
  · rw [openBit, if_neg fun h' => (openWord_written hp e).mp h' h, if_pos h]
  · rw [openBit, if_pos ((openWord_written hp e).mpr h), if_neg h]

theorem tracker_aligned (n : BitVec 4) :
    znsResourcesTracker false 1 true (zoneWptr (alignedWord w page))
        (zoneIsFull (alignedWord w page)) n =
      if page = 63 ∧ 0 < n then n - 1 else if page = 0 then n + 1 else n := by
  have h0 := zoneWptr_alignedWord_eq_zero (w := w) hp
  have h63 : zoneWptr (alignedWord w page) = 63 ↔ page = 63 := by
    rw [BitVec.toNat_eq, zoneWptr_alignedWord hp, BitVec.toNat_eq]
    rfl
  simp only [znsResourcesTracker, zoneIsFull_alignedWord, h0, h63]
  simp

theorem permitsWord_aligned (n : BitVec 4) :
    PermitsWord .write page.toNat (alignedWord w page) n ↔ page ≠ 0 ∨ n < 4 := by
  rw [PermitsWord, ne_eq, zoneWptr_alignedWord_eq_zero hp, zoneWptr_alignedWord hp,
    zoneIsFull_alignedWord]
  exact ⟨fun h => h.2.2, fun h => ⟨rfl, rfl, h⟩⟩

end Words

namespace Server

/-- The open counter of the tracker. -/
def openZonesCount (s : Server) : BitVec 4 := s.bridge.fsm.openZonesCount

/-- The word of the zone of a request. -/
def target (s : Server) (r : NbdRequest) : BitVec 32 :=
  s.bridge.mockBramStorage (cell (targetZoneId r.offset))

/-- **The counter tells the truth** after the request, and a write refused with code `2` found four
zones open; when no zone is open there is room. -/
structure Truthful (s : Server) (i : ServerInput) : Prop where
  count : (s.next i).openZonesCount.toNat = openCells (s.next i).bridge.mockBramStorage
  refused : i.IsWrite → ∀ h, s.handle i = some h → h.status = 1 →
    h.server.bridge.fsm.outErrCode = 2 → openCells s.bridge.mockBramStorage = 4

/-- **When the counter follows a request.** A zone reset: no zone counts as open. A write that finds
the automaton idle: its zone is closed for page 0 and open for any other page, or it is page 63
while no zone counts as open. A write after one zone reset: page 0, or page 63 of the zone that was
reset. A write after two: page 0, or any page of the zone that was reset last. -/
def Tracked (s : Server) : ServerInput → Prop
  | .reset _ => s.openZonesCount = 0
  | .write r _ =>
    match s.bridge.fsm.currentState with
    | .bramWait => targetPage r.offset = 0 ∨
        targetPage r.offset = 63 ∧ cell (targetZoneId r.offset) = cell s.bridge.bramAddr
    | .execute => targetPage r.offset = 0 ∨ cell (targetZoneId r.offset) = cell s.bridge.bramAddr
    | _ =>
      if targetPage r.offset = 0 then ¬ OpenWord (s.target r)
      else if targetPage r.offset = 63 then OpenWord (s.target r) ∨ s.openZonesCount = 0
      else OpenWord (s.target r)
  | .read _ | .trim _ => True

/-- **Between requests of a truthful run**: the counter is right, and only zone resets over an
empty memory leave the automaton in the middle of a command. -/
structure Counted (s : Server) : Prop where
  boundary : s.bridge.Boundary
  count : s.openZonesCount.toNat = openCells s.bridge.mockBramStorage
  few : s.openZonesCount.toNat ≤ 4
  pending : s.bridge.fsm.currentState ≠ .idle →
    s.bridge.fsm.currentState ≠ .error ∧ s.bridge.mockBramStorage = (fun _ => 0) ∧
      s.bridge.bramAddr < 1024 ∧ (s.bridge.fsm.currentState = .execute → s.bridge.rdata = 0)

/-! ## Zone resets -/

section Reset

variable {s : Server} {zoneId : BitVec 64}

theorem next_reset (hz : zoneId.toNat < 1024) :
    (s.next (.reset zoneId)).bridge = s.cleared zoneId := by
  obtain ⟨st, hrun⟩ := reset_eq (s := s) hz
  rw [BitVec.ofNat_toNat, BitVec.setWidth_eq] at hrun
  have hhandle : s.handle (.reset zoneId) = some _ := hrun
  rw [next_of_handle hhandle]

theorem reset_zero {p : ValidatorPins} (hop : p.ioCmd = 2) (hcool : p.thermalShutdownTripped = false)
    (hbound : p.addrBoundError = false) (hw : p.bramRdata = 0) (n : BitVec 4) :
    (checkWord p n).hasError = false := by
  have hworn : zoneEraseCnt 0 < 10 := by decide
  have hpermits : PermitsWord .reset p.validatedTargetPage.toNat p.bramRdata n := by
    rw [hw]
    exact hworn
  exact (checkWord_permits hop).mpr ⟨hcool, hbound, hpermits⟩

theorem tracker_reset_zero (n : BitVec 4) :
    znsResourcesTracker false 2 true (zoneWptr 0) (zoneIsFull 0) n = n := by
  revert n
  decide

/-- **What a zone reset leaves**: the counter, and the automaton on its way through a command that
sees only empty words. -/
structure ResetLeaves (s : Server) (zoneId : BitVec 64) : Prop where
  count : (s.cleared zoneId).fsm.openZonesCount = s.openZonesCount
  pending : (s.cleared zoneId).fsm.currentState ≠ .idle →
    (s.cleared zoneId).fsm.currentState ≠ .error ∧ (s.cleared zoneId).bramAddr < 1024 ∧
      ((s.cleared zoneId).fsm.currentState = .execute → (s.cleared zoneId).rdata = 0)

theorem cleared_eq (s : Server) (zoneId : BitVec 64) : s.cleared zoneId =
    { s.bridge.short ⟨2, zoneId.setWidth 32, s.bridge.validatedTargetPage⟩ with
      mockBramStorage := fun _ => 0 } := rfl

theorem resetLeaves_idle (h : s.Counted) (hz : zoneId.setWidth 32 < 1024#32)
    (hi : s.bridge.fsm.currentState = .idle) : s.ResetLeaves zoneId := by
  have hrst := h.boundary.rst
  have h1 := Bridge.tick_idle
    (b := s.bridge.raise ⟨2, zoneId.setWidth 32, s.bridge.validatedTargetPage⟩) hrst hi
  have h2 := (Bridge.short_of_tick _ h1).trans (Bridge.tick_bramRead hrst rfl rfl)
  refine ⟨?_, ?_⟩ <;> rw [cleared_eq, h2]
  · rfl
  · exact fun _ => ⟨fun he => FsmState.noConfusion he, hz, fun he => FsmState.noConfusion he⟩

theorem resetLeaves_bramWait (h : s.Counted) (hz : zoneId.setWidth 32 < 1024#32)
    (hi : s.bridge.fsm.currentState = .bramWait) : s.ResetLeaves zoneId := by
  have hb := h.boundary
  obtain ⟨-, hmock, haddr, -⟩ := h.pending (by rw [hi]; exact fun he => FsmState.noConfusion he)
  let c : Bridge.SimCmd := ⟨2, zoneId.setWidth 32, s.bridge.validatedTargetPage⟩
  have hcool : (s.bridge.raise c).thermal = false := by
    have hptr : (s.bridge.raise c).globalControllerPtr = none := hb.cool
    rw [Bridge.thermal, hptr]
    rfl
  have hempty : ∀ b : Bridge, b.mockBramStorage = s.bridge.mockBramStorage → b.bramAddr < 1024 →
      b.latched = 0 := by
    intro b hstorage hlt
    rw [Bridge.latched, if_pos hlt, hstorage, hmock]
  have h1 := Bridge.tick_bramWait (b := s.bridge.raise c) hb.rst hi hb.we
  rw [hempty (s.bridge.raise c) rfl haddr] at h1
  let t : Bridge := { s.bridge.raise c with
    ioTrigger := false, fsm := { s.bridge.fsm with currentState := .validate }
    bramRdataLatch := 0, bramAddr := c.zoneId }
  have h2 : s.bridge.short c = t.verilatorTickHardware := Bridge.short_of_tick c h1
  have hrdata : t.rdata = 0 := if_pos hz
  have hok : (checkWord (t.pins t.rdata) t.fsm.openZonesCount).hasError = false :=
    reset_zero rfl hcool rfl hrdata _
  rw [Bridge.tick_validate (b := t) hb.rst rfl hb.we, hok, if_neg Bool.false_ne_true,
    hempty t rfl hz] at h2
  refine ⟨?_, ?_⟩ <;> rw [cleared_eq, h2]
  · rfl
  · exact fun _ => ⟨fun he => FsmState.noConfusion he, hz, fun _ => if_pos hz⟩

theorem resetLeaves_execute (h : s.Counted) (hi : s.bridge.fsm.currentState = .execute) :
    s.ResetLeaves zoneId := by
  have hrst := h.boundary.rst
  obtain ⟨-, -, -, hrdata⟩ := h.pending (by rw [hi]; exact fun he => FsmState.noConfusion he)
  let c : Bridge.SimCmd := ⟨2, zoneId.setWidth 32, s.bridge.validatedTargetPage⟩
  have h1 := Bridge.tick_execute (b := s.bridge.raise c) hrst hi
  have h2 := (Bridge.short_of_tick c h1).trans (Bridge.tick_updateBram hrst rfl)
  have hword : (s.bridge.raise c).rdata = 0 := hrdata hi
  refine ⟨?_, ?_⟩ <;> rw [cleared_eq, h2]
  · rw [hword]
    exact tracker_reset_zero _
  · exact fun hne => absurd rfl hne

theorem resetLeaves (h : s.Counted) (hz : zoneId.setWidth 32 < 1024#32) : s.ResetLeaves zoneId := by
  rcases h.boundary.phase with hi | ⟨hi, -⟩ | ⟨hi, -⟩ | hi
  · exact resetLeaves_idle h hz hi
  · exact resetLeaves_bramWait h hz hi
  · exact resetLeaves_execute h hi
  · exact absurd hi (h.pending (by rw [hi]; exact fun he => FsmState.noConfusion he)).1

end Reset

/-! ## Writes -/

section Write

variable {s : Server} {r : NbdRequest} {payload : List Byte}

theorem four_le_of_code {p : ValidatorPins} {n : BitVec 4} (h : (checkWord p n).errorCode = 2) :
    4 ≤ n := by
  unfold checkWord znsRulesChecker at h
  grind

/-- **What a write leaves**, given how its command finishes. -/
structure WriteLeaves (s : Server) (r : NbdRequest) (payload : List Byte) (core : Bridge.Core) :
    Prop where
  ready : (s.next (.write r payload)).bridge.Ready
  core : (s.next (.write r payload)).bridge.core = core
  refused : ∀ h, s.handle (.write r payload) = some h → h.status = 1 →
    h.server.bridge.fsm.outErrCode = 2 → 4 ≤ s.openZonesCount

theorem rdata_raised (s : Server) (r : NbdRequest) :
    ((s.aligned r).raise (r.simCmd 1)).rdata = s.bridge.rdata := Bridge.rdata_raise _ _

theorem globalControllerPtr_raised (s : Server) (r : NbdRequest) :
    ((s.aligned r).raise (r.simCmd 1)).globalControllerPtr = s.bridge.globalControllerPtr :=
  Bridge.globalControllerPtr_raise _ _

theorem globalControllerPtr_finished (s : Server) (r : NbdRequest) (v : Bool) :
    (if v then ((s.aligned r).raise (r.simCmd 1)).core
      else ((s.aligned r).raise (r.simCmd 1)).approvedCore).globalControllerPtr =
        s.bridge.globalControllerPtr := by
  rw [← globalControllerPtr_raised s r]
  cases v <;> rfl

theorem leaves_of_finishes (hr : (ServerInput.write r payload).InRange) {st : BitVec 8}
    {core : Bridge.Core} (hfin : ((s.aligned r).raise (r.simCmd 1)).Finishes st core)
    (hptr : core.globalControllerPtr = s.bridge.globalControllerPtr) :
    s.WriteLeaves r payload core := by
  obtain ⟨hin, hstart, -⟩ := hr
  have hends := hfin.ends (hptr.trans (globalControllerPtr_raised s r).symm)
  obtain ⟨hrun, -⟩ := write_of_ends hin (targetZoneId_lt hstart) hends payload
  obtain ⟨-, hready, hcore, hcode⟩ := pollWrite_of_finishes hfin
  have hhandle : s.handle (.write r payload) = some _ := hrun
  refine ⟨?_, ?_, fun h hh hst h2 => ?_⟩
  · rw [next_of_handle hhandle]
    exact hready
  · rw [next_of_handle hhandle]
    exact hcore
  · obtain rfl := Option.some.inj (hhandle.symm.trans hh)
    obtain ⟨p, hp⟩ := hcode hst
    exact four_le_of_code (hp.symm.trans h2)

/-- The counter and the open words after a write that was rejected (`v`) or executed on its own
word. -/
theorem own_counts (hr : (ServerInput.write r payload).InRange) {v : Bool}
    (hw : s.WriteLeaves r payload (if v then ((s.aligned r).raise (r.simCmd 1)).core
      else ((s.aligned r).raise (r.simCmd 1)).approvedCore)) (hfew : s.openZonesCount.toNat ≤ 4) :
    (s.next (.write r payload)).openZonesCount.toNat =
        (if v then s.openZonesCount.toNat
          else if targetPage r.offset = 63 ∧ 0 < s.openZonesCount.toNat then
            s.openZonesCount.toNat - 1
          else if targetPage r.offset = 0 then s.openZonesCount.toNat + 1
          else s.openZonesCount.toNat) ∧
      openCells (s.next (.write r payload)).bridge.mockBramStorage + openBit (s.target r) =
        openCells s.bridge.mockBramStorage +
          if v then (if targetPage r.offset = 0 then 0 else 1)
          else if targetPage r.offset = 63 then 0 else 1 := by
  have hz := targetZoneId_lt hr.2.1
  have hp := targetPage_lt r.offset
  have hmock : (s.next (.write r payload)).bridge.mockBramStorage = _ :=
    congrArg Bridge.Core.mockBramStorage hw.core
  have hcount : (s.next (.write r payload)).openZonesCount = _ :=
    congrArg Bridge.Core.openZonesCount hw.core
  -- rejected: only the word that the handler aligned has changed
  cases v with
  | true =>
    refine ⟨congrArg BitVec.toNat hcount, ?_⟩
    have hupd := openCells_update s.bridge.mockBramStorage (cell (targetZoneId r.offset))
      (alignedWord (s.target r) (targetPage r.offset))
    rw [openBit_alignedWord hp] at hupd
    rw [hmock]
    exact hupd
  | false =>
    -- executed: the tracker goes by the word before, the memory has the word after
    have htrack : (s.next (.write r payload)).openZonesCount =
        znsResourcesTracker false 1 true (zoneWptr ((s.aligned r).raise (r.simCmd 1)).word)
          (zoneIsFull ((s.aligned r).raise (r.simCmd 1)).word) s.openZonesCount := hcount
    have hstored : (s.next (.write r payload)).bridge.mockBramStorage =
        ((s.aligned r).raise (r.simCmd 1)).stored := hmock
    rw [word_aligned hz, tracker_aligned hp] at htrack
    constructor
    · have hpos : 0 < s.openZonesCount ↔ 0 < s.openZonesCount.toNat := BitVec.lt_def
      rw [htrack, if_neg Bool.false_ne_true]
      simp only [hpos]
      split_ifs with h63 h0
      · exact toNat_pred h63.2
      · rw [BitVec.toNat_add]
        exact Nat.mod_eq_of_lt (by change s.openZonesCount.toNat + 1 < 16; omega)
      · rfl
    · have hupd := openCells_update s.bridge.mockBramStorage (cell (targetZoneId r.offset))
        (packWord (zoneEraseCnt (s.target r)) (targetPage r.offset = 63)
          ((targetPage r.offset).setWidth 7 + 1))
      rw [openBit_written hp] at hupd
      rw [hstored, stored_aligned hz]
      exact hupd

/-- **A write in a truthful run**: it ends idle, counts at most four zones, and counts them right
exactly when it is tracked. -/
structure WriteStep (s : Server) (r : NbdRequest) (payload : List Byte) : Prop where
  leaves : ∃ core, s.WriteLeaves r payload core ∧
    core.globalControllerPtr = s.bridge.globalControllerPtr
  few : (s.next (.write r payload)).openZonesCount.toNat ≤ 4
  counted : (s.next (.write r payload)).openZonesCount.toNat =
      openCells (s.next (.write r payload)).bridge.mockBramStorage ↔ s.Tracked (.write r payload)

theorem numbers_idle {v : Bool} {first last isOpen : Prop} [Decidable first] [Decidable last]
    [Decidable isOpen] {n n' k k' o : ℕ} (hv : v = false ↔ ¬ first ∨ n < 4)
    (hn' : n' = if v then n else if last ∧ 0 < n then n - 1 else if first then n + 1 else n)
    (hk' : k' + o = k + if v then (if first then 0 else 1) else if last then 0 else 1)
    (ho : o = if isOpen then 1 else 0) (hle : o ≤ k) (hn : n = k) (hfew : n ≤ 4)
    (hfl : last → ¬ first) :
    n' ≤ 4 ∧ (n' = k' ↔ if first then ¬ isOpen else if last then isOpen ∨ n = 0 else isOpen) := by
  grind

/-- The numbers of a write that was checked on the word of the zone reset before it. -/
theorem numbers_bramWait {v : Bool} {first last same : Prop} [Decidable first] [Decidable last]
    {n n' k' o : ℕ} (hv : v = false ↔ first ∨ same) (hn : n = 0)
    (hn' : n' = if v then n else if last ∧ 0 < n then n - 1 else if first then n + 1 else n)
    (hk' : k' + o = if v then (if first then 0 else 1) else if last then 0 else 1) (ho : o = 0)
    (hfl : last → ¬ first) : n' ≤ 4 ∧ (n' = k' ↔ first ∨ last ∧ same) := by
  grind

theorem last_not_first {page : BitVec 32} (h : page = 63) : ¬ page = 0 := by
  rw [h]
  decide

theorem tracker_write_zero (n : BitVec 4) :
    znsResourcesTracker false 1 true (zoneWptr 0) (zoneIsFull 0) n = n + 1 := by
  revert n
  decide

theorem aligned_at (s : Server) (r : NbdRequest) (a : BitVec 10) :
    (s.aligned r).mockBramStorage a = if cell (targetZoneId r.offset) = a then
      alignedWord (s.target r) (targetPage r.offset) else s.bridge.mockBramStorage a := by
  change Function.update s.bridge.mockBramStorage _ _ a = _
  split_ifs with h
  · subst h
    exact Function.update_self _ _ _
  · exact Function.update_of_ne (Ne.symm h) _ _

variable (hr : (ServerInput.write r payload).InRange)

include hr

theorem writeStep_idle (h : s.Counted) (hi : s.bridge.fsm.currentState = .idle) :
    s.WriteStep r payload := by
  have hp := targetPage_lt r.offset
  have hfin := Bridge.finishes_idle (raised_write (r := r) h.boundary) hi
  have hv : ((s.aligned r).raise (r.simCmd 1)).verdict.hasError = false ↔
      ¬ targetPage r.offset = 0 ∨ s.openZonesCount.toNat < 4 := by
    rw [Bridge.verdict, permits_raised h.boundary, word_aligned (targetZoneId_lt hr.2.1)]
    exact (permitsWord_aligned hp _).trans (or_congr_right BitVec.lt_def)
  have hptr := globalControllerPtr_finished s r ((s.aligned r).raise (r.simCmd 1)).verdict.hasError
  have hleaves := leaves_of_finishes hr hfin hptr
  obtain ⟨hcount, hopen⟩ := own_counts hr hleaves h.few
  have hbit : openBit (s.target r) = if OpenWord (s.target r) then 1 else 0 := rfl
  obtain ⟨hle, hiff⟩ := numbers_idle hv hcount hopen hbit (openBit_le_openCells _ _) h.count
    h.few last_not_first
  have hzero : s.openZonesCount = 0 ↔ s.openZonesCount.toNat = 0 := BitVec.toNat_eq
  refine ⟨⟨_, hleaves, hptr⟩, hle, hiff.trans ?_⟩
  rw [Tracked, hi, hzero]

theorem writeStep_bramWait (h : s.Counted) (hi : s.bridge.fsm.currentState = .bramWait)
    (hs : s.bridge.fsm.outStatus = 2) : s.WriteStep r payload := by
  have hp := targetPage_lt r.offset
  have hz := targetZoneId_lt hr.2.1
  obtain ⟨-, hmock, haddr, -⟩ := h.pending (by rw [hi]; exact fun he => FsmState.noConfusion he)
  have hzero : s.openZonesCount.toNat = 0 := by rw [h.count, hmock, openCells_zero]
  have hfin := Bridge.finishes_bramWait (raised_write (r := r) h.boundary) hi hs hz
  have hlatched : ((s.aligned r).raise (r.simCmd 1)).latched =
      if cell (targetZoneId r.offset) = cell s.bridge.bramAddr then
        alignedWord 0 (targetPage r.offset) else 0 := by
    have haddr' : ((s.aligned r).raise (r.simCmd 1)).bramAddr < 1024 := haddr
    rw [Bridge.latched, if_pos haddr']
    refine (aligned_at s r _).trans ?_
    rw [target, hmock]
    rfl
  have hv : ((s.aligned r).raise (r.simCmd 1)).staleVerdict.hasError = false ↔
      targetPage r.offset = 0 ∨ cell (targetZoneId r.offset) = cell s.bridge.bramAddr := by
    rw [Bridge.staleVerdict, permits_raised h.boundary, hlatched]
    split_ifs with hsame
    · have hroom : s.openZonesCount < 4 := by
        rw [BitVec.lt_def, hzero]
        exact Nat.succ_pos 3
      exact (permitsWord_aligned hp _).trans
        ⟨fun _ => .inr hsame, fun _ => .inr hroom⟩
    · have hroom : ¬ 4 ≤ s.openZonesCount := by
        rw [BitVec.le_def, hzero]
        exact Nat.not_succ_le_zero 3
      have hpage : targetPage r.offset = 0 ↔ (targetPage r.offset).toNat = 0 := BitVec.toNat_eq
      have hzeroWord : ¬ PermitsWord .write (targetPage r.offset).toNat 0 s.openZonesCount ↔
          (targetPage r.offset).toNat ≠ 0 ∨ 4 ≤ s.openZonesCount := permitsWord_zero
      rw [or_iff_left hroom, not_iff_not] at hzeroWord
      rw [or_iff_left hsame, hpage]
      exact hzeroWord
  have hptr := globalControllerPtr_finished s r ((s.aligned r).raise (r.simCmd 1)).staleVerdict.hasError
  have hleaves := leaves_of_finishes hr hfin hptr
  obtain ⟨hcount, hopen⟩ := own_counts hr hleaves h.few
  have ho : openBit (s.target r) = 0 := by
    rw [target, hmock]
    exact if_neg not_openWord_zero
  rw [hmock, openCells_zero, Nat.zero_add] at hopen
  obtain ⟨hle, hiff⟩ := numbers_bramWait hv hzero hcount hopen ho last_not_first
  refine ⟨⟨_, hleaves, hptr⟩, hle, hiff.trans ?_⟩
  rw [Tracked, hi]

theorem writeStep_execute (h : s.Counted) (hi : s.bridge.fsm.currentState = .execute)
    (hs : s.bridge.fsm.outStatus = 2) : s.WriteStep r payload := by
  have hp := targetPage_lt r.offset
  obtain ⟨-, hmock, haddr, hrdata⟩ := h.pending (by rw [hi]; exact fun he => FsmState.noConfusion he)
  have hzero : s.openZonesCount.toNat = 0 := by rw [h.count, hmock, openCells_zero]
  have hfin := Bridge.finishes_execute (raised_write (r := r) h.boundary) hi hs
  have hptr : ((s.aligned r).raise (r.simCmd 1)).executeCore.globalControllerPtr =
      s.bridge.globalControllerPtr := globalControllerPtr_raised s r
  have hleaves := leaves_of_finishes hr hfin hptr
  have hrdata' : ((s.aligned r).raise (r.simCmd 1)).rdata = 0 := (rdata_raised s r).trans (hrdata hi)
  have haddr' : ((s.aligned r).raise (r.simCmd 1)).bramAddr < 1024 := haddr
  have hcount : (s.next (.write r payload)).openZonesCount = s.openZonesCount + 1 := by
    have h1 : (s.next (.write r payload)).openZonesCount = _ :=
      congrArg Bridge.Core.openZonesCount hleaves.core
    rw [h1, Bridge.executeCore, hrdata']
    exact tracker_write_zero _
  have hopen : (s.next (.write r payload)).bridge.mockBramStorage =
      Function.update (s.aligned r).mockBramStorage (cell s.bridge.bramAddr)
        (packWord 0 false 1) := by
    have h1 : (s.next (.write r payload)).bridge.mockBramStorage = _ :=
      congrArg Bridge.Core.mockBramStorage hleaves.core
    rw [h1, Bridge.executeCore, if_pos haddr', hrdata']
    rfl
  -- the write opens the zone reset last, and leaves its own zone open unless the page is 0
  have hone : openBit (packWord 0 false 1) = 1 := by decide
  have hnone : openBit 0 = 0 := if_neg not_openWord_zero
  have hset := openCells_update s.bridge.mockBramStorage (cell (targetZoneId r.offset))
    (alignedWord (s.target r) (targetPage r.offset))
  have hcells := openCells_update (s.aligned r).mockBramStorage (cell s.bridge.bramAddr)
    (packWord 0 false 1)
  rw [openBit_alignedWord hp, hmock, openCells_zero, hnone, ← hmock] at hset
  change openCells (s.aligned r).mockBramStorage + 0 = _ at hset
  rw [aligned_at, hone, hmock, ← hopen] at hcells
  have hnum : (s.next (.write r payload)).openZonesCount.toNat = 1 := by
    have h0 : s.openZonesCount = 0 := BitVec.eq_of_toNat_eq hzero
    rw [hcount, h0]
    rfl
  refine ⟨⟨_, hleaves, hptr⟩, hnum.trans_le (by decide), ?_⟩
  rw [hnum, Tracked, hi]
  change _ ↔ targetPage r.offset = 0 ∨ _
  by_cases hsame : cell (targetZoneId r.offset) = cell s.bridge.bramAddr
  · rw [if_pos hsame, openBit_alignedWord hp] at hcells
    simp only [hsame, or_true, iff_true]
    omega
  · rw [if_neg hsame, hnone] at hcells
    simp only [hsame, or_false]
    split_ifs at hset with h0
    · simp only [h0, iff_true]
      omega
    · simp only [h0, iff_false]
      omega

theorem writeStep (h : s.Counted) : s.WriteStep r payload := by
  rcases h.boundary.phase with hi | ⟨hi, hs⟩ | ⟨hi, hs⟩ | hi
  · exact writeStep_idle hr h hi
  · exact writeStep_bramWait hr h hi hs
  · exact writeStep_execute hr h hi hs
  · exact absurd hi (h.pending (by rw [hi]; exact fun he => FsmState.noConfusion he)).1

end Write

end Server

/-! ## Runs -/

/-- Writes in range and resets of existing zones. -/
def ServerInput.WriteOrReset (i : ServerInput) : Prop :=
  i.InRange ∧ match i with
    | .write _ _ | .reset _ => True
    | .read _ | .trim _ => False

instance : DecidablePred ServerInput.WriteOrReset
  | .write _ _ | .reset _ => inferInstanceAs (Decidable (_ ∧ True))
  | .read _ | .trim _ => inferInstanceAs (Decidable (_ ∧ False))

namespace Server

section Runs

variable {s : Server} {i : ServerInput}

theorem reset_lt {zoneId : BitVec 64} (hz : zoneId.toNat < 1024) :
    zoneId.setWidth 32 < 1024#32 := by
  rw [BitVec.lt_def, BitVec.toNat_setWidth]
  change _ < 1024
  omega

/-- **The counter is right after a request exactly when it follows it.** -/
theorem truthful_iff (h : s.Counted) (hi : i.WriteOrReset) : s.Truthful i ↔ s.Tracked i := by
  cases i with
  | read r => exact hi.2.elim
  | trim r => exact hi.2.elim
  | write r payload =>
    have hstep := writeStep hi.1 h
    refine ⟨fun ht => hstep.counted.mp ht.count, fun ht => ⟨hstep.counted.mpr ht, ?_⟩⟩
    intro _ hd hrun hst hcode
    obtain ⟨core, hleaves, -⟩ := hstep.leaves
    have hfour : 4 ≤ s.openZonesCount.toNat := BitVec.le_def.mp (hleaves.refused hd hrun hst hcode)
    have hfew := h.few
    rw [← h.count]
    omega
  | reset zoneId =>
    obtain ⟨hcount, -⟩ := resetLeaves h (reset_lt hi.1)
    have hnext : (s.next (.reset zoneId)).openZonesCount = s.openZonesCount := by
      rw [openZonesCount, next_reset hi.1]
      exact hcount
    have hmock : (s.next (.reset zoneId)).bridge.mockBramStorage = fun _ => 0 := by
      rw [next_reset hi.1]
      rfl
    have hzero : s.openZonesCount = 0 ↔ s.openZonesCount.toNat = 0 := BitVec.toNat_eq
    refine ⟨fun ht => ?_, fun ht => ⟨?_, fun hw => hw.elim⟩⟩
    · have hc := ht.count
      rw [hnext, hmock, openCells_zero] at hc
      exact hzero.mpr hc
    · rw [hnext, hmock, openCells_zero]
      exact hzero.mp ht

theorem counted_next (h : s.Counted) (hi : i.WriteOrReset) (ht : s.Truthful i) :
    (s.next i).Counted := by
  cases i with
  | read r => exact hi.2.elim
  | trim r => exact hi.2.elim
  | write r payload =>
    have hstep := writeStep hi.1 h
    obtain ⟨core, hleaves, hptr⟩ := hstep.leaves
    have hcool : (s.next (.write r payload)).bridge.globalControllerPtr = none :=
      ((congrArg Bridge.Core.globalControllerPtr hleaves.core).trans hptr).trans h.boundary.cool
    exact ⟨Bridge.boundary_of_ready hleaves.ready hcool, ht.count, hstep.few,
      fun hne => absurd hleaves.ready.idle hne⟩
  | reset zoneId =>
    obtain ⟨hcount, hpend⟩ := resetLeaves h (reset_lt hi.1)
    have hnext := next_reset (s := s) hi.1
    have hsame : (s.next (.reset zoneId)).openZonesCount = s.openZonesCount := by
      rw [openZonesCount, hnext]
      exact hcount
    refine ⟨?_, ht.count, by rw [hsame]; exact h.few, ?_⟩
    · rw [hnext]
      exact boundary_cleared h.boundary zoneId
    · rw [hnext]
      exact fun hne => ⟨(hpend hne).1, rfl, (hpend hne).2⟩

end Runs

/-- **The open-zone limit behind the server.** Along every run of writes in range and zone resets
after start-up, the counter is the number of open words after each request, and only four open zones
refuse a write with code `2`, exactly when the counter follows every request. -/
theorem truthful_iff_tracked (junk : Validator) (addr : BitVec 32) {is : List ServerInput}
    (his : ∀ i ∈ is, i.WriteOrReset) :
    Along Server.next Truthful (powerUp junk addr) is ↔
      Along Server.next Tracked (powerUp junk addr) is := by
  have hinit : (powerUp junk addr).Counted := by
    obtain ⟨hready, hcore⟩ := Bridge.ready_powerUp junk addr none
    have hmock : (powerUp junk addr).bridge.mockBramStorage = fun _ => 0 :=
      congrArg Bridge.Core.mockBramStorage hcore
    have hcount : (powerUp junk addr).openZonesCount = 0 :=
      congrArg Bridge.Core.openZonesCount hcore
    refine ⟨boundary_powerUp junk addr, ?_, ?_, fun hne => absurd hready.idle hne⟩
    · rw [hcount, hmock, openCells_zero]
      rfl
    · rw [hcount]
      exact Nat.zero_le 4
  have h := @along_congr _ _ Server.next Counted
    (P := fun s i => i.WriteOrReset ∧ s.Truthful i) (Q := fun s i => i.WriteOrReset ∧ s.Tracked i)
    (fun s i hs hi => counted_next hs hi.1 hi.2)
    (fun s i hs => and_congr_right fun hi => truthful_iff hs hi) _ hinit is
  rw [along_and, along_and, along_const] at h
  exact (and_congr_right_iff.mp h) his

/-- Page 0 of zone 0 is written, then the zone is reset. -/
def openThenReset : List ServerInput := [.write (firstPageWrite 0) [7], .reset 0]

theorem truthful_iff_tracked_openThenReset :
    (∀ i ∈ openThenReset, i.WriteOrReset) ∧
      (Along Server.next Truthful start openThenReset ↔
        Along Server.next Tracked start openThenReset) :=
  ⟨by decide, truthful_iff_tracked _ _ (by decide)⟩

/-- **The counter still says one**, and no zone is open. -/
theorem reset_keeps_count :
    ¬ ∀ is : List ServerInput, (∀ i ∈ is, i.WriteOrReset) →
      Along Server.next Truthful start is := by
  intro h
  obtain ⟨-, ⟨hcount, -⟩, -⟩ := h openThenReset (by decide)
  have hone : ((start.next (.write (firstPageWrite 0) [7])).next (.reset 0)).openZonesCount = 1 := by
    decide
  rw [hone, next_reset (by decide)] at hcount
  exact absurd (hcount.trans openCells_zero) (by decide)

end Server

end ZnsFlash
