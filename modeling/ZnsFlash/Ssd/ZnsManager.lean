import ZnsFlash.Sim.Driver
import Mathlib.Data.Nat.Count

/-!
# The software model of the zones

`Controller::validate_and_advance_zns` of `zns_manager.cpp` keeps its own array of zones and
recounts the open ones at every write.

* `ZnsZone`, `ZnsManager`, `openZonesCountCheck`, `ZnsManager.validateAndAdvanceZns`;
* `MatchesZones`, **`validate_write`**: under the zoned configuration a write is a step of a
  `Zoned.Device`;
* **`golden_agrees_with_hardware`**: model and driver accept the same writes and keep the same zones.
-/

namespace ZnsFlash

open Zoned Runs

/-! ## The software zones -/

/-- `struct ZnsZone` -/
structure ZnsZone where
  wptr : BitVec 64
  isFull : Bool
  eraseCount : BitVec 64
  deriving DecidableEq

/-- `enum event_type` -/
inductive EventType
  | read
  | write
  | erase
  | merge
  | trim
  deriving DecidableEq

/-- What `validate_and_advance_zns` reads of an `Event`. -/
structure Event where
  eventType : EventType
  logicalAddress : BitVec 64

/-- The configuration and the zones; `none` is the null pointer. -/
structure ZnsManager where
  ftlImplementation : BitVec 32
  blockSize : BitVec 32
  totalZnsZones : BitVec 64
  znsZones : Option (ℕ → ZnsZone)

/-- `Controller::open_zones_count_check` -/
def openZonesCountCheck (zones : ℕ → ZnsZone) (totalZnsZones : BitVec 64) : BitVec 64 :=
  (List.range totalZnsZones.toNat).foldl
    (fun count i => if 0 < (zones i).wptr ∧ ¬ (zones i).isFull then count + 1 else count) 0

/-- `zone.wptr++`, and the full flag at the end of the zone. -/
def ZnsZone.advance (hardBlockSize : BitVec 64) (zone : ZnsZone) : ZnsZone :=
  { zone with
    wptr := zone.wptr + 1
    isFull := if hardBlockSize ≤ zone.wptr + 1 then true else zone.isFull }

/-- **`Controller::validate_and_advance_zns`** -/
def ZnsManager.validateAndAdvanceZns (m : ZnsManager) (event : Event) : ZnsManager × Bool :=
  if m.ftlImplementation ≠ 5 then (m, true)
  else
    let hardBlockSize : BitVec 64 := if 0 < m.blockSize then m.blockSize.setWidth 64 else 64
    let zoneId := event.logicalAddress / hardBlockSize
    match m.znsZones with
    | none => (m, false)
    | some zones =>
      if m.totalZnsZones ≤ zoneId then (m, false)
      else if event.eventType = .write then
        let zone := zones zoneId.toNat
        let targetPage : BitVec 32 := (event.logicalAddress % hardBlockSize).setWidth 32
        if zone.isFull then (m, false)
        else if targetPage.setWidth 64 ≠ zone.wptr then (m, false)
        else if zone.wptr = 0 ∧ 4 ≤ openZonesCountCheck zones m.totalZnsZones then (m, false)
        else
          let zones := Function.update zones zoneId.toNat (zone.advance hardBlockSize)
          ({ m with znsZones := some zones }, true)
      else (m, true)

/-! ## The software zones as a zoned device -/

/-- **The pointers and full flags of the software zones are those of the device `d`.** -/
structure MatchesZones (zones : ℕ → ZnsZone) (d : Device znsLimits (BitVec 10)) : Prop where
  wptr : ∀ a : BitVec 10, (zones a.toNat).wptr.toNat = (d.zones a).wptr
  isFull : ∀ a : BitVec 10, (zones a.toNat).isFull = decide (d.zones a).IsFull

theorem foldl_count (p : ℕ → Prop) [DecidablePred p] (l : List ℕ) (c : BitVec 64) :
    l.foldl (fun count i => if p i then count + 1 else count) c =
      c + BitVec.ofNat 64 (l.countP p) := by
  induction l generalizing c with
  | nil => simp
  | cons i l ih =>
    rw [List.foldl_cons, ih, List.countP_cons]
    by_cases hi : p i
    · simp only [hi, if_true, decide_true, BitVec.ofNat_add]
      rw [BitVec.add_assoc, BitVec.add_comm 1]
      rfl
    · simp [hi]

theorem countP_range_eq_card (p : ℕ → Prop) [DecidablePred p] :
    (List.range 1024).countP p = (Finset.univ.filter fun a : BitVec 10 => p a.toNat).card := by
  have hcount : (List.range 1024).countP p = Nat.count p 1024 := rfl
  rw [hcount, Nat.count_eq_card_filter_range]
  refine (Finset.card_bij (fun a _ => a.toNat) ?_ ?_ ?_).symm
  · intro a ha
    rw [Finset.mem_filter, Finset.mem_range]
    exact ⟨a.isLt, (Finset.mem_filter.mp ha).2⟩
  · intro a _ b _ h
    exact BitVec.eq_of_toNat_eq h
  · intro i hi
    obtain ⟨hlt, hp⟩ := Finset.mem_filter.mp hi
    have hi' : (BitVec.ofNat 10 i).toNat = i := by
      rw [BitVec.toNat_ofNat]
      exact Nat.mod_eq_of_lt (Finset.mem_range.mp hlt)
    exact ⟨BitVec.ofNat 10 i, by rw [Finset.mem_filter, hi']; exact ⟨Finset.mem_univ _, hp⟩, hi'⟩

section Matches

variable {zones : ℕ → ZnsZone} {d : Device znsLimits (BitVec 10)}

theorem MatchesZones.openZonesCountCheck (h : MatchesZones zones d) :
    (openZonesCountCheck zones 1024).toNat = d.nOpen := by
  have hopen : (Finset.univ.filter fun a : BitVec 10 =>
      0 < (zones a.toNat).wptr ∧ ¬ (zones a.toNat).isFull) =
        Finset.univ.filter fun a => (d.zones a).IsOpen := by
    refine Finset.filter_congr fun a _ => ?_
    have hle : (d.zones a).wptr ≤ 64 := (d.zones a).wptr_le
    rw [h.isFull, decide_eq_true_iff, BitVec.lt_def, h.wptr]
    change 0 < _ ∧ ¬ _ = 64 ↔ 0 < _ ∧ _ < 64
    omega
  have hle := d.open_le
  have hlim : znsLimits.maxOpen = 4 := rfl
  rw [ZnsFlash.openZonesCountCheck, foldl_count]
  change (0#64 + BitVec.ofNat 64 ((List.range 1024).countP _)).toNat = _
  rw [countP_range_eq_card, hopen, BitVec.zero_add, BitVec.toNat_ofNat]
  change openCount d.zones % _ = openCount d.zones
  exact Nat.mod_eq_of_lt (by omega)

/-- The array after one cell is written matches the device after that zone changes. -/
theorem MatchesZones.update (h : MatchesZones zones d) {d' : Device znsLimits (BitVec 10)}
    {a : BitVec 10} {z : Zone znsLimits} (hd : d'.zones = Function.update d.zones a z)
    {zone : ZnsZone} (hw : zone.wptr.toNat = z.wptr) (hf : zone.isFull = decide z.IsFull) :
    MatchesZones (Function.update zones a.toNat zone) d' := by
  have hcell : ∀ c : BitVec 10, c ≠ a → c.toNat ≠ a.toNat := fun c hc he =>
    hc (BitVec.eq_of_toNat_eq he)
  refine ⟨fun c => ?_, fun c => ?_⟩
  · rw [hd]
    by_cases hc : c = a
    · rw [hc, Function.update_self, Function.update_self, hw]
    · rw [Function.update_of_ne (hcell c hc), Function.update_of_ne hc, h.wptr]
  · rw [hd]
    by_cases hc : c = a
    · rw [hc, Function.update_self, Function.update_self, hf]
    · rw [Function.update_of_ne (hcell c hc), Function.update_of_ne hc, h.isFull]

end Matches

/-- The zoned configuration, with 64 pages a zone. -/
def zonedManager (zones : ℕ → ZnsZone) : ZnsManager := ⟨5, 64, 1024, some zones⟩

section Write

variable {zones : ℕ → ZnsZone} {d : Device znsLimits (BitVec 10)} {lba : BitVec 64}

theorem div_toNat (h : lba < 65536) : (lba / 64).toNat = (lbaCell lba).toNat := by
  rw [lbaCell_toNat h, BitVec.toNat_udiv]
  rfl

theorem page_toNat (lba : BitVec 64) :
    (((lba % 64).setWidth 32).setWidth 64).toNat = lba.toNat % 64 := by
  rw [BitVec.toNat_setWidth, BitVec.toNat_setWidth, BitVec.toNat_umod]
  change lba.toNat % 64 % _ % _ = _
  rw [Nat.mod_eq_of_lt (by omega), Nat.mod_eq_of_lt (by omega)]

theorem validate_write_eq (h : MatchesZones zones d) (hlba : lba < 65536) :
    (zonedManager zones).validateAndAdvanceZns ⟨.write, lba⟩ =
      if (d.zones (lbaCell lba)).IsFull then (zonedManager zones, false)
      else if lba.toNat % 64 ≠ (d.zones (lbaCell lba)).wptr then (zonedManager zones, false)
      else if (d.zones (lbaCell lba)).wptr = 0 ∧ znsLimits.maxOpen ≤ d.nOpen then
        (zonedManager zones, false)
      else
        (zonedManager (Function.update zones (lbaCell lba).toNat
          ((zones (lbaCell lba).toNat).advance 64)), true) := by
  have hin : ¬ (1024 : BitVec 64) ≤ lba / 64 := by
    rw [BitVec.le_def, div_toNat hlba]
    exact Nat.not_le.mpr (lbaCell lba).isLt
  have hfull : (zones (lbaCell lba).toNat).isFull = true ↔ (d.zones (lbaCell lba)).IsFull := by
    rw [h.isFull, decide_eq_true_iff]
  have hpage : ((lba % 64).setWidth 32).setWidth 64 = (zones (lbaCell lba).toNat).wptr ↔
      lba.toNat % 64 = (d.zones (lbaCell lba)).wptr := by
    rw [BitVec.toNat_eq, page_toNat, h.wptr]
  have hzero : (zones (lbaCell lba).toNat).wptr = 0 ↔ (d.zones (lbaCell lba)).wptr = 0 := by
    rw [BitVec.toNat_eq, h.wptr]
    rfl
  have hcount : (4 : BitVec 64) ≤ openZonesCountCheck zones 1024 ↔ znsLimits.maxOpen ≤ d.nOpen := by
    rw [BitVec.le_def, h.openZonesCountCheck]
    rfl
  have hsize : (if (0 : BitVec 32) < 64 then (64 : BitVec 32).setWidth 64 else 64) =
      (64 : BitVec 64) := rfl
  unfold ZnsManager.validateAndAdvanceZns zonedManager
  simp only [ne_eq, not_true_eq_false, if_false, if_true, hsize, hin, div_toNat hlba, hfull, hpage,
    hzero, hcount]

/-- **A write under the zoned configuration is a step of the device.** -/
theorem validate_write (h : MatchesZones zones d) (hlba : lba < 65536) :
    (d.refuses (lbaCell lba) .write (lba.toNat % 64) ≠ none ∧
        (zonedManager zones).validateAndAdvanceZns ⟨.write, lba⟩ = (zonedManager zones, false)) ∨
      (d.refuses (lbaCell lba) .write (lba.toNat % 64) = none ∧
        ∃ zones', (zonedManager zones).validateAndAdvanceZns ⟨.write, lba⟩ =
            (zonedManager zones', true) ∧
          MatchesZones zones' (d.step (lbaCell lba) .write (lba.toNat % 64))) := by
  rw [validate_write_eq h hlba]
  have hdef : d.refuses (lbaCell lba) .write (lba.toNat % 64) =
      if (d.zones (lbaCell lba)).IsFull then some .full
      else if lba.toNat % 64 ≠ (d.zones (lbaCell lba)).wptr then some .outOfOrder
      else if (d.zones (lbaCell lba)).wptr = 0 ∧ znsLimits.maxOpen ≤ d.nOpen then some .openLimit
      else none := rfl
  by_cases hnone : d.refuses (lbaCell lba) .write (lba.toNat % 64) = none
  · right
    have hacc := hnone
    rw [hdef] at hnone
    split_ifs at hnone ⊢ with hfull hpage hlim
    obtain ⟨hcap, -, -⟩ := refusal_write_eq_none.mp hacc
    change (d.zones (lbaCell lba)).wptr < 64 at hcap
    obtain ⟨hw, -⟩ := Zone.next_write (L := znsLimits) hcap
    -- the pointer is below 64, so adding one does not wrap
    have hadd : ((zones (lbaCell lba).toNat).wptr + 1).toNat =
        (d.zones (lbaCell lba)).wptr + 1 := by
      rw [BitVec.toNat_add, h.wptr]
      exact Nat.mod_eq_of_lt (by change _ + 1 < 2 ^ 64; omega)
    refine ⟨hacc, _, rfl, h.update (Device.step_of_accepted hacc) (hadd.trans hw.symm) ?_⟩
    have h64 : (64 : BitVec 64) ≤ (zones (lbaCell lba).toNat).wptr + 1 ↔
        (d.zones (lbaCell lba)).wptr + 1 = 64 := by
      rw [BitVec.le_def, hadd]
      change 64 ≤ _ ↔ _
      omega
    have hnot : (zones (lbaCell lba).toNat).isFull = false := by
      rw [h.isFull, decide_eq_false_iff_not]
      exact hfull
    simp only [ZnsZone.advance, h64, hnot, Zone.IsFull, hw]
    by_cases h63 : (d.zones (lbaCell lba)).wptr + 1 = 64
    · simp [h63, znsLimits]
    · simp [h63, znsLimits]
  · left
    refine ⟨hnone, ?_⟩
    rw [hdef] at hnone
    split_ifs at hnone ⊢ <;> first | rfl | exact absurd rfl hnone

end Write

/-! ## Model and hardware -/

/-- A write to one of the 1024 zones. -/
def NvmeSqe.LowWrite (sqe : NvmeSqe) : Prop := sqe.opcode = 0x01 ∧ sqe.slba < 65536

/-- The write of an entry on the model. -/
def goldenWrite (m : ZnsManager) (sqe : NvmeSqe) : Option (ZnsManager × Bool) :=
  some (m.validateAndAdvanceZns ⟨.write, sqe.slba⟩)

/-- The write of an entry on the hardware, and whether it completes with status zero. -/
def hardwareWrite (fuel : ℕ) (d : Driver) (sqe : NvmeSqe) : Option (Driver × Bool) :=
  (d.znsProcessNvmeCommand fuel sqe).map fun r => (r.1, decide (r.2.status = 0))

/-- Model and hardware stand for one device, and the hardware is cool. -/
def SameDevice (m : ZnsManager) (d : Driver) : Prop :=
  ∃ zones dev, m = zonedManager zones ∧ MatchesZones zones dev ∧ d.bridge.Ready ∧
    ZoneTable d.bridge.mockBramStorage d.bridge.fsm.openZonesCount dev ∧ d.bridge.thermal = false

theorem hardwareWrite_eq {fuel : ℕ} {d d' : Driver} {sqe : NvmeSqe} {cqe : NvmeCqe}
    (h : d.znsProcessNvmeCommand fuel sqe = some (d', cqe)) :
    hardwareWrite fuel d sqe = some (d', decide (cqe.status = 0)) := by
  rw [hardwareWrite, h]
  rfl

theorem sameDevice_write {fuel : ℕ} (hfuel : 6 ≤ fuel) {m : ZnsManager} {d : Driver} {sqe : NvmeSqe}
    (hsqe : sqe.LowWrite) (h : SameDevice m d) :
    ∃ m' d' ok, goldenWrite m sqe = some (m', ok) ∧ hardwareWrite fuel d sqe = some (d', ok) ∧
      SameDevice m' d' := by
  obtain ⟨zones, dev, rfl, hz, hready, htable, hcool⟩ := h
  have hcmd : hardwareCmd sqe = .ok (cmdOf .write) := by
    rw [hardwareCmd, hsqe.1, if_neg (by decide), if_pos rfl]
    rfl
  rcases validate_write hz hsqe.2 with ⟨href, hgold⟩ | ⟨hacc, zones', hgold, hz'⟩
  · rcases Driver.process_cases hready hfuel htable hcmd hsqe.2 with
      ⟨-, d', cqe, hrun, hst, hready', hcore⟩ | ⟨-, hacc, -⟩
    · have hhard := hardwareWrite_eq hrun
      rw [decide_eq_false hst] at hhard
      have hmock : d'.bridge.mockBramStorage = _ := congrArg Bridge.Core.mockBramStorage hcore
      have hcount : d'.bridge.fsm.openZonesCount = _ := congrArg Bridge.Core.openZonesCount hcore
      have hptr : d'.bridge.globalControllerPtr = _ :=
        congrArg Bridge.Core.globalControllerPtr hcore
      refine ⟨_, d', false, congrArg some hgold, hhard, zones, dev, rfl, hz, hready', ?_, ?_⟩
      · rw [hmock, hcount]
        exact htable
      · rw [Bridge.thermal, hptr]
        exact hcool
    · exact absurd hacc href
  · rcases Driver.process_cases hready hfuel htable hcmd hsqe.2 with
      ⟨href, -⟩ | ⟨-, -, d', cqe, hrun, hst, hready', hptr, -, -, htable'⟩
    · exact absurd ⟨hcool, hacc⟩ href
    · have hhard := hardwareWrite_eq hrun
      rw [decide_eq_true hst] at hhard
      refine ⟨_, d', true, congrArg some hgold, hhard, zones', _, rfl, hz', hready',
        htable' fun h => absurd h (by decide), ?_⟩
      rw [Bridge.thermal, hptr]
      exact hcool

/-- The model with empty zones. -/
def emptyManager : ZnsManager := zonedManager fun _ => ⟨0, false, 0⟩

/-- The driver over a bridge fresh from start-up, below the thermal threshold or not. -/
def bootDriver (junk : Validator) (addr : BitVec 32) (lba : BitVec 64) (temperature : ℚ) : Driver :=
  ⟨Bridge.powerUp junk addr (some temperature), lba, 0, 0⟩

/-- **Model and hardware agree on writes.** From empty zones, below the thermal threshold, for
every sequence of writes: both accept the same writes, and then every zone has the same pointer and
full flag on both sides and the recount is the open counter. -/
theorem golden_agrees_with_hardware {junk : Validator} {addr : BitVec 32} {lba : BitVec 64} {t : ℚ}
    (ht : t < 85) {fuel : ℕ} (hfuel : 6 ≤ fuel) {sqes : List NvmeSqe}
    (hsqes : ∀ sqe ∈ sqes, sqe.LowWrite) :
    ∃ m' d' oks zones, transcript goldenWrite emptyManager sqes = some (m', oks) ∧
      transcript (hardwareWrite fuel) (bootDriver junk addr lba t) sqes = some (d', oks) ∧
      m'.znsZones = some zones ∧
      (∀ z : BitVec 10,
        (zones z.toNat).wptr = (zoneWptr (d'.bridge.mockBramStorage z)).setWidth 64 ∧
          (zones z.toNat).isFull = zoneIsFull (d'.bridge.mockBramStorage z)) ∧
      openZonesCountCheck zones m'.totalZnsZones = d'.bridge.fsm.openZonesCount.setWidth 64 := by
  obtain ⟨hready, hcore⟩ := Bridge.ready_powerUp junk addr (some t)
  have hmock : (bootDriver junk addr lba t).bridge.mockBramStorage = _ :=
    congrArg Bridge.Core.mockBramStorage hcore
  have hcount : (bootDriver junk addr lba t).bridge.fsm.openZonesCount = _ :=
    congrArg Bridge.Core.openZonesCount hcore
  have hptr : (bootDriver junk addr lba t).bridge.globalControllerPtr = _ :=
    congrArg Bridge.Core.globalControllerPtr hcore
  have hstart : SameDevice emptyManager (bootDriver junk addr lba t) := by
    refine ⟨_, Device.fresh, rfl, ⟨fun _ => rfl, fun _ => rfl⟩, hready, ?_, ?_⟩
    · rw [hmock, hcount]
      exact zoneTable_fresh
    · rw [Bridge.thermal, hptr]
      exact decide_eq_false (not_le.mpr ht)
  obtain ⟨m', d', oks, hm, hd, zones, dev, rfl, hz, -, htable, -⟩ :=
    transcript_rel NvmeSqe.LowWrite (@sameDevice_write fuel hfuel) hstart hsqes
  refine ⟨_, d', oks, zones, hm, hd, rfl, fun z => ⟨?_, ?_⟩, ?_⟩
  · apply BitVec.eq_of_toNat_eq
    rw [hz.wptr, BitVec.toNat_setWidth, (htable.encodes z).wptr]
    have hle : (dev.zones z).wptr ≤ 64 := (dev.zones z).wptr_le
    exact (Nat.mod_eq_of_lt (by omega)).symm
  · rw [hz.isFull, (htable.encodes z).full]
  · apply BitVec.eq_of_toNat_eq
    have hle : dev.nOpen ≤ 4 := dev.open_le
    rw [BitVec.toNat_setWidth, htable.count]
    exact hz.openZonesCountCheck.trans (Nat.mod_eq_of_lt (by omega)).symm

theorem golden_agrees_with_hardware_two_writes :
    ∃ m' d' oks zones, transcript goldenWrite emptyManager [⟨1, 0, 0, 0⟩, ⟨1, 1, 1, 0⟩] =
        some (m', oks) ∧
      transcript (hardwareWrite 6) (bootDriver ⟨.idle, 0, 0, false, 0, 0⟩ 0 0 35)
        [⟨1, 0, 0, 0⟩, ⟨1, 1, 1, 0⟩] = some (d', oks) ∧
      m'.znsZones = some zones ∧
      (∀ z : BitVec 10,
        (zones z.toNat).wptr = (zoneWptr (d'.bridge.mockBramStorage z)).setWidth 64 ∧
          (zones z.toNat).isFull = zoneIsFull (d'.bridge.mockBramStorage z)) ∧
      openZonesCountCheck zones m'.totalZnsZones = d'.bridge.fsm.openZonesCount.setWidth 64 :=
  golden_agrees_with_hardware (by decide) (by decide) (by unfold NvmeSqe.LowWrite; decide)

end ZnsFlash
