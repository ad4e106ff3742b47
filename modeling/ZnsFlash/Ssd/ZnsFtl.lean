import ZnsFlash.Ssd.Hardware
import ZnsFlash.Ssd.ZnsManager

/-!
# The zoned translation layer

`zns_ftl.cpp` under the checks of `zns_manager.cpp`, at any sizes of the device and any number of
zones.

* `FtlImplZns.address`, `FtlImplZns.write`: a zone is a block of the first plane;
* `ZnsManager.offer`, `ZnsManager.admitted`: the writes that the checks let through, in their order;
* `Admits`, `validate_write_zones`: when they do; `Admitted.next`: one write;
* **`admitted_in_order`**: each zone is filled from its start, no page twice;
* `ZnsDevice.serve`: what is admitted goes down the tree; `Block.programmed`: a block with its first
  pages written; `ZnsDevice.Lands`, `ZnsDevice.serveAll_spec`: the blocks after a run;
* **`zns_writes_land_iff`**: the run ends exactly when the zones that it writes are blocks of the first
  plane.
-/

namespace ZnsFlash

open Lockstep

/-! ## Writes that are admitted -/

/-- A write, and what was admitted before it. -/
def ZnsManager.offer (s : ZnsManager × List (BitVec 64)) (lba : BitVec 64) :
    ZnsManager × List (BitVec 64) :=
  let (m, ok) := s.1.validateAndAdvanceZns ⟨.write, lba⟩
  (m, if ok then s.2 ++ [lba] else s.2)

def ZnsManager.offerAll (m : ZnsManager) (lbas : List (BitVec 64)) : ZnsManager × List (BitVec 64) :=
  lbas.foldl offer (m, [])

theorem ZnsManager.offerAll_concat (m : ZnsManager) (lbas : List (BitVec 64)) (lba : BitVec 64) :
    m.offerAll (lbas ++ [lba]) = offer (m.offerAll lbas) lba := by
  simp [offerAll]

/-- **The writes that the checks let through.** -/
def ZnsManager.admitted (m : ZnsManager) (lbas : List (BitVec 64)) : List (BitVec 64) :=
  (m.offerAll lbas).2

/-- The zoned configuration of a device. -/
def DeviceSizes.znsManager (g : DeviceSizes) (total : BitVec 64) (zones : ℕ → ZnsZone) : ZnsManager :=
  ⟨5, g.blockSize, total, some zones⟩

theorem DeviceSizes.znsManager_inj {g : DeviceSizes} {total : BitVec 64} {zones zones' : ℕ → ZnsZone}
    (h : g.znsManager total zones = g.znsManager total zones') : zones = zones' :=
  Option.some.inj (congrArg ZnsManager.znsZones h)

/-- Zones that were never written. -/
def blankZones : ℕ → ZnsZone := fun _ => ⟨0, false, 0⟩

/-- `hard_block_size`: the pages of a zone. -/
def DeviceSizes.hardBlockSize (g : DeviceSizes) : BitVec 32 :=
  if 0 < g.blockSize then g.blockSize else 64

theorem DeviceSizes.hardBlockSize_pos (g : DeviceSizes) : 0 < g.hardBlockSize.toNat := by
  unfold hardBlockSize
  split_ifs with hpos
  · exact hpos
  · exact Nat.succ_pos _

theorem DeviceSizes.hardBlockSize_eq {g : DeviceSizes} (hpos : 0 < g.blockSize.toNat) :
    g.hardBlockSize = g.blockSize := if_pos hpos

/-- The zone of an address, and the page in it. -/
def DeviceSizes.zoneOf (g : DeviceSizes) (lba : BitVec 64) : ℕ := lba.toNat / g.hardBlockSize.toNat

def DeviceSizes.pageOf (g : DeviceSizes) (lba : BitVec 64) : ℕ := lba.toNat % g.hardBlockSize.toNat

/-- **The checks of a write.** -/
structure Admits (g : DeviceSizes) (total : BitVec 64) (zones : ℕ → ZnsZone) (lba : BitVec 64) :
    Prop where
  inDevice : g.zoneOf lba < total.toNat
  notFull : (zones (g.zoneOf lba)).isFull = false
  inOrder : g.pageOf lba = (zones (g.zoneOf lba)).wptr.toNat
  limit : (zones (g.zoneOf lba)).wptr = 0 → ¬ 4 ≤ openZonesCountCheck zones total

/-- The pointers are within their zones, and full zones are flagged. -/
def ZonesFormed (g : DeviceSizes) (zones : ℕ → ZnsZone) : Prop :=
  ∀ z, (zones z).wptr.toNat ≤ g.hardBlockSize.toNat ∧
    ((zones z).isFull = true ↔ (zones z).wptr.toNat = g.hardBlockSize.toNat)

section Validate

variable {g : DeviceSizes} {total : BitVec 64} {zones : ℕ → ZnsZone} {lba : BitVec 64}

variable (total zones lba) in
theorem validate_write_zones :
    (Admits g total zones lba ∧ (g.znsManager total zones).validateAndAdvanceZns ⟨.write, lba⟩ =
        (g.znsManager total (Function.update zones (g.zoneOf lba)
          ((zones (g.zoneOf lba)).advance (g.hardBlockSize.setWidth 64))), true)) ∨
      (¬ Admits g total zones lba ∧ (g.znsManager total zones).validateAndAdvanceZns ⟨.write, lba⟩ =
        (g.znsManager total zones, false)) := by
  have hsize : (if 0 < g.blockSize then g.blockSize.setWidth 64 else 64) =
      (g.hardBlockSize.setWidth 64 : BitVec 64) := by
    unfold DeviceSizes.hardBlockSize
    split_ifs <;> rfl
  have hpos := g.hardBlockSize_pos
  have hzone : (lba / g.hardBlockSize.setWidth 64).toNat = g.zoneOf lba :=
    toNat_rest lba g.hardBlockSize
  have hpage : ((lba % g.hardBlockSize.setWidth 64).setWidth 32).setWidth 64 =
      (zones (g.zoneOf lba)).wptr ↔ g.pageOf lba = (zones (g.zoneOf lba)).wptr.toNat := by
    rw [BitVec.toNat_eq, toNat_widened, toNat_digit lba hpos, DeviceSizes.pageOf]
  have htotal : total ≤ lba / g.hardBlockSize.setWidth 64 ↔ ¬ g.zoneOf lba < total.toNat := by
    rw [BitVec.le_def, hzone, not_lt]
  unfold ZnsManager.validateAndAdvanceZns DeviceSizes.znsManager
  simp only [ne_eq, not_true_eq_false, if_false, if_true, hsize, htotal, hzone, hpage]
  split_ifs with hin hfull hwptr hlimit
  · refine .inr ⟨fun h => ?_, rfl⟩
    exact absurd (h.notFull.symm.trans hfull) (by decide)
  · exact .inr ⟨fun h => h.limit hlimit.1 hlimit.2, rfl⟩
  · exact .inl ⟨⟨hin, Bool.eq_false_iff.mpr hfull, hwptr, fun h0 h4 => hlimit ⟨h0, h4⟩⟩, rfl⟩
  · exact .inr ⟨fun h => hwptr h.inOrder, rfl⟩
  · exact .inr ⟨fun h => hin h.inDevice, rfl⟩

theorem Admits.advance (h : Admits g total zones lba) (hz : ZonesFormed g zones) :
    ((zones (g.zoneOf lba)).advance (g.hardBlockSize.setWidth 64)).wptr.toNat =
        (zones (g.zoneOf lba)).wptr.toNat + 1 ∧
      ZonesFormed g (Function.update zones (g.zoneOf lba)
        ((zones (g.zoneOf lba)).advance (g.hardBlockSize.setWidth 64))) := by
  have hlt : (zones (g.zoneOf lba)).wptr.toNat < g.hardBlockSize.toNat := by
    rw [← h.inOrder]
    exact Nat.mod_lt _ g.hardBlockSize_pos
  have hsize := g.hardBlockSize.isLt
  have hnext : ((zones (g.zoneOf lba)).wptr + 1).toNat = (zones (g.zoneOf lba)).wptr.toNat + 1 := by
    rw [BitVec.toNat_add]
    exact Nat.mod_eq_of_lt (by change _ + 1 < 2 ^ 64; omega)
  refine ⟨hnext, fun z => ?_⟩
  by_cases hzone : z = g.zoneOf lba
  · subst hzone
    rw [Function.update_self]
    refine ⟨hnext.trans_le hlt, ?_⟩
    simp only [ZnsZone.advance, BitVec.le_def, toNat_widened, hnext, h.notFull]
    split_ifs with hfull
    · simp only [true_iff]
      omega
    · simp only [false_iff]
      omega
  · rw [Function.update_of_ne hzone]
    exact hz z

end Validate

/-- **The first pages of a zone**, as addresses. -/
def DeviceSizes.firstPages (g : DeviceSizes) (z count : ℕ) : List ℕ :=
  (List.range count).map fun page => z * g.hardBlockSize.toNat + page

/-- Those of the writes that go to one zone, as addresses. -/
def DeviceSizes.inZone (g : DeviceSizes) (lbas : List (BitVec 64)) (z : ℕ) : List ℕ :=
  (lbas.filter fun lba => g.zoneOf lba = z).map BitVec.toNat

/-- The open zones. -/
def openZones (zones : ℕ → ZnsZone) (total : BitVec 64) : Finset ℕ :=
  (Finset.range total.toNat).filter fun z => 0 < (zones z).wptr ∧ ¬ (zones z).isFull

theorem openZonesCountCheck_eq_card (zones : ℕ → ZnsZone) (total : BitVec 64) :
    (openZonesCountCheck zones total).toNat = (openZones zones total).card := by
  have hcount : (List.range total.toNat).countP (fun z => 0 < (zones z).wptr ∧ ¬ (zones z).isFull) =
      (openZones zones total).card := Nat.count_eq_card_filter_range _ _
  have hle : (openZones zones total).card ≤ total.toNat :=
    (Finset.card_filter_le _ _).trans_eq (Finset.card_range _)
  have hlt := total.isLt
  rw [openZonesCountCheck, foldl_count]
  change (0#64 + BitVec.ofNat 64 ((List.range total.toNat).countP _)).toNat = _
  rw [hcount, BitVec.zero_add, BitVec.toNat_ofNat]
  exact Nat.mod_eq_of_lt (hle.trans_lt hlt)

/-- The zones after some admitted writes. -/
structure Admitted (g : DeviceSizes) (total : BitVec 64) (zones : ℕ → ZnsZone)
    (log : List (BitVec 64)) :
    Prop where
  formed : ZonesFormed g zones
  limit : (openZones zones total).card ≤ 4
  inDevice : ∀ lba ∈ log, g.zoneOf lba < total.toNat
  inOrder : ∀ z, g.inZone log z = g.firstPages z (zones z).wptr.toNat

section Order

variable {g : DeviceSizes} {total : BitVec 64} {zones : ℕ → ZnsZone} {log : List (BitVec 64)}

theorem DeviceSizes.inZone_concat (lba : BitVec 64) (z : ℕ) :
    g.inZone (log ++ [lba]) z = g.inZone log z ++ if g.zoneOf lba = z then [lba.toNat] else [] := by
  rw [DeviceSizes.inZone, List.filter_append, List.map_append]
  by_cases h : g.zoneOf lba = z <;> simp [DeviceSizes.inZone, h]

theorem Admits.limit_kept {lba : BitVec 64} (h : Admits g total zones lba)
    (hlimit : (openZones zones total).card ≤ 4) (zone : ZnsZone) :
    (openZones (Function.update zones (g.zoneOf lba) zone) total).card ≤ 4 := by
  by_cases h0 : (zones (g.zoneOf lba)).wptr = 0
  · have hsub : openZones (Function.update zones (g.zoneOf lba) zone) total ⊆
        insert (g.zoneOf lba) (openZones zones total) := by
      intro z hz
      rw [Finset.mem_insert]
      by_cases hzone : z = g.zoneOf lba
      · exact .inl hzone
      · rw [openZones, Finset.mem_filter, Function.update_of_ne hzone] at hz
        exact .inr (Finset.mem_filter.mpr hz)
    have hfour : (4 : BitVec 64) ≤ openZonesCountCheck zones total ↔
        4 ≤ (openZones zones total).card := by
      rw [BitVec.le_def, openZonesCountCheck_eq_card]
      rfl
    have hroom := h.limit h0
    rw [hfour] at hroom
    have hcard := (Finset.card_le_card hsub).trans (Finset.card_insert_le _ _)
    omega
  · apply (Finset.card_le_card fun z hz => ?_).trans hlimit
    obtain ⟨hmem, hopen⟩ := Finset.mem_filter.mp hz
    refine Finset.mem_filter.mpr ⟨hmem, ?_⟩
    by_cases hzone : z = g.zoneOf lba
    · rw [hzone, h.notFull]
      exact ⟨(BitVec.pos_iff_ne_zero _).mpr h0, Bool.false_ne_true⟩
    · rwa [Function.update_of_ne hzone] at hopen

theorem Admitted.next (h : Admitted g total zones log) {lba : BitVec 64}
    (hlba : Admits g total zones lba) :
    Admitted g total (Function.update zones (g.zoneOf lba)
      ((zones (g.zoneOf lba)).advance (g.hardBlockSize.setWidth 64))) (log ++ [lba]) := by
  obtain ⟨hnext, hformed⟩ := hlba.advance h.formed
  refine ⟨hformed, hlba.limit_kept h.limit _, fun l hl => ?_, fun z => ?_⟩
  · rcases List.mem_append.mp hl with hl | hl
    · exact h.inDevice l hl
    · rw [List.mem_singleton.mp hl]
      exact hlba.inDevice
  · rw [DeviceSizes.inZone_concat, h.inOrder]
    by_cases hz : g.zoneOf lba = z
    · subst hz
      have hdiv : g.zoneOf lba * g.hardBlockSize.toNat + (zones (g.zoneOf lba)).wptr.toNat =
          lba.toNat := by
        rw [← hlba.inOrder]
        exact Nat.div_add_mod' lba.toNat g.hardBlockSize.toNat
      rw [if_pos rfl, Function.update_self, hnext, DeviceSizes.firstPages, DeviceSizes.firstPages,
        List.range_succ, List.map_append, List.map_singleton, hdiv]
    · rw [if_neg hz, List.append_nil, Function.update_of_ne (Ne.symm hz)]

theorem admitted_blank : Admitted g total blankZones [] where
  formed := fun _ => ⟨Nat.zero_le _, ⟨nofun, fun h => absurd h g.hardBlockSize_pos.ne⟩⟩
  limit := by simp [openZones, blankZones]
  inDevice := nofun
  inOrder := fun _ => rfl

variable (total) in
theorem offerAll_admitted (lbas : List (BitVec 64)) :
    ∃ zones, ((g.znsManager total blankZones).offerAll lbas).1 = g.znsManager total zones ∧
      Admitted g total zones ((g.znsManager total blankZones).admitted lbas) := by
  induction lbas using List.reverseRecOn with
  | nil => exact ⟨blankZones, rfl, admitted_blank⟩
  | append_singleton lbas lba ih =>
    obtain ⟨zones, hm, hlog⟩ := ih
    rw [ZnsManager.admitted] at hlog ⊢
    rw [ZnsManager.offerAll_concat, ZnsManager.offer, hm]
    rcases validate_write_zones total zones lba with ⟨hadmits, hrun⟩ | ⟨-, hrun⟩
    · rw [hrun]
      exact ⟨_, rfl, hlog.next hadmits⟩
    · rw [hrun]
      exact ⟨_, rfl, hlog⟩

end Order

/-- **Zones are written in order.** Whatever is sent to blank zones, what the checks let through of a
zone are its first pages from the start, each once; the pointer counts them, and the zone is full when
they are all of its pages. At most four zones are open at any time. -/
theorem admitted_in_order (g : DeviceSizes) (total : BitVec 64) (lbas : List (BitVec 64)) :
    ∃ zones, ((g.znsManager total blankZones).offerAll lbas).1 = g.znsManager total zones ∧
      (openZonesCountCheck zones total).toNat ≤ 4 ∧
      ∀ z, g.inZone ((g.znsManager total blankZones).admitted lbas) z =
          g.firstPages z (zones z).wptr.toNat ∧
        (zones z).wptr.toNat ≤ g.hardBlockSize.toNat ∧
        ((zones z).isFull = true ↔ (zones z).wptr.toNat = g.hardBlockSize.toNat) := by
  obtain ⟨zones, hm, h⟩ := offerAll_admitted total lbas
  refine ⟨zones, hm, ?_, fun z => ⟨h.inOrder z, h.formed z⟩⟩
  rw [openZonesCountCheck_eq_card]
  exact h.limit

/-! ## The way to the blocks -/

namespace FtlImplZns

/-- `phyAddress` of `FtlImpl_Zns::read` and of `FtlImpl_Zns::write`; nothing sets `real_address`. -/
def address (g : DeviceSizes) (junk logicalAddress : BitVec 64) : Address :=
  let lba : BitVec 32 := logicalAddress.setWidth 32
  let hardBlockSize : BitVec 32 := if 0 < g.blockSize then g.blockSize else 64
  let zoneId := lba / hardBlockSize
  let pageOffset := lba % hardBlockSize
  { Address.new junk with
    package := 0
    die := 0
    plane := 0
    block := zoneId
    page := pageOffset
    valid := .page }

/-- `FtlImpl_Zns::write`; nothing is replaced. -/
def write {g : DeviceSizes} (s : Ssd g.blockSize.toNat) (junk logicalAddress : BitVec 64) :
    Except Halt (Status × Ssd g.blockSize.toNat) := do
  let event : DeviceEvent := ⟨address g junk logicalAddress, .new junk, false⟩
  let (_, s) ← s.write event
  s.replace event

end FtlImplZns

/-- The zones, and the tree. -/
structure ZnsDevice (g : DeviceSizes) where
  manager : ZnsManager
  ssd : Ssd g.blockSize.toNat

namespace ZnsDevice

variable {g : DeviceSizes}

def new (g : DeviceSizes) (total : BitVec 64) (erases : ℕ) : ZnsDevice g :=
  ⟨g.znsManager total blankZones, .new g erases g.ssdSize⟩

/-- A write: what is admitted goes to the translation layer. -/
def serve (junk : BitVec 64) (d : ZnsDevice g) (lba : BitVec 64) : Except Halt (ZnsDevice g) :=
  let (m, ok) := d.manager.validateAndAdvanceZns ⟨.write, lba⟩
  if ok then do
    let (_, s) ← FtlImplZns.write d.ssd junk lba
    .ok ⟨m, s⟩
  else .ok { d with manager := m }

def serveAll (junk : BitVec 64) (d : ZnsDevice g) (lbas : List (BitVec 64)) : Except Halt
    (ZnsDevice g) :=
  lbas.foldlM (serve junk) d

end ZnsDevice

/-- **A block with its first pages written**, in order. -/
def Block.programmed {n : ℕ} (erases count : ℕ) : Block n :=
  { pages := fun i => if i < count then .valid else .empty
    pagesValid := count
    pagesInvalid := 0
    state := if count = 0 then .free else .active
    erasesRemaining := erases }

theorem Block.write_programmed {n : ℕ} (erases count : ℕ) :
    (Block.programmed erases count : Block n).write count = .programmed erases (count + 1) := by
  have hpages : Function.update (Block.programmed erases count : Block n).pages count .valid =
      (Block.programmed erases (count + 1) : Block n).pages := by
    funext i
    by_cases hi : i = count
    · simp [hi, Block.programmed]
    · have hlt : i < count + 1 ↔ i < count := by omega
      simp only [Function.update_of_ne hi, Block.programmed, hlt]
  unfold Block.write
  rw [hpages]
  simp [Block.programmed]

/-- The blocks of the first plane are the zones, and the others are as they were. -/
def zoneBlocks {n : ℕ} (erases : ℕ) (zones : ℕ → ZnsZone) (k : ℕ × ℕ × ℕ × ℕ) : Block n :=
  .programmed erases (if k.1 = 0 ∧ k.2.1 = 0 ∧ k.2.2.1 = 0 then (zones k.2.2.2).wptr.toNat else 0)

section Lands

variable {g : DeviceSizes} {total : BitVec 64} {zones : ℕ → ZnsZone} {lba : BitVec 64}
  (junk : BitVec 64)

theorem zoneBlocks_blank {n : ℕ} (erases : ℕ) (k : ℕ × ℕ × ℕ × ℕ) :
    zoneBlocks erases blankZones k = (.new erases : Block n) := by
  simp [zoneBlocks, blankZones, Block.programmed, Block.new]

theorem zoneBlocks_update {n : ℕ} (erases z : ℕ) {zone : ZnsZone}
    (hzone : zone.wptr.toNat = (zones z).wptr.toNat + 1) :
    (zoneBlocks erases (Function.update zones z zone) : _ → Block n) =
      Function.update (zoneBlocks erases zones) (0, 0, 0, z)
        (.programmed erases ((zones z).wptr.toNat + 1)) := by
  funext ⟨package, die, plane, block⟩
  by_cases hk : (package, die, plane, block) = (0, 0, 0, z)
  · rw [hk, Function.update_self]
    simp [zoneBlocks, hzone]
  · rw [Function.update_of_ne hk]
    unfold zoneBlocks
    dsimp only
    split_ifs with hfirst
    · have hblock : block ≠ z := fun h => hk (by rw [hfirst.1, hfirst.2.1, hfirst.2.2, h])
      rw [Function.update_of_ne hblock]
    · rfl

theorem FtlImplZns.address_eq (hpos : 0 < g.blockSize.toNat) (hlba : lba.toNat < 2 ^ 32) :
    (address g junk lba).blockPath = (0, 0, 0, g.zoneOf lba) ∧
      (address g junk lba).page.toNat = g.pageOf lba := by
  have hsize : (0 : BitVec 32) < g.blockSize := hpos
  have hlow : (lba.setWidth 32).toNat = lba.toNat := by
    rw [BitVec.toNat_setWidth, Nat.mod_eq_of_lt hlba]
  unfold FtlImplZns.address DeviceSizes.zoneOf DeviceSizes.pageOf
  rw [DeviceSizes.hardBlockSize_eq hpos]
  simp only [if_pos hsize, Address.blockPath, BitVec.toNat_udiv, BitVec.toNat_umod, hlow, and_true]
  rfl

theorem FtlImplZns.write_lands (hg : ∀ b ∈ g.radices, 0 < b) {s : Ssd g.blockSize.toNat}
    (hs : s.sizes = g.shape)
    {erases : ℕ} (hblocks : s.blocks = zoneBlocks erases zones) (hlba : lba.toNat < 2 ^ 32)
    (hplane : g.zoneOf lba < g.planeSize.toNat)
    (horder : g.pageOf lba = (zones (g.zoneOf lba)).wptr.toNat) :
    ∃ s', write s junk lba = .ok (.success, s') ∧ s'.sizes = g.shape ∧
      s'.blocks = Function.update (zoneBlocks erases zones) (0, 0, 0, g.zoneOf lba)
        (.programmed erases ((zones (g.zoneOf lba)).wptr.toNat + 1)) := by
  have hpos : 0 < g.blockSize.toNat := hg _ (by simp [DeviceSizes.radices])
  obtain ⟨hpath, hpage⟩ := FtlImplZns.address_eq junk hpos hlba
  have hpaths := hpath
  simp only [Address.blockPath, Prod.mk.injEq] at hpaths
  have htree : (address g junk lba).InTree g := by
    refine ⟨?_, ?_, ?_, ?_⟩
    · rw [hpaths.1]
      exact hg _ (by simp [DeviceSizes.radices])
    · rw [hpaths.2.1]
      exact hg _ (by simp [DeviceSizes.radices])
    · rw [hpaths.2.2.1]
      exact hg _ (by simp [DeviceSizes.radices])
    · rw [hpaths.2.2.2]
      exact hplane
  have hstep := Ssd.write_stepped (e := ⟨address g junk lba, .new junk, false⟩) hs htree
    (show 3 < 5 by decide)
  have hempty : (Block.programmed erases (zones (g.zoneOf lba)).wptr.toNat :
      Block g.blockSize.toNat).pages (zones (g.zoneOf lba)).wptr.toNat = .empty := if_neg (lt_irrefl _)
  have hlt : ¬ g.blockSize.toNat ≤ (zones (g.zoneOf lba)).wptr.toNat := by
    rw [← horder, not_le, ← DeviceSizes.hardBlockSize_eq hpos]
    exact Nat.mod_lt _ g.hardBlockSize_pos
  have hblock : zoneBlocks erases zones (0, 0, 0, g.zoneOf lba) =
      (.programmed erases (zones (g.zoneOf lba)).wptr.toNat : Block g.blockSize.toNat) := by
    simp [zoneBlocks]
  dsimp only at hstep
  rw [hpath, hpage, hblocks, hblock, horder, Block.perform, if_neg hlt, if_neg Bool.false_ne_true,
    if_pos hempty, Block.write_programmed] at hstep
  obtain ⟨q, hq, h⟩ := hstep.of_right rfl
  refine ⟨q.2, ?_, h.sizes.trans hs, h.blocks.trans (by rw [hblocks])⟩
  rw [write, hq]
  rfl

/-- **A write past the first plane** is stopped by its assertion. -/
theorem FtlImplZns.write_outside (hg : ∀ b ∈ g.radices, 0 < b) {s : Ssd g.blockSize.toNat}
    (hs : s.sizes = g.shape)
    (hlba : lba.toNat < 2 ^ 32) (hplane : ¬ g.zoneOf lba < g.planeSize.toNat) :
    write s junk lba = .error .badAddress := by
  have hpos : 0 < g.blockSize.toNat := hg _ (by simp [DeviceSizes.radices])
  obtain ⟨hpath, -⟩ := FtlImplZns.address_eq junk hpos hlba
  simp only [Address.blockPath, Prod.mk.injEq] at hpath
  obtain ⟨hpackage, hdie, hplaneIndex, hblock⟩ := hpath
  obtain ⟨hssdSize, hpackageSize, hdieSize, hplaneSize⟩ := s.sizes_eq hs 0 0 0
  have hone : ∀ b ∈ g.radices, 0 < b := hg
  simp only [DeviceSizes.radices, List.mem_cons, List.not_mem_nil, or_false, forall_eq_or_imp,
    forall_eq] at hone
  obtain ⟨-, -, hone₃, hone₂, hone₁⟩ := hone
  have hvalid : (address g junk lba).valid.level = 5 := rfl
  rw [write, Ssd.write, if_pos ⟨by rw [hpackage, hssdSize]; exact hone₁, by rw [hvalid]; decide⟩,
    Ssd.onPackage, if_pos (by rw [hpackage, hssdSize]; exact hone₁), hpackage, Package.write,
    if_pos ⟨by rw [hdie, hpackageSize]; exact hone₂, by rw [hvalid]; decide⟩, Package.onDie,
    if_pos (by rw [hdie, hpackageSize]; exact hone₂), hdie, Die.write,
    if_pos ⟨by rw [hplaneIndex, hdieSize]; exact hone₃, by rw [hvalid]; decide⟩, Die.onPlane,
    if_pos (by rw [hplaneIndex, hdieSize]; exact hone₃), hplaneIndex, Plane.write,
    if_neg fun h => hplane (by rw [← hblock, ← hplaneSize]; exact h.1)]
  rfl

/-- The device after a run. -/
structure ZnsDevice.Lands (d : ZnsDevice g) (total : BitVec 64) (erases : ℕ) (zones : ℕ → ZnsZone) :
    Prop where
  manager : d.manager = g.znsManager total zones
  sizes : d.ssd.sizes = g.shape
  blocks : d.ssd.blocks = zoneBlocks erases zones

theorem ZnsDevice.lands_new (total : BitVec 64) (erases : ℕ) :
    (ZnsDevice.new g total erases).Lands total erases blankZones where
  manager := rfl
  sizes := rfl
  blocks := by
    funext k
    rw [zoneBlocks_blank]
    rfl

theorem ZnsDevice.Lands.refused {d : ZnsDevice g} {erases : ℕ} (h : d.Lands total erases zones)
    (hrun : (g.znsManager total zones).validateAndAdvanceZns ⟨.write, lba⟩ =
      (g.znsManager total zones, false)) :
    d.serve junk lba = .ok d := by
  rw [ZnsDevice.serve, h.manager, hrun, ← h.manager]
  rfl

/-- **One write** that is admitted, of a zone in the first plane or not. -/
theorem ZnsDevice.Lands.admitted (hg : ∀ b ∈ g.radices, 0 < b) {d : ZnsDevice g} {erases : ℕ}
    (h : d.Lands total erases zones) (hlba : lba.toNat < 2 ^ 32)
    (hadmits : Admits g total zones lba) {zone : ZnsZone}
    (hrun : (g.znsManager total zones).validateAndAdvanceZns ⟨.write, lba⟩ =
      (g.znsManager total (Function.update zones (g.zoneOf lba) zone), true))
    (hzone : zone.wptr.toNat = (zones (g.zoneOf lba)).wptr.toNat + 1) :
    (g.zoneOf lba < g.planeSize.toNat → ∃ d', d.serve junk lba = .ok d' ∧
        d'.Lands total erases (Function.update zones (g.zoneOf lba) zone)) ∧
      (¬ g.zoneOf lba < g.planeSize.toNat → d.serve junk lba = .error .badAddress) := by
  rw [ZnsDevice.serve, h.manager, hrun]
  constructor
  · intro hplane
    obtain ⟨s, hs, hsizes, hblocks⟩ :=
      FtlImplZns.write_lands junk hg h.sizes h.blocks hlba hplane hadmits.inOrder
    rw [← zoneBlocks_update erases _ hzone] at hblocks
    refine ⟨⟨_, s⟩, ?_, rfl, hsizes, hblocks⟩
    dsimp only
    rw [if_pos rfl, hs]
    rfl
  · intro hplane
    dsimp only
    rw [if_pos rfl, FtlImplZns.write_outside junk hg h.sizes hlba hplane]
    rfl

theorem ZnsDevice.serveAll_spec (hg : ∀ b ∈ g.radices, 0 < b)
    (htotal : total.toNat * g.blockSize.toNat ≤ 2 ^ 32) (erases : ℕ) (lbas : List (BitVec 64)) :
    ((∀ lba ∈ (g.znsManager total blankZones).admitted lbas, g.zoneOf lba < g.planeSize.toNat) →
        ∃ d, (ZnsDevice.new g total erases).serveAll junk lbas = .ok d ∧
          ∀ zones, ((g.znsManager total blankZones).offerAll lbas).1 = g.znsManager total zones →
            d.Lands total erases zones) ∧
      ((¬ ∀ lba ∈ (g.znsManager total blankZones).admitted lbas, g.zoneOf lba < g.planeSize.toNat) →
        (ZnsDevice.new g total erases).serveAll junk lbas = .error .badAddress) := by
  have hpos : 0 < g.blockSize.toNat := hg _ (by simp [DeviceSizes.radices])
  -- on the last write; a device that has halted stays so
  induction lbas using List.reverseRecOn with
  | nil =>
    refine ⟨fun _ => ⟨_, rfl, fun zones hzones => ?_⟩, fun h => absurd (List.forall_mem_nil _) h⟩
    rw [← DeviceSizes.znsManager_inj hzones]
    exact lands_new total erases
  | append_singleton lbas lba ih =>
    obtain ⟨hfirst, houtside⟩ := ih
    obtain ⟨zones, hm, hlog⟩ := offerAll_admitted total lbas
    have hserve : (ZnsDevice.new g total erases).serveAll junk (lbas ++ [lba]) =
        (ZnsDevice.new g total erases).serveAll junk lbas >>= fun d => d.serve junk lba := by
      rw [ZnsDevice.serveAll, List.foldlM_append]
      simp only [List.foldlM_cons, List.foldlM_nil, bind_pure]
      rfl
    rw [hserve, ZnsManager.admitted, ZnsManager.offerAll_concat, ZnsManager.offer, hm]
    -- the checks let the last write through, or refuse it and it never comes to the layer
    rcases validate_write_zones total zones lba with ⟨hadmits, hrun⟩ | ⟨-, hrun⟩
    · have hlba : lba.toNat < 2 ^ 32 := by
        have hlt := Nat.lt_mul_of_div_lt hadmits.inDevice g.hardBlockSize_pos
        rw [DeviceSizes.hardBlockSize_eq hpos] at hlt
        exact hlt.trans_le htotal
      obtain ⟨hnext, -⟩ := hadmits.advance hlog.formed
      rw [hrun]
      simp only [if_true, List.mem_append, List.mem_singleton, or_imp, forall_and, forall_eq]
      constructor
      · rintro ⟨hold, hplane⟩
        obtain ⟨d, hd, hlands⟩ := hfirst hold
        obtain ⟨hnear, -⟩ := (hlands zones hm).admitted junk hg hlba hadmits hrun hnext
        obtain ⟨d', hd', hlands'⟩ := hnear hplane
        refine ⟨d', ?_, fun zones' hzones => ?_⟩
        · rw [hd]
          exact hd'
        · rw [← DeviceSizes.znsManager_inj hzones]
          exact hlands'
      · intro hnot
        by_cases hold : ∀ lba ∈ (g.znsManager total blankZones).admitted lbas,
          g.zoneOf lba < g.planeSize.toNat
        · obtain ⟨d, hd, hlands⟩ := hfirst hold
          obtain ⟨-, hfar⟩ := (hlands zones hm).admitted junk hg hlba hadmits hrun hnext
          rw [hd]
          exact hfar fun h => hnot ⟨hold, h⟩
        · rw [houtside hold]
          rfl
    · rw [hrun]
      simp only [Bool.false_eq_true, if_false]
      refine ⟨fun hold => ?_, fun hold => ?_⟩
      · obtain ⟨d, hd, hlands⟩ := hfirst hold
        refine ⟨d, ?_, fun zones' hzones => ?_⟩
        · rw [hd]
          exact (hlands zones hm).refused junk hrun
        · rw [← DeviceSizes.znsManager_inj hzones]
          exact hlands zones hm
      · rw [houtside hold]
        rfl

end Lands

/-- **What the zoned layer programs.** Writes that are admitted end at their blocks exactly when every
zone among them is a block of the first plane, and else an assertion fails. Then each zone has its first
pages written, as many as its pointer says, in order; nothing else on the device has changed. -/
theorem zns_writes_land_iff (g : DeviceSizes) (hg : ∀ b ∈ g.radices, 0 < b) (total : BitVec 64)
    (htotal : total.toNat * g.blockSize.toNat ≤ 2 ^ 32) (erases : ℕ) (junk : BitVec 64)
    (lbas : List (BitVec 64)) :
    ((∃ d, (ZnsDevice.new g total erases).serveAll junk lbas = .ok d) ↔
        ∀ lba ∈ (g.znsManager total blankZones).admitted lbas, g.zoneOf lba < g.planeSize.toNat) ∧
      ∀ d, (ZnsDevice.new g total erases).serveAll junk lbas = .ok d → ∃ zones,
        d.manager = g.znsManager total zones ∧ ∀ package die plane block : ℕ,
          d.ssd.blocks (package, die, plane, block) = .programmed erases
            (if package = 0 ∧ die = 0 ∧ plane = 0 then (zones block).wptr.toNat else 0) := by
  have hpos : 0 < g.blockSize.toNat := hg _ (by simp [DeviceSizes.radices])
  obtain ⟨hfirst, houtside⟩ := ZnsDevice.serveAll_spec junk hg htotal erases lbas
  have hiff : (∃ d, (ZnsDevice.new g total erases).serveAll junk lbas = .ok d) ↔
      ∀ lba ∈ (g.znsManager total blankZones).admitted lbas, g.zoneOf lba < g.planeSize.toNat := by
    constructor
    · rintro ⟨d, hd⟩
      by_contra hnot
      rw [houtside hnot] at hd
      cases hd
    · intro h
      obtain ⟨d, hd, -⟩ := hfirst h
      exact ⟨d, hd⟩
  refine ⟨hiff, fun d hd => ?_⟩
  obtain ⟨zones, hm, -⟩ := offerAll_admitted total lbas
  obtain ⟨d', hd', hlands⟩ := hfirst (hiff.mp ⟨d, hd⟩)
  obtain rfl := Except.ok.inj (hd.symm.trans hd')
  refine ⟨zones, (hlands zones hm).manager, fun package die plane block => ?_⟩
  rw [(hlands zones hm).blocks]
  rfl

/-- Zone 7 is in another plane. -/
theorem zns_writes_land_iff_smallDevice :
    (∃ d, (ZnsDevice.new smallDevice 9 3).serveAll 0 [0, 1, 7, 6] = .ok d) ∧
      ¬ ∃ d, (ZnsDevice.new smallDevice 9 3).serveAll 0 [0, 42] = .ok d := by
  have hiff := fun lbas =>
    (zns_writes_land_iff smallDevice (by decide) 9 (by decide) 3 0 lbas).1
  have hnear : (smallDevice.znsManager 9 blankZones).admitted [0, 1, 7, 6] = [0, 1, 6] := by
    decide +kernel
  have hfar : (smallDevice.znsManager 9 blankZones).admitted [0, 42] = [0, 42] := by decide +kernel
  rw [hiff, hiff, hnear, hfar]
  constructor
  · simp [DeviceSizes.zoneOf, DeviceSizes.hardBlockSize, smallDevice]
  · simp [DeviceSizes.zoneOf, DeviceSizes.hardBlockSize, smallDevice]

end ZnsFlash
