import ZnsFlash.Ssd.Flash
import ZnsFlash.Ssd.ZnsManager

/-!
# The gate of the controller and its software mirror

`Controller::direct_zns_gate` sends a command to the hardware and repeats an accepted one on the
software zones, through single bytes of the records.

* `ZnsZone.setRawByte`: the bytes of `wptr` as the gate addresses them;
* `SsdController`, `SsdController.directZnsGate`;
* `Mirrors`: software records and hardware words agree;
* **`mirrors_iff_faithful`**: the runs that keep the mirror are those whose calls are faithful.
-/

namespace ZnsFlash

open Zoned Runs

/-! ## Raw bytes of a zone record -/

namespace ZnsZone

/-- `raw_zone_ptr[k]` for one of the eight bytes of `wptr`, lowest first. -/
def rawByte (zone : ZnsZone) (k : ℕ) : BitVec 8 := zone.wptr.extractLsb' (8 * k) 8

/-- `raw_zone_ptr[k] = v` for one of the eight bytes of `wptr`. -/
def setRawByte (zone : ZnsZone) (k : ℕ) (v : BitVec 8) : ZnsZone :=
  { zone with wptr := (zone.wptr &&& ~~~(255#64 <<< (8 * k))) ||| (v.setWidth 64 <<< (8 * k)) }

/-- `raw_zone_ptr[0]++` -/
def gateWrite (zone : ZnsZone) : ZnsZone := zone.setRawByte 0 (zone.rawByte 0 + 1)

/-- `raw_zone_ptr[0] = 0; raw_zone_ptr[2]++` -/
def gateReset (zone : ZnsZone) : ZnsZone :=
  let zone := zone.setRawByte 0 0
  zone.setRawByte 2 (zone.rawByte 2 + 1)

end ZnsZone

theorem gateWrite_wptr {zone : ZnsZone} {p : BitVec 7} (h : zone.wptr = p.setWidth 64)
    (hp : p.toNat < 127) : zone.gateWrite.wptr = (p + 1).setWidth 64 := by
  have hbyte : ∀ q : BitVec 7, q.toNat < 127 →
      ((q.setWidth 64 &&& ~~~(255#64 <<< (8 * 0))) |||
        (((q.setWidth 64).extractLsb' (8 * 0) 8 + 1).setWidth 64 <<< (8 * 0))) =
          (q + 1).setWidth 64 := by
    decide +kernel
  unfold ZnsZone.gateWrite ZnsZone.setRawByte ZnsZone.rawByte
  rw [h]
  exact hbyte p hp

/-! ## The gate -/

/-- The software zones beside the driver and its hardware. -/
structure SsdController where
  driver : Driver
  znsZones : Option (ℕ → ZnsZone)
  totalZnsZones : BitVec 64

/-- The entry that the gate sends; an unknown operation leaves the cleared opcode. -/
def gateSqe (lba : BitVec 64) (isWrite : BitVec 32) : NvmeSqe where
  opcode := if isWrite = 1 then 0x01 else if isWrite = 0 then 0x02 else if isWrite = 2 then 0x79 else 0
  cid := 42
  slba := lba
  zsa := if isWrite = 2 then 0x04 else 0

/-- The change of the software record after an accepted command. -/
def gateMirror (isWrite : BitVec 32) (zone : ZnsZone) : ZnsZone :=
  if isWrite = 1 then zone.gateWrite else if isWrite = 2 then zone.gateReset else zone

/-- **`Controller::direct_zns_gate`**, with at most `fuel` polls of the driver. -/
def SsdController.directZnsGate (fuel : ℕ) (c : SsdController) (lba : BitVec 64)
    (isWrite : BitVec 32) : Option (SsdController × Status) :=
  let zoneId : BitVec 32 := (lba / 64).setWidth 32
  match c.driver.znsProcessNvmeCommand fuel (gateSqe lba isWrite) with
  | none => none
  | some (driver, cqe) =>
    let c := { c with driver }
    if cqe.status = 0 then
      match c.znsZones with
      | some zones =>
        if zoneId.setWidth 64 < c.totalZnsZones then
          let zones := Function.update zones zoneId.toNat (gateMirror isWrite (zones zoneId.toNat))
          some ({ c with znsZones := some zones }, .success)
        else some (c, .success)
      | none => some (c, .success)
    else some (c, .failure)

/-! ## The mirror -/

/-- The argument `is_write` of an operation. -/
def isWriteOf : Op → BitVec 32
  | .read => 0
  | .write => 1
  | .reset => 2

/-- A call of the gate below the 1024 zones, and the temperature at the time. -/
structure GateCall where
  lba : BitVec 64
  op : Op
  temperature : Option ℚ
  lba_lt : lba < 65536

/-- The controller at the temperature of a call. -/
def SsdController.heated (c : SsdController) (call : GateCall) : SsdController :=
  { c with driver := { c.driver with bridge :=
    { c.driver.bridge with globalControllerPtr := call.temperature } } }

/-- The state after a call. -/
def SsdController.gate (fuel : ℕ) (c : SsdController) (call : GateCall) : SsdController :=
  ((c.heated call).directZnsGate fuel call.lba (isWriteOf call.op)).elim c Prod.fst

/-- The record of a zone agrees with its hardware word. -/
def MirrorsWord (zone : ZnsZone) (w : BitVec 32) : Prop :=
  zone.wptr = (zoneWptr w).setWidth 64 ∧ zone.isFull = zoneIsFull w ∧
    zone.eraseCount = (zoneEraseCnt w).setWidth 64

/-- **Every record agrees with its hardware word.** -/
def Mirrors (zones : ℕ → ZnsZone) (mock : BitVec 10 → BitVec 32) : Prop :=
  ∀ z : BitVec 10, MirrorsWord (zones z.toNat) (mock z)

/-- The call returns, and leaves a mirror. -/
def KeepsMirror (fuel : ℕ) (c : SsdController) (call : GateCall) : Prop :=
  ((c.heated call).directZnsGate fuel call.lba (isWriteOf call.op)).isSome = true ∧
    ∃ zones, (c.gate fuel call).znsZones = some zones ∧
      Mirrors zones (c.gate fuel call).driver.bridge.mockBramStorage

/-- The hardware accepts the call. -/
def GateAccepts (c : SsdController) (call : GateCall) : Prop :=
  call.temperature.elim false checkThermalShutdown = false ∧
    PermitsWord call.op (call.lba.toNat % 64)
      (c.driver.bridge.mockBramStorage (lbaCell call.lba)) c.driver.bridge.fsm.openZonesCount

/-- **Faithful to the mirror**: a read that finds its own word in `bram_wdata`, or a write before
the last page of its zone. -/
def FaithfulWord (op : Op) (w bramWdata : BitVec 32) : Prop :=
  match op with
  | .read => bramWdata = w
  | .write => zoneWptr w ≠ 63
  | .reset => False

/-- A call that is refused, or faithful to the mirror. -/
def Faithful (c : SsdController) (call : GateCall) : Prop :=
  GateAccepts c call → FaithfulWord call.op (c.driver.bridge.mockBramStorage (lbaCell call.lba))
    c.driver.bridge.fsm.bramWdata

instance (c : SsdController) (call : GateCall) : Decidable (GateAccepts c call) :=
  inferInstanceAs (Decidable (_ ∧ _))

instance (op : Op) (w bramWdata : BitVec 32) : Decidable (FaithfulWord op w bramWdata) :=
  match op with
  | .read => inferInstanceAs (Decidable (bramWdata = w))
  | .write => inferInstanceAs (Decidable (zoneWptr w ≠ 63))
  | .reset => inferInstanceAs (Decidable False)

instance (c : SsdController) (call : GateCall) : Decidable (Faithful c call) :=
  inferInstanceAs (Decidable (_ → _))

/-- What holds between the calls of a run that keeps the mirror. -/
structure GateInv (c : SsdController) : Prop where
  ready : c.driver.bridge.Ready
  table : ∃ dev, ZoneTable c.driver.bridge.mockBramStorage c.driver.bridge.fsm.openZonesCount dev
  spare : SpareClear c.driver.bridge.fsm.bramWdata
  total : c.totalZnsZones = 1024
  mirrors : ∃ zones, c.znsZones = some zones ∧ Mirrors zones c.driver.bridge.mockBramStorage

section Step

variable {fuel : ℕ} {c : SsdController} {call : GateCall}

theorem hardwareCmd_gateSqe (lba : BitVec 64) (op : Op) :
    hardwareCmd (gateSqe lba (isWriteOf op)) = .ok (cmdOf op) := by
  cases op <;> simp [hardwareCmd, gateSqe, isWriteOf, cmdOf]

theorem zoneId_toNat {lba : BitVec 64} (h : lba < 65536) :
    ((lba / 64).setWidth 32).toNat = (lbaCell lba).toNat := by
  have hlt := (lbaCell lba).isLt
  rw [BitVec.toNat_setWidth, div_toNat h]
  exact Nat.mod_eq_of_lt (by omega)

theorem directZnsGate_failure {lba : BitVec 64} {op : BitVec 32} {d : Driver} {cqe : NvmeCqe}
    (h : c.driver.znsProcessNvmeCommand fuel (gateSqe lba op) = some (d, cqe))
    (hst : cqe.status ≠ 0) :
    c.directZnsGate fuel lba op = some ({ c with driver := d }, .failure) := by
  unfold SsdController.directZnsGate
  rw [h]
  exact if_neg hst

theorem directZnsGate_success {lba : BitVec 64} {op : BitVec 32} {d : Driver} {cqe : NvmeCqe}
    {zones : ℕ → ZnsZone}
    (h : c.driver.znsProcessNvmeCommand fuel (gateSqe lba op) = some (d, cqe))
    (hst : cqe.status = 0) (hlba : lba < 65536) (htotal : c.totalZnsZones = 1024)
    (hzones : c.znsZones = some zones) :
    c.directZnsGate fuel lba op =
      some ({ c with
        driver := d
        znsZones := some (Function.update zones (lbaCell lba).toNat
          (gateMirror op (zones (lbaCell lba).toNat))) }, .success) := by
  have hin : ((lba / 64).setWidth 32).setWidth 64 < c.totalZnsZones := by
    have hlt := (lbaCell lba).isLt
    rw [htotal, BitVec.lt_def, BitVec.toNat_setWidth, zoneId_toNat hlba, Nat.mod_eq_of_lt (by omega)]
    exact hlt
  unfold SsdController.directZnsGate
  rw [h]
  simp only [hst, if_true, hzones, hin, zoneId_toNat hlba]

theorem heated_ready (h : GateInv c) : (c.heated call).driver.bridge.Ready :=
  ⟨h.ready.rst, h.ready.ioTrigger, h.ready.idle, h.ready.we⟩

theorem gateAccepts_iff {dev : Device znsLimits (BitVec 10)}
    (ht : ZoneTable c.driver.bridge.mockBramStorage c.driver.bridge.fsm.openZonesCount dev) :
    GateAccepts c call ↔ call.temperature.elim false checkThermalShutdown = false ∧
      dev.refuses (lbaCell call.lba) call.op (call.lba.toNat % 64) = none := by
  rw [GateAccepts, permitsWord_iff (ht.encodes _), ht.count]

theorem gate_refused (hfuel : 6 ≤ fuel) (h : GateInv c) (hacc : ¬ GateAccepts c call) :
    KeepsMirror fuel c call ∧ GateInv (c.gate fuel call) := by
  obtain ⟨dev, ht⟩ := h.table
  obtain ⟨zones, hzones, hmirror⟩ := h.mirrors
  rw [gateAccepts_iff ht] at hacc
  rcases Driver.process_cases (d := (c.heated call).driver) (heated_ready h) hfuel ht
      (hardwareCmd_gateSqe call.lba call.op) call.lba_lt with
    ⟨-, d', cqe, hrun, hst, hready, hcore⟩ | ⟨hcool, hnone, -⟩
  · have hgate := directZnsGate_failure (c := c.heated call) hrun hst
    have hafter : c.gate fuel call = { c.heated call with driver := d' } := by
      rw [SsdController.gate, hgate]
      rfl
    have hmock : d'.bridge.mockBramStorage = _ := congrArg Bridge.Core.mockBramStorage hcore
    have hcount : d'.bridge.fsm.openZonesCount = _ := congrArg Bridge.Core.openZonesCount hcore
    have hwdata : d'.bridge.fsm.bramWdata = _ := congrArg Bridge.Core.bramWdata hcore
    have hm : Mirrors zones d'.bridge.mockBramStorage := by
      rw [hmock]
      exact hmirror
    refine ⟨⟨by rw [hgate]; rfl, zones, ?_, ?_⟩, ?_⟩
    · rw [hafter]
      exact hzones
    · rw [hafter]
      exact hm
    · rw [hafter]
      refine ⟨hready, ⟨dev, ?_⟩, ?_, h.total, zones, hzones, hm⟩
      · rw [hmock, hcount]
        exact ht
      · rw [hwdata]
        exact h.spare
  · exact absurd ⟨hcool, hnone⟩ hacc

/-- The words of a mirror determine it: after one cell of each side changed, the sides agree when
they agree there. -/
theorem mirrors_update {zones : ℕ → ZnsZone} {mock : BitVec 10 → BitVec 32}
    (h : Mirrors zones mock) (a : BitVec 10) (zone : ZnsZone) (w : BitVec 32) :
    Mirrors (Function.update zones a.toNat zone) (Function.update mock a w) ↔
      MirrorsWord zone w := by
  constructor
  · intro hm
    have ha := hm a
    rw [Function.update_self, Function.update_self] at ha
    exact ha
  · intro hz c
    by_cases hc : c = a
    · rw [hc, Function.update_self, Function.update_self]
      exact hz
    · rw [Function.update_of_ne hc, Function.update_of_ne fun he => hc (BitVec.eq_of_toNat_eq he)]
      exact h c

end Step

theorem setWidth_inj {k : ℕ} (hk : k ≤ 64) {x y : BitVec k} (h : x.setWidth 64 = y.setWidth 64) :
    x = y := by
  have hx := x.isLt
  have hy := y.isLt
  have hpow : 2 ^ k ≤ 2 ^ 64 := Nat.pow_le_pow_right (by decide) hk
  have hnat := congrArg BitVec.toNat h
  rw [BitVec.toNat_setWidth, BitVec.toNat_setWidth, Nat.mod_eq_of_lt (by omega),
    Nat.mod_eq_of_lt (by omega)] at hnat
  exact BitVec.eq_of_toNat_eq hnat

section Record

variable {zone : ZnsZone} {w wdata : BitVec 32}

theorem mirrorsWord_read (hspare : SpareClear w) (hwdata : SpareClear wdata)
    (hzone : MirrorsWord zone w) : MirrorsWord zone wdata ↔ wdata = w := by
  constructor
  · rintro ⟨hw, hf, he⟩
    rw [← packWord_fields hspare, ← packWord_fields hwdata,
      setWidth_inj (by decide) (hzone.1.symm.trans hw), hzone.2.1.symm.trans hf,
      setWidth_inj (by decide) (hzone.2.2.symm.trans he)]
  · rintro rfl
    exact hzone

theorem mirrorsWord_write (hlegal : LegalWord w) (hnot : zoneIsFull w = false)
    (hzone : MirrorsWord zone w) :
    MirrorsWord zone.gateWrite (executeWord 1 w wdata) ↔ zoneWptr w ≠ 63 := by
  obtain ⟨hw, hf, he⟩ := hzone
  rw [executeWord, if_pos rfl]
  by_cases h63 : zoneWptr w = 63
  · rw [if_pos h63]
    refine ⟨fun h => ?_, fun h => absurd h63 h⟩
    have hfull : zone.isFull = true := h.2.1.trans (zoneIsFull_packWord _ _ _)
    rw [hf, hnot] at hfull
    exact Bool.noConfusion hfull
  · rw [if_neg h63]
    refine ⟨fun _ => h63, fun _ => ⟨?_, ?_, ?_⟩⟩
    · have hlt : (zoneWptr w).toNat < 127 := by
        have := hlegal.1
        omega
      rw [zoneWptr_packWord, gateWrite_wptr hw hlt]
    · rw [zoneIsFull_packWord]
      exact hf.trans hnot
    · rw [zoneEraseCnt_packWord]
      exact he

theorem mirrorsWord_reset (hzone : MirrorsWord zone w) :
    ¬ MirrorsWord zone.gateReset (executeWord 2 w wdata) := by
  rintro ⟨-, -, he⟩
  have hword : executeWord 2 w wdata = packWord (zoneEraseCnt w + 1) false 0 := by
    rw [executeWord, if_neg (by decide), if_pos rfl, append_zero_eq_packWord]
    rfl
  rw [hword, zoneEraseCnt_packWord] at he
  have hsame : zoneEraseCnt w = zoneEraseCnt w + 1 :=
    setWidth_inj (by decide) (hzone.2.2.symm.trans he)
  have hone : ∀ e : BitVec 8, e ≠ e + 1 := by decide
  exact hone _ hsame

/-- **The record of an accepted call agrees with the new word** exactly when the call is
faithful. -/
theorem mirrorsWord_next {op : Op} {p : ℕ} {n : BitVec 4} (hlegal : LegalWord w)
    (hspare : SpareClear w) (hwdata : SpareClear wdata) (hzone : MirrorsWord zone w)
    (hacc : PermitsWord op p w n) :
    MirrorsWord (gateMirror (isWriteOf op) zone) (executeWord (cmdOf op) w wdata) ↔
      FaithfulWord op w wdata := by
  cases op with
  | read => exact mirrorsWord_read hspare hwdata hzone
  | write => exact mirrorsWord_write hlegal hacc.1 hzone
  | reset => exact iff_of_false (mirrorsWord_reset hzone) id

end Record

section Run

variable {fuel : ℕ} {c : SsdController} {call : GateCall}

/-- **An accepted call keeps the mirror** exactly when it is faithful, and then the next state is
again one of the run. -/
theorem gate_accepted (hfuel : 6 ≤ fuel) (h : GateInv c) (hacc : GateAccepts c call) :
    (KeepsMirror fuel c call ↔ Faithful c call) ∧
      (KeepsMirror fuel c call → GateInv (c.gate fuel call)) := by
  obtain ⟨dev, ht⟩ := h.table
  obtain ⟨zones, hzones, hmirror⟩ := h.mirrors
  have hnext := mirrorsWord_next ((ht.encodes _).legal) (ht.spare _) h.spare (hmirror _) hacc.2
  have hdev := (gateAccepts_iff ht).mp hacc
  rcases Driver.process_cases (d := (c.heated call).driver) (heated_ready h) hfuel ht
      (hardwareCmd_gateSqe call.lba call.op) call.lba_lt with
    ⟨hnot, -⟩ | ⟨-, -, d', cqe, hrun, hst, hready, -, hwdata, hmock, htable⟩
  · exact absurd hdev hnot
  have hgate := directZnsGate_success (c := c.heated call) hrun hst call.lba_lt h.total hzones
  have hafter : c.gate fuel call = { c.heated call with
      driver := d'
      znsZones := some (Function.update zones (lbaCell call.lba).toNat
        (gateMirror (isWriteOf call.op) (zones (lbaCell call.lba).toNat))) } := by
    rw [SsdController.gate, hgate]
    rfl
  -- only one zone and one word change, so the mirror holds if it holds there
  have hmirrors : Mirrors (Function.update zones (lbaCell call.lba).toNat
      (gateMirror (isWriteOf call.op) (zones (lbaCell call.lba).toNat)))
        d'.bridge.mockBramStorage ↔ FaithfulWord call.op
          (c.driver.bridge.mockBramStorage (lbaCell call.lba)) c.driver.bridge.fsm.bramWdata := by
    rw [hmock, ← hnext]
    exact mirrors_update hmirror _ _ _
  have hkeeps : KeepsMirror fuel c call ↔ Faithful c call := by
    rw [Faithful, KeepsMirror, hgate, hafter, ← hmirrors]
    constructor
    · rintro ⟨-, zones', hzones', hm⟩ -
      exact Option.some.inj hzones' ▸ hm
    · intro hm
      exact ⟨rfl, _, rfl, hm hacc⟩
  refine ⟨hkeeps, fun hk => ?_⟩
  have hfaith := hkeeps.mp hk hacc
  rw [hafter]
  refine ⟨hready, ⟨_, htable fun hop => ?_⟩, ?_, h.total, _, rfl, hmirrors.mpr hfaith⟩
  -- a read keeps the table when it stores back the word it has read
  · rw [hop] at hfaith
    exact hfaith
  · change SpareClear d'.bridge.fsm.bramWdata
    rw [hwdata]
    cases hop : call.op with
    | read => exact h.spare
    | write => exact spareClear_executeWord (.inl rfl) _
    | reset => exact spareClear_executeWord (.inr rfl) _

/-- The controller with empty software zones over a bridge fresh from start-up. -/
def bootController (junk : Validator) (addr : BitVec 32) (lba : BitVec 64) : SsdController :=
  ⟨bootDriver junk addr lba 35, some fun _ => ⟨0, false, 0⟩, 1024⟩

theorem mirrorsWord_zero : MirrorsWord ⟨0, false, 0⟩ 0 := ⟨by decide, by decide, by decide⟩

theorem gateInv_boot (junk : Validator) (addr : BitVec 32) (lba : BitVec 64) :
    GateInv (bootController junk addr lba) := by
  obtain ⟨hready, hcore⟩ := Bridge.ready_powerUp junk addr (some 35)
  have hmock : (bootController junk addr lba).driver.bridge.mockBramStorage = _ :=
    congrArg Bridge.Core.mockBramStorage hcore
  have hcount : (bootController junk addr lba).driver.bridge.fsm.openZonesCount = _ :=
    congrArg Bridge.Core.openZonesCount hcore
  have hwdata : (bootController junk addr lba).driver.bridge.fsm.bramWdata = _ :=
    congrArg Bridge.Core.bramWdata hcore
  refine ⟨hready, ⟨Device.fresh, ?_⟩, ?_, rfl, _, rfl, ?_⟩
  · rw [hmock, hcount]
    exact zoneTable_fresh
  · rw [hwdata]
    exact spareClear_zero
  · rw [hmock]
    exact fun _ => mirrorsWord_zero

/-- **The software mirror.** From empty zones on both sides, the calls that leave software records
and hardware words equal after each of them are the faithful ones. -/
theorem mirrors_iff_faithful (hfuel : 6 ≤ fuel) (junk : Validator) (addr : BitVec 32)
    (lba : BitVec 64) (calls : List GateCall) :
    Along (SsdController.gate fuel) (KeepsMirror fuel) (bootController junk addr lba) calls ↔
      Along (SsdController.gate fuel) Faithful (bootController junk addr lba) calls := by
  refine along_congr GateInv (fun c call h hk => ?_) (fun c call h => ?_)
    (gateInv_boot junk addr lba) calls
  · by_cases hacc : GateAccepts c call
    · exact (gate_accepted hfuel h hacc).2 hk
    · exact (gate_refused hfuel h hacc).2
  · by_cases hacc : GateAccepts c call
    · exact (gate_accepted hfuel h hacc).1
    · exact iff_of_true (gate_refused hfuel h hacc).1 fun h' => absurd h' hacc

theorem mirrors_iff_faithful_two_writes :
    Along (SsdController.gate 6) (KeepsMirror 6) (bootController ⟨.idle, 0, 0, false, 0, 0⟩ 0 0)
      [⟨0, .write, some 35, by decide⟩, ⟨1, .write, some 35, by decide⟩] :=
  (mirrors_iff_faithful (by decide) _ _ _ _).mpr (by decide)

/-- One reset of zone 0. -/
def oneReset : GateCall := ⟨0, .reset, some 35, by decide⟩

theorem gate_reset_breaks_mirror :
    ¬ Along (SsdController.gate 6) (KeepsMirror 6)
      (bootController ⟨.idle, 0, 0, false, 0, 0⟩ 0 0) [oneReset] := by
  rintro ⟨⟨-, zones, hzones, hm⟩, -⟩
  have hsoft : (((bootController ⟨.idle, 0, 0, false, 0, 0⟩ 0 0).gate 6 oneReset).znsZones.map
      fun z => (z 0).eraseCount) = some 0 := by decide
  have hhard : zoneEraseCnt (((bootController ⟨.idle, 0, 0, false, 0, 0⟩ 0 0).gate 6
      oneReset).driver.bridge.mockBramStorage 0) = 1 := by decide
  rw [hzones] at hsoft
  have hzero : (zones 0).eraseCount = 0 := Option.some.inj hsoft
  have hsame : (zones 0).eraseCount = _ := (hm 0).2.2
  rw [hhard, hzero] at hsame
  revert hsame
  decide

end Run

end ZnsFlash
