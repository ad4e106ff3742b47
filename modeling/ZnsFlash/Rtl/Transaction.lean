import ZnsFlash.Rtl.Controller

/-!
# Transactions of the RTL controller

The host raises the trigger with a command, an address and a thermal flag, holds them until the
status is final and drops the trigger.

* `HostCmd`, `HostCmd.raised`, `HostCmd.dropped`, `Completes`;
* **`completes_rejected`**, **`completes_approved`**: a transaction from a `Ready` state ends after
  five or six cycles, in a state given in closed form;
* **`cycle_refines_atomic`**: the run refines the atomic transition of the zone.
-/

namespace ZnsFlash

open Zoned Runs

/-! ## Held inputs -/

/-- One command of the host. -/
structure HostCmd where
  ioCmd : BitVec 8
  ioLba : BitVec 64
  thermal : Bool
  deriving DecidableEq

namespace HostCmd

variable (c : HostCmd)

def raised : HostIn := ⟨true, c.ioCmd, c.ioLba, c.thermal⟩

def dropped : HostIn := ⟨false, c.ioCmd, c.ioLba, c.thermal⟩

/-- The memory row the command works on. -/
def row : BitVec 12 := lbaRow c.ioLba

/-- The pins of the automaton while the command is held and its zone reads as `w`. -/
def pins (w : BitVec 32) : ValidatorPins where
  rst := false
  ioTrigger := true
  ioCmd := c.ioCmd
  validatedZoneId := (lbaZone c.ioLba).setWidth 32
  validatedTargetPage := (lbaPage c.ioLba).setWidth 32
  addrBoundError := decide (4096 ≤ lbaZone c.ioLba)
  thermalShutdownTripped := c.thermal
  bramRdata := w

end HostCmd

namespace Controller

variable (s : Controller) (c : HostCmd)

/-- The status is final. -/
def Final : Prop := FinalStatus s.fsm.outStatus

/-- The verdict of the rules checker on a command, on the present word of its zone. -/
def verdict : RuleVerdict := checkWord (c.pins (s.word c.row)) s.fsm.openZonesCount

/-- **The inputs are held until the status is final**: `n` cycles from `s`, ending in `s'`. -/
abbrev Completes (n : ℕ) (s' : Controller) : Prop :=
  Polls (fun t => t.clock c.raised) Final n s s'

/-- The state with a final status after a rejected command. -/
def rejected : Controller where
  resolver := Resolver.posedge topGeometry false c.ioLba
  fsm :=
    { s.fsm with
      currentState := .error, outStatus := 1, outErrCode := (s.verdict c).errorCode, bramWe := false }
  bram := ⟨s.bram.ram, s.word c.row⟩

/-- The state with a final status after an approved command. -/
def approved : Controller where
  resolver := Resolver.posedge topGeometry false c.ioLba
  fsm :=
    { currentState := .updateBram, outStatus := 3, outErrCode := 0, bramWe := false
      bramWdata := executeWord c.ioCmd (s.word c.row) s.fsm.bramWdata
      openZonesCount := znsResourcesTracker false c.ioCmd true (zoneWptr (s.word c.row))
        (zoneIsFull (s.word c.row)) s.fsm.openZonesCount }
  bram :=
    { ram := Function.update s.bram.ram c.row
        (executeWord c.ioCmd (s.word c.row) s.fsm.bramWdata)
      rdata := s.word c.row }

variable {s c}

theorem clock_eq (i : HostIn) : s.clock i =
    ⟨Resolver.posedge topGeometry false i.ioLba, s.fsm.posedge (s.pins false i),
      s.bram.posedge ((s.fsm.bramAddr (s.pins false i)).setWidth 12) s.fsm.bramWdata s.fsm.bramWe⟩ :=
  rfl

theorem iterate_fetch (hs : s.Ready) :
    (fun t => t.clock c.raised)^[3] s =
      ⟨Resolver.posedge topGeometry false c.ioLba,
        { s.fsm with currentState := .validate, outStatus := 2, bramWe := false },
        ⟨s.bram.ram, s.word c.row⟩⟩ := by
  obtain ⟨r, ⟨st, n, d, we, os, oe⟩, ram, rd⟩ := s
  obtain ⟨hst, hwe⟩ := hs
  change st = _ at hst
  change we = _ at hwe
  subst hst hwe
  rfl

theorem iterate_validate (hs : s.Ready) :
    (fun t => t.clock c.raised)^[4] s =
      ⟨Resolver.posedge topGeometry false c.ioLba,
        { s.fsm with
          currentState := if (s.verdict c).hasError then .error else .execute
          outStatus := 2, bramWe := false },
        ⟨s.bram.ram, s.word c.row⟩⟩ := by
  rw [Function.iterate_succ_apply', iterate_fetch hs, clock_eq, posedge_validate rfl rfl]
  rfl

theorem iterate_rejected (hs : s.Ready) (h : (s.verdict c).hasError = true) :
    (fun t => t.clock c.raised)^[5] s = s.rejected c := by
  rw [Function.iterate_succ_apply', iterate_validate hs, if_pos h]
  rfl

theorem iterate_execute (hs : s.Ready) (h : (s.verdict c).hasError = false) :
    (fun t => t.clock c.raised)^[5] s =
      { s.approved c with
        fsm := { (s.approved c).fsm with
          bramWe := true, outStatus := 2, outErrCode := s.fsm.outErrCode }
        bram := ⟨s.bram.ram, s.word c.row⟩ } := by
  rw [Function.iterate_succ_apply', iterate_validate hs, h]
  rfl

theorem iterate_approved (hs : s.Ready) (h : (s.verdict c).hasError = false) :
    (fun t => t.clock c.raised)^[6] s = s.approved c := by
  rw [Function.iterate_succ_apply', iterate_execute hs h]
  rfl

theorem not_final_of_le_four (hs : s.Ready) {k : ℕ} (h0 : 0 < k) (h4 : k ≤ 4) :
    ¬ Final ((fun t => t.clock c.raised)^[k] s) := by
  have h2 : ¬ FinalStatus 2 := by decide
  rcases (by omega : k = 1 ∨ k = 2 ∨ k = 3 ∨ k = 4) with rfl | rfl | rfl | rfl
  · rw [Function.iterate_one, clock_eq, posedge_idle rfl hs.1]
    change ¬ FinalStatus 0
    decide
  · obtain ⟨r, ⟨st, n, d, we, os, oe⟩, ram, rd⟩ := s
    obtain ⟨hst, -⟩ := hs
    change st = _ at hst
    subst hst
    exact h2
  · rw [iterate_fetch hs]
    exact h2
  · rw [iterate_validate hs]
    exact h2

/-- **A rejected command** ends after five cycles with status `1`. -/
theorem completes_rejected (hs : s.Ready) (h : (s.verdict c).hasError = true) :
    s.Completes c 5 (s.rejected c) where
  pos := by decide
  reaches := iterate_rejected hs h
  final := .inl rfl
  before k h0 hk := not_final_of_le_four hs h0 (by omega)

/-- **An approved command** ends after six cycles with status `3`. -/
theorem completes_approved (hs : s.Ready) (h : (s.verdict c).hasError = false) :
    s.Completes c 6 (s.approved c) where
  pos := by decide
  reaches := iterate_approved hs h
  final := .inr rfl
  before k h0 hk := by
    by_cases h5 : k = 5
    · subst h5
      rw [iterate_execute hs h]
      change ¬ FinalStatus 2
      decide
    · exact not_final_of_le_four hs h0 (by omega)

/-- **Every command completes**, in one of the two closed forms. -/
theorem completes_cases (hs : s.Ready) {n : ℕ} {s' : Controller} (h : s.Completes c n s') :
    ((s.verdict c).hasError = true ∧ s' = s.rejected c) ∨
      ((s.verdict c).hasError = false ∧ s' = s.approved c) := by
  cases hv : (s.verdict c).hasError with
  | true => exact .inl ⟨rfl, h.unique (completes_rejected hs hv)⟩
  | false => exact .inr ⟨rfl, h.unique (completes_approved hs hv)⟩

/-! ## Dropping the trigger -/

theorem clock_dropped_approved :
    (s.approved c).clock c.dropped =
      { s.approved c with
        fsm := { (s.approved c).fsm with currentState := .idle }
        bram := ⟨(s.approved c).bram.ram, (s.approved c).word c.row⟩ } := rfl

/-- **The trigger dropped after the final status** leads back to a ready state. -/
theorem ready_of_completes (hs : s.Ready) {n : ℕ} {s' : Controller} (h : s.Completes c n s') :
    (s'.clock c.dropped).Ready := by
  rcases completes_cases hs h with ⟨-, rfl⟩ | ⟨-, rfl⟩
  · exact ⟨rfl, rfl⟩
  · exact ⟨rfl, rfl⟩

/-- Cycles with the trigger low keep a ready state and touch neither memory nor counter. -/
theorem clock_idle (hs : s.Ready) {i : HostIn} (hi : i.ioTrigger = false) :
    (s.clock i).Ready ∧ (s.clock i).bram.ram = s.bram.ram ∧
      (s.clock i).fsm.openZonesCount = s.fsm.openZonesCount ∧
      (s.clock i).fsm.bramWdata = s.fsm.bramWdata := by
  rw [clock_eq, posedge_idle rfl hs.1]
  have hi' : (s.pins false i).ioTrigger = false := hi
  refine ⟨⟨?_, rfl⟩, ?_, rfl, rfl⟩
  · simp [hi']
  · simp [Bram.posedge, hs.2]

end Controller

/-! ## The atomic transition -/

theorem lbaPage_toNat (lba : BitVec 64) : (lbaPage lba).toNat = lba.toNat % 64 := by
  rw [lbaPage, BitVec.toNat_and]
  exact Nat.and_two_pow_sub_one_eq_mod lba.toNat 6

theorem lbaPage_setWidth_toNat (lba : BitVec 64) :
    ((lbaPage lba).setWidth 32).toNat = (lbaPage lba).toNat := by
  have := Nat.mod_lt lba.toNat (show 0 < 64 by decide)
  rw [BitVec.toNat_setWidth, lbaPage_toNat]
  exact Nat.mod_eq_of_lt (by omega)

theorem HostCmd.row_toNat {c : HostCmd} (h : lbaZone c.ioLba < 4096) :
    c.row.toNat = (lbaZone c.ioLba).toNat := by
  have h' : (lbaZone c.ioLba).toNat < 4096 := BitVec.lt_def.mp h
  rw [HostCmd.row, lbaRow, BitVec.toNat_setWidth, BitVec.toNat_setWidth, Nat.mod_eq_of_lt (by omega),
    Nat.mod_eq_of_lt (by omega)]

/-- The code of the first rule that a command breaks, `0` when it breaks none: the thermal flag,
then the rules of the zone, then the bound of the geometry. -/
def atomicCode (c : HostCmd) (op : Op) (nOpen : ℕ) (z : Zone znsLimits) : BitVec 8 :=
  if c.thermal then 8
  else zoneCode (refusal nOpen z op (lbaPage c.ioLba).toNat) (4096 ≤ lbaZone c.ioLba)

/-- When a command is to be approved, on the word `w` of its zone and the open counter `n`. -/
def Permitted (c : HostCmd) (op : Op) (w : BitVec 32) (n : BitVec 4) : Prop :=
  c.thermal = false ∧ lbaZone c.ioLba < 4096 ∧ PermitsWord op (lbaPage c.ioLba).toNat w n

section Atomic

variable {s : Controller} {c : HostCmd} {op : Op} {z : Zone znsLimits}

theorem verdict_errorCode (hz : Encodes (s.word c.row) z) (hop : c.ioCmd = cmdOf op) :
    (s.verdict c).errorCode = atomicCode c op s.fsm.openZonesCount.toNat z := by
  have h := errorCode_eq_refusal (p := c.pins (s.word c.row)) (n := s.fsm.openZonesCount) hz hop
  rw [Controller.verdict, h, atomicCode]
  simp only [HostCmd.pins, lbaPage_setWidth_toNat]

theorem verdict_hasError_false (hz : Encodes (s.word c.row) z) (hop : c.ioCmd = cmdOf op) :
    (s.verdict c).hasError = false ↔ atomicCode c op s.fsm.openZonesCount.toNat z = 0 := by
  rw [← verdict_errorCode hz hop, ← Bool.not_eq_true, Controller.verdict, checkWord_hasError,
    not_not]

theorem atomicCode_eq_zero {n : ℕ} :
    atomicCode c op n z = 0 ↔ c.thermal = false ∧ lbaZone c.ioLba < 4096 ∧
      refusal n z op (lbaPage c.ioLba).toNat = none := by
  rw [atomicCode, ← BitVec.not_le]
  cases c.thermal with
  | true => simp
  | false =>
    cases refusal n z op (lbaPage c.ioLba).toNat with
    | none => simp [zoneCode]
    | some r => simpa [zoneCode] using refusalCode_ne_zero r

theorem permitted_iff (hz : Encodes (s.word c.row) z) :
    Permitted c op (s.word c.row) s.fsm.openZonesCount ↔
      atomicCode c op s.fsm.openZonesCount.toNat z = 0 := by
  rw [atomicCode_eq_zero, Permitted, permitsWord_iff hz]

end Atomic

/-- The change of memory and counter by an atomic command: what a permitted command leaves in the
row of its zone, and nothing else. -/
structure AtomicEffect (c : HostCmd) (op : Op) (s t : Controller) : Prop where
  /-- A permitted write moves the pointer by one and sets the full bit exactly at 64. -/
  write : Permitted c op (s.word c.row) s.fsm.openZonesCount → op = .write →
    (zoneWptr (t.word c.row)).toNat = (zoneWptr (s.word c.row)).toNat + 1 ∧
      (zoneIsFull (t.word c.row) = true ↔ (zoneWptr (t.word c.row)).toNat = 64) ∧
      zoneEraseCnt (t.word c.row) = zoneEraseCnt (s.word c.row) ∧ SpareClear (t.word c.row)
  /-- A permitted reset empties the zone and counts the erase. -/
  reset : Permitted c op (s.word c.row) s.fsm.openZonesCount → op = .reset →
    zoneWptr (t.word c.row) = 0 ∧ zoneIsFull (t.word c.row) = false ∧
      (zoneEraseCnt (t.word c.row)).toNat = (zoneEraseCnt (s.word c.row)).toNat + 1 ∧
      SpareClear (t.word c.row)
  /-- A permitted read stores the word that the last write or reset left in `bram_wdata`. -/
  read : Permitted c op (s.word c.row) s.fsm.openZonesCount → op = .read →
    t.word c.row = s.fsm.bramWdata
  /-- The counter moves by the tracker's rule. -/
  counter : Permitted c op (s.word c.row) s.fsm.openZonesCount →
    t.fsm.openZonesCount = znsResourcesTracker false c.ioCmd true (zoneWptr (s.word c.row))
      (zoneIsFull (s.word c.row)) s.fsm.openZonesCount
  /-- The row is that of the addressed zone. -/
  row : Permitted c op (s.word c.row) s.fsm.openZonesCount →
    c.row.toNat = (lbaZone c.ioLba).toNat
  /-- Every other zone keeps its word. -/
  others : ∀ a ≠ c.row, t.word a = s.word a
  /-- A command that is not permitted has no effect. -/
  refused : ¬ Permitted c op (s.word c.row) s.fsm.openZonesCount →
    t.bram.ram = s.bram.ram ∧ t.fsm.openZonesCount = s.fsm.openZonesCount

section Refinement

variable {s : Controller} {c : HostCmd} {op : Op}

theorem atomicEffect_rejected (hp : ¬ Permitted c op (s.word c.row) s.fsm.openZonesCount) :
    AtomicEffect c op s ((s.rejected c).clock c.dropped) where
  write h := absurd h hp
  reset h := absurd h hp
  read h := absurd h hp
  counter h := absurd h hp
  row h := absurd h hp
  others _ _ := rfl
  refused _ := ⟨rfl, rfl⟩

theorem atomicEffect_approved (hl : LegalWord (s.word c.row)) (hop : c.ioCmd = cmdOf op)
    (hp : Permitted c op (s.word c.row) s.fsm.openZonesCount) :
    AtomicEffect c op s ((s.approved c).clock c.dropped) where
  write hperm h := by
    subst h
    have hz := hl.encodes
    -- the pages fit seven bits, so the pointer does not wrap
    have hcap : hl.zone.wptr < 64 := (refusal_write_eq_none.mp
      (atomicCode_eq_zero.mp ((permitted_iff hz).mp hperm)).2.2).1
    obtain ⟨hw, he⟩ := Zone.next_write (L := znsLimits) hcap
    have henc := encodes_executeWord_write hz hcap s.fsm.bramWdata
    have hword : ((s.approved c).clock c.dropped).word c.row =
        executeWord 1 (s.word c.row) s.fsm.bramWdata := by
      rw [Controller.clock_dropped_approved]
      simp only [Controller.approved, Controller.word, Function.update_self, hop, cmdOf]
    rw [hword]
    refine ⟨henc.wptr.trans hw, henc.legal.2.1, ?_, spareClear_executeWord (.inl rfl) _⟩
    rw [BitVec.toNat_eq, henc.erases, he, hz.erases]
  reset hperm h := by
    subst h
    have hz := hl.encodes
    -- ten erases at most were allowed, so the count does not wrap either
    have her : hl.zone.erases < 10 := refusal_reset_eq_none.mp
      (atomicCode_eq_zero.mp ((permitted_iff hz).mp hperm)).2.2
    obtain ⟨hw, he⟩ := Zone.next_reset (L := znsLimits) her
    have henc := encodes_executeWord_reset hz her s.fsm.bramWdata
    have hword : ((s.approved c).clock c.dropped).word c.row =
        executeWord 2 (s.word c.row) s.fsm.bramWdata := by
      rw [Controller.clock_dropped_approved]
      simp only [Controller.approved, Controller.word, Function.update_self, hop, cmdOf]
    rw [hword]
    refine ⟨?_, ?_, henc.erases.trans (he.trans (by rw [hz.erases])),
      spareClear_executeWord (.inr rfl) _⟩
    · rw [henc.wptr_eq, hw]
      rfl
    · rw [henc.full, decide_eq_false_iff_not, Zone.IsFull, hw]
      decide
  read hperm h := by
    subst h
    rw [Controller.clock_dropped_approved]
    simp only [Controller.approved, Controller.word, Function.update_self, hop, cmdOf]
    rfl
  counter _ := rfl
  row hperm := HostCmd.row_toNat hperm.2.1
  others a ha := by
    rw [Controller.clock_dropped_approved]
    exact Function.update_of_ne ha _ _
  refused h := absurd hp h

/-- **The cycle-level automaton refines the atomic transition.** From a quiet state over legal
words, every held command ends with status `3` exactly when it is permitted and with status `1` and
the code of the first broken rule otherwise; once the trigger is dropped the automaton is idle again
and the memory has changed as the atomic command says. -/
theorem cycle_refines_atomic (hs : s.Ready) (hst : s.fsm.outStatus = 0)
    (hl : ∀ a, LegalWord (s.word a)) (hop : c.ioCmd = cmdOf op) :
    ∃ n s', s.Completes c n s' ∧ ¬ s.Final ∧
      (s'.fsm.outStatus = 3 ↔ Permitted c op (s.word c.row) s.fsm.openZonesCount) ∧
      (s'.fsm.outStatus ≠ 3 → s'.fsm.outStatus = 1) ∧
      s'.fsm.outErrCode = atomicCode c op s.fsm.openZonesCount.toNat (hl c.row).zone ∧
      (s'.clock c.dropped).Ready ∧ AtomicEffect c op s (s'.clock c.dropped) := by
  have hz := (hl c.row).encodes
  have hnf : ¬ s.Final := by
    rw [Controller.Final, hst]
    decide
  cases hv : (s.verdict c).hasError with
  | true =>
    have hp : ¬ Permitted c op (s.word c.row) s.fsm.openZonesCount := by
      rw [permitted_iff hz, ← verdict_hasError_false hz hop, hv]
      exact Bool.noConfusion
    have hc := Controller.completes_rejected hs hv
    refine ⟨5, _, hc, hnf, ⟨fun h => absurd h (by change ¬ (1#8 = 3#8); decide), fun h => absurd h hp⟩,
      fun _ => rfl, ?_, Controller.ready_of_completes hs hc, atomicEffect_rejected hp⟩
    rw [← verdict_errorCode hz hop]
    rfl
  | false =>
    have h0 := (verdict_hasError_false hz hop).mp hv
    have hp := (permitted_iff hz).mpr h0
    have hc := Controller.completes_approved hs hv
    refine ⟨6, _, hc, hnf, ⟨fun _ => hp, fun _ => rfl⟩, fun h => absurd rfl h, ?_,
      Controller.ready_of_completes hs hc, atomicEffect_approved (hl c.row) hop hp⟩
    rw [h0]
    rfl

theorem cycle_refines_atomic_first_write :
    ∃ n s', Controller.quiet.Completes ⟨1, 0, false⟩ n s' ∧ s'.fsm.outStatus = 3 ∧
      zoneWptr ((s'.clock (HostCmd.dropped ⟨1, 0, false⟩)).word 0) = 1 := by
  have hl : ∀ a, LegalWord (Controller.quiet.word a) := fun _ => encodes_zero.legal
  obtain ⟨n, s', hc, -, hiff, -, -, -, heff⟩ :=
    @cycle_refines_atomic Controller.quiet ⟨1, 0, false⟩ .write ⟨rfl, rfl⟩ rfl hl rfl
  have hp : Permitted ⟨1, 0, false⟩ .write 0 0 := by
    unfold Permitted PermitsWord
    decide
  refine ⟨n, s', hc, hiff.mpr hp, ?_⟩
  have hw := (heff.write hp rfl).1
  exact BitVec.eq_of_toNat_eq hw

end Refinement

end ZnsFlash
