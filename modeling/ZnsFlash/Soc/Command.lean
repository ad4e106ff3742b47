import ZnsFlash.Soc.Csr

/-!
# Commands over the bus

A master writes address and opcode, raises the trigger, reads `nvme_status` until it is no longer
`1`, and drops the trigger. It may wait for any number of cycles before every transfer.

* `Soc.put`, `Soc.get`, `Soc.pollStatus`, **`Soc.command`**: the program of the master;
* `Soc.Shows`, `Soc.Models`: the SoC with an idle bus, and between two commands;
* **`pollStatus_held`**: the loop ends within four reads, with the final status;
* `deviceCommand`: the same command as a step of a `Zoned.Device`;
* **`transcript_soc`**: every run of write and reset commands is a run of the device.
-/

namespace ZnsFlash

open Zoned Runs

/-- The word address of a register. -/
def CsrReg.adr : CsrReg → BitVec 30
  | .sqTailDb => 0
  | .cqHeadDb => 1
  | .nvmeOpcode => 2
  | .nvmeNsid => 3
  | .nvmeLbaLo => 4
  | .nvmeLbaHi => 5
  | .nvmeBlocks => 6
  | .trigger => 7
  | .nvmeStatus => 8
  | .errCode => 9
  | .temperature => 10
  | .plpTrigger => 11
  | .cryptoErase => 12

theorem csrSelect_adr (reg : CsrReg) : csrSelect (reg.adr.setWidth 14) = some reg := by
  cases reg <;> decide

namespace Soc

/-! ## The program of the master -/

/-- Cycles without a request. -/
def wait (n : ℕ) (s : Soc) : Soc := (fun s => s.posedge false busIdle)^[n] s

/-- A register is written after a pause. -/
def put (gap : ℕ) (reg : CsrReg) (dat : BitVec 32) (s : Soc) : Soc :=
  ((s.wait gap).transfer (busWrite reg.adr dat)).1

/-- A register is read after a pause. -/
def get (gap : ℕ) (reg : CsrReg) (s : Soc) : Soc × BitVec 32 :=
  (s.wait gap).transfer (busRead reg.adr)

/-- `nvme_status` is read until it is not `1`; `none` when the master gives up. -/
def pollStatus : ℕ → (ℕ → ℕ) → Soc → Option (Soc × BitVec 32)
  | 0, _, _ => none
  | fuel + 1, gaps, s =>
    let (s, status) := s.get (gaps 0) .nvmeStatus
    if status = 1 then pollStatus fuel (fun k => gaps (k + 1)) s else some (s, status)

end Soc

/-- A command of the master with its pauses: before each of the five writes, and before each read of the
status. -/
structure SocRequest where
  op : Op
  lba : BitVec 64
  gaps : Fin 5 → ℕ
  polls : ℕ → ℕ

/-- **A command over the bus**, with the status it ends with. The opcode goes to `io_cmd` as it is. -/
def Soc.command (fuel : ℕ) (s : Soc) (q : SocRequest) : Option (Soc × BitVec 32) := do
  let s := s.put (q.gaps 0) .nvmeLbaLo (q.lba.setWidth 32)
  let s := s.put (q.gaps 1) .nvmeLbaHi ((q.lba >>> 32).setWidth 32)
  let s := s.put (q.gaps 2) .nvmeOpcode ((cmdOf q.op).setWidth 32)
  let s := s.put (q.gaps 3) .trigger 1
  let (s, status) ← s.pollStatus fuel q.polls
  some (s.put (q.gaps 4) .trigger 0, status)

/-- The command as the controller sees it. -/
def SocRequest.hostCmd (q : SocRequest) : HostCmd := ⟨cmdOf q.op, q.lba, false⟩

/-- What the storages `csr` drive on the inputs of a controller that is not overheated. -/
def CsrBank.hostIn (csr : CsrBank) : HostIn := ⟨csr.trigger, csr.nvmeOpcode, csr.lba, false⟩

/-- The word of `nvme_status`. -/
def statusWord (t : Controller) : BitVec 32 :=
  (nvmeStatusField t.fsm.outStatus t.fsm.outErrCode).setWidth 32

namespace Soc

variable {s : Soc} {csr : CsrBank} {core : Controller}

/-! ## Cycles and transfers -/

/-- The bridge waits for a request, the bank holds `csr`, the controller is in state `core`, and the
thermal flag is low. -/
structure Shows (s : Soc) (csr : CsrBank) (core : Controller) : Prop where
  temperature : s.temperature = 0
  tripped : s.tripped = false
  fsm0 : s.fsm0 = false
  csr : s.csr = csr
  core : s.core = core

theorem Shows.hostIn (h : Shows s csr core) : s.hostIn = csr.hostIn := by
  rw [Soc.hostIn, h.csr, h.tripped]
  rfl

theorem tripped_posedge (h : s.temperature = 0) (i : Wishbone) :
    (s.posedge false i).tripped = false := by
  show znsThermalManager false s.temperature = false
  rw [h]
  rfl

theorem Shows.idle (h : Shows s csr core) :
    Shows (s.posedge false busIdle) csr (core.clock csr.hostIn) where
  temperature := h.temperature
  tripped := tripped_posedge h.temperature _
  fsm0 := by simp [posedge, h.fsm0, busIdle]
  csr := by
    show s.csrNext busIdle = csr
    rw [csrNext_of_quiet busWe_idle, h.csr]
  core := by
    show s.core.clock s.hostIn = _
    rw [h.hostIn, h.core]

theorem Shows.wait (h : Shows s csr core) (n : ℕ) :
    Shows (s.wait n) csr ((fun t => t.clock csr.hostIn)^[n] core) := by
  induction n with
  | zero => exact h
  | succ n ih =>
    rw [Soc.wait, Function.iterate_succ_apply', Function.iterate_succ_apply']
    exact ih.idle

/-- **A write** takes two cycles; the controller sees the new storages in the second. -/
theorem Shows.put (h : Shows s csr core) (gap : ℕ) (reg : CsrReg) (dat : BitVec 32) :
    Shows (s.put gap reg dat) (csr.write reg dat)
      (((fun t => t.clock csr.hostIn)^[gap + 1] core).clock (csr.write reg dat).hostIn) := by
  have hw := h.wait gap
  have hspec := transfer_write (i := busWrite reg.adr dat) hw.fsm0 ⟨rfl, rfl⟩
    ⟨rfl, show (15 : BitVec 4) ≠ 0 by decide⟩
  have hcsr : ((s.wait gap).posedge false (busWrite reg.adr dat)).csr = csr.write reg dat := by
    have hfirst := (posedge_request (i := busWrite reg.adr dat) hw.fsm0 ⟨rfl, rfl⟩).2.2
    show (s.wait gap).csrNext _ = _
    rw [← hfirst, hspec.2.2.1]
    show (csrSelect (reg.adr.setWidth 14)).elim _ _ = _
    rw [csrSelect_adr, Option.elim_some, hw.csr]
    rfl
  have htrip := tripped_posedge hw.temperature (busWrite reg.adr dat)
  refine ⟨hw.temperature, tripped_posedge hw.temperature (busWrite reg.adr dat), hspec.2.1, ?_, ?_⟩
  · show ((s.wait gap).transfer _).1.csr = _
    rw [hspec.2.2.1]
    show (csrSelect (reg.adr.setWidth 14)).elim _ _ = _
    rw [csrSelect_adr, Option.elim_some, hw.csr]
    rfl
  · show (s.wait gap).coreAfter _ = _
    rw [coreAfter, hw.hostIn, hw.core, Function.iterate_succ_apply']
    congr 1
    rw [Soc.hostIn, hcsr, htrip]
    rfl

/-- **A read** takes two cycles and shows the register as it was before them. -/
theorem Shows.get (h : Shows s csr core) (gap : ℕ) (reg : CsrReg) :
    Shows (s.get gap reg).1 csr ((fun t => t.clock csr.hostIn)^[gap + 2] core) ∧
      (s.get gap reg).2 = (s.wait gap).read reg := by
  have hw := h.wait gap
  have hspec := transfer_read (i := busRead reg.adr) hw.fsm0 ⟨rfl, rfl⟩ (.inl rfl)
  have hcsr : ((s.wait gap).posedge false (busRead reg.adr)).csr = csr := by
    show (s.wait gap).csrNext _ = _
    rw [csrNext_of_quiet (busWe_of_read (.inl rfl)), hw.csr]
  have htrip := tripped_posedge hw.temperature (busRead reg.adr)
  refine ⟨⟨hw.temperature, tripped_posedge hw.temperature (busRead reg.adr), hspec.2.1, ?_, ?_⟩, ?_⟩
  · show ((s.wait gap).transfer _).1.csr = _
    rw [hspec.2.2.2.1, hw.csr]
  · show (s.wait gap).coreAfter _ = _
    rw [coreAfter, hw.hostIn, hw.core, Function.iterate_succ_apply', Function.iterate_succ_apply']
    congr 1
    rw [Soc.hostIn, hcsr, htrip]
    rfl
  · show ((s.wait gap).transfer _).2 = _
    rw [hspec.2.2.1]
    show (csrSelect (reg.adr.setWidth 14)).elim _ _ = _
    rw [csrSelect_adr, Option.elim_some]

end Soc

/-! ## The status of a held command -/

namespace Controller

variable {s t : Controller} {c : HostCmd}

theorem statusWord_eq_one_iff : statusWord t = 1 ↔ ¬ t.Final := by
  unfold statusWord Final FinalStatus
  by_cases h1 : t.fsm.outStatus = 1
  · have hne : (nvmeStatusField 1 t.fsm.outErrCode).setWidth 32 ≠ (1 : BitVec 32) := by
      intro h
      have hnat := congrArg BitVec.toNat h
      rw [Soc.nvmeStatusField_failed] at hnat
      change _ = 1 at hnat
      omega
    rw [h1]
    exact ⟨fun h => absurd h hne, fun h => absurd (.inl rfl) h⟩
  · rw [nvmeStatusField, if_neg h1]
    by_cases h3 : t.fsm.outStatus = 3
    · simp [h3]
    · rw [if_neg h3]
      exact ⟨fun _ => not_or.mpr ⟨h1, h3⟩, fun _ => rfl⟩

theorem held_rejected (hs : s.Ready) (hv : (s.verdict c).hasError = true) {k : ℕ} (hk : 5 ≤ k) :
    s.held c k = s.rejected c := by
  induction k, hk using Nat.le_induction with
  | base => exact iterate_rejected hs hv
  | succ k _ ih =>
    rw [held_succ, ih]
    rfl

theorem held_approved (hs : s.Ready) (hv : (s.verdict c).hasError = false) {k : ℕ} (hk : 6 ≤ k) :
    (s.held c k).fsm = (s.approved c).fsm ∧ (s.held c k).bram.ram = (s.approved c).bram.ram := by
  induction k, hk using Nat.le_induction with
  | base =>
    have hheld : s.held c 6 = s.approved c := iterate_approved hs hv
    rw [hheld]
    exact ⟨rfl, rfl⟩
  | succ k _ ih =>
    obtain ⟨hfsm, hram⟩ := ih
    rw [held_succ, clock_eq, posedge_updateBram rfl (by rw [hfsm]; rfl), hfsm]
    refine ⟨rfl, ?_⟩
    rw [← hram]
    rfl

theorem final_held (hs : s.Ready) {k : ℕ} (hk : 7 ≤ k) : (s.held c k).Final := by
  cases hv : (s.verdict c).hasError with
  | true =>
    rw [held_rejected hs hv (by omega)]
    exact .inl rfl
  | false =>
    rw [Final, (held_approved hs hv (by omega)).1]
    exact .inr rfl

theorem held_final_cases (hs : s.Ready) {k : ℕ} (hk : 1 ≤ k) (hf : (s.held c k).Final) :
    ((s.verdict c).hasError = true ∧ 5 ≤ k) ∨ ((s.verdict c).hasError = false ∧ 6 ≤ k) := by
  have h5 : 5 ≤ k := by
    by_contra hlt
    exact not_final_of_le_four hs (by omega) (by omega) hf
  cases hv : (s.verdict c).hasError with
  | true => exact .inl ⟨rfl, h5⟩
  | false =>
    have h6 : k ≠ 5 := by
      intro h
      have hheld : s.held c 5 = _ := iterate_execute hs hv
      rw [h, hheld] at hf
      exact absurd hf (show ¬ FinalStatus 2 by decide)
    exact .inr ⟨rfl, by omega⟩

end Controller

/-! ## A command over the bus -/

/-- What idle cycles keep of a controller between two commands. -/
structure Rested (a b : Controller) : Prop where
  ready : b.Ready
  ram : b.bram.ram = a.bram.ram
  count : b.fsm.openZonesCount = a.fsm.openZonesCount

section Rested

variable {a b : Controller} {i : HostIn}

theorem Rested.clock (h : Rested a b) (hi : i.ioTrigger = false) : Rested a (b.clock i) := by
  obtain ⟨hready, hram, hcount, -⟩ := Controller.clock_idle h.ready hi
  exact ⟨hready, hram.trans h.ram, hcount.trans h.count⟩

theorem Rested.iterate (h : Rested a b) (hi : i.ioTrigger = false) (n : ℕ) :
    Rested a ((fun t => t.clock i)^[n] b) := by
  induction n with
  | zero => exact h
  | succ n ih =>
    rw [Function.iterate_succ_apply']
    exact ih.clock hi

end Rested

namespace Soc

variable {s : Soc} {csr : CsrBank} {core : Controller} {c : HostCmd}

theorem iterate_held (hin : csr.hostIn = c.raised) (k n : ℕ) :
    (fun t => t.clock csr.hostIn)^[n] (core.held c k) = core.held c (k + n) := by
  rw [hin, Controller.held, Controller.held, ← Function.iterate_add_apply, Nat.add_comm]

theorem Shows.get_status (hin : csr.hostIn = c.raised) {k : ℕ} (h : Shows s csr (core.held c k))
    (gap : ℕ) :
    Shows (s.get gap .nvmeStatus).1 csr (core.held c (k + gap + 2)) ∧
      (s.get gap .nvmeStatus).2 = statusWord (core.held c (k + gap)) := by
  obtain ⟨hnext, hval⟩ := h.get gap .nvmeStatus
  rw [iterate_held hin] at hnext
  refine ⟨hnext, ?_⟩
  rw [hval, ← iterate_held hin, ← (h.wait gap).core]
  rfl

/-- **The loop over `nvme_status`** ends within four reads, at a final status, and shows it; the
command is held all the time. -/
theorem pollStatus_held (hr : core.Ready) (hin : csr.hostIn = c.raised) (fuel : ℕ) :
    ∀ (gaps : ℕ → ℕ) (s : Soc) (k : ℕ), Shows s csr (core.held c k) → 1 ≤ k → 7 ≤ k + 2 * fuel →
      ∃ s' m, s.pollStatus (fuel + 1) gaps = some (s', statusWord (core.held c m)) ∧ 1 ≤ m ∧
        (core.held c m).Final ∧ Shows s' csr (core.held c (m + 2)) := by
  induction fuel with
  | zero =>
    intro gaps s k h hk hfuel
    obtain ⟨hnext, hword⟩ := h.get_status hin (gaps 0)
    have hfinal : (core.held c (k + gaps 0)).Final := Controller.final_held hr (by omega)
    have hne : statusWord (core.held c (k + gaps 0)) ≠ 1 := fun h1 =>
      Controller.statusWord_eq_one_iff.mp h1 hfinal
    refine ⟨_, k + gaps 0, ?_, by omega, hfinal, hnext⟩
    simp only [pollStatus, hword, if_neg hne]
  | succ fuel ih =>
    intro gaps s k h hk hfuel
    obtain ⟨hnext, hword⟩ := h.get_status hin (gaps 0)
    rw [pollStatus]
    by_cases hfinal : (core.held c (k + gaps 0)).Final
    · have hne : statusWord (core.held c (k + gaps 0)) ≠ 1 := fun h1 =>
        Controller.statusWord_eq_one_iff.mp h1 hfinal
      refine ⟨_, k + gaps 0, ?_, by omega, hfinal, hnext⟩
      simp only [hword, if_neg hne]
    · have heq : statusWord (core.held c (k + gaps 0)) = 1 :=
        Controller.statusWord_eq_one_iff.mpr hfinal
      obtain ⟨s', m, hpoll, hrest⟩ := ih (fun j => gaps (j + 1)) _ _ hnext (by omega) (by omega)
      refine ⟨s', m, ?_, hrest⟩
      simp only [hword, if_pos heq, hpoll]

/-- **The SoC between two commands stands for the device `d`.** -/
structure Models (s : Soc) (d : Device znsLimits (BitVec 12)) : Prop where
  temperature : s.temperature = 0
  tripped : s.tripped = false
  fsm0 : s.fsm0 = false
  trigger : s.csr.trigger = false
  ready : s.core.Ready
  table : ZnsFlash.Models s.core d

end Soc

/-- A write or reset command as a step of the device, with its status: zero, or the code of the first
rule it breaks under status code type 1. -/
def deviceCommand (d : Device znsLimits (BitVec 12)) (q : SocRequest) :
    Device znsLimits (BitVec 12) × BitVec 32 :=
  let code := atomicCode q.hostCmd q.op d.nOpen (d.zones q.hostCmd.row)
  if code = 0 then (d.step q.hostCmd.row q.op (lbaPage q.lba).toNat, 0)
  else (d, (1#8 ++ code).setWidth 32)

namespace Soc

variable {s : Soc} {d : Device znsLimits (BitVec 12)} {q : SocRequest}

theorem lba_halves (lba : BitVec 64) : (lba >>> 32).setWidth 32 ++ lba.setWidth 32 = lba := by
  apply BitVec.eq_of_getLsbD_eq
  intro i hi
  simp only [BitVec.getLsbD_append, BitVec.getLsbD_setWidth, BitVec.getLsbD_ushiftRight]
  grind

/-- The storages with address and opcode of a command. -/
def loaded (csr : CsrBank) (q : SocRequest) : CsrBank :=
  ((csr.write .nvmeLbaLo (q.lba.setWidth 32)).write .nvmeLbaHi
    ((q.lba >>> 32).setWidth 32)).write .nvmeOpcode ((cmdOf q.op).setWidth 32)

theorem hostIn_raised (csr : CsrBank) (q : SocRequest) :
    ((loaded csr q).write .trigger 1).hostIn = q.hostCmd.raised := by
  have hcmd : ((cmdOf q.op).setWidth 32).setWidth 8 = cmdOf q.op := by
    cases q.op <;> rfl
  have hlba := lba_halves q.lba
  show HostIn.mk _ (((cmdOf q.op).setWidth 32).setWidth 8)
    ((q.lba >>> 32).setWidth 32 ++ q.lba.setWidth 32) _ = _
  rw [hcmd, hlba]
  rfl

theorem hostIn_dropped (csr : CsrBank) (q : SocRequest) :
    (((loaded csr q).write .trigger 1).write .trigger 0).hostIn = q.hostCmd.dropped := by
  have hraised := hostIn_raised csr q
  show { ((loaded csr q).write .trigger 1).hostIn with ioTrigger := false } = _
  rw [hraised]
  rfl

/-- A write with the trigger low before and after it leaves the controller at rest. -/
theorem Shows.put_rested {csr : CsrBank} {a core : Controller} (h : Shows s csr core)
    (hr : Rested a core) (hlow : csr.trigger = false) (gap : ℕ) (reg : CsrReg) (dat : BitVec 32)
    (hstill : (csr.write reg dat).trigger = false) :
    ∃ core', Rested a core' ∧ Shows (s.put gap reg dat) (csr.write reg dat) core' :=
  ⟨_, (hr.iterate (i := csr.hostIn) hlow (gap + 1)).clock (i := (csr.write reg dat).hostIn) hstill,
    h.put gap reg dat⟩

theorem Models.loaded (h : Models s d) (q : SocRequest) :
    ∃ core, Rested s.core core ∧
      Shows (((s.put (q.gaps 0) .nvmeLbaLo (q.lba.setWidth 32)).put (q.gaps 1) .nvmeLbaHi
        ((q.lba >>> 32).setWidth 32)).put (q.gaps 2) .nvmeOpcode ((cmdOf q.op).setWidth 32))
        (loaded s.csr q) core := by
  have h₀ : Shows s s.csr s.core := ⟨h.temperature, h.tripped, h.fsm0, rfl, rfl⟩
  obtain ⟨core₁, hrest₁, h₁⟩ := h₀.put_rested ⟨h.ready, rfl, rfl⟩ h.trigger (q.gaps 0)
    .nvmeLbaLo (q.lba.setWidth 32) h.trigger
  obtain ⟨core₂, hrest₂, h₂⟩ := h₁.put_rested hrest₁ h.trigger (q.gaps 1) .nvmeLbaHi
    ((q.lba >>> 32).setWidth 32) h.trigger
  exact h₂.put_rested hrest₂ h.trigger (q.gaps 2) .nvmeOpcode
    ((cmdOf q.op).setWidth 32) h.trigger

end Soc

theorem Models.rested {a b : Controller} {d : Device znsLimits (BitVec 12)} (h : Models a d)
    (hb : Rested a b) : Models b d := by
  rw [Models, hb.ram, hb.count]
  exact h

section Outcome

variable {core : Controller} {d : Device znsLimits (BitVec 12)} {q : SocRequest} {m k : ℕ}

/-- **The final status of a held command, and what is left once it is dropped**, are those of the
device. -/
theorem held_deviceCommand (hr : core.Ready) (hm : Models core d) (hne : q.op ≠ .read) (h1 : 1 ≤ m)
    (hf : (core.held q.hostCmd m).Final) (hk : m ≤ k) :
    statusWord (core.held q.hostCmd m) = (deviceCommand d q).2 ∧
      ((core.held q.hostCmd k).clock q.hostCmd.dropped).Ready ∧
      Models ((core.held q.hostCmd k).clock q.hostCmd.dropped) (deviceCommand d q).1 := by
  have hz := hm.encodes q.hostCmd.row
  have hop : q.hostCmd.ioCmd = cmdOf q.op := rfl
  have hcode := verdict_errorCode hz hop
  have hpass := verdict_hasError_false hz hop
  rw [hm.count] at hcode hpass
  rcases Controller.held_final_cases hr h1 hf with ⟨hv, h5⟩ | ⟨hv, h6⟩
  · have h0 : atomicCode q.hostCmd q.op d.nOpen (d.zones q.hostCmd.row) ≠ 0 := by
      rw [ne_eq, ← hpass, hv]
      exact Bool.noConfusion
    rw [Controller.held_rejected hr hv h5, Controller.held_rejected hr hv (h5.trans hk), deviceCommand,
      if_neg h0, ← hcode]
    exact ⟨rfl, ⟨rfl, rfl⟩, hm⟩
  · obtain ⟨hfsm, -⟩ := Controller.held_approved (c := q.hostCmd) hr hv h6
    obtain ⟨hfsm', hram'⟩ := Controller.held_approved (c := q.hostCmd) hr hv (h6.trans hk)
    have hfinal : (core.held q.hostCmd k).Final := by
      rw [Controller.Final, hfsm']
      exact .inr rfl
    obtain ⟨hready, hram, hcount⟩ := Controller.dropped_ready hr hfinal
    rw [deviceCommand, if_pos (hpass.mp hv)]
    refine ⟨?_, hready, ?_⟩
    · rw [statusWord, hfsm]
      rfl
    · rcases models_transaction hr hm rfl hne (Controller.completes_approved hr hv) with
        ⟨hstatus, -⟩ | ⟨-, -, hnext⟩
      · exact absurd hstatus (show ¬ (3#8 = 1#8) by decide)
      · rw [Models, hram, hram', hcount, hfsm']
        exact hnext

end Outcome

/-- **A write or reset command over the bus is a step of the device**, however long the master waits
between its transfers; four reads of the status are enough. -/
theorem Soc.Models.command {s : Soc} {d : Device znsLimits (BitVec 12)} {q : SocRequest}
    (h : s.Models d) (hne : q.op ≠ .read) (fuel : ℕ) :
    ∃ s', s.command (fuel + 4) q = some (s', (deviceCommand d q).2) ∧
      s'.Models (deviceCommand d q).1 := by
  obtain ⟨core, hrest, hloaded⟩ := h.loaded q
  set s₁ := ((s.put (q.gaps 0) .nvmeLbaLo (q.lba.setWidth 32)).put (q.gaps 1) .nvmeLbaHi
    ((q.lba >>> 32).setWidth 32)).put (q.gaps 2) .nvmeOpcode ((cmdOf q.op).setWidth 32) with hs₁
  -- the controller is at rest until it sees the trigger, in the last cycle of the fourth write
  have hraised := hloaded.put (q.gaps 3) .trigger 1
  rw [hostIn_raised] at hraised
  have hrest₁ := hrest.iterate (i := (Soc.loaded s.csr q).hostIn) h.trigger (q.gaps 3 + 1)
  set core₁ := (fun t => t.clock (Soc.loaded s.csr q).hostIn)^[q.gaps 3 + 1] core with hcore₁
  obtain ⟨s₂, m, hpoll, hm1, hf, h₂⟩ := pollStatus_held (c := q.hostCmd) hrest₁.ready
    (hostIn_raised s.csr q) (fuel + 3) q.polls _ 1 hraised le_rfl (by omega)
  have hend := h₂.put (q.gaps 4) .trigger 0
  rw [hostIn_dropped, iterate_held (hostIn_raised s.csr q)] at hend
  obtain ⟨hstatus, hready, htable⟩ := held_deviceCommand hrest₁.ready (h.table.rested hrest₁) hne hm1 hf
    (show m ≤ m + 2 + (q.gaps 4 + 1) by omega)
  refine ⟨s₂.put (q.gaps 4) .trigger 0, ?_, ?_⟩
  · rw [Soc.command, ← hs₁, hpoll, hstatus]
    rfl
  · exact ⟨hend.temperature, hend.tripped, hend.fsm0, by rw [hend.csr]; rfl, by
      rw [hend.core]; exact hready, by rw [hend.core]; exact htable⟩

theorem Soc.models_powerUp (junk : Controller) (tripped : Bool) (i : Wishbone) :
    (powerUp junk tripped i).Models Device.fresh := by
  have hfsm : (powerUp junk tripped i).core.fsm =
      { junk.fsm.asyncReset with openZonesCount := 0 } :=
    posedge_rst (v := junk.fsm.asyncReset)
      (p := (initial junk tripped).rstRise.core.pins true (initial junk tripped).rstRise.hostIn) rfl
  refine ⟨rfl, rfl, rfl, rfl, ⟨?_, ?_⟩, ?_⟩
  · rw [hfsm]
    rfl
  · rw [hfsm]
    rfl
  · rw [ZnsFlash.Models, hfsm]
    exact zoneTable_fresh

/-- **The SoC is the device.** From power-up, every run of write and reset commands over the bus, under
any pauses of the master, ends and returns the statuses of the device, command by command. -/
theorem transcript_soc (junk : Controller) (tripped : Bool) (i : Wishbone) (fuel : ℕ)
    {qs : List SocRequest} (h : ∀ q ∈ qs, q.op ≠ .read) :
    ∃ s' d' statuses,
      transcript (Soc.command (fuel + 4)) (Soc.powerUp junk tripped i) qs = some (s', statuses) ∧
      transcript (fun d q => some (deviceCommand d q)) Device.fresh qs = some (d', statuses) ∧
      s'.Models d' := by
  refine transcript_rel (fun q => q.op ≠ .read) (fun s d q hne hm => ?_)
    (Soc.models_powerUp junk tripped i) h
  obtain ⟨s', hrun, hm'⟩ := hm.command hne fuel
  exact ⟨s', (deviceCommand d q).1, (deviceCommand d q).2, hrun, rfl, hm'⟩

/-- The first page of a zone, its third page, which is out of order, and the zone emptied. -/
def threeRequests : List SocRequest :=
  [⟨.write, 0, fun _ => 0, fun _ => 0⟩, ⟨.write, 2, fun _ => 3, fun k => k⟩,
    ⟨.reset, 0, fun _ => 1, fun _ => 0⟩]

theorem transcript_soc_threeRequests :
    ∃ s' d' statuses,
      transcript (Soc.command 4) (Soc.powerUp Controller.quiet true busIdle) threeRequests =
        some (s', statuses) ∧
      transcript (fun d q => some (deviceCommand d q)) Device.fresh threeRequests =
        some (d', statuses) ∧ s'.Models d' :=
  transcript_soc Controller.quiet true busIdle 0 (by decide)

end ZnsFlash
