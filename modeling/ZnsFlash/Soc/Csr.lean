import ZnsFlash.Rtl.Resets
import ZnsFlash.Sim.Faithful

/-!
# The register interface of the SoC

`build/gateware/sim.v`, which LiteX made of `zns_controller.py`: a Wishbone port, a bridge of two
states, a bank of thirteen registers, and the controller behind it. The port has no master in the
file; here it is driven by any.

* `CsrReg`, `CsrBank`, `Wishbone`, `Soc`: addresses, storages, port and registers;
* **`Soc.posedge`**: one clock edge, `Soc.powerUp`: the state after the reset;
* `Soc.transfer`: a request held until it is acknowledged;
* **`transfer_write`**, **`transfer_read`**: what a transfer does, at any address;
* `registerFile`, **`read_last_write`**: runs of transfers on the bank;
* **`never_overheats`**: the temperature register has no driver, so code 8 is out of reach.
-/

namespace ZnsFlash

open Runs

/-! ## Registers -/

/-- The registers of the bank, in the order of their addresses. -/
inductive CsrReg
  | sqTailDb
  | cqHeadDb
  | nvmeOpcode
  | nvmeNsid
  | nvmeLbaLo
  | nvmeLbaHi
  | nvmeBlocks
  | trigger
  | nvmeStatus
  | errCode
  | temperature
  | plpTrigger
  | cryptoErase
  deriving DecidableEq, Repr

/-- The register that the low bits of the bus address select. -/
def csrAt (adr : BitVec 9) : Option CsrReg :=
  if adr = 0 then some .sqTailDb
  else if adr = 1 then some .cqHeadDb
  else if adr = 2 then some .nvmeOpcode
  else if adr = 3 then some .nvmeNsid
  else if adr = 4 then some .nvmeLbaLo
  else if adr = 5 then some .nvmeLbaHi
  else if adr = 6 then some .nvmeBlocks
  else if adr = 7 then some .trigger
  else if adr = 8 then some .nvmeStatus
  else if adr = 9 then some .errCode
  else if adr = 10 then some .temperature
  else if adr = 11 then some .plpTrigger
  else if adr = 12 then some .cryptoErase
  else none

/-- `csrbank` and the `case` over `bank_bus_adr[8:0]`. -/
def csrSelect (adr : BitVec 14) : Option CsrReg :=
  if adr.extractLsb' 9 5 = 0 then csrAt (adr.extractLsb' 0 9) else none

/-- The storages of the bank. -/
structure CsrBank where
  sqTailDb : BitVec 16
  cqHeadDb : BitVec 16
  nvmeOpcode : BitVec 8
  nvmeNsid : BitVec 32
  nvmeLbaLo : BitVec 32
  nvmeLbaHi : BitVec 32
  nvmeBlocks : BitVec 16
  trigger : Bool
  plpTrigger : Bool
  cryptoErase : Bool
  deriving DecidableEq

namespace CsrBank

/-- The storages after a reset. -/
def reset : CsrBank := ⟨0, 0, 0, 0, 0, 0, 0, false, false, false⟩

/-- A write; the three statuses ignore it. -/
def write (b : CsrBank) (reg : CsrReg) (dat : BitVec 32) : CsrBank :=
  match reg with
  | .sqTailDb => { b with sqTailDb := dat.setWidth 16 }
  | .cqHeadDb => { b with cqHeadDb := dat.setWidth 16 }
  | .nvmeOpcode => { b with nvmeOpcode := dat.setWidth 8 }
  | .nvmeNsid => { b with nvmeNsid := dat }
  | .nvmeLbaLo => { b with nvmeLbaLo := dat }
  | .nvmeLbaHi => { b with nvmeLbaHi := dat }
  | .nvmeBlocks => { b with nvmeBlocks := dat.setWidth 16 }
  | .trigger => { b with trigger := dat.getLsbD 0 }
  | .nvmeStatus | .errCode | .temperature => b
  | .plpTrigger => { b with plpTrigger := dat.getLsbD 0 }
  | .cryptoErase => { b with cryptoErase := dat.getLsbD 0 }

/-- `znscontroller0`: the address of the command. -/
def lba (b : CsrBank) : BitVec 64 := b.nvmeLbaHi ++ b.nvmeLbaLo

end CsrBank

/-- What a master drives on the Wishbone port. -/
structure Wishbone where
  adr : BitVec 30
  cyc : Bool
  stb : Bool
  we : Bool
  sel : BitVec 4
  datW : BitVec 32
  deriving DecidableEq

/-- The registers of the SoC. -/
structure Soc where
  /-- The bridge waits for a request, or acknowledges one. -/
  fsm0 : Bool
  bankBusDatR : BitVec 32
  csr : CsrBank
  /-- `znscontroller_csrstatus20` -/
  temperature : BitVec 8
  /-- `out_thermal_shutdown_tripped` -/
  tripped : Bool
  core : Controller

/-- `znscontroller_csrstatus00`: the status field of NVMe. -/
def nvmeStatusField (fsmStatus fsmErrCode : BitVec 8) : BitVec 16 :=
  if fsmStatus = 1 then 1#8 ++ fsmErrCode else if fsmStatus = 3 then 0 else 1

namespace Soc

variable (s : Soc)

/-- What the bank drives on the inputs of the controller. -/
def hostIn : HostIn := ⟨s.csr.trigger, s.csr.nvmeOpcode, s.csr.lba, s.tripped⟩

/-- The value of a register on the bus. -/
def read : CsrReg → BitVec 32
  | .sqTailDb => s.csr.sqTailDb.setWidth 32
  | .cqHeadDb => s.csr.cqHeadDb.setWidth 32
  | .nvmeOpcode => s.csr.nvmeOpcode.setWidth 32
  | .nvmeNsid => s.csr.nvmeNsid
  | .nvmeLbaLo => s.csr.nvmeLbaLo
  | .nvmeLbaHi => s.csr.nvmeLbaHi
  | .nvmeBlocks => s.csr.nvmeBlocks.setWidth 32
  | .trigger => (BitVec.ofBool s.csr.trigger).setWidth 32
  | .nvmeStatus => (nvmeStatusField s.core.fsm.outStatus s.core.fsm.outErrCode).setWidth 32
  | .errCode => s.core.fsm.outErrCode.setWidth 32
  | .temperature => s.temperature.setWidth 32
  | .plpTrigger => (BitVec.ofBool s.csr.plpTrigger).setWidth 32
  | .cryptoErase => (BitVec.ofBool s.csr.cryptoErase).setWidth 32

/-- `interface1_adr` -/
def busAdr (i : Wishbone) : BitVec 14 := if !s.fsm0 && (i.cyc && i.stb) then i.adr.setWidth 14 else 0

/-- `interface1_we` -/
def busWe (i : Wishbone) : Bool := !s.fsm0 && (i.cyc && i.stb) && (i.we && i.sel ≠ 0)

/-- `interface1_dat_w` -/
def busDatW (i : Wishbone) : BitVec 32 := if s.fsm0 then 0 else i.datW

/-- The storages after an edge with `rst` low. -/
def csrNext (i : Wishbone) : CsrBank :=
  if s.busWe i then (csrSelect (s.busAdr i)).elim s.csr fun reg => s.csr.write reg (s.busDatW i)
  else s.csr

/-- **One edge of `sys_clk`.** -/
def posedge (rst : Bool) (i : Wishbone) : Soc where
  fsm0 := if rst then false else if s.fsm0 then false else i.cyc && i.stb
  bankBusDatR := (csrSelect (s.busAdr i)).elim 0 s.read
  csr := if rst then .reset else s.csrNext i
  temperature := s.temperature
  tripped := znsThermalManager rst s.temperature
  core := s.core.posedge rst s.hostIn

/-- A rise of `rst` between two edges. -/
def rstRise : Soc := { s with core := { s.core with fsm := s.core.fsm.asyncReset } }

/-- `interface0_ack` -/
def ack : Bool := s.fsm0

/-- `interface0_dat_r` -/
def datR : BitVec 32 := if s.fsm0 then s.bankBusDatR else 0

/-- The initial values of the file; those of the registers it gives none are `junk` and `tripped`. -/
def initial (junk : Controller) (tripped : Bool) : Soc :=
  ⟨false, 0, .reset, 0, tripped, { junk with bram := ⟨fun _ => 0, junk.bram.rdata⟩ }⟩

/-- Power-up: `rst` raised and seen by one clock edge. -/
def powerUp (junk : Controller) (tripped : Bool) (i : Wishbone) : Soc :=
  (initial junk tripped).rstRise.posedge true i

/-- **A transfer**: the request is held for two cycles, and read in the second, when `ack` is up. -/
def transfer (i : Wishbone) : Soc × BitVec 32 :=
  ((s.posedge false i).posedge false i, (s.posedge false i).datR)

end Soc

/-- A write of a whole word. -/
def busWrite (adr : BitVec 30) (dat : BitVec 32) : Wishbone := ⟨adr, true, true, true, 15, dat⟩

/-- A read. -/
def busRead (adr : BitVec 30) : Wishbone := ⟨adr, true, true, false, 15, 0⟩

/-- No request. -/
def busIdle : Wishbone := ⟨0, false, false, false, 0, 0⟩

/-! ## Transfers -/

namespace Soc

variable {s : Soc} {i : Wishbone}

theorem busWe_of_ack (h : s.fsm0 = true) : s.busWe i = false := by
  simp [busWe, h]

theorem busWe_of_read (h : i.we = false ∨ i.sel = 0) : s.busWe i = false := by
  rcases h with h | h <;> simp [busWe, h]

theorem busWe_idle : s.busWe busIdle = false := by
  simp [busWe, busIdle]

theorem csrNext_of_quiet (h : s.busWe i = false) : s.csrNext i = s.csr := by
  simp [csrNext, h]

/-- The controller behind the bank, over the two cycles of a transfer. -/
def coreAfter (s : Soc) (i : Wishbone) : Controller :=
  (s.core.clock s.hostIn).clock (s.posedge false i).hostIn

section Request

variable (hf : s.fsm0 = false) (hreq : i.cyc = true ∧ i.stb = true)

include hf hreq

theorem posedge_request :
    (s.posedge false i).fsm0 = true ∧ (s.transfer i).1.fsm0 = false ∧
      (s.transfer i).1.csr = s.csrNext i := by
  have hack : (s.posedge false i).fsm0 = true := by simp [posedge, hf, hreq]
  refine ⟨hack, ?_, ?_⟩
  · show (if (s.posedge false i).fsm0 then false else _) = false
    rw [hack, if_pos rfl]
  · show (s.posedge false i).csrNext i = _
    rw [csrNext_of_quiet (busWe_of_ack hack)]
    rfl

/-- **A write, at any address**: it is acknowledged in the second cycle; the register that the low
fourteen bits of the address select takes the low bits of the word, and no other changes. -/
theorem transfer_write (hwe : i.we = true ∧ i.sel ≠ 0) :
    (s.posedge false i).ack = true ∧ (s.transfer i).1.fsm0 = false ∧
      (s.transfer i).1.csr = (csrSelect (i.adr.setWidth 14)).elim s.csr
        (fun reg => s.csr.write reg i.datW) ∧
      (s.transfer i).1.core = s.coreAfter i := by
  obtain ⟨hack, hidle, hcsr⟩ := posedge_request hf hreq
  refine ⟨hack, hidle, ?_, rfl⟩
  have hsel : i.sel ≠ 0#4 := hwe.2
  have hreq' : s.busWe i = true := by simp [busWe, hf, hreq, hwe.1, hsel]
  rw [hcsr, csrNext, if_pos hreq']
  simp [busAdr, busDatW, hf, hreq]

/-- **A read, at any address**: the value is that of the first cycle, zero past the bank, and no
storage changes. -/
theorem transfer_read (hwe : i.we = false ∨ i.sel = 0) :
    (s.posedge false i).ack = true ∧ (s.transfer i).1.fsm0 = false ∧
      (s.transfer i).2 = (csrSelect (i.adr.setWidth 14)).elim 0 s.read ∧
      (s.transfer i).1.csr = s.csr ∧ (s.transfer i).1.core = s.coreAfter i := by
  obtain ⟨hack, hidle, hcsr⟩ := posedge_request hf hreq
  refine ⟨hack, hidle, ?_, ?_, rfl⟩
  · show (if (s.posedge false i).fsm0 then (s.posedge false i).bankBusDatR else 0) = _
    rw [if_pos hack]
    simp [posedge, busAdr, hf, hreq]
  · rw [hcsr, csrNext_of_quiet (busWe_of_read hwe)]

end Request

/-! ## The bank as a register file -/

end Soc

/-- The width of a storage; a status has none. -/
def CsrReg.storage : CsrReg → Option ℕ
  | .sqTailDb | .cqHeadDb | .nvmeBlocks => some 16
  | .nvmeOpcode => some 8
  | .nvmeNsid | .nvmeLbaLo | .nvmeLbaHi => some 32
  | .trigger | .plpTrigger | .cryptoErase => some 1
  | .nvmeStatus | .errCode | .temperature => none

/-- A register file after a request: the register that a write selects takes its low bits. -/
def registerFile (file : CsrReg → BitVec 32) (i : Wishbone) : CsrReg → BitVec 32 :=
  if i.we ∧ i.sel ≠ 0 then
    (csrSelect (i.adr.setWidth 14)).elim file fun reg =>
      Function.update file reg ((i.datW.setWidth (reg.storage.getD 0)).setWidth 32)
  else file

/-- The storages of the bank, as the bus shows them. -/
def CsrBank.file (b : CsrBank) : CsrReg → BitVec 32
  | .sqTailDb => b.sqTailDb.setWidth 32
  | .cqHeadDb => b.cqHeadDb.setWidth 32
  | .nvmeOpcode => b.nvmeOpcode.setWidth 32
  | .nvmeNsid => b.nvmeNsid
  | .nvmeLbaLo => b.nvmeLbaLo
  | .nvmeLbaHi => b.nvmeLbaHi
  | .nvmeBlocks => b.nvmeBlocks.setWidth 32
  | .trigger => (BitVec.ofBool b.trigger).setWidth 32
  | .nvmeStatus | .errCode | .temperature => 0
  | .plpTrigger => (BitVec.ofBool b.plpTrigger).setWidth 32
  | .cryptoErase => (BitVec.ofBool b.cryptoErase).setWidth 32

theorem ofBool_getElem_zero (w : BitVec 32) : BitVec.ofBool w[0] = w.setWidth 1 := by
  apply BitVec.eq_of_getLsbD_eq
  intro i hi
  have h0 : i = 0 := by omega
  subst h0
  simp

theorem setWidth_zero_setWidth (w : BitVec 32) : (w.setWidth 0).setWidth 32 = 0#32 := by
  rw [BitVec.of_length_zero (x := w.setWidth 0)]
  rfl

/-- **A write to the bank is a write to the register file.** -/
theorem CsrBank.file_write (b : CsrBank) (reg : CsrReg) (dat : BitVec 32) :
    (b.write reg dat).file =
      Function.update b.file reg ((dat.setWidth (reg.storage.getD 0)).setWidth 32) := by
  funext r
  by_cases h : r = reg
  · subst h
    rw [Function.update_self]
    cases r <;> simp [CsrBank.write, CsrBank.file, CsrReg.storage, ofBool_getElem_zero,
      setWidth_zero_setWidth]
  · rw [Function.update_of_ne h]
    cases reg <;> cases r <;> first | rfl | exact absurd rfl h

/-- A request: `cyc` and `stb` are up. -/
def Wishbone.Requests (i : Wishbone) : Prop := i.cyc = true ∧ i.stb = true

instance (i : Wishbone) : Decidable i.Requests := inferInstanceAs (Decidable (_ ∧ _))

namespace Soc

variable {s : Soc} {i : Wishbone}

theorem transfer_file (hf : s.fsm0 = false) (hreq : i.Requests) :
    (s.transfer i).1.fsm0 = false ∧ (s.transfer i).1.csr.file = registerFile s.csr.file i := by
  rw [registerFile]
  split_ifs with hwe
  · obtain ⟨-, hidle, hcsr, -⟩ := transfer_write hf hreq hwe
    refine ⟨hidle, ?_⟩
    rw [hcsr]
    cases csrSelect (i.adr.setWidth 14) with
    | none => rfl
    | some reg => exact CsrBank.file_write _ _ _
  · have hread : i.we = false ∨ i.sel = 0 := by
      by_contra hno
      rw [not_or, Bool.not_eq_false] at hno
      exact hwe hno
    obtain ⟨-, hidle, -, hcsr, -⟩ := transfer_read hf hreq hread
    exact ⟨hidle, by rw [hcsr]⟩

theorem read_of_storage {reg : CsrReg} (h : reg.storage ≠ none) : s.read reg = s.csr.file reg := by
  cases reg <;> first | rfl | exact absurd rfl h

theorem run_file {is : List Wishbone} (his : ∀ i ∈ is, i.Requests) (hf : s.fsm0 = false) :
    (run (fun s i => (s.transfer i).1) s is).fsm0 = false ∧
      (run (fun s i => (s.transfer i).1) s is).csr.file = run registerFile s.csr.file is := by
  induction is generalizing s with
  | nil => exact ⟨hf, rfl⟩
  | cons i is ih =>
    obtain ⟨hidle, hfile⟩ := transfer_file hf (his i List.mem_cons_self)
    rw [run, run, List.foldl_cons, List.foldl_cons, ← hfile]
    exact ih (fun j hj => his j (List.mem_cons_of_mem _ hj)) hidle

theorem transfer_readOnly (hf : s.fsm0 = false) (hreq : i.Requests)
    (h : (csrSelect (i.adr.setWidth 14)).all (·.storage = none)) :
    (s.transfer i).1.csr = s.csr := by
  by_cases hwe : i.we = true ∧ i.sel ≠ 0
  · rw [(transfer_write hf hreq hwe).2.2.1]
    cases hsel : csrSelect (i.adr.setWidth 14) with
    | none => rfl
    | some reg =>
      have hst : reg.storage = none := by simpa [hsel] using h
      rw [Option.elim_some]
      cases reg <;> first | rfl | cases hst
  · rw [not_and_or, Bool.not_eq_true, not_not] at hwe
    exact (transfer_read hf hreq hwe).2.2.2.1

/-- **A read returns the last write.** After any requests from power-up, to any addresses, a read of any
address whose low fourteen bits select a storage returns the low bits of the last word written to
that storage through any address, zero if there was none; past the bank it returns zero. A request to a
status, or past the bank, leaves all storages as they are. -/
theorem read_last_write (junk : Controller) (tripped : Bool) (i₀ : Wishbone) (is : List Wishbone)
    (h : ∀ i ∈ is, i.Requests) (adr : BitVec 30) :
    let s := run (fun s i => (s.transfer i).1) (powerUp junk tripped i₀) is
    ((csrSelect (adr.setWidth 14)).all (·.storage ≠ none) →
      (s.transfer (busRead adr)).2 =
        (csrSelect (adr.setWidth 14)).elim 0 (run registerFile (fun _ => 0) is)) ∧
    ∀ i : Wishbone, i.Requests → (csrSelect (i.adr.setWidth 14)).all (·.storage = none) →
      (s.transfer i).1.csr = s.csr := by
  intro s
  have hzero : (powerUp junk tripped i₀).csr.file = fun _ => 0 := by
    funext reg
    cases reg <;> rfl
  obtain ⟨hidle, hfile⟩ := run_file (s := powerUp junk tripped i₀) h rfl
  refine ⟨fun hstored => ?_, fun i hi => transfer_readOnly hidle hi⟩
  rw [hzero] at hfile
  have hread := (transfer_read (i := busRead adr) hidle ⟨rfl, rfl⟩ (.inl rfl)).2.2.1
  rw [hread]
  show (csrSelect (adr.setWidth 14)).elim 0 _ = _
  cases hsel : csrSelect (adr.setWidth 14) with
  | none => rfl
  | some reg =>
    have hst : reg.storage ≠ none := by simpa [hsel] using hstored
    rw [Option.elim_some, Option.elim_some, read_of_storage hst, hfile]

/-- `nvme_blocks` has sixteen bits, and 2^14 more is the same address. -/
def aliasWrites : List Wishbone := [busWrite 6 0xabcd1234, busWrite (6 + 0x4000) 0x00015678]

/-- The second word is read at a third address; a write to `nvme_status` changes nothing. -/
theorem read_last_write_alias :
    ((run (fun s i => (s.transfer i).1) (powerUp Controller.quiet true busIdle) aliasWrites).transfer
        (busRead (6 + 0x8000))).2 = 0x5678 ∧
      ((run (fun s i => (s.transfer i).1) (powerUp Controller.quiet true busIdle) aliasWrites).transfer
          (busWrite 8 0xffffffff)).1.csr =
        (run (fun s i => (s.transfer i).1) (powerUp Controller.quiet true busIdle) aliasWrites).csr := by
  obtain ⟨hread, hstatus⟩ :=
    read_last_write Controller.quiet true busIdle aliasWrites (by decide) (6 + 0x8000)
  exact ⟨hread (by decide), hstatus (busWrite 8 0xffffffff) (by decide) (by decide)⟩

/-! ## The thermal flag -/

/-- The inputs of a run: an edge with the state of `rst`, or a rise of `rst` between two edges. -/
inductive Input
  | edge (rst : Bool) (i : Wishbone)
  | rise

/-- One step of a run. -/
def next (s : Soc) : Input → Soc
  | .edge rst i => s.posedge rst i
  | .rise => s.rstRise

/-- The sensor reads zero, the flag is low and no overheating was ever reported. -/
structure Cold (s : Soc) : Prop where
  temperature : s.temperature = 0
  tripped : s.tripped = false
  outErrCode : s.core.fsm.outErrCode ≠ 8

theorem checkWord_ne_eight {p : ValidatorPins} {n : BitVec 4}
    (h : p.thermalShutdownTripped = false) : (checkWord p n).errorCode ≠ 8 := by
  simp only [checkWord, znsRulesChecker, h, Bool.false_eq_true, if_false]
  split_ifs <;> decide

theorem Cold.next (h : Cold s) (x : Input) : Cold (s.next x) := by
  cases x with
  | rise => exact ⟨h.temperature, h.tripped, by show (0 : BitVec 8) ≠ 8; decide⟩
  | edge rst i =>
    refine ⟨h.temperature, ?_, ?_⟩
    · show znsThermalManager rst s.temperature = false
      rw [h.temperature]
      cases rst <;> rfl
    · show (s.core.fsm.posedge (s.core.pins rst s.hostIn)).outErrCode ≠ 8
      cases rst with
      | true =>
        rw [posedge_rst rfl]
        show (0 : BitVec 8) ≠ 8
        decide
      | false =>
        have hcode : (checkWord (s.core.pins false s.hostIn) s.core.fsm.openZonesCount).errorCode ≠ 8 :=
          checkWord_ne_eight h.tripped
        cases hst : s.core.fsm.currentState with
        | idle => rw [posedge_idle rfl hst]; exact h.outErrCode
        | bramRead => rw [posedge_bramRead rfl hst]; exact h.outErrCode
        | bramWait => rw [posedge_bramWait rfl hst]; exact h.outErrCode
        | validate => rw [posedge_validate rfl hst]; exact h.outErrCode
        | execute => rw [posedge_execute rfl hst]; exact h.outErrCode
        | updateBram =>
          rw [posedge_updateBram rfl hst]
          show (0 : BitVec 8) ≠ 8
          decide
        | error => rw [posedge_error rfl hst]; exact hcode

theorem cold_powerUp (junk : Controller) (tripped : Bool) (i : Wishbone) :
    Cold (powerUp junk tripped i) := by
  refine ⟨rfl, rfl, ?_⟩
  show (Validator.posedge _ _).outErrCode ≠ 8
  rw [posedge_rst rfl]
  show (0 : BitVec 8) ≠ 8
  decide

theorem nvmeStatusField_failed (code : BitVec 8) :
    ((nvmeStatusField 1 code).setWidth 32).toNat = 256 + code.toNat := by
  have hcode : code.toNat < 256 := code.isLt
  have hfield : (1#8 ++ code).toNat = 256 + code.toNat := by
    rw [BitVec.toNat_append, Nat.shiftLeft_eq]
    exact (Nat.two_pow_add_eq_or_of_lt (i := 8) hcode 1).symm
  rw [nvmeStatusField, if_pos rfl, BitVec.toNat_setWidth, hfield]
  exact Nat.mod_eq_of_lt (by omega)

/-- **The thermal protection is dead.** Nothing drives the temperature register, so from power-up,
under any bus traffic and any resets, the flag stays low and neither the error register nor the
status field ever shows the code of an overheated device. -/
theorem never_overheats (junk : Controller) (tripped : Bool) (i : Wishbone) (xs : List Input) :
    let s := run Soc.next (powerUp junk tripped i) xs
    s.read .temperature = 0 ∧ s.tripped = false ∧ s.read .errCode ≠ 8 ∧
      s.read .nvmeStatus ≠ 0x108 := by
  intro s
  have hcold : Cold s := run_inv (fun _ x h => h.next x) (cold_powerUp junk tripped i) xs
  have herr : s.core.fsm.outErrCode.setWidth 32 ≠ 8#32 := by
    intro h
    apply hcold.outErrCode
    have hlow := congrArg (fun v : BitVec 32 => v.setWidth 8) h
    simpa using hlow
  refine ⟨?_, hcold.tripped, herr, ?_⟩
  · show s.temperature.setWidth 32 = 0
    rw [hcold.temperature]
    rfl
  · intro h
    have hnat := congrArg BitVec.toNat h
    by_cases h1 : s.core.fsm.outStatus = 1
    · rw [read, h1, nvmeStatusField_failed] at hnat
      have h8 : s.core.fsm.outErrCode.toNat = 8 := by
        change _ = 264 at hnat
        omega
      exact hcold.outErrCode (BitVec.eq_of_toNat_eq h8)
    · rw [read, nvmeStatusField, if_neg h1] at hnat
      revert hnat
      split_ifs <;> decide

end Soc

end ZnsFlash
