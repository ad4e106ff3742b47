import ZnsFlash.Library.Serial
import Mathlib.Tactic.IntervalCases

/-!
# The SPI dump

`zns_eeprom_controller.v`: on `io_plp_trigger` the controller latches a word and sends it to the
EEPROM, most significant bit first.

* `Eeprom`, `Eeprom.posedge`, `Eeprom.after`: the registers and a clock edge;
* `Eeprom.starting`, `Eeprom.sending`: the registers along a dump, and **`after_starting`**,
  **`after_sending`**: when they are reached;
* **`dump_transmits`**: what the EEPROM receives.
-/

namespace ZnsFlash

open Serial

inductive SpiState
  | idle
  | start
  | transfer
  | done
  deriving DecidableEq

/-- The registers of `zns_eeprom_controller`. -/
structure Eeprom where
  spiState : SpiState
  shiftReg : BitVec 32
  bitCounter : BitVec 6
  clkDivider : BitVec 3
  outEepromBusy : Bool
  outEepromDone : Bool
  spiSck : Bool
  spiMosi : Bool
  spiCsN : Bool
  deriving DecidableEq

structure EepromIn where
  rst : Bool
  ioPlpTrigger : Bool
  ioSmartData : BitVec 32

namespace Eeprom

/-- `sck_tick` -/
def sckTick (s : Eeprom) : Bool := s.clkDivider == 3

/-- `bit_tick` -/
def bitTick (s : Eeprom) : Bool := s.clkDivider == 7

/-- The registers after `rst`. -/
def reset : Eeprom := ⟨.idle, 0, 0, 0, false, false, false, false, true⟩

/-- `ST_SPI_IDLE` -/
def idleEdge (s : Eeprom) (i : EepromIn) : Eeprom :=
  { s with
    spiSck := false
    spiMosi := false
    spiCsN := true
    outEepromDone := false
    clkDivider := 0
    spiState := if i.ioPlpTrigger then .start else s.spiState
    shiftReg := if i.ioPlpTrigger then i.ioSmartData else s.shiftReg
    outEepromBusy := i.ioPlpTrigger }

/-- `ST_SPI_START` -/
def startEdge (s : Eeprom) : Eeprom :=
  let s' := { s with
    spiCsN := false
    clkDivider := s.clkDivider + 1
    spiMosi := s.shiftReg.getLsbD 31 }
  if s.bitTick then { s' with spiState := .transfer, bitCounter := 0, clkDivider := 0 } else s'

/-- `ST_SPI_TRANSFER` -/
def transferEdge (s : Eeprom) : Eeprom :=
  let s' := { s with
    clkDivider := s.clkDivider + 1
    spiSck := if s.sckTick then true else s.spiSck }
  if s.bitTick then
    if s.bitCounter = 31 then
      { s' with spiSck := false, spiState := .done, spiMosi := false, clkDivider := 0 }
    else
      { s' with
        spiSck := false
        shiftReg := s.shiftReg.extractLsb 30 0 ++ 0#1
        bitCounter := s.bitCounter + 1
        spiMosi := s.shiftReg.getLsbD 30
        clkDivider := 0 }
  else s'

/-- `ST_SPI_DONE` -/
def doneEdge (s : Eeprom) (i : EepromIn) : Eeprom :=
  { s with
    spiCsN := true
    outEepromBusy := false
    outEepromDone := true
    spiState := if i.ioPlpTrigger then s.spiState else .idle }

/-- A rising edge of `clk`. -/
def posedge (s : Eeprom) (i : EepromIn) : Eeprom :=
  if i.rst then reset
  else
    match s.spiState with
    | .idle => s.idleEdge i
    | .start => s.startEdge
    | .transfer => s.transferEdge
    | .done => s.doneEdge i

/-- The registers after `t` edges. -/
def after (s : Eeprom) (is : ℕ → EepromIn) : ℕ → Eeprom
  | 0 => s
  | t + 1 => (s.after is t).posedge (is t)

/-- What the EEPROM sees. -/
def lines (s : Eeprom) : Lines := ⟨s.spiSck, s.spiMosi, s.spiCsN⟩

/-! ## The course of a dump -/

/-- `d` edges into `ST_SPI_START`. -/
def starting (data : BitVec 32) (bitCounter : BitVec 6) (d : ℕ) : Eeprom :=
  ⟨.start, data, bitCounter, BitVec.ofNat 3 d, true, false, false, decide (0 < d) && data.getMsbD 0,
    decide (d = 0)⟩

/-- `d` edges into bit `k`, with the bits before it shifted out. -/
def sending (data : BitVec 32) (k d : ℕ) : Eeprom :=
  ⟨.transfer, data <<< k, BitVec.ofNat 6 k, BitVec.ofNat 3 d, true, false, decide (4 ≤ d),
    data.getMsbD k, false⟩

/-- All bits are sent. -/
def sent (data : BitVec 32) : Eeprom := ⟨.done, data <<< 31, 31, 0, true, false, false, false, false⟩

section Edges

variable {i : EepromIn} (data : BitVec 32)

theorem posedge_starting (hi : i.rst = false) (bitCounter : BitVec 6) {d : ℕ} (hd : d < 8) :
    (starting data bitCounter d).posedge i =
      if d = 7 then sending data 0 0 else starting data bitCounter (d + 1) := by
  interval_cases d <;> simp [posedge, hi, starting, startEdge, bitTick, sending, BitVec.getMsbD]

theorem extractLsb_shiftLeft (k : ℕ) :
    (data <<< k).extractLsb 30 0 ++ 0#1 = data <<< (k + 1) := by
  ext j hj
  rw [BitVec.getElem_append]
  cases j with
  | zero => simp
  | succ j => simp [show j < 32 by omega]

theorem getLsbD_shiftLeft_next {k : ℕ} (hk : k < 31) :
    (data <<< k).getLsbD 30 = data.getMsbD (k + 1) := by
  rw [BitVec.getLsbD_shiftLeft, BitVec.getMsbD]
  simp [show ¬ 30 < k by omega, show k + 1 < 32 by omega, show 31 - (k + 1) = 30 - k by omega]

theorem ofNat_eq_last_iff {k : ℕ} (hk : k < 32) : BitVec.ofNat 6 k = 31 ↔ k = 31 := by
  rw [BitVec.toNat_eq, BitVec.toNat_ofNat, Nat.mod_eq_of_lt (by omega)]
  rfl

theorem posedge_sending (hi : i.rst = false) {k d : ℕ} (hk : k < 32) (hd : d < 8) :
    (sending data k d).posedge i =
      if d = 7 then if k = 31 then sent data else sending data (k + 1) 0
      else sending data k (d + 1) := by
  have hedge : (sending data k d).posedge i = (sending data k d).transferEdge := by
    rw [posedge, hi]
    rfl
  rw [hedge]
  by_cases hlast : d = 7
  · subst hlast
    have htick : (sending data k 7).bitTick = true := rfl
    rw [if_pos rfl]
    by_cases hk31 : k = 31
    · subst hk31
      rw [if_pos rfl]
      rfl
    · have hcounter : ¬ (sending data k 7).bitCounter = 31 := fun h =>
        hk31 ((ofNat_eq_last_iff hk).mp h)
      have hnext := getLsbD_shiftLeft_next data (show k < 31 by omega)
      rw [if_neg hk31]
      simp only [transferEdge, if_pos htick, if_neg hcounter]
      simp only [sending, extractLsb_shiftLeft, hnext, BitVec.ofNat_add]
      rfl
  · rw [if_neg hlast]
    interval_cases d <;> first | rfl | exact absurd rfl hlast

end Edges

/-! ## The timing -/

section Timing

variable {s : Eeprom} {is : ℕ → EepromIn}

/-- The lines at each clock. -/
def wire (s : Eeprom) (is : ℕ → EepromIn) (t : ℕ) : Lines := (s.after is t).lines

/-- A dump starts at clock `t`. -/
def Starts (s : Eeprom) (is : ℕ → EepromIn) (t : ℕ) : Prop :=
  (s.after is t).spiState = .idle ∧ (is t).ioPlpTrigger = true

theorem after_starting (hrst : ∀ t, (is t).rst = false) (hstart : s.Starts is 0) {d : ℕ} (hd : d < 8) :
    s.after is (d + 1) = starting (is 0).ioSmartData s.bitCounter d := by
  induction d with
  | zero =>
    obtain ⟨hidle, htrigger⟩ := hstart
    have hstate : s.spiState = .idle := hidle
    rw [after, after, posedge, hrst, if_neg Bool.false_ne_true, hstate]
    simp only [idleEdge, htrigger, if_true]
    rfl
  | succ d ih =>
    rw [after, ih (by omega), posedge_starting _ (hrst _) _ (by omega), if_neg (by omega)]

theorem after_bit (hrst : ∀ t, (is t).rst = false) {data : BitVec 32} {t k d : ℕ} (hk : k < 32)
    (h : s.after is t = sending data k 0) (hd : d < 8) : s.after is (t + d) = sending data k d := by
  induction d with
  | zero => exact h
  | succ d ih =>
    rw [← Nat.add_assoc, after, ih (by omega), posedge_sending _ (hrst _) hk (by omega),
      if_neg (by omega)]

theorem after_sending (hrst : ∀ t, (is t).rst = false) (hstart : s.Starts is 0) {k d : ℕ} (hk : k < 32)
    (hd : d < 8) : s.after is (9 + 8 * k + d) = sending (is 0).ioSmartData k d := by
  refine after_bit hrst hk ?_ hd
  clear hd
  induction k with
  | zero =>
    show s.after is (7 + 1 + 1) = _
    rw [after, after_starting hrst hstart (by omega), posedge_starting _ (hrst _) _ (by omega),
      if_pos rfl]
  | succ k ih =>
    have hlast := after_bit hrst (by omega) (ih (by omega)) (show 7 < 8 by omega)
    show s.after is (9 + 8 * k + 7 + 1) = _
    rw [after, hlast, posedge_sending _ (hrst _) (by omega) (by omega), if_pos rfl,
      if_neg (by omega)]

theorem after_sent (hrst : ∀ t, (is t).rst = false) (hstart : s.Starts is 0) :
    s.after is 265 = sent (is 0).ioSmartData := by
  have hlast := after_sending hrst hstart (show 31 < 32 by omega) (show 7 < 8 by omega)
  show s.after is (9 + 8 * 31 + 7 + 1) = _
  rw [after, hlast, posedge_sending _ (hrst _) (by omega) (by omega), if_pos rfl, if_pos rfl]

theorem sck_starting (hrst : ∀ t, (is t).rst = false) (hstart : s.Starts is 0) {t : ℕ} (ht : t < 9) :
    (s.wire is (t + 1)).sck = false := by
  by_cases hlast : t = 8
  · subst hlast
    have hfirst := after_sending hrst hstart (show 0 < 32 by omega) (show 0 < 8 by omega)
    rw [wire, hfirst]
    rfl
  · rw [wire, after_starting hrst hstart (by omega)]
    rfl

theorem sck_sending (hrst : ∀ t, (is t).rst = false) (hstart : s.Starts is 0) {k d : ℕ} (hk : k < 32)
    (hd : d ≤ 8) : (s.wire is (9 + 8 * k + d)).sck = decide (4 ≤ d ∧ d < 8) := by
  by_cases hlast : d = 8
  · subst hlast
    by_cases hk31 : k = 31
    · subst hk31
      rw [wire, after_sent hrst hstart]
      rfl
    · have hnext := after_sending hrst hstart (show k + 1 < 32 by omega) (show 0 < 8 by omega)
      rw [wire, show 9 + 8 * k + 8 = 9 + 8 * (k + 1) + 0 by omega, hnext]
      rfl
  · have hlt : d < 8 := by omega
    rw [wire, after_sending hrst hstart hk hlt]
    simp [lines, sending, hlt]

/-- **The receiver gets the word**, most significant bit first. -/
theorem received_sent (hrst : ∀ t, (is t).rst = false) (hstart : s.Starts is 0) :
    received (s.wire is) 265 = (List.range 32).map (is 0).ioSmartData.getMsbD := by
  have hbefore : received (s.wire is) 9 = [] := by
    refine received_quiet fun t ht hrise => ?_
    rw [Rises, sck_starting hrst hstart ht] at hrise
    exact Bool.false_ne_true hrise.2.1
  have hbit : ∀ k < 32, received (fun t => s.wire is (9 + (8 * k + t))) 8 =
      [(is 0).ioSmartData.getMsbD k] := by
    intro k hk
    have hone : received (fun t => s.wire is (9 + (8 * k + t))) 8 =
        [(s.wire is (9 + (8 * k + (3 + 1)))).mosi] := by
      refine received_one (by omega) fun t ht => ?_
      have hcs : t = 3 → (s.wire is (9 + (8 * k + (t + 1)))).csN = false := by
        rintro rfl
        rw [wire, ← Nat.add_assoc, after_sending hrst hstart hk (by omega)]
        rfl
      rw [Rises]
      simp only [← Nat.add_assoc] at hcs ⊢
      rw [Nat.add_assoc (9 + 8 * k), sck_sending hrst hstart hk ht.le,
        sck_sending hrst hstart hk ht, decide_eq_false_iff_not, decide_eq_true_iff]
      constructor
      · intro hrise
        omega
      · rintro rfl
        exact ⟨by omega, by omega, hcs rfl⟩
    rw [hone, ← Nat.add_assoc, wire, after_sending hrst hstart hk (by omega)]
    rfl
  have hall : received (s.wire is) (9 + 8 * 32) = received (s.wire is) 9 ++
      received (fun t => s.wire is (9 + t)) (8 * 32) := received_add _ _ _
  rw [hbefore, List.nil_append, received_bits hbit] at hall
  exact hall

theorem quiet_after (hrst : ∀ t, (is t).rst = false) (hstart : s.Starts is 0) {t : ℕ}
    (hnext : ∀ u, 265 ≤ u → u < 265 + t → ¬ s.Starts is u) :
    ((s.after is (265 + t)).spiState = .done ∨ (s.after is (265 + t)).spiState = .idle) ∧
      (s.wire is (265 + t)).sck = false := by
  induction t with
  | zero =>
    rw [wire, Nat.add_zero, after_sent hrst hstart]
    exact ⟨Or.inl rfl, rfl⟩
  | succ t ih =>
    obtain ⟨hstate, hsck⟩ := ih fun u hu hlt => hnext u hu (by omega)
    have hno := hnext (265 + t) (by omega) (by omega)
    rw [wire] at hsck ⊢
    rw [← Nat.add_assoc, after, posedge, hrst, if_neg Bool.false_ne_true]
    rcases hstate with hdone | hidle
    · rw [hdone]
      simp only [doneEdge]
      refine ⟨?_, hsck⟩
      split_ifs
      · exact Or.inl hdone
      · exact Or.inr rfl
    · have htrigger : (is (265 + t)).ioPlpTrigger = false :=
        Bool.eq_false_iff.mpr fun h => hno ⟨hidle, h⟩
      rw [hidle]
      simp only [idleEdge, htrigger]
      exact ⟨Or.inr hidle, rfl⟩

/-- **No further dump** before the trigger has been seen low. -/
theorem done_until_low (hrst : ∀ t, (is t).rst = false) (hstart : s.Starts is 0) {t : ℕ}
    (hhigh : ∀ u, 265 ≤ u → u < 265 + t → (is u).ioPlpTrigger = true) :
    (s.after is (265 + t)).spiState = .done := by
  induction t with
  | zero =>
    rw [Nat.add_zero, after_sent hrst hstart]
    rfl
  | succ t ih =>
    have hdone := ih fun u hu hlt => hhigh u hu (by omega)
    rw [← Nat.add_assoc, after, posedge, hrst, if_neg Bool.false_ne_true, hdone]
    simp only [doneEdge, hhigh (265 + t) (by omega) (by omega), if_true]
    exact hdone

theorem transfer_of_rise {i : EepromIn} (hi : i.rst = false) (hlow : s.spiSck = false)
    (hhigh : (s.posedge i).spiSck = true) :
    s.posedge i = { s with spiState := .transfer, clkDivider := 4, spiSck := true } := by
  rw [posedge, hi, if_neg Bool.false_ne_true] at hhigh ⊢
  cases hstate : s.spiState with
  | idle =>
    rw [hstate] at hhigh
    cases hhigh
  | start =>
    rw [hstate] at hhigh
    simp only [startEdge] at hhigh
    split_ifs at hhigh <;> exact absurd (hhigh.symm.trans hlow) Bool.noConfusion
  | transfer =>
    rw [hstate] at hhigh
    simp only [transferEdge] at hhigh ⊢
    by_cases hbit : s.bitTick = true
    · rw [if_pos hbit] at hhigh
      split_ifs at hhigh
    · rw [if_neg hbit] at hhigh ⊢
      by_cases hsck : s.sckTick = true
      · have hthree : s.clkDivider = 3 := eq_of_beq hsck
        rw [if_pos hsck, hthree, hstate]
        rfl
      · rw [if_neg hsck] at hhigh
        exact absurd (hhigh.symm.trans hlow) Bool.noConfusion
  | done =>
    rw [hstate] at hhigh
    exact absurd (hhigh.symm.trans hlow) Bool.noConfusion

/-- **The data line is stable** around the rising edges of the clock line. -/
theorem mosi_stable (hrst : ∀ t, (is t).rst = false) {t : ℕ} (h : Rises (s.wire is) t) :
    (s.wire is (t + 1)).mosi = (s.wire is t).mosi ∧
      (s.wire is (t + 2)).mosi = (s.wire is (t + 1)).mosi := by
  have hone : s.after is (t + 1) =
      { s.after is t with spiState := .transfer, clkDivider := 4, spiSck := true } :=
    transfer_of_rise (hrst t) h.1 h.2.1
  refine ⟨?_, ?_⟩
  · rw [wire, hone]
    rfl
  · rw [wire, wire, after, hone, posedge, hrst, if_neg Bool.false_ne_true]
    rfl

end Timing

end Eeprom

open Eeprom in
/-- **The dump.** From the clock at which the controller leaves `ST_SPI_IDLE`, whatever the trigger
and the telemetry do later: the EEPROM receives the bits of the latched word and, until another dump
starts, nothing else; the data line is stable around its clock edges; `out_eeprom_done` rises after
the last bit; and the controller stays in `ST_SPI_DONE` while the trigger is high. -/
theorem dump_transmits (s : Eeprom) (is : ℕ → EepromIn) (hrst : ∀ t, (is t).rst = false)
    (hstart : s.Starts is 0) :
    (∀ t, 265 ≤ t → (∀ u, 265 ≤ u → u < t → ¬ s.Starts is u) →
        received (s.wire is) t = (List.range 32).map (is 0).ioSmartData.getMsbD) ∧
      (∀ t, Rises (s.wire is) t → (s.wire is (t + 1)).mosi = (s.wire is t).mosi ∧
        (s.wire is (t + 2)).mosi = (s.wire is (t + 1)).mosi) ∧
      (∀ t, 0 < t → t ≤ 265 → (s.after is t).outEepromDone = false) ∧
      (s.after is 266).outEepromDone = true ∧
      ∀ t, 265 ≤ t → s.Starts is t → ∃ u, 265 ≤ u ∧ u < t ∧ (is u).ioPlpTrigger = false := by
  refine ⟨fun t ht hnext => ?_, fun t => mosi_stable hrst, fun t hpos ht => ?_, ?_,
    fun t ht hagain => ?_⟩
  · obtain ⟨n, rfl⟩ := Nat.exists_eq_add_of_le ht
    have hrest : received (fun u => s.wire is (265 + u)) n = [] := by
      refine received_quiet fun u hu hrise => ?_
      have hquiet := quiet_after (t := u + 1) hrst hstart fun v hv hlt => hnext v hv (by omega)
      exact Bool.false_ne_true (hquiet.2.symm.trans hrise.2.1)
    rw [received_add, hrest, List.append_nil, received_sent hrst hstart]
  · rcases Nat.lt_or_ge t 9 with hlt | hge
    · obtain ⟨d, rfl⟩ := Nat.exists_eq_succ_of_ne_zero hpos.ne'
      rw [after_starting hrst hstart (by omega)]
      rfl
    · by_cases hlast : t = 265
      · rw [hlast, after_sent hrst hstart]
        rfl
      · have hsplit : t = 9 + 8 * ((t - 9) / 8) + (t - 9) % 8 := by omega
        rw [hsplit, after_sending hrst hstart (by omega) (by omega)]
        rfl
  · show ((s.after is 265).posedge (is 265)).outEepromDone = true
    rw [after_sent hrst hstart, posedge, hrst]
    rfl
  · by_contra hnone
    obtain ⟨n, rfl⟩ := Nat.exists_eq_add_of_le ht
    have hdone := done_until_low hrst hstart (t := n) fun u hu hlt => by
      by_contra hlow
      exact hnone ⟨u, hu, hlt, Bool.eq_false_iff.mpr hlow⟩
    rw [Starts, hdone] at hagain
    cases hagain.1

/-- A trigger of one clock. -/
def onePulse (data : BitVec 32) (t : ℕ) : EepromIn := ⟨false, t == 0, data⟩

theorem dump_transmits_onePulse :
    received (Eeprom.reset.wire (onePulse 0x012A0004)) 300 =
      (List.range 32).map (0x012A0004 : BitVec 32).getMsbD := by
  refine (dump_transmits Eeprom.reset (onePulse 0x012A0004) (fun _ => rfl) ⟨rfl, rfl⟩).1 300
    (by omega) fun u hu _ hagain => ?_
  have hzero : u = 0 := eq_of_beq hagain.2
  omega

end ZnsFlash
