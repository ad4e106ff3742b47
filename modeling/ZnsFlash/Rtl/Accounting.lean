import ZnsFlash.Rtl.Transaction

/-!
# Zone accounting over whole runs

* `Reach`: the states between transactions, from power-up without a later reset;
* `Models`: a controller whose memory and counter are those of a `Zoned.Device`;
* **`models_transaction`**: a write or reset transaction is one step of the device;
* **`open_zone_accounting`**: legal words, exact counter and no wrap-around in every reachable state.
-/

namespace ZnsFlash

open Zoned Runs

/-- **The states between transactions** of runs whose commands meet `ok`: from power-up, through
complete transactions and cycles with the trigger low, with `rst` never raised again. -/
inductive Reach (ok : HostCmd → Prop) : Controller → Prop
  | powerUp (junk : Controller) (i : HostIn) : Reach ok (Controller.powerUp junk i)
  | transaction {s s' : Controller} {c : HostCmd} {n : ℕ} (hs : Reach ok s) (hc : ok c)
      (hrun : s.Completes c n s') : Reach ok (s'.clock c.dropped)
  | idle {s : Controller} {i : HostIn} (hs : Reach ok s) (hi : i.ioTrigger = false) :
      Reach ok (s.clock i)

theorem Reach.ready {ok : HostCmd → Prop} {s : Controller} (h : Reach ok s) : s.Ready := by
  induction h with
  | powerUp junk i => exact ⟨rfl, rfl⟩
  | transaction _ _ hrun ih => exact Controller.ready_of_completes ih hrun
  | idle _ hi ih => exact (Controller.clock_idle ih hi).1

/-- The request that a write or reset command makes. -/
def HostCmd.WritesOrResets (c : HostCmd) : Prop := c.ioCmd = 1 ∨ c.ioCmd = 2

/-- **The controller stands for the device `d`.** -/
abbrev Models (s : Controller) (d : Device znsLimits (BitVec 12)) : Prop :=
  ZoneTable s.bram.ram s.fsm.openZonesCount d

theorem models_powerUp (junk : Controller) (i : HostIn) :
    Models (Controller.powerUp junk i) Device.fresh := zoneTable_fresh

section Transaction

variable {s s' : Controller} {c : HostCmd} {d : Device znsLimits (BitVec 12)} {op : Op} {n : ℕ}

/-- **A transaction is a step of the device**: approved, the accepted request; rejected, none. -/
theorem models_transaction (hs : s.Ready) (hm : Models s d) (hop : c.ioCmd = cmdOf op)
    (hne : op ≠ .read) (hrun : s.Completes c n s') :
    (s'.fsm.outStatus = 1 ∧ Models (s'.clock c.dropped) d) ∨
      (s'.fsm.outStatus = 3 ∧ d.refuses c.row op (lbaPage c.ioLba).toNat = none ∧
        Models (s'.clock c.dropped) (d.step c.row op (lbaPage c.ioLba).toNat)) := by
  rcases Controller.completes_cases hs hrun with ⟨-, rfl⟩ | ⟨hv, rfl⟩
  · exact .inl ⟨rfl, hm⟩
  · have h0 := (verdict_hasError_false (hm.encodes c.row) hop).mp hv
    rw [hm.count] at h0
    have hacc : d.refuses c.row op (lbaPage c.ioLba).toNat = none := (atomicCode_eq_zero.mp h0).2.2
    refine .inr ⟨rfl, hacc, ?_⟩
    have hnext := hm.step hacc s.fsm.bramWdata fun h => absurd h hne
    rw [← hop] at hnext
    exact hnext

end Transaction

/-! ## Reachable states -/

theorem exists_op {c : HostCmd} (h : c.WritesOrResets) : ∃ op, c.ioCmd = cmdOf op ∧ op ≠ .read := by
  rcases h with h | h
  · exact ⟨.write, h, by decide⟩
  · exact ⟨.reset, h, by decide⟩

theorem Reach.models {s : Controller} (h : Reach HostCmd.WritesOrResets s) :
    ∃ d, Models s d := by
  induction h with
  | powerUp junk i => exact ⟨_, models_powerUp junk i⟩
  | transaction hs hc hrun ih =>
    obtain ⟨d, hd⟩ := ih
    obtain ⟨op, hop, hne⟩ := exists_op hc
    rcases models_transaction hs.ready hd hop hne hrun with ⟨-, h⟩ | ⟨-, -, h⟩
    · exact ⟨_, h⟩
    · exact ⟨_, h⟩
  | idle hs hi ih =>
    obtain ⟨d, hd⟩ := ih
    obtain ⟨-, hram, hcnt, -⟩ := Controller.clock_idle hs.ready hi
    refine ⟨d, ?_⟩
    rw [Models, hram, hcnt]
    exact hd

/-- The number of zones whose word says `0 < wptr` and not full. -/
def Controller.openWords (s : Controller) : ℕ :=
  (Finset.univ.filter fun a => OpenWord (s.word a)).card

theorem openWords_of_table {s : Controller} {n : BitVec 4} {d : Device znsLimits (BitVec 12)}
    (h : ZoneTable s.bram.ram n d) : s.openWords = d.nOpen := by
  have hfilter : (Finset.univ.filter fun a => OpenWord (s.word a)) =
      Finset.univ.filter fun a => (d.zones a).IsOpen :=
    Finset.filter_congr fun a _ => (h.encodes a).openWord_iff
  exact congrArg Finset.card hfilter

theorem Models.openWords {s : Controller} {d : Device znsLimits (BitVec 12)} (h : Models s d) :
    s.openWords = d.nOpen := openWords_of_table h

/-- `1` for an open word and `0` for any other. -/
def openBit (w : BitVec 32) : ℕ := if OpenWord w then 1 else 0

theorem openBit_eq {w : BitVec 32} {z : Zone znsLimits} (h : Encodes w z) :
    openBit w = z.openUnit := by
  unfold openBit Zone.openUnit
  exact if_congr h.openWord_iff rfl rfl

/-- A transaction on counter, pointers and erase counts as natural numbers: nothing wraps. -/
structure NoWrap (c : HostCmd) (s s' : Controller) : Prop where
  /-- The counter moves with the zone of the command. -/
  count : (s'.clock c.dropped).fsm.openZonesCount.toNat + openBit (s.word c.row) =
    s.fsm.openZonesCount.toNat + openBit ((s'.clock c.dropped).word c.row)
  /-- The pointer moves up by one, or to zero. -/
  wptr : s'.fsm.outStatus = 3 → (zoneWptr ((s'.clock c.dropped).word c.row)).toNat =
    if c.ioCmd = 1 then (zoneWptr (s.word c.row)).toNat + 1 else 0
  /-- The erase count moves up by one, or stays. -/
  erases : s'.fsm.outStatus = 3 → (zoneEraseCnt ((s'.clock c.dropped).word c.row)).toNat =
    (zoneEraseCnt (s.word c.row)).toNat + if c.ioCmd = 1 then 0 else 1
  /-- Every other word keeps its fields. -/
  others : ∀ a ≠ c.row, (s'.clock c.dropped).word a = s.word a

section NoWrap

variable {s s' : Controller} {c : HostCmd} {d : Device znsLimits (BitVec 12)} {n : ℕ}

theorem noWrap_rejected : NoWrap c s (s.rejected c) where
  count := rfl
  wptr h := absurd h (by change ¬ (1#8 = 3#8); decide)
  erases h := absurd h (by change ¬ (1#8 = 3#8); decide)
  others _ _ := rfl

theorem noWrap_of_completes (hs : s.Ready) (hm : Models s d) (hc : c.WritesOrResets)
    (hrun : s.Completes c n s') : NoWrap c s s' := by
  obtain ⟨op, hop, hne⟩ := exists_op hc
  have hz := hm.encodes c.row
  rcases Controller.completes_cases hs hrun with ⟨-, rfl⟩ | ⟨-, rfl⟩
  · exact noWrap_rejected
  rcases models_transaction hs hm hop hne hrun with ⟨h1, -⟩ | ⟨-, hacc, hm'⟩
  · exact absurd h1 (by change ¬ (3#8 = 1#8); decide)
  have hz' := hm'.encodes c.row
  rw [Device.step_of_accepted hacc, Function.update_self] at hz'
  have hcnt := hm'.count
  have hupd := openCount_update d.zones c.row ((d.zones c.row).next op)
  rw [Device.nOpen, Device.step_of_accepted hacc] at hcnt
  refine ⟨?_, fun _ => ?_, fun _ => ?_, fun a ha => ?_⟩
  · rw [openBit_eq hz, openBit_eq hz', hcnt, hm.count]
    exact hupd
  · rw [hz'.wptr, hz.wptr, hop]
    cases op with
    | read => exact absurd rfl hne
    | write => exact (Zone.next_write (refusal_write_eq_none.mp hacc).1).1
    | reset => exact (Zone.next_reset (refusal_reset_eq_none.mp hacc)).1
  · rw [hz'.erases, hz.erases, hop]
    cases op with
    | read => exact absurd rfl hne
    | write => exact (Zone.next_write (refusal_write_eq_none.mp hacc).1).2
    | reset => exact (Zone.next_reset (refusal_reset_eq_none.mp hacc)).2
  · exact Function.update_of_ne ha _ _

end NoWrap

/-- **Open-zone accounting.** In every state between write and reset transactions all words are
legal, the counter is the number of open words, at most four, and no transaction wraps a field. -/
theorem open_zone_accounting {s : Controller} (h : Reach HostCmd.WritesOrResets s) :
    (∀ a, LegalWord (s.word a) ∧ SpareClear (s.word a)) ∧
      s.fsm.openZonesCount.toNat = s.openWords ∧ s.openWords ≤ 4 ∧
      ∀ c n s', c.WritesOrResets → s.Completes c n s' → NoWrap c s s' := by
  obtain ⟨d, hd⟩ := h.models
  refine ⟨fun a => ⟨(hd.encodes a).legal, hd.spare a⟩, ?_, ?_, fun c n s' hc hrun =>
    noWrap_of_completes h.ready hd hc hrun⟩
  · rw [hd.openWords, hd.count]
  · rw [hd.openWords]
    exact d.open_le

theorem open_zone_accounting_first_write :
    ∃ s : Controller, Reach HostCmd.WritesOrResets s ∧ s.fsm.openZonesCount = 1 ∧
      s.fsm.openZonesCount.toNat = s.openWords ∧ s.openWords ≤ 4 := by
  have h0 : Reach HostCmd.WritesOrResets _ := .powerUp Controller.quiet ⟨false, 0, 0, false⟩
  have h := h0.transaction (c := ⟨1, 0, false⟩) (.inl rfl)
    (Controller.completes_approved h0.ready (by decide))
  obtain ⟨-, hcount, hle, -⟩ := open_zone_accounting h
  exact ⟨_, h, rfl, hcount, hle⟩

end ZnsFlash
