import ZnsFlash.Rtl.Accounting

/-!
# Resets of the RTL controller

`rst` acts at once on the automaton, at a clock edge on tracker and resolver, and never on the
memory. Runs of transactions that pulses of `rst` separate or interrupt:

* `Controller.pulse`, `Controller.held`, `ResetStep`, `resetStep`: the runs;
* `held_phase`, `held_table`: memory and counter after any number of cycles of a held command;
* `LimitKept`, `PulseSafe`: the limit in every cycle and the counter after a pulse, and when they hold;
* **`limit_kept_iff_pulses_safe`**: they hold along a run exactly when every pulse is safe.
-/

namespace ZnsFlash

open Zoned Runs

namespace Controller

variable (s : Controller) (c : HostCmd)

/-- **A pulse of `rst`**: raised between two clock edges, kept up for one edge per input, dropped. -/
def pulse (is : List HostIn) : Controller :=
  run (fun t i => t.posedge true i) { s with fsm := s.fsm.asyncReset } is

/-- The command held on the inputs for `k` cycles. -/
def held (k : ℕ) : Controller := (fun t => t.clock c.raised)^[k] s

end Controller

/-- What happens to the controller between two moments with the automaton idle. -/
inductive ResetStep
  /-- One cycle with the trigger low. -/
  | idle (i : HostIn)
  /-- A command held for some cycles, then dropped. -/
  | transaction (c : HostCmd) (cycles : ℕ)
  /-- A command held for some cycles, then a pulse of `rst`. -/
  | interrupted (c : HostCmd) (cycles : ℕ) (pulse : List HostIn)

open ResetStep

/-- The state after a step. -/
def resetStep (s : Controller) : ResetStep → Controller
  | .idle i => s.clock i
  | .transaction c k => (s.held c k).clock c.dropped
  | .interrupted c k is => (s.held c k).pulse is

/-- The protocol of the host: idle cycles keep the trigger low, commands are writes or resets, and a
command is dropped only at a final status. -/
def ResetStep.Valid (s : Controller) : ResetStep → Prop
  | .idle i => i.ioTrigger = false
  | .transaction c k => c.WritesOrResets ∧ (s.held c k).Final
  | .interrupted c _ _ => c.WritesOrResets

/-- **At most four open words in every cycle of the step**, and after a pulse the counter is their
number. -/
def LimitKept (s : Controller) : ResetStep → Prop
  | .idle i => (s.clock i).openWords ≤ 4
  | .transaction c k =>
    (∀ j ≤ k, (s.held c j).openWords ≤ 4) ∧ ((s.held c k).clock c.dropped).openWords ≤ 4
  | .interrupted c k is =>
    (∀ j ≤ k, (s.held c j).openWords ≤ 4) ∧
      (∀ js, js <+: is → ((s.held c k).pulse js).openWords ≤ 4) ∧
      ((s.held c k).pulse is).fsm.openZonesCount.toNat = ((s.held c k).pulse is).openWords

/-- The command opens or closes a zone with the word `w`. -/
def HostCmd.Moves (c : HostCmd) (w : BitVec 32) : Prop :=
  c.ioCmd = 1 ∧ (zoneWptr w = 0 ∨ zoneWptr w = 63) ∨ c.ioCmd = 2 ∧ OpenWord w

/-- **When a pulse does no harm.** Over a clock edge: no zone is open when `rst` rises. Between two
edges: it does not fall between the update of the counter and the write to the memory, after five
cycles of an approved command that opens or closes its zone. -/
def PulseSafe (s : Controller) : ResetStep → Prop
  | .idle _ | .transaction _ _ => True
  | .interrupted c k [] =>
    k = 5 → (s.verdict c).hasError = false → ¬ c.Moves (s.word c.row)
  | .interrupted c k (_ :: _) => (s.held c k).openWords = 0

/-! ## Memory and counter under a pulse -/

namespace Controller

variable {s t : Controller} {c : HostCmd}

theorem openWords_congr (h : s.bram.ram = t.bram.ram) : s.openWords = t.openWords := by
  unfold openWords word
  rw [h]

/-- The automaton waits for the host to drop the command. -/
structure Parked (t : Controller) : Prop where
  waits : t.fsm.currentState = .error ∨ t.fsm.currentState = .updateBram
  we : t.fsm.bramWe = false

theorem posedge_rst_ram (h : t.fsm.bramWe = false) (i : HostIn) :
    (t.posedge true i).fsm.bramWe = false ∧ (t.posedge true i).bram.ram = t.bram.ram := by
  refine ⟨?_, if_neg (by rw [h]; exact Bool.false_ne_true)⟩
  rw [posedge, posedge_rst rfl]
  rfl

theorem pulse_append (is : List HostIn) (i : HostIn) :
    s.pulse (is ++ [i]) = (s.pulse is).posedge true i := by
  rw [pulse, pulse, run, List.foldl_append]
  rfl

theorem pulse_ready (s : Controller) (is : List HostIn) :
    (s.pulse is).Ready ∧ (s.pulse is).bram.ram = s.bram.ram := by
  induction is using List.reverseRecOn with
  | nil => exact ⟨⟨rfl, rfl⟩, rfl⟩
  | append_singleton is i ih =>
    obtain ⟨⟨-, hwe⟩, hram⟩ := ih
    rw [pulse_append]
    obtain ⟨hwe', hram'⟩ := posedge_rst_ram hwe i
    refine ⟨⟨?_, hwe'⟩, hram'.trans hram⟩
    rw [posedge, posedge_rst rfl]
    rfl

theorem pulse_count (s : Controller) (is : List HostIn) :
    (s.pulse is).fsm.openZonesCount = if is = [] then s.fsm.openZonesCount else 0 := by
  induction is using List.reverseRecOn with
  | nil => rfl
  | append_singleton is i _ =>
    rw [pulse_append, posedge, posedge_rst rfl, if_neg (by simp)]

/-! ## Memory and counter while a command is held -/

theorem held_succ (k : ℕ) : s.held c (k + 1) = (s.held c k).clock c.raised :=
  Function.iterate_succ_apply' _ _ _

/-- A waiting automaton changes neither memory nor counter; it waits as long as the trigger is up. -/
theorem clock_parked (h : t.Parked) (i : HostIn) :
    (t.clock i).bram.ram = t.bram.ram ∧
      (t.clock i).fsm.openZonesCount = t.fsm.openZonesCount ∧ (t.clock i).fsm.bramWe = false ∧
      (t.clock i).fsm.currentState = if i.ioTrigger then t.fsm.currentState else .idle := by
  refine ⟨if_neg (by rw [h.we]; exact Bool.false_ne_true), ?_⟩
  rcases h.waits with hst | hst
  · rw [clock_eq, posedge_error rfl hst, hst]
    exact ⟨rfl, h.we, rfl⟩
  · rw [clock_eq, posedge_updateBram rfl hst, hst]
    exact ⟨rfl, rfl, rfl⟩

theorem parked_raised (h : t.Parked) (k : ℕ) :
    (t.held c k).Parked ∧ (t.held c k).bram.ram = t.bram.ram ∧
      (t.held c k).fsm.openZonesCount = t.fsm.openZonesCount := by
  induction k with
  | zero => exact ⟨h, rfl, rfl⟩
  | succ k ih =>
    obtain ⟨hp, hram, hcount⟩ := ih
    obtain ⟨hram', hcount', hwe, hst⟩ := clock_parked hp c.raised
    rw [held_succ]
    exact ⟨⟨hst ▸ hp.waits, hwe⟩, hram'.trans hram, hcount'.trans hcount⟩

theorem held_of_le_four (hs : s.Ready) {k : ℕ} (hk : k ≤ 4) :
    (s.held c k).bram.ram = s.bram.ram ∧
      (s.held c k).fsm.openZonesCount = s.fsm.openZonesCount := by
  rcases (by omega : k = 0 ∨ k = 1 ∨ k = 2 ∨ k = 3 ∨ k = 4) with rfl | rfl | rfl | rfl | rfl
  · exact ⟨rfl, rfl⟩
  · obtain ⟨r, ⟨st, n, d, we, os, oe⟩, ram, rd⟩ := s
    obtain ⟨hst, hwe⟩ := hs
    change st = _ at hst
    change we = _ at hwe
    subst hst hwe
    exact ⟨rfl, rfl⟩
  · obtain ⟨r, ⟨st, n, d, we, os, oe⟩, ram, rd⟩ := s
    obtain ⟨hst, hwe⟩ := hs
    change st = _ at hst
    change we = _ at hwe
    subst hst hwe
    exact ⟨rfl, rfl⟩
  · rw [held, iterate_fetch hs]
    exact ⟨rfl, rfl⟩
  · rw [held, iterate_validate hs]
    exact ⟨rfl, rfl⟩

/-- Memory and counter after `k` cycles of a held command, in its three phases: nothing done yet;
approved, with the counter updated and the memory not yet written; approved and written. -/
inductive HeldPhase (s : Controller) (c : HostCmd) (k : ℕ) : Prop
  | waiting (hk : k ≤ 4 ∨ (s.verdict c).hasError = true)
      (ram : (s.held c k).bram.ram = s.bram.ram)
      (count : (s.held c k).fsm.openZonesCount = s.fsm.openZonesCount)
  | counted (hk : k = 5) (approved : (s.verdict c).hasError = false)
      (ram : (s.held c k).bram.ram = s.bram.ram)
      (count : (s.held c k).fsm.openZonesCount = (s.approved c).fsm.openZonesCount)
  | written (hk : 6 ≤ k) (approved : (s.verdict c).hasError = false)
      (ram : (s.held c k).bram.ram = (s.approved c).bram.ram)
      (count : (s.held c k).fsm.openZonesCount = (s.approved c).fsm.openZonesCount)

theorem held_of_parked {n k : ℕ} (hn : s.held c n = t) (hk : n ≤ k) (h : t.Parked) :
    (s.held c k).Parked ∧ (s.held c k).bram.ram = t.bram.ram ∧
      (s.held c k).fsm.openZonesCount = t.fsm.openZonesCount := by
  obtain ⟨m, rfl⟩ := Nat.exists_eq_add_of_le hk
  have hsum : s.held c (n + m) = t.held c m := by
    rw [← hn, held, Nat.add_comm, Function.iterate_add_apply]
    rfl
  rw [hsum]
  exact parked_raised h m

theorem parked_rejected : (s.rejected c).Parked := ⟨.inl rfl, rfl⟩

theorem parked_approved : (s.approved c).Parked := ⟨.inr rfl, rfl⟩

theorem held_phase (hs : s.Ready) (c : HostCmd) (k : ℕ) : HeldPhase s c k := by
  by_cases hk : k ≤ 4
  · obtain ⟨hram, hcount⟩ := held_of_le_four (c := c) hs hk
    exact .waiting (.inl hk) hram hcount
  cases hv : (s.verdict c).hasError with
  | true =>
    obtain ⟨-, hram, hcount⟩ :=
      held_of_parked (iterate_rejected hs hv) (by omega : 5 ≤ k) parked_rejected
    exact .waiting (.inr hv) hram hcount
  | false =>
    by_cases h5 : k = 5
    · subst h5
      have hheld : s.held c 5 = _ := iterate_execute hs hv
      exact .counted rfl hv (by rw [hheld]) (by rw [hheld])
    · obtain ⟨-, hram, hcount⟩ :=
        held_of_parked (iterate_approved hs hv) (by omega : 6 ≤ k) parked_approved
      exact .written (by omega) hv hram hcount

theorem parked_of_final (hs : s.Ready) {k : ℕ} (hf : (s.held c k).Final) :
    k = 0 ∨ (s.held c k).Parked := by
  rcases Nat.eq_zero_or_pos k with h0 | h0
  · exact .inl h0
  right
  by_cases hk : k ≤ 4
  · exact absurd hf (not_final_of_le_four hs h0 hk)
  cases hv : (s.verdict c).hasError with
  | true => exact (held_of_parked (iterate_rejected hs hv) (by omega : 5 ≤ k) parked_rejected).1
  | false =>
    by_cases h5 : k = 5
    · subst h5
      have hheld : s.held c 5 = _ := iterate_execute hs hv
      rw [hheld] at hf
      exact absurd hf (by change ¬ FinalStatus 2; decide)
    · exact (held_of_parked (iterate_approved hs hv) (by omega : 6 ≤ k) parked_approved).1

/-- **A command dropped at a final status** leaves the automaton idle, with memory and counter as
they were. -/
theorem dropped_ready (hs : s.Ready) {k : ℕ} (hf : (s.held c k).Final) :
    ((s.held c k).clock c.dropped).Ready ∧
      ((s.held c k).clock c.dropped).bram.ram = (s.held c k).bram.ram ∧
      ((s.held c k).clock c.dropped).fsm.openZonesCount = (s.held c k).fsm.openZonesCount := by
  rcases parked_of_final hs hf with rfl | hp
  · obtain ⟨hr, hram, hcount, -⟩ := clock_idle hs (i := c.dropped) rfl
    exact ⟨hr, hram, hcount⟩
  · obtain ⟨hram, hcount, hwe, hst⟩ := clock_parked hp c.dropped
    exact ⟨⟨hst, hwe⟩, hram, hcount⟩

end Controller

/-! ## Runs -/

section Step

variable {s t : Controller} {c : HostCmd} {d : Device znsLimits (BitVec 12)} {n : BitVec 4} {k : ℕ}

theorem models_of_count (h : ZoneTable s.bram.ram n d)
    (hcount : s.fsm.openZonesCount.toNat = s.openWords) : Models s d where
  encodes := h.encodes
  spare := h.spare
  count := hcount.trans (openWords_of_table h)

theorem models_approved (hs : s.Ready) (hm : Models s d) (hc : c.WritesOrResets)
    (hv : (s.verdict c).hasError = false) : ∃ d', Models (s.approved c) d' := by
  obtain ⟨op, hop, hne⟩ := exists_op hc
  rcases models_transaction hs hm hop hne (Controller.completes_approved hs hv) with
    ⟨h1, -⟩ | ⟨-, -, hm'⟩
  · exact absurd h1 (by change ¬ (3#8 = 1#8); decide)
  · exact ⟨_, hm'⟩

theorem held_table (hs : s.Ready) (hm : Models s d) (hc : c.WritesOrResets) (k : ℕ) :
    ∃ n d', ZoneTable (s.held c k).bram.ram n d' := by
  cases Controller.held_phase hs c k with
  | waiting _ hram _ | counted _ _ hram _ =>
    rw [hram]
    exact ⟨_, d, hm⟩
  | written _ hv hram _ =>
    obtain ⟨d', hm'⟩ := models_approved hs hm hc hv
    rw [hram]
    exact ⟨_, d', hm'⟩

theorem openWords_held_le (hs : s.Ready) (hm : Models s d) (hc : c.WritesOrResets) (k : ℕ) :
    (s.held c k).openWords ≤ 4 := by
  obtain ⟨n, d', h⟩ := held_table hs hm hc k
  rw [openWords_of_table h]
  exact d'.open_le

/-- The counter is right in every cycle, the one between its update and the write apart. -/
theorem count_held (hs : s.Ready) (hm : Models s d) (hc : c.WritesOrResets)
    (hk : k = 5 → (s.verdict c).hasError = true) :
    (s.held c k).fsm.openZonesCount.toNat = (s.held c k).openWords := by
  cases Controller.held_phase hs c k with
  | waiting _ hram hcount =>
    rw [Controller.openWords_congr hram, hcount, hm.openWords, hm.count]
  | counted h5 hv _ _ =>
    rw [hk h5] at hv
    exact Bool.noConfusion hv
  | written _ hv hram hcount =>
    obtain ⟨d', hm'⟩ := models_approved hs hm hc hv
    rw [Controller.openWords_congr hram, hcount, hm'.openWords, hm'.count]

theorem moves_iff {w : BitVec 32} {z : Zone znsLimits} {op : Op} {m p : ℕ} (hz : Encodes w z)
    (hop : c.ioCmd = cmdOf op) (hne : op ≠ .read) (hacc : refusal m z op p = none) :
    c.Moves w ↔ z.openUnit ≠ (z.next op).openUnit := by
  have hz64 : z.wptr ≤ 64 := z.wptr_le
  cases op with
  | read => exact absurd rfl hne
  | write =>
    obtain ⟨hcap, -, -⟩ := refusal_write_eq_none.mp hacc
    change z.wptr < 64 at hcap
    have h1 : c.ioCmd = 1 := hop
    have h0 : zoneWptr w = 0 ↔ z.wptr = 0 := hz.wptr_eq 0
    have h63 : zoneWptr w = 63 ↔ z.wptr = 63 := hz.wptr_eq 63
    simp only [HostCmd.Moves, h1, true_and, h0, h63, openUnit_eq, BitVec.reduceEq, false_and,
      or_false, (Zone.next_write (L := znsLimits) hcap).1]
    split_ifs <;> omega
  | reset =>
    have her := refusal_reset_eq_none.mp hacc
    have h2 : c.ioCmd = 2 := hop
    simp only [HostCmd.Moves, h2, true_and, hz.openWord_iff, BitVec.reduceEq, false_and, false_or,
      openUnit_eq, (Zone.next_reset her).1]
    change 0 < z.wptr ∧ z.wptr < 64 ↔ _
    split_ifs <;> omega

/-- The cycle between the update of the counter and the write: the counter is right exactly when
the command neither opens nor closes its zone. -/
theorem count_counted_iff (hs : s.Ready) (hm : Models s d) (hc : c.WritesOrResets)
    (hv : (s.verdict c).hasError = false) :
    (s.held c 5).fsm.openZonesCount.toNat = (s.held c 5).openWords ↔
      ¬ c.Moves (s.word c.row) := by
  obtain ⟨op, hop, hne⟩ := exists_op hc
  have hz := hm.encodes c.row
  have hrun := Controller.completes_approved hs hv
  have hwrap := (noWrap_of_completes hs hm hc hrun).count
  have hheld : s.held c 5 = _ := Controller.iterate_execute hs hv
  rcases models_transaction hs hm hop hne hrun with ⟨h1, -⟩ | ⟨-, hacc, hm'⟩
  · exact absurd h1 (by change ¬ (3#8 = 1#8); decide)
  have hz' := hm'.encodes c.row
  rw [Device.step_of_accepted hacc, Function.update_self] at hz'
  rw [openBit_eq hz, openBit_eq hz', hm.count, ← hm.openWords] at hwrap
  have hram : (s.held c 5).openWords = s.openWords := Controller.openWords_congr (by rw [hheld])
  have hcount : (s.held c 5).fsm.openZonesCount =
      ((s.approved c).clock c.dropped).fsm.openZonesCount := by rw [hheld]; rfl
  rw [moves_iff hz hop hne hacc, hram, hcount]
  omega

/-- Between commands: idle, and the memory and the counter stand for a device. -/
def Settled (s : Controller) : Prop := s.Ready ∧ ∃ d, Models s d

theorem openWords_pulse (s : Controller) (is : List HostIn) : (s.pulse is).openWords = s.openWords :=
  Controller.openWords_congr (Controller.pulse_ready s is).2

/-- **A step keeps the limit exactly when its pulse is safe.** -/
theorem limitKept_iff (h : Settled s) {e : ResetStep} (he : e.Valid s) :
    LimitKept s e ↔ PulseSafe s e := by
  obtain ⟨hs, d, hm⟩ := h
  cases e with
  | idle i =>
    obtain ⟨-, hram, -, -⟩ := Controller.clock_idle hs he
    refine ⟨fun _ => trivial, fun _ => ?_⟩
    rw [LimitKept, Controller.openWords_congr hram, hm.openWords]
    exact d.open_le
  | transaction c k =>
    obtain ⟨hc, hf⟩ := he
    obtain ⟨-, hram, -⟩ := Controller.dropped_ready hs hf
    refine ⟨fun _ => trivial, fun _ => ⟨fun j _ => openWords_held_le hs hm hc j, ?_⟩⟩
    rw [Controller.openWords_congr hram]
    exact openWords_held_le hs hm hc k
  | interrupted c k is =>
    have hkept : LimitKept s (.interrupted c k is) ↔
        ((s.held c k).pulse is).fsm.openZonesCount.toNat = (s.held c k).openWords := by
      rw [LimitKept, openWords_pulse]
      refine ⟨fun h => h.2.2, fun h => ⟨fun j _ => openWords_held_le hs hm he j, fun js _ => ?_, h⟩⟩
      rw [openWords_pulse]
      exact openWords_held_le hs hm he k
    rw [hkept, Controller.pulse_count]
    cases is with
    | nil =>
      rw [if_pos rfl]
      by_cases hk : k = 5 → (s.verdict c).hasError = true
      · refine ⟨fun _ h5 hv => ?_, fun _ => count_held hs hm he hk⟩
        rw [hk h5] at hv
        exact Bool.noConfusion hv
      · obtain ⟨rfl, hv⟩ := Classical.not_imp.mp hk
        rw [Bool.not_eq_true] at hv
        rw [count_counted_iff hs hm he hv]
        exact ⟨fun h _ _ => h, fun h => h rfl hv⟩
    | cons i is =>
      rw [if_neg (List.cons_ne_nil i is)]
      exact eq_comm

theorem settled_step (h : Settled s) {e : ResetStep} (he : e.Valid s) (hkept : LimitKept s e) :
    Settled (resetStep s e) := by
  obtain ⟨hs, d, hm⟩ := h
  cases e with
  | idle i =>
    obtain ⟨hr, hram, hcount, -⟩ := Controller.clock_idle hs he
    refine ⟨hr, d, ?_⟩
    rw [Models, resetStep, hram, hcount]
    exact hm
  | transaction c k =>
    obtain ⟨hc, hf⟩ := he
    obtain ⟨hr, hram, hcount⟩ := Controller.dropped_ready hs hf
    obtain ⟨n, d', ht⟩ := held_table hs hm hc k
    have hk : k = 5 → (s.verdict c).hasError = true := by
      rintro rfl
      by_contra hv
      rw [Bool.not_eq_true] at hv
      have hheld : s.held c 5 = _ := Controller.iterate_execute hs hv
      rw [hheld] at hf
      exact absurd hf (by change ¬ FinalStatus 2; decide)
    have hm' := models_of_count ht (count_held hs hm hc hk)
    refine ⟨hr, d', ?_⟩
    rw [Models, resetStep, hram, hcount]
    exact hm'
  | interrupted c k is =>
    obtain ⟨hr, hram⟩ := Controller.pulse_ready (s.held c k) is
    obtain ⟨n, d', ht⟩ := held_table hs hm he k
    rw [← hram] at ht
    exact ⟨hr, d', models_of_count ht hkept.2.2⟩

end Step

/-- **The open-zone limit under resets.** Along every run from power-up, the limit is kept in every
cycle and the counter is right after every pulse, exactly when every pulse is safe. -/
theorem limit_kept_iff_pulses_safe (junk : Controller) (i : HostIn) (es : List ResetStep)
    (hes : Along resetStep (fun s e => e.Valid s) (Controller.powerUp junk i) es) :
    Along resetStep LimitKept (Controller.powerUp junk i) es ↔
      Along resetStep PulseSafe (Controller.powerUp junk i) es := by
  have hinit : Settled (Controller.powerUp junk i) := ⟨⟨rfl, rfl⟩, _, models_powerUp junk i⟩
  have h := @along_congr _ _ resetStep Settled
    (P := fun s e => e.Valid s ∧ LimitKept s e) (Q := fun s e => e.Valid s ∧ PulseSafe s e)
    (fun s e hs he => settled_step hs he.1 he.2)
    (fun s e hs => and_congr_right fun he => limitKept_iff hs he) _ hinit es
  rw [along_and, along_and] at h
  exact (and_congr_right_iff.mp h) hes

/-- A zone is opened, and a pulse over one clock edge follows. -/
def openThenReset : List ResetStep :=
  [.transaction ⟨1, 0, false⟩ 6, .interrupted ⟨1, 0, false⟩ 0 [⟨false, 0, 0, false⟩]]

theorem openThenReset_valid : Along resetStep (fun s e => e.Valid s)
    (Controller.powerUp Controller.quiet ⟨false, 0, 0, false⟩) openThenReset :=
  ⟨⟨.inl rfl, .inr rfl⟩, .inl rfl, trivial⟩

theorem limit_kept_iff_pulses_safe_openThenReset :
    Along resetStep (fun s e => e.Valid s)
        (Controller.powerUp Controller.quiet ⟨false, 0, 0, false⟩) openThenReset ∧
      (Along resetStep LimitKept (Controller.powerUp Controller.quiet ⟨false, 0, 0, false⟩)
          openThenReset ↔
        Along resetStep PulseSafe (Controller.powerUp Controller.quiet ⟨false, 0, 0, false⟩)
          openThenReset) :=
  ⟨openThenReset_valid, limit_kept_iff_pulses_safe _ _ _ openThenReset_valid⟩

/-- **The counter is cleared, the zone stays open.** -/
theorem reset_forgets_open_zone :
    ¬ ∀ (junk : Controller) (i : HostIn) (es : List ResetStep),
      Along resetStep (fun s e => e.Valid s) (Controller.powerUp junk i) es →
        Along resetStep LimitKept (Controller.powerUp junk i) es := by
  intro h
  obtain ⟨-, ⟨-, -, hcount⟩, -⟩ := h _ _ openThenReset openThenReset_valid
  rw [openWords_pulse, Controller.pulse_count] at hcount
  have hnone : (0 : ℕ) = Finset.card _ := hcount
  have hopen := Finset.card_eq_zero.mp hnone.symm
  have hmem : (0 : BitVec 12) ∉ Finset.univ.filter _ := Finset.eq_empty_iff_forall_notMem.mp hopen 0
  refine hmem (Finset.mem_filter.mpr ⟨Finset.mem_univ _, ?_⟩)
  decide

end ZnsFlash
