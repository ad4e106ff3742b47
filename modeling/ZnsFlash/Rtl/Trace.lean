import ZnsFlash.Rtl.Controller

/-!
# The controller under any host timing

The host may change trigger, command and address at every cycle. The automaton samples the address
of the checks, the command of `ST_EXECUTE` and the address of the write in different cycles.

* `LegalSuccessor`: one approved write or reset step of a word;
* `Controller.Sound`: what a cycle stores is a legal successor, and all words stay legal;
* `Controller.Timely`: the condition on the inputs of the `ST_EXECUTE` cycle;
* **`sound_iff_timely`**: the traces that are sound are those whose cycles are timely.
-/

namespace ZnsFlash

open Runs

/-- `new` follows `old` by one approved write or by one approved reset. -/
def LegalSuccessor (old new : BitVec 32) : Prop :=
  ((zoneWptr new).toNat = (zoneWptr old).toNat + 1 ∧ (zoneWptr new).toNat ≤ 64 ∧
      (zoneIsFull new = true ↔ (zoneWptr new).toNat = 64) ∧ zoneEraseCnt new = zoneEraseCnt old) ∨
    (zoneWptr new = 0 ∧ zoneIsFull new = false ∧
      (zoneEraseCnt new).toNat = (zoneEraseCnt old).toNat + 1 ∧ (zoneEraseCnt new).toNat ≤ 10)

instance (old new : BitVec 32) : Decidable (LegalSuccessor old new) :=
  inferInstanceAs (Decidable (_ ∨ _))

theorem LegalSuccessor.legal {old new : BitVec 32} (h : LegalSuccessor old new)
    (hold : LegalWord old) : LegalWord new := by
  rcases h with ⟨-, hle, hfull, he⟩ | ⟨hw, hfull, -, he⟩
  · exact ⟨hle, hfull, he ▸ hold.2.2⟩
  · refine ⟨?_, ?_, he⟩
    · rw [hw]; decide
    · rw [hw, hfull]; decide

/-- The word `r` read for the checks still agrees with the word `target` to be overwritten, as far
as the command needs. -/
def Agrees (ioCmd : BitVec 8) (r target wdata : BitVec 32) : Prop :=
  if ioCmd = 1 then
    zoneIsFull r = false ∧ zoneWptr r = zoneWptr target ∧ zoneEraseCnt r = zoneEraseCnt target
  else if ioCmd = 2 then zoneEraseCnt r < 10 ∧ zoneEraseCnt r = zoneEraseCnt target
  else LegalSuccessor target wdata

instance (c : BitVec 8) (r target wdata : BitVec 32) : Decidable (Agrees c r target wdata) :=
  inferInstanceAs (Decidable (ite _ _ _))

section Successor

variable {r target : BitVec 32}

theorem legalSuccessor_write (hr : LegalWord r) (wdata : BitVec 32) :
    LegalSuccessor target (executeWord 1 r wdata) ↔ Agrees 1 r target wdata := by
  obtain ⟨hle, hfull, -⟩ := hr
  have hnfull : zoneIsFull r = false ↔ (zoneWptr r).toNat ≠ 64 := by
    rw [← Bool.not_eq_true, hfull]
  have hlt := (zoneWptr target).isLt
  rw [Agrees, if_pos rfl, hnfull, executeWord, if_pos rfl]
  have heq : zoneWptr r = zoneWptr target ↔ (zoneWptr r).toNat = (zoneWptr target).toNat :=
    BitVec.toNat_eq
  by_cases h63 : zoneWptr r = 63
  · have h63' : (zoneWptr r).toNat = 63 := congrArg BitVec.toNat h63
    have h64 : (64 : BitVec 7).toNat = 64 := rfl
    rw [if_pos h63]
    simp only [LegalSuccessor, zoneWptr_packWord, zoneIsFull_packWord, zoneEraseCnt_packWord, heq,
      h63', h64]
    constructor
    · rintro (⟨h, -, -, he⟩ | ⟨h, -⟩)
      · exact ⟨by decide, by omega, he⟩
      · exact absurd h (by decide)
    · rintro ⟨-, h, he⟩
      exact .inl ⟨by omega, le_rfl, by decide, he⟩
  · have h63' : (zoneWptr r).toNat ≠ 63 := fun h => h63 (BitVec.eq_of_toNat_eq h)
    have hadd : (zoneWptr r + 1).toNat = (zoneWptr r).toNat + 1 := by
      rw [BitVec.toNat_add]
      exact Nat.mod_eq_of_lt (by change _ + 1 < 128; omega)
    rw [if_neg h63]
    simp only [LegalSuccessor, zoneWptr_packWord, zoneIsFull_packWord, zoneEraseCnt_packWord, heq,
      hadd]
    constructor
    · rintro (⟨h, h64, -, he⟩ | ⟨h, -⟩)
      · exact ⟨by omega, by omega, he⟩
      · have h0 : (zoneWptr r + 1).toNat = 0 := congrArg BitVec.toNat h
        omega
    · rintro ⟨hne, h, he⟩
      refine .inl ⟨by omega, by omega, ?_, he⟩
      simp only [Bool.false_eq_true, false_iff]
      omega

theorem legalSuccessor_reset (hr : LegalWord r) (wdata : BitVec 32) :
    LegalSuccessor target (executeWord 2 r wdata) ↔ Agrees 2 r target wdata := by
  obtain ⟨-, -, he10⟩ := hr
  have hadd : (zoneEraseCnt r + 1).toNat = (zoneEraseCnt r).toNat + 1 := by
    rw [BitVec.toNat_add]
    exact Nat.mod_eq_of_lt (by change _ + 1 < 256; omega)
  have h10 : zoneEraseCnt r < 10 ↔ (zoneEraseCnt r).toNat < 10 := BitVec.lt_def
  have hword : executeWord 2 r wdata = packWord (zoneEraseCnt r + 1) false 0 := by
    rw [executeWord, if_neg (by decide), if_pos rfl, append_zero_eq_packWord]
    rfl
  have heq : zoneEraseCnt r = zoneEraseCnt target ↔
      (zoneEraseCnt r).toNat = (zoneEraseCnt target).toNat := BitVec.toNat_eq
  rw [hword, Agrees, if_neg (by decide), if_pos rfl, h10, heq]
  simp only [LegalSuccessor, zoneWptr_packWord, zoneIsFull_packWord, zoneEraseCnt_packWord, hadd]
  constructor
  · rintro (⟨h, -⟩ | ⟨-, -, h, hle⟩)
    · exact absurd h (by change ¬ 0 = _; omega)
    · omega
  · rintro ⟨hlt, h⟩
    exact .inr ⟨trivial, trivial, by omega, by omega⟩

/-- **What `ST_EXECUTE` prepares is a legal successor** of `target` exactly when the word read
for the checks agrees with it. -/
theorem legalSuccessor_executeWord (hr : LegalWord r) (ioCmd : BitVec 8) (wdata : BitVec 32) :
    LegalSuccessor target (executeWord ioCmd r wdata) ↔ Agrees ioCmd r target wdata := by
  by_cases h1 : ioCmd = 1
  · subst h1
    exact legalSuccessor_write hr wdata
  by_cases h2 : ioCmd = 2
  · subst h2
    exact legalSuccessor_reset hr wdata
  · rw [Agrees, if_neg h1, if_neg h2, executeWord, if_neg h1, if_neg h2]

end Successor

namespace Controller

/-- The memory row addressed in a cycle. -/
def bramRow (s : Controller) (i : HostIn) : BitVec 12 :=
  (s.fsm.bramAddr (s.pins false i)).setWidth 12

/-- A word stored in this cycle is a legal successor of the one it replaces. -/
def LegalWrite (s : Controller) (i : HostIn) : Prop :=
  s.fsm.bramWe = true → LegalSuccessor (s.word (s.bramRow i)) s.fsm.bramWdata

instance (s : Controller) (i : HostIn) : Decidable (s.LegalWrite i) :=
  inferInstanceAs (Decidable (_ → _))

/-- **A sound cycle**: it stores a legal successor or nothing, and leaves legal words. -/
def Sound (s : Controller) (i : HostIn) : Prop :=
  s.LegalWrite i ∧ ∀ a, LegalWord ((s.clock i).word a)

/-- **A timely cycle**: in `ST_EXECUTE`, the word fetched for the checks agrees with the word of
the zone that the host addresses now. -/
def Timely (s : Controller) (i : HostIn) : Prop :=
  s.fsm.currentState = .execute →
    Agrees i.ioCmd s.bram.rdata (s.word (lbaRow i.ioLba)) s.fsm.bramWdata

instance (s : Controller) (i : HostIn) : Decidable (s.Timely i) :=
  inferInstanceAs (Decidable (_ → _))

/-- What holds between the cycles of a sound trace. -/
structure TraceInv (s : Controller) : Prop where
  words : ∀ a, LegalWord (s.word a)
  /-- The write enable is up only in the cycle after `ST_EXECUTE`. -/
  we : s.fsm.bramWe = true → s.fsm.currentState = .updateBram
  rdata : s.fsm.currentState ≠ .idle → LegalWord s.bram.rdata

section Step

variable {s : Controller} {i : HostIn}

theorem clock_ram : (s.clock i).bram.ram =
    if s.fsm.bramWe then Function.update s.bram.ram (s.bramRow i) s.fsm.bramWdata
    else s.bram.ram := rfl

theorem clock_we (hw : s.fsm.bramWe = true → s.fsm.currentState = .updateBram) :
    (s.clock i).fsm.bramWe = decide (s.fsm.currentState = .execute) ∧
      ((s.clock i).fsm.bramWe = true → (s.clock i).fsm.currentState = .updateBram) := by
  have hnot : s.fsm.currentState ≠ .updateBram → s.fsm.bramWe = false := fun h =>
    Bool.eq_false_iff.mpr fun ht => h (hw ht)
  change (s.fsm.posedge (s.pins false i)).bramWe = _ ∧
    ((s.fsm.posedge (s.pins false i)).bramWe = true → (s.fsm.posedge (s.pins false i)).currentState = _)
  cases hst : s.fsm.currentState with
  | idle => rw [posedge_idle rfl hst]; exact ⟨rfl, fun h => Bool.noConfusion h⟩
  | bramRead =>
    rw [posedge_bramRead rfl hst]
    have := hnot (by rw [hst]; decide)
    simp [this]
  | bramWait =>
    rw [posedge_bramWait rfl hst]
    have := hnot (by rw [hst]; decide)
    simp [this]
  | validate =>
    rw [posedge_validate rfl hst]
    have := hnot (by rw [hst]; decide)
    simp [this]
  | execute => rw [posedge_execute rfl hst]; exact ⟨rfl, fun _ => rfl⟩
  | updateBram => rw [posedge_updateBram rfl hst]; exact ⟨rfl, fun h => Bool.noConfusion h⟩
  | error =>
    rw [posedge_error rfl hst]
    have := hnot (by rw [hst]; decide)
    simp [this]

theorem sound_iff_legalWrite (h : s.TraceInv) : s.Sound i ↔ s.LegalWrite i := by
  refine ⟨fun hs => hs.1, fun hw => ⟨hw, fun a => ?_⟩⟩
  rw [word, clock_ram]
  split_ifs with hwe
  · exact (Function.forall_update_iff _ fun _ w => LegalWord w).mpr
      ⟨(hw hwe).legal (h.words _), fun b _ => h.words b⟩ a
  · exact h.words a

theorem traceInv_clock (h : s.TraceInv) (hs : s.Sound i) : (s.clock i).TraceInv where
  words := hs.2
  we := (clock_we h.we).2
  rdata _ := h.words _

theorem sound_next (h : s.TraceInv) (hs : s.Sound i) (j : HostIn) :
    (s.clock i).Sound j ↔ s.Timely i := by
  rw [sound_iff_legalWrite (traceInv_clock h hs), LegalWrite, (clock_we h.we).1, decide_eq_true_iff]
  refine forall_congr' fun hex => ?_
  have hwe : s.fsm.bramWe = false := Bool.eq_false_iff.mpr fun ht => by
    have := h.we ht
    rw [hex] at this
    exact FsmState.noConfusion this
  have hrow : (s.clock i).bramRow j = lbaRow i.ioLba := by
    rw [bramRow, Validator.bramAddr, if_pos]
    · rfl
    · left
      change (s.fsm.posedge (s.pins false i)).currentState ≠ _
      rw [posedge_execute rfl hex]
      exact FsmState.noConfusion
  have hword : (s.clock i).word (lbaRow i.ioLba) = s.word (lbaRow i.ioLba) := by
    rw [word, clock_ram, hwe]
    rfl
  have hdata : (s.clock i).fsm.bramWdata = executeWord i.ioCmd s.bram.rdata s.fsm.bramWdata := by
    change (s.fsm.posedge (s.pins false i)).bramWdata = _
    rw [posedge_execute rfl hex]
    rfl
  rw [hrow, hword, hdata]
  exact legalSuccessor_executeWord (h.rdata (by rw [hex]; exact FsmState.noConfusion)) _ _

end Step

end Controller

/-- **Soundness of a trace.** From an idle automaton over legal words, under any inputs, every cycle
of a trace is sound exactly when every cycle but the last is timely. -/
theorem sound_iff_timely {s : Controller} (hs : s.Ready) (hl : ∀ a, LegalWord (s.word a))
    (is : List HostIn) (j : HostIn) :
    Along Controller.clock Controller.Sound s (is ++ [j]) ↔
      Along Controller.clock Controller.Timely s is := by
  have hinv : s.TraceInv := by
    refine ⟨hl, fun h => ?_, fun h => absurd hs.1 h⟩
    rw [hs.2] at h
    exact Bool.noConfusion h
  have h0 : ∀ i, s.Sound i := by
    intro i
    rw [Controller.sound_iff_legalWrite hinv]
    intro h
    rw [hs.2] at h
    exact Bool.noConfusion h
  exact along_shift (P := Controller.Sound) (Q := Controller.Timely)
    (fun _ _ h hsound => Controller.traceInv_clock h hsound)
    (fun _ _ j h hsound => Controller.sound_next h hsound j) hinv h0 is j

theorem sound_iff_timely_held_write :
    Along Controller.clock Controller.Sound Controller.quiet
      (List.replicate 8 ⟨true, 1, 0, false⟩ ++ [⟨false, 1, 0, false⟩]) :=
  (sound_iff_timely ⟨rfl, rfl⟩ (fun _ => encodes_zero.legal) _ _).mpr (by decide)

/-- A controller at rest whose zone 1 has five pages written. -/
def Controller.zoneOneFive : Controller :=
  { Controller.quiet with bram := ⟨fun a => if a = 1 then 5 else 0, 0⟩ }

/-- A write of page 0 of zone 0, redirected to zone 1 in the cycle that executes it. -/
def redirected : List HostIn :=
  List.replicate 4 ⟨true, 1, 0, false⟩ ++ [⟨true, 1, 64, false⟩]

theorem redirected_write_rolls_back :
    Controller.zoneOneFive.Ready ∧ (∀ a, LegalWord (Controller.zoneOneFive.word a)) ∧
      ¬ Along Controller.clock Controller.Sound Controller.zoneOneFive
        (redirected ++ [⟨true, 1, 64, false⟩]) := by
  refine ⟨⟨rfl, rfl⟩, fun a => ?_, fun h => ?_⟩
  · change LegalWord (if a = 1 then 5 else 0)
    split_ifs <;> decide
  · have hwrite : (run Controller.clock Controller.zoneOneFive redirected).LegalWrite
        ⟨true, 1, 64, false⟩ := ((along_append _ _ _ _).mp h).2.1.1
    revert hwrite
    decide

end ZnsFlash
