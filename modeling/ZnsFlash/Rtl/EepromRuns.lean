import ZnsFlash.Rtl.Eeprom

/-!
# All dumps of a run

What the EEPROM receives over a whole run of `zns_eeprom_controller`, with any number of triggers.

* `Resting`: between two dumps; `dumped`: the words that were latched so far; `bits`;
* `still`, `after_busy`, `dumped_dump`: a clock without a dump, and the clocks of a dump;
* **`received_dumped`**: the words arrive whole, and in order.
-/

namespace ZnsFlash

open Serial

namespace Eeprom

/-- **Between two dumps.** -/
structure Resting (s : Eeprom) : Prop where
  state : s.spiState = .idle ∨ s.spiState = .done
  sck : s.spiSck = false

instance (s : Eeprom) (is : ℕ → EepromIn) (t : ℕ) : Decidable (s.Starts is t) :=
  inferInstanceAs (Decidable (_ ∧ _))

/-- The words that dumps have latched before clock `t`. -/
def dumped (s : Eeprom) (is : ℕ → EepromIn) (t : ℕ) : List (BitVec 32) :=
  (List.range t).filterMap fun u => if s.Starts is u then some (is u).ioSmartData else none

/-- The bits of a word, most significant first. -/
def bits (data : BitVec 32) : List Bool := (List.range 32).map data.getMsbD

variable {s : Eeprom} {is : ℕ → EepromIn} {m n t : ℕ}

/-! ## Later in a run -/

theorem after_add (s : Eeprom) (is : ℕ → EepromIn) (m n : ℕ) :
    s.after is (m + n) = (s.after is m).after (fun u => is (m + u)) n := by
  induction n with
  | zero => rfl
  | succ n ih =>
    rw [← Nat.add_assoc, after, ih]
    rfl

theorem starts_add : s.Starts is (m + n) ↔ (s.after is m).Starts (fun u => is (m + u)) n := by
  rw [Starts, Starts, after_add]

theorem wire_add (s : Eeprom) (is : ℕ → EepromIn) (m : ℕ) :
    (fun u => s.wire is (m + u)) = (s.after is m).wire fun u => is (m + u) := by
  funext u
  rw [wire, wire, after_add]

theorem received_wire (s : Eeprom) (is : ℕ → EepromIn) (m n : ℕ) :
    received (s.wire is) (m + n) =
      received (s.wire is) m ++ received ((s.after is m).wire fun u => is (m + u)) n := by
  rw [received_add, wire_add]

theorem dumped_succ (s : Eeprom) (is : ℕ → EepromIn) (n : ℕ) :
    s.dumped is (n + 1) =
      s.dumped is n ++ if s.Starts is n then [(is n).ioSmartData] else [] := by
  rw [dumped, List.range_succ, List.filterMap_append]
  split_ifs with h <;> simp [dumped, h]

theorem dumped_add (s : Eeprom) (is : ℕ → EepromIn) (m n : ℕ) :
    s.dumped is (m + n) =
      s.dumped is m ++ (s.after is m).dumped (fun u => is (m + u)) n := by
  induction n with
  | zero => simp [dumped]
  | succ n ih =>
    rw [← Nat.add_assoc, dumped_succ, ih, dumped_succ, List.append_assoc]
    simp only [starts_add]

theorem dumped_quiet (h : ∀ t < n, ¬ s.Starts is t) : s.dumped is n = [] := by
  induction n with
  | zero => rfl
  | succ n ih =>
    rw [dumped_succ, if_neg (h n (Nat.lt_succ_self n)), List.append_nil]
    exact ih fun t ht => h t (Nat.lt_succ_of_lt ht)

/-! ## One clock, and one dump -/

theorem Resting.still (h : s.Resting) (hrst : (is 0).rst = false) (hno : ¬ s.Starts is 0) :
    (s.after is 1).Resting ∧ received (s.wire is) 1 = [] := by
  have hnext : (s.after is 1).Resting := by
    rw [after, after, posedge, hrst, if_neg Bool.false_ne_true]
    rcases h.state with hidle | hdone
    · have htrigger : (is 0).ioPlpTrigger = false := Bool.eq_false_iff.mpr fun ht => hno ⟨hidle, ht⟩
      rw [hidle]
      simp only [idleEdge, htrigger]
      exact ⟨Or.inl hidle, rfl⟩
    · rw [hdone]
      simp only [doneEdge]
      refine ⟨?_, h.sck⟩
      split_ifs
      · exact Or.inr hdone
      · exact Or.inl rfl
  refine ⟨hnext, received_quiet fun t ht hrise => ?_⟩
  obtain rfl : t = 0 := by omega
  exact Bool.false_ne_true (hnext.sck.symm.trans hrise.2.1)

section Dump

variable (hrst : ∀ t, (is t).rst = false) (hstart : s.Starts is 0)

include hrst hstart

/-- In the clocks of a dump the controller is in `ST_SPI_START` or `ST_SPI_TRANSFER`. -/
theorem after_busy (hpos : 0 < t) (ht : t < 265) :
    (s.after is t).spiState = .start ∨ (s.after is t).spiState = .transfer := by
  rcases Nat.lt_or_ge t 9 with hlt | hge
  · obtain ⟨d, rfl⟩ := Nat.exists_eq_succ_of_ne_zero hpos.ne'
    rw [after_starting hrst hstart (by omega)]
    exact Or.inl rfl
  · have hsplit : t = 9 + 8 * ((t - 9) / 8) + (t - 9) % 8 := by omega
    rw [hsplit, after_sending hrst hstart (by omega) (by omega)]
    exact Or.inr rfl

theorem not_resting (hpos : 0 < t) (ht : t < 265) : ¬ (s.after is t).Resting := by
  intro h
  rcases after_busy hrst hstart hpos ht with hb | hb <;> rcases h.state with hr | hr <;>
    exact SpiState.noConfusion (hb.symm.trans hr)

theorem not_starts (hpos : 0 < t) (ht : t < 265) : ¬ s.Starts is t := by
  intro h
  rcases after_busy hrst hstart hpos ht with hb | hb <;>
    exact SpiState.noConfusion (hb.symm.trans h.1)

theorem dumped_dump (hpos : 0 < t) (ht : t ≤ 265) : s.dumped is t = [(is 0).ioSmartData] := by
  obtain ⟨n, rfl⟩ := Nat.exists_eq_add_of_le hpos
  have hrest : (s.after is 1).dumped (fun u => is (1 + u)) n = [] :=
    dumped_quiet fun u hu hs => not_starts hrst hstart (show 0 < 1 + u by omega) (by omega)
      (starts_add.mpr hs)
  change s.dumped is (1 + n) = _
  rw [dumped_add, hrest, List.append_nil, dumped_succ, if_pos hstart]
  rfl

theorem resting_after : (s.after is 265).Resting := by
  rw [after_sent hrst hstart]
  exact ⟨Or.inr rfl, rfl⟩

theorem received_dump : received (s.wire is) 265 = (s.dumped is 265).flatMap bits := by
  rw [received_sent hrst hstart, dumped_dump hrst hstart (by omega) le_rfl]
  exact (List.flatMap_singleton bits _).symm

end Dump

/-! ## Whole runs -/

/-- What has arrived so far: whole words in order, and the first bits of the last one. -/
structure Arrived (s : Eeprom) (is : ℕ → EepromIn) (t : ℕ) : Prop where
  isPrefix : received (s.wire is) t <+: (s.dumped is t).flatMap bits
  whole : (s.after is t).Resting → received (s.wire is) t = (s.dumped is t).flatMap bits

theorem Arrived.add (h : received (s.wire is) m = (s.dumped is m).flatMap bits)
    (hrest : Arrived (s.after is m) (fun u => is (m + u)) n) : Arrived s is (m + n) := by
  refine ⟨?_, fun hresting => ?_⟩
  · rw [received_wire, dumped_add, List.flatMap_append, h]
    exact (List.prefix_append_right_inj _).mpr hrest.isPrefix
  · rw [after_add] at hresting
    rw [received_wire, dumped_add, List.flatMap_append, h, hrest.whole hresting]

theorem arrived_dump (hrst : ∀ t, (is t).rst = false) (hstart : s.Starts is 0) (hpos : 0 < t)
    (ht : t ≤ 265) : Arrived s is t := by
  have hword := dumped_dump hrst hstart hpos ht
  have hall := received_dump hrst hstart
  rw [dumped_dump hrst hstart (by omega) le_rfl, ← hword] at hall
  refine ⟨?_, fun hresting => ?_⟩
  · rw [← hall, ← Nat.add_sub_of_le ht, received_add]
    exact List.prefix_append _ _
  · obtain rfl : t = 265 := by
      by_contra hne
      exact not_resting hrst hstart hpos (by omega) hresting
    exact hall

theorem arrived (h : s.Resting) (hrst : ∀ t, (is t).rst = false) (t : ℕ) : Arrived s is t := by
  induction t using Nat.strong_induction_on generalizing s is with
  | _ t ih =>
    rcases Nat.eq_zero_or_pos t with rfl | hpos
    · exact ⟨List.prefix_rfl, fun _ => rfl⟩
    by_cases hstart : s.Starts is 0
    · rcases Nat.le_total t 265 with hle | hge
      · exact arrived_dump hrst hstart hpos hle
      · obtain ⟨n, rfl⟩ := Nat.exists_eq_add_of_le hge
        exact .add (received_dump hrst hstart)
          (ih n (by omega) (resting_after hrst hstart) fun u => hrst (265 + u))
    · obtain ⟨n, rfl⟩ := Nat.exists_eq_add_of_le hpos
      obtain ⟨hnext, hnothing⟩ := h.still (hrst 0) hstart
      refine .add (m := 1) ?_ (ih n (by omega) hnext fun u => hrst (1 + u))
      rw [hnothing, dumped_succ, if_neg hstart]
      rfl

end Eeprom

open Eeprom in
/-- **Every dump of a run arrives whole.** Between two dumps, or out of reset, with any triggers and
any telemetry from then on: at every clock the EEPROM has received the words latched so far, in order,
but for the last bits of a dump that is still going on; when the controller rests it has received all
of them; and from one dump to the next the trigger is seen low after the last bit. -/
theorem received_dumped (s : Eeprom) (is : ℕ → EepromIn) (hrst : ∀ t, (is t).rst = false)
    (h : s.Resting) :
    (∀ t, received (s.wire is) t <+: (s.dumped is t).flatMap bits) ∧
      (∀ t, (s.after is t).Resting → received (s.wire is) t = (s.dumped is t).flatMap bits) ∧
      ∀ u v, u < v → s.Starts is u → s.Starts is v →
        ∃ w, u + 265 ≤ w ∧ w < v ∧ (is w).ioPlpTrigger = false := by
  refine ⟨fun t => (arrived h hrst t).isPrefix, fun t => (arrived h hrst t).whole,
    fun u v huv hu hv => ?_⟩
  obtain ⟨n, rfl⟩ := Nat.exists_eq_add_of_lt huv
  have hrst' : ∀ t, (is (u + t)).rst = false := fun t => hrst (u + t)
  have hu' : (s.after is u).Starts (fun t => is (u + t)) 0 := starts_add.mp hu
  have hv' : (s.after is u).Starts (fun t => is (u + t)) (n + 1) := starts_add.mp hv
  by_contra hnone
  rcases Nat.lt_or_ge (n + 1) 265 with hlt | hge
  · exact not_starts hrst' hu' (Nat.succ_pos n) hlt hv'
  · obtain ⟨k, hk⟩ := Nat.exists_eq_add_of_le hge
    rw [hk] at hv'
    have hdone := done_until_low hrst' hu' (t := k) fun w hw hwk => by
      by_contra hlow
      exact hnone ⟨u + w, by omega, by omega, Bool.eq_false_iff.mpr hlow⟩
    exact SpiState.noConfusion (hdone.symm.trans hv'.1)

open Eeprom in
/-- Two triggers of one clock each, the second one clock after the first dump has ended. -/
def twoPulses (first second : BitVec 32) (t : ℕ) : EepromIn :=
  ⟨false, t == 0 || t == 266, if t = 0 then first else second⟩

open Eeprom in
theorem received_dumped_twoPulses :
    received (reset.wire (twoPulses 0x012A0004 0x0130000A)) 531 =
      bits 0x012A0004 ++ bits 0x0130000A := by
  obtain ⟨is, his⟩ : ∃ is, is = twoPulses 0x012A0004 0x0130000A := ⟨_, rfl⟩
  have hrst : ∀ t, (is t).rst = false := fun t => by rw [his]; rfl
  have hfirst : reset.Starts is 0 := by
    rw [his]
    exact ⟨rfl, rfl⟩
  have hlow : (is 265).ioPlpTrigger = false := by
    rw [his]
    rfl
  have hidle : (reset.after is 266).spiState = .idle := by
    rw [after, after_sent hrst hfirst, posedge, hrst]
    show (if (is 265).ioPlpTrigger then _ else SpiState.idle) = _
    rw [hlow]
    rfl
  have hsecond : (reset.after is 266).Starts (fun u => is (266 + u)) 0 := by
    refine ⟨hidle, ?_⟩
    rw [his]
    rfl
  have hresting : (reset.after is 531).Resting := by
    have hlast := resting_after (fun t => hrst (266 + t)) hsecond
    rwa [← after_add] at hlast
  have hquiet : ¬ reset.Starts is 265 := fun h => Bool.false_ne_true (hlow.symm.trans h.2)
  have hdumped : reset.dumped is 531 = [0x012A0004, 0x0130000A] := by
    have hone := dumped_dump hrst hfirst (show 0 < 265 by omega) le_rfl
    have htwo := dumped_dump (fun t => hrst (266 + t)) hsecond (show 0 < 265 by omega) le_rfl
    rw [show 531 = 266 + 265 from rfl, dumped_add, htwo, dumped_succ, hone, if_neg hquiet, his]
    rfl
  rw [← his, (received_dumped reset is hrst ⟨Or.inl rfl, rfl⟩).2.1 531 hresting, hdumped]
  rfl

end ZnsFlash
