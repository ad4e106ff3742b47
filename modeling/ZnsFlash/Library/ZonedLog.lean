import ZnsFlash.Library.Zoned

/-!
# What a zoned device answers, told from its answers

The state of a zoned device can be read off the requests that it has accepted so far.

* `Answered`: a request with its answer; `written`, `acceptedCount`, `openIn`: what a log says;
* `Acceptable`: the requests that a log allows;
* `ZoneLog`, `Logs`: the log of a zone, and of a device; **`Logs.refuses_iff`**: the device accepts
  what its log allows;
* `DeviceLog`, **`DeviceLog.concat`**: one more request; `History`, **`DeviceLog.history`**: what the
  answers of a device have in common.
-/

namespace Zoned

/-- A request, whether it came to the device, and whether it was accepted. -/
structure Answered (Z : Type*) where
  zone : Z
  op : Op
  page : ℕ
  reached : Bool
  ok : Bool

variable {L : Limits} {Z : Type*} [DecidableEq Z]

/-- The pages of a zone after one more request. -/
def writtenNext (z : Z) (pages : List ℕ) (e : Answered Z) : List ℕ :=
  if e.zone = z ∧ e.ok then
    match e.op with
    | .read => pages
    | .write => pages ++ [e.page]
    | .reset => []
  else pages

/-- The pages that were accepted for a zone since its last accepted reset, in order. -/
def written (z : Z) (log : List (Answered Z)) : List ℕ := log.foldl (writtenNext z) []

/-- The number of requests of one kind that were accepted for a zone. -/
def acceptedCount (op : Op) (z : Z) (log : List (Answered Z)) : ℕ :=
  log.countP fun e => e.op = op ∧ e.zone = z ∧ e.ok

/-- The number of requests of one kind for a zone that came to the device. -/
def reachedCount (op : Op) (z : Z) (log : List (Answered Z)) : ℕ :=
  log.countP fun e => e.op = op ∧ e.zone = z ∧ e.reached

/-- The number of zones with some of their pages, but not all. -/
def openIn (L : Limits) [Fintype Z] (log : List (Answered Z)) : ℕ :=
  (Finset.univ.filter fun z : Z =>
    0 < (written z log).length ∧ (written z log).length < L.capacity).card

/-- **What a log allows**: the next page of a zone, if it opens no zone too many; a page that is
there; a reset of a zone that is not worn out. -/
def Acceptable (L : Limits) [Fintype Z] (log : List (Answered Z)) (z : Z) (op : Op) (p : ℕ) : Prop :=
  match op with
  | .read => p < (written z log).length
  | .write => p < L.capacity ∧ p = (written z log).length ∧ (p ≠ 0 ∨ openIn L log < L.maxOpen)
  | .reset => acceptedCount .reset z log < L.maxErases

theorem written_concat (z : Z) (log : List (Answered Z)) (e : Answered Z) :
    written z (log ++ [e]) = writtenNext z (written z log) e := by
  rw [written, List.foldl_append, List.foldl_cons, List.foldl_nil]
  rfl

theorem acceptedCount_concat (op : Op) (z : Z) (log : List (Answered Z)) (e : Answered Z) :
    acceptedCount op z (log ++ [e]) =
      acceptedCount op z log + if e.op = op ∧ e.zone = z ∧ e.ok then 1 else 0 := by
  rw [acceptedCount, List.countP_append, List.countP_singleton]
  simp [acceptedCount]

theorem reachedCount_concat (op : Op) (z : Z) (log : List (Answered Z)) (e : Answered Z) :
    reachedCount op z (log ++ [e]) =
      reachedCount op z log + if e.op = op ∧ e.zone = z ∧ e.reached then 1 else 0 := by
  rw [reachedCount, List.countP_append, List.countP_singleton]
  simp [reachedCount]

/-! ## The log of a zone -/

/-- **The log tells the state of a zone.** -/
structure ZoneLog (log : List (Answered Z)) (z : Z) (v : Zone L) : Prop where
  pages : written z log = List.range v.wptr
  resets : acceptedCount .reset z log = v.erases
  writes : acceptedCount .write z log ≤ L.capacity * v.erases + v.wptr

namespace ZoneLog

variable {log : List (Answered Z)} {z : Z} {v : Zone L}

theorem length_written (h : ZoneLog log z v) : (written z log).length = v.wptr := by
  rw [h.pages, List.length_range]

theorem fresh (z : Z) : ZoneLog [] z (Zone.fresh : Zone L) := ⟨rfl, rfl, Nat.zero_le _⟩

theorem other (h : ZoneLog log z v) {e : Answered Z} (he : ¬ (e.zone = z ∧ e.ok)) :
    ZoneLog (log ++ [e]) z v := by
  have hcount : ∀ op, acceptedCount op z (log ++ [e]) = acceptedCount op z log := by
    intro op
    rw [acceptedCount_concat, if_neg fun hall => he hall.2]
    rfl
  refine ⟨?_, (hcount _).trans h.resets, (hcount _).trans_le h.writes⟩
  rw [written_concat, writtenNext, if_neg he]
  exact h.pages

theorem read (h : ZoneLog log z v) (p : ℕ) (r : Bool) :
    ZoneLog (log ++ [⟨z, .read, p, r, true⟩]) z v := by
  refine ⟨?_, ?_, ?_⟩
  · rw [written_concat]
    simpa [writtenNext] using h.pages
  · rw [acceptedCount_concat]
    simpa using h.resets
  · rw [acceptedCount_concat]
    simpa using h.writes

theorem write (h : ZoneLog log z v) (r : Bool) (hroom : v.wptr < L.capacity) :
    ZoneLog (log ++ [⟨z, .write, v.wptr, r, true⟩]) z (v.next .write) := by
  obtain ⟨hwptr, herases⟩ := Zone.next_write hroom
  have hwrites := h.writes
  refine ⟨?_, ?_, ?_⟩
  · rw [written_concat, hwptr, List.range_succ, ← h.pages]
    simp [writtenNext]
  · rw [acceptedCount_concat, herases, h.resets]
    simp
  · rw [acceptedCount_concat, hwptr, herases]
    simp only [true_and, if_true]
    omega

theorem reset (h : ZoneLog log z v) (p : ℕ) (r : Bool) (hfresh : v.erases < L.maxErases) :
    ZoneLog (log ++ [⟨z, .reset, p, r, true⟩]) z (v.next .reset) := by
  obtain ⟨hwptr, herases⟩ := Zone.next_reset hfresh
  have hwrites := h.writes
  have hle := v.wptr_le
  refine ⟨?_, ?_, ?_⟩
  · rw [written_concat, hwptr]
    simp [writtenNext]
  · rw [acceptedCount_concat, herases, h.resets]
    simp
  · rw [acceptedCount_concat, hwptr, herases, Nat.mul_succ]
    simp only [reduceCtorEq, false_and, if_false]
    omega

end ZoneLog

/-! ## The log of a device -/

variable [Fintype Z]

/-- **The log tells the state of the device.** -/
def Logs (log : List (Answered Z)) (d : Device L Z) : Prop := ∀ z, ZoneLog log z (d.zones z)

theorem logs_fresh : Logs [] (Device.fresh : Device L Z) := fun z => ZoneLog.fresh z

section Step

variable {log : List (Answered Z)} {d : Device L Z} (h : Logs log d)

include h

theorem Logs.openIn_eq : openIn L log = d.nOpen := by
  rw [openIn, Device.nOpen, openCount]
  congr 1
  ext z
  simp only [Finset.mem_filter, (h z).length_written]
  rfl

/-- **The device accepts what its log allows.** -/
theorem Logs.refuses_iff {z : Z} {op : Op} {p : ℕ} :
    d.refuses z op p = none ↔ Acceptable L log z op p := by
  cases op with
  | read =>
    rw [Acceptable, (h z).length_written]
    exact refusal_read_eq_none
  | write =>
    rw [Acceptable, (h z).length_written, h.openIn_eq]
    refine refusal_write_eq_none.trans ⟨?_, ?_⟩
    · rintro ⟨hroom, rfl, hopen⟩
      exact ⟨hroom, rfl, hopen⟩
    · rintro ⟨hroom, rfl, hopen⟩
      exact ⟨hroom, rfl, hopen⟩
  | reset =>
    rw [Acceptable, (h z).resets]
    exact refusal_reset_eq_none

theorem Logs.refused {e : Answered Z} (he : e.ok = false) : Logs (log ++ [e]) d := by
  intro z
  refine (h z).other fun hall => ?_
  rw [he] at hall
  exact Bool.false_ne_true hall.2

/-- **An accepted request**, logged, tells the next state. -/
theorem Logs.accepted {z : Z} {op : Op} {p : ℕ} (r : Bool) (hacc : d.refuses z op p = none) :
    Logs (log ++ [⟨z, op, p, r, true⟩]) (d.step z op p) := by
  intro y
  rw [Device.step_of_accepted hacc]
  by_cases hy : y = z
  · subst hy
    rw [Function.update_self]
    cases op with
    | read => exact (h y).read p r
    | write =>
      obtain ⟨hroom, rfl, -⟩ := refusal_write_eq_none.mp hacc
      exact (h y).write r hroom
    | reset => exact (h y).reset p r (refusal_reset_eq_none.mp hacc)
  · rw [Function.update_of_ne hy]
    exact (h y).other fun hall => hy hall.1.symm

end Step

/-! ## Answers -/

/-- **Every answer follows from those before it.** -/
def Answers (L : Limits) (log : List (Answered Z)) : Prop :=
  ∀ pre e post, log = pre ++ e :: post →
    (e.ok = true ↔ e.reached = true ∧ Acceptable L pre e.zone e.op e.page)

/-- **What the answers of a device have in common.** -/
structure History (L : Limits) (log : List (Answered Z)) : Prop where
  answers : Answers L log
  /-- The pages of a zone come one behind the other. -/
  pages : ∀ z, ∃ n ≤ L.capacity, written z log = List.range n
  /-- Of the resets of a zone, the first ones are accepted, as many as it survives. -/
  resets : ∀ z, acceptedCount .reset z log = min L.maxErases (reachedCount .reset z log)
  /-- A zone takes its capacity once, and once more for each time it is emptied. -/
  writes : ∀ z, acceptedCount .write z log ≤ L.capacity * (acceptedCount .reset z log + 1)
  open_le : openIn L log ≤ L.maxOpen

theorem Answers.concat {log : List (Answered Z)} (h : Answers L log) {e : Answered Z}
    (he : e.ok = true ↔ e.reached = true ∧ Acceptable L log e.zone e.op e.page) :
    Answers L (log ++ [e]) := by
  intro pre e' post hlog
  rcases List.eq_nil_or_concat post with rfl | ⟨post', last, rfl⟩
  · obtain ⟨rfl, hlast⟩ := List.append_inj' hlog rfl
    obtain rfl := List.singleton_inj.mp hlast
    exact he
  · have hinit : log ++ [e] = (pre ++ e' :: post') ++ [last] := by
      rw [hlog, List.concat_eq_append, List.append_assoc]
      rfl
    exact h pre e' post' (List.append_inj' hinit rfl).1

/-- The log of a device whose answers follow from those before them. -/
structure DeviceLog (log : List (Answered Z)) (d : Device L Z) : Prop where
  logs : Logs log d
  answers : Answers L log
  resets : ∀ z, acceptedCount .reset z log = min L.maxErases (reachedCount .reset z log)

theorem deviceLog_fresh : DeviceLog [] (Device.fresh : Device L Z) where
  logs := logs_fresh
  answers pre _ _ hlog :=
    absurd hlog.symm (List.append_ne_nil_of_right_ne_nil pre (List.cons_ne_nil _ _))
  resets _ := (Nat.min_zero _).symm

namespace DeviceLog

variable {log : List (Answered Z)} {d : Device L Z} (h : DeviceLog log d)

include h

/-- **One more request**, with the answer of the device. -/
theorem concat {e : Answered Z} {d' : Device L Z}
    (hok : e.ok = true ↔ e.reached = true ∧ d.refuses e.zone e.op e.page = none)
    (hd' : d' = if e.ok then d.step e.zone e.op e.page else d) : DeviceLog (log ++ [e]) d' := by
  have hanswer : e.ok = true ↔ e.reached = true ∧ Acceptable L log e.zone e.op e.page :=
    hok.trans (and_congr_right fun _ => h.logs.refuses_iff)
  refine ⟨?_, h.answers.concat hanswer, fun z => ?_⟩
  · obtain ⟨z, op, p, r, ok⟩ := e
    cases ok with
    | false =>
      rw [hd', if_neg Bool.false_ne_true]
      exact h.logs.refused rfl
    | true =>
      rw [hd', if_pos rfl]
      exact h.logs.accepted r (hok.mp rfl).2
  · have hresets := h.resets z
    rw [acceptedCount_concat, reachedCount_concat]
    by_cases he : e.op = .reset ∧ e.zone = z
    · obtain ⟨hop, hzone⟩ := he
      have hallows : Acceptable L log e.zone e.op e.page ↔
          acceptedCount .reset z log < L.maxErases := by
        rw [hop, hzone]
        rfl
      rw [hallows] at hanswer
      simp only [hop, hzone, true_and, hanswer]
      by_cases hr : e.reached = true
      · simp only [hr, true_and, if_true]
        split_ifs <;> omega
      · rw [if_neg fun hall => hr hall.1, if_neg hr]
        exact hresets
    · rw [if_neg fun hall => he ⟨hall.1, hall.2.1⟩, if_neg fun hall => he ⟨hall.1, hall.2.1⟩]
      exact hresets

theorem history : History L log where
  answers := h.answers
  pages z := ⟨(d.zones z).wptr, (d.zones z).wptr_le, (h.logs z).pages⟩
  resets := h.resets
  writes z := by
    have hwrites := (h.logs z).writes
    have hwptr := (d.zones z).wptr_le
    rw [(h.logs z).resets, Nat.mul_succ]
    omega
  open_le := h.logs.openIn_eq.trans_le d.open_le

end DeviceLog

end Zoned
