import ZnsFlash.Library.EarliestFit
import ZnsFlash.Library.Runs
import Mathlib.Algebra.Order.Ring.Rat
import Mathlib.Tactic.Linarith

/-!
# The schedule of a bus channel

`ssd_channel.cpp`, with `Bus::lock` of `ssd_bus.cpp` and the counters of `ssd_event.cpp`. Times are
exact rationals.

* `Channel`, `Channel.lock`, `Bus.lock`: the table of granted intervals, and one more granted;
* `SortsByLockTime`: the sort, with any order of ties;
* `schedTime_eq_fit`: the search of the source is the earliest fit;
* `Scheduled`, **`channel_schedule`**: a run of calls is granted disjoint intervals, each the
  earliest that is free.
-/

namespace ZnsFlash

open EarliestFit Runs

/-! ## The channel -/

/-- `BUS_CHANNEL_FREE_FLAG` -/
def busChannelFreeFlag : ℚ := -1

/-- `struct lock_times` -/
abbrev LockTimes := Slot ℚ

/-- The times that an `Event` collects on the bus. -/
structure EventTimes where
  busWaitTime : ℚ
  timeTaken : ℚ

def EventTimes.incrBusWaitTime (e : EventTimes) (timeIncr : ℚ) : EventTimes :=
  if 0 < timeIncr then { e with busWaitTime := e.busWaitTime + timeIncr } else e

def EventTimes.incrTimeTaken (e : EventTimes) (timeIncr : ℚ) : EventTimes :=
  if 0 < timeIncr then { e with timeTaken := e.timeTaken + timeIncr } else e

namespace EventTimes

variable (e : EventTimes) {x : ℚ}

theorem busWaitTime_incrTimeTaken : (e.incrTimeTaken x).busWaitTime = e.busWaitTime := by
  unfold incrTimeTaken
  split_ifs <;> rfl

theorem timeTaken_incrBusWaitTime : (e.incrBusWaitTime x).timeTaken = e.timeTaken := by
  unfold incrBusWaitTime
  split_ifs <;> rfl

theorem busWaitTime_incrBusWaitTime (hx : 0 ≤ x) :
    (e.incrBusWaitTime x).busWaitTime = e.busWaitTime + x := by
  unfold incrBusWaitTime
  split_ifs with h
  · rfl
  · rw [le_antisymm (not_lt.mp h) hx, add_zero]

theorem timeTaken_incrTimeTaken (hx : 0 ≤ x) : (e.incrTimeTaken x).timeTaken = e.timeTaken + x := by
  unfold incrTimeTaken
  split_ifs with h
  · rfl
  · rw [le_antisymm (not_lt.mp h) hx, add_zero]

end EventTimes

structure Channel where
  timings : List LockTimes
  numConnected : ℕ
  maxConnections : ℕ
  ctrlDelay : ℚ
  dataDelay : ℚ
  readyAt : ℚ

/-- The constructor. -/
def Channel.new (ctrlDelay dataDelay : ℚ) (maxConnections : ℕ) : Channel :=
  ⟨[], 0, maxConnections, ctrlDelay, dataDelay, -1⟩

structure LockCall where
  startTime : ℚ
  duration : ℚ
  event : EventTimes

/-- What a call writes: its table entry and its event. -/
structure Granted where
  slot : LockTimes
  event : EventTimes

/-- The search between consecutive events. -/
def searchBetween (startTime duration : ℚ) : List LockTimes → ℚ
  | it :: next :: rest =>
    if startTime ≤ it.unlockTime ∧ duration ≤ next.lockTime - it.unlockTime then it.unlockTime
    else searchBetween startTime duration (next :: rest)
  | _ => busChannelFreeFlag

/-- `sched_time`: before the first event, between two, or after the last. -/
def schedTime (startTime duration : ℚ) : List LockTimes → ℚ
  | [] => startTime
  | first :: rest =>
    let front := if startTime < first.lockTime ∧ duration ≤ first.lockTime - startTime then startTime
      else busChannelFreeFlag
    let inner := if front = busChannelFreeFlag then searchBetween startTime duration (first :: rest)
      else front
    if inner = busChannelFreeFlag then (rest.getLastD first).unlockTime else inner

/-- `timings_sorter` -/
def timingsSorter (lhs rhs : LockTimes) : Prop := lhs.lockTime < rhs.lockTime

/-- What `std::sort` by `timings_sorter` does: ties come in any order. -/
structure SortsByLockTime (sort : List LockTimes → List LockTimes) : Prop where
  perm : ∀ l, (sort l).Perm l
  sorted : ∀ l, (sort l).Pairwise fun x y => ¬ timingsSorter y x

namespace Channel

variable (sort : List LockTimes → List LockTimes)

/-- Expired entries are removed. -/
def unlock (ch : Channel) (startTime : ℚ) : Channel :=
  { ch with timings := sort (ch.timings.filter fun x => ¬ x.unlockTime ≤ startTime) }

/-- `Channel::lock`; `none` is a failed assertion. -/
def lock (ch : Channel) (i : LockCall) : Option (Channel × Granted) :=
  if ch.numConnected ≤ ch.maxConnections ∧ 0 ≤ ch.ctrlDelay ∧ 0 ≤ ch.dataDelay ∧ 0 ≤ i.startTime ∧
      0 ≤ i.duration then
    let ch := ch.unlock sort i.startTime
    let sched := schedTime i.startTime i.duration ch.timings
    let lt : LockTimes := ⟨sched, sched + i.duration⟩
    let event := i.event.incrBusWaitTime (sched - i.startTime)
    some ({ ch with
        timings := ch.timings ++ [lt]
        readyAt := if ch.readyAt < lt.unlockTime then lt.unlockTime else ch.readyAt },
      ⟨lt, event.incrTimeTaken (sched - i.startTime + i.duration)⟩)
  else none

/-- `ready_time` -/
def readyTime (ch : Channel) : ℚ := ch.readyAt

end Channel

/-- `Bus::lock` on one of its channels. -/
def Bus.lock (sort : List LockTimes → List LockTimes) (ch : Channel) (i : LockCall) :
    Option (Channel × Granted) :=
  if 0 ≤ i.startTime ∧ 0 < i.duration then ch.lock sort i else none

/-! ## The search -/

section Search

variable {startTime duration : ℚ} {first : LockTimes} {rest table : List LockTimes}

/-- Behind the first event the search finds the first gap, or nothing when that is the end. -/
theorem searchBetween_eq (hstart : 0 ≤ startTime)
    (hunexpired : ∀ x ∈ first :: rest, startTime < x.unlockTime) :
    (if searchBetween startTime duration (first :: rest) = busChannelFreeFlag
      then (rest.getLastD first).unlockTime
      else searchBetween startTime duration (first :: rest)) = firstGap duration first rest := by
  induction rest generalizing first with
  | nil => rfl
  | cons next rest ih =>
    have hfirst := hunexpired first List.mem_cons_self
    have htail : ∀ x ∈ next :: rest, startTime < x.unlockTime := fun x hx =>
      hunexpired x (List.mem_cons_of_mem _ hx)
    have hgap : (startTime ≤ first.unlockTime ∧ duration ≤ next.lockTime - first.unlockTime) ↔
        first.unlockTime + duration ≤ next.lockTime := by
      rw [and_iff_right hfirst.le]
      constructor <;> intro h <;> linarith
    rw [searchBetween, firstGap, List.getLastD_cons]
    simp only [hgap]
    by_cases h : first.unlockTime + duration ≤ next.lockTime
    · have hne : first.unlockTime ≠ busChannelFreeFlag := by
        unfold busChannelFreeFlag
        linarith
      rw [if_pos h, if_neg hne, if_pos h]
    · rw [if_neg h, if_neg h]
      exact ih htail

theorem schedTime_eq_fit (hstart : 0 ≤ startTime) (hduration : 0 < duration)
    (hunexpired : ∀ x ∈ table, startTime < x.unlockTime) :
    schedTime startTime duration table = fit startTime duration table := by
  cases table with
  | nil => rfl
  | cons first rest =>
    have hfront : (startTime < first.lockTime ∧ duration ≤ first.lockTime - startTime) ↔
        startTime + duration ≤ first.lockTime :=
      ⟨fun h => by linarith [h.2], fun h => ⟨by linarith, by linarith⟩⟩
    rw [schedTime, fit]
    simp only [hfront]
    by_cases h : startTime + duration ≤ first.lockTime
    · have hne : startTime ≠ busChannelFreeFlag := by
        unfold busChannelFreeFlag
        linarith
      simp only [h, if_true, hne, if_false]
    · simp only [h, if_false, if_true]
      exact searchBetween_eq hstart hunexpired

end Search

/-! ## One call -/

/-- The entries that a call from `startTime` on still meets. -/
def unexpired (startTime : ℚ) (table : List LockTimes) : List LockTimes :=
  table.filter fun x => startTime < x.unlockTime

theorem unexpired_unexpired {startTime s : ℚ} (h : startTime ≤ s) (table : List LockTimes) :
    unexpired s (unexpired startTime table) = unexpired s table := by
  rw [unexpired, unexpired, List.filter_filter]
  refine List.filter_congr fun x _ => ?_
  rw [← Bool.decide_and, decide_eq_decide]
  exact ⟨And.left, fun hx => ⟨hx, h.trans_lt hx⟩⟩

/-- **What a call is granted**: the earliest interval from its start on that is free among the
unexpired earlier ones, with the counters of its event. -/
structure Earliest (earlier : List Granted) (i : LockCall) (g : Granted) : Prop where
  begins : IsLeast {t | i.startTime ≤ t ∧
    Fits (unexpired i.startTime (earlier.map Granted.slot)) i.duration t} g.slot.lockTime
  lasts : g.slot.unlockTime = g.slot.lockTime + i.duration
  waited : g.event.busWaitTime = i.event.busWaitTime + (g.slot.lockTime - i.startTime)
  taken : g.event.timeTaken = i.event.timeTaken + (g.slot.unlockTime - i.startTime)

/-- **The schedule of a run**: exclusive intervals, each the earliest that is free, and the channel
ready after the last of them. -/
structure Scheduled (calls : List LockCall) (granted : List Granted) (ch : Channel) : Prop where
  answered : granted.length = calls.length
  exclusive : granted.Pairwise fun g h => Disjoint g.slot.span h.slot.span
  earliest : ∀ k i g, calls[k]? = some i → granted[k]? = some g → Earliest (granted.take k) i g
  ready : granted ≠ [] → IsGreatest {t | ∃ g ∈ granted, g.slot.unlockTime = t} ch.readyTime

/-- The channel after a run. Calls that start no earlier than those before meet the same entries in
its table as in all that was granted. -/
structure Ledger (calls : List LockCall) (granted : List Granted) (ch : Channel) : Prop
    extends Scheduled calls granted ch where
  proper : ∀ g ∈ granted, 0 ≤ g.slot.lockTime ∧ g.slot.lockTime < g.slot.unlockTime
  table : ∀ s, (∀ i ∈ calls, i.startTime ≤ s) →
    (unexpired s ch.timings).Perm (unexpired s (granted.map Granted.slot))
  fresh : granted = [] → ch.readyAt = -1
  connected : ch.numConnected ≤ ch.maxConnections
  delays : 0 ≤ ch.ctrlDelay ∧ 0 ≤ ch.dataDelay

theorem ledger_new {ctrlDelay dataDelay : ℚ} (hctrl : 0 ≤ ctrlDelay) (hdata : 0 ≤ dataDelay)
    (maxConnections : ℕ) : Ledger [] [] (Channel.new ctrlDelay dataDelay maxConnections) where
  answered := rfl
  exclusive := .nil
  earliest k _ _ h := by
    rw [List.getElem?_nil] at h
    cases h
  ready h := absurd rfl h
  proper := nofun
  table _ _ := .refl _
  fresh _ := rfl
  connected := Nat.zero_le _
  delays := ⟨hctrl, hdata⟩

theorem Ledger.isGreatest {calls : List LockCall} {granted : List Granted} {ch : Channel}
    (h : Ledger calls granted ch) {g : Granted} {t d : ℚ} (hd : 0 < d) (ht : 0 ≤ t)
    (hg : g.slot = ⟨t, t + d⟩) :
    IsGreatest {u | ∃ x ∈ granted ++ [g], x.slot.unlockTime = u}
      (if ch.readyAt < t + d then t + d else ch.readyAt) := by
  have hlast : g.slot.unlockTime = t + d := congrArg Slot.unlockTime hg
  by_cases hnil : granted = []
  · subst hnil
    rw [h.fresh rfl, if_pos (by linarith)]
    refine ⟨⟨g, List.mem_singleton_self g, hlast⟩, fun u hu => ?_⟩
    obtain ⟨x, hx, rfl⟩ := hu
    rw [List.mem_singleton.mp hx, hlast]
  · obtain ⟨⟨x, hx, hready⟩, hmax⟩ := h.ready hnil
    have hle : ∀ y ∈ granted, y.slot.unlockTime ≤ ch.readyAt := fun y hy => hmax ⟨y, hy, rfl⟩
    split_ifs with hlt
    · refine ⟨⟨g, List.mem_append_right _ (List.mem_singleton_self g), hlast⟩, fun u hu => ?_⟩
      obtain ⟨y, hy, rfl⟩ := hu
      rcases List.mem_append.mp hy with hy | hy
      · exact (hle y hy).trans hlt.le
      · rw [List.mem_singleton.mp hy, hlast]
    · refine ⟨⟨x, List.mem_append_left _ hx, hready⟩, fun u hu => ?_⟩
      obtain ⟨y, hy, rfl⟩ := hu
      rcases List.mem_append.mp hy with hy | hy
      · exact hle y hy
      · rw [List.mem_singleton.mp hy, hlast]
        exact not_lt.mp hlt

theorem Ledger.disjoint {calls : List LockCall} {granted : List Granted} {ch : Channel}
    (h : Ledger calls granted ch) {i : LockCall} {t : ℚ} (hd : 0 < i.duration) (hle : i.startTime ≤ t)
    (hfits : Fits (unexpired i.startTime (granted.map Granted.slot)) i.duration t) {x : Granted}
    (hx : x ∈ granted) : Disjoint x.slot.span (Slot.mk t (t + i.duration)).span := by
  by_cases hexpired : i.startTime < x.slot.unlockTime
  · have hmem : x.slot ∈ unexpired i.startTime (granted.map Granted.slot) :=
      List.mem_filter.mpr ⟨List.mem_map_of_mem hx, decide_eq_true hexpired⟩
    exact (hfits x.slot hmem).symm
  · have hbefore : x.slot.unlockTime ≤ t := (not_lt.mp hexpired).trans hle
    exact ((disjoint_span_iff hd (h.proper x hx).2).mpr (Or.inr hbefore)).symm

theorem Scheduled.earliest_append {calls : List LockCall} {granted : List Granted} {ch : Channel}
    (h : Scheduled calls granted ch) {i : LockCall} {g : Granted} (hg : Earliest granted i g) (k : ℕ)
    (j : LockCall) (g' : Granted) (hj : (calls ++ [i])[k]? = some j)
    (hg' : (granted ++ [g])[k]? = some g') : Earliest ((granted ++ [g]).take k) j g' := by
  by_cases hk : k < calls.length
  · have hk' : k < granted.length := h.answered ▸ hk
    rw [List.getElem?_append_left hk] at hj
    rw [List.getElem?_append_left hk'] at hg'
    rw [List.take_append_of_le_length hk'.le]
    exact h.earliest k j g' hj hg'
  · have hlast : k = calls.length := by
      have hlt := (List.getElem?_eq_some_iff.mp hj).1
      rw [List.length_append, List.length_singleton] at hlt
      omega
    subst hlast
    rw [List.getElem?_concat_length] at hj
    rw [← h.answered, List.getElem?_concat_length] at hg'
    obtain rfl := Option.some.inj hj
    obtain rfl := Option.some.inj hg'
    rw [← h.answered, List.take_left]
    exact hg

section Call

variable {sort : List LockTimes → List LockTimes} (hsort : SortsByLockTime sort)
  {calls : List LockCall} {granted : List Granted} {ch : Channel} {i : LockCall}

include hsort

/-- The purged and sorted table of the channel is an ordered timetable of what was granted. -/
theorem Ledger.ordered (h : Ledger calls granted ch)
    (hstart : ∀ j ∈ calls, j.startTime ≤ i.startTime) :
    (ch.unlock sort i.startTime).timings.Perm
        (unexpired i.startTime (granted.map Granted.slot)) ∧
      Ordered (ch.unlock sort i.startTime).timings := by
  have hpurged : (ch.timings.filter fun x => ¬ x.unlockTime ≤ i.startTime) =
      unexpired i.startTime ch.timings := List.filter_congr fun x _ => decide_eq_decide.mpr not_le
  have hperm : (ch.unlock sort i.startTime).timings.Perm
      (unexpired i.startTime (granted.map Granted.slot)) := by
    refine (hsort.perm _).trans ?_
    rw [hpurged]
    exact h.table _ hstart
  have hproper : ∀ x ∈ (ch.unlock sort i.startTime).timings, x.lockTime < x.unlockTime := by
    intro x hx
    obtain ⟨g, hg, rfl⟩ := List.mem_map.mp (List.mem_filter.mp (hperm.mem_iff.mp hx)).1
    exact (h.proper g hg).2
  have hdisjoint : (granted.map Granted.slot).Pairwise fun x y => Disjoint x.span y.span :=
    List.pairwise_map.mpr h.exclusive
  refine ⟨hperm, ordered_of_sorted hproper ((hsort.sorted _).imp fun hxy => not_lt.mp hxy) ?_⟩
  exact (hperm.pairwise_iff fun hxy => hxy.symm).mpr (hdisjoint.sublist List.filter_sublist)

/-- The search of `lock` finds the earliest time that is free among what was granted. -/
theorem Ledger.isLeast (h : Ledger calls granted ch) (h0 : 0 ≤ i.startTime) (hd : 0 < i.duration)
    (hstart : ∀ j ∈ calls, j.startTime ≤ i.startTime) :
    IsLeast {t | i.startTime ≤ t ∧
        Fits (unexpired i.startTime (granted.map Granted.slot)) i.duration t}
      (schedTime i.startTime i.duration (ch.unlock sort i.startTime).timings) := by
  obtain ⟨hperm, hordered⟩ := h.ordered hsort hstart
  have hunexpired : ∀ x ∈ (ch.unlock sort i.startTime).timings, i.startTime < x.unlockTime :=
    fun x hx => of_decide_eq_true (List.mem_filter.mp (hperm.mem_iff.mp hx)).2
  have hfit := isLeast_fit hordered hunexpired hd
  rw [← schedTime_eq_fit h0 hd hunexpired] at hfit
  have hsame : {t | i.startTime ≤ t ∧
      Fits (unexpired i.startTime (granted.map Granted.slot)) i.duration t} =
        {t | i.startTime ≤ t ∧ Fits (ch.unlock sort i.startTime).timings i.duration t} := by
    ext t
    exact and_congr_right fun _ => forall_congr' fun x => by rw [hperm.mem_iff]
  rw [hsame]
  exact hfit

/-- **One call** is granted the earliest free interval, and the ledger goes on. -/
theorem Ledger.lock (h : Ledger calls granted ch) (h0 : 0 ≤ i.startTime) (hd : 0 < i.duration)
    (hstart : ∀ j ∈ calls, j.startTime ≤ i.startTime) :
    ∃ ch' g, Bus.lock sort ch i = some (ch', g) ∧ Ledger (calls ++ [i]) (granted ++ [g]) ch' := by
  obtain ⟨hperm, -⟩ := h.ordered hsort hstart
  have hleast := h.isLeast hsort h0 hd hstart
  let table := (ch.unlock sort i.startTime).timings
  let t := schedTime i.startTime i.duration table
  obtain ⟨hle, hfits⟩ := hleast.1
  let event := i.event.incrBusWaitTime (t - i.startTime)
  let g : Granted := ⟨⟨t, t + i.duration⟩, event.incrTimeTaken (t - i.startTime + i.duration)⟩
  have hrun : Bus.lock sort ch i = some (_, g) :=
    (if_pos ⟨h0, hd⟩).trans (if_pos ⟨h.connected, h.delays.1, h.delays.2, h0, hd.le⟩)
  -- the time that is waited for is the way from the start to the interval
  have hearliest : Earliest granted i g := by
    refine ⟨hleast, rfl, ?_, ?_⟩
    · rw [EventTimes.busWaitTime_incrTimeTaken,
        EventTimes.busWaitTime_incrBusWaitTime _ (sub_nonneg.mpr hle)]
    · have hnonneg : 0 ≤ t - i.startTime + i.duration := by linarith
      rw [EventTimes.timeTaken_incrTimeTaken _ hnonneg, EventTimes.timeTaken_incrBusWaitTime,
        add_sub_right_comm]
  refine ⟨_, g, hrun, ⟨⟨?_, ?_, ?_, ?_⟩, ?_, ?_, ?_, h.connected, h.delays⟩⟩
  · rw [List.length_append, List.length_append, h.answered]
    rfl
  · refine List.pairwise_append.mpr ⟨h.exclusive, List.pairwise_singleton _ _, fun x hx y hy => ?_⟩
    rw [List.mem_singleton.mp hy]
    exact h.disjoint hd hle hfits hx
  · exact h.earliest_append hearliest
  · intro _
    exact h.isGreatest hd (h0.trans hle) rfl
  · intro x hx
    rcases List.mem_append.mp hx with hx | hx
    · exact h.proper x hx
    · rw [List.mem_singleton.mp hx]
      exact ⟨h0.trans hle, lt_add_of_pos_right t hd⟩
  · intro s hs
    have hcalls : ∀ j ∈ calls, j.startTime ≤ s := fun j hj => hs j (List.mem_append_left _ hj)
    have hi : i.startTime ≤ s := hs i (List.mem_append_right _ (List.mem_singleton_self i))
    -- what has expired at the start of this call has expired at that of a later one
    have htable : (unexpired s table).Perm (unexpired s (granted.map Granted.slot)) := by
      rw [← unexpired_unexpired hi (granted.map Granted.slot)]
      exact hperm.filter _
    change (unexpired s (table ++ [g.slot])).Perm _
    rw [List.map_append, unexpired, List.filter_append, unexpired, List.filter_append]
    exact htable.append_right _
  · intro hnil
    exact absurd hnil (List.append_ne_nil_of_right_ne_nil _ (List.cons_ne_nil _ _))

end Call

/-! ## Runs of calls -/

/-- **The bus schedule is exclusive and earliest-fit**, for every run of calls with non-decreasing
start times and every order of ties. -/
theorem channel_schedule {sort : List LockTimes → List LockTimes} (hsort : SortsByLockTime sort)
    {ctrlDelay dataDelay : ℚ} (hctrl : 0 ≤ ctrlDelay) (hdata : 0 ≤ dataDelay) (maxConnections : ℕ)
    {calls : List LockCall} (hvalid : ∀ i ∈ calls, 0 ≤ i.startTime ∧ 0 < i.duration)
    (hmono : calls.Pairwise fun i j => i.startTime ≤ j.startTime) :
    ∃ ch granted,
      transcript (Bus.lock sort) (Channel.new ctrlDelay dataDelay maxConnections) calls =
        some (ch, granted) ∧ Scheduled calls granted ch := by
  let ok (before : List LockCall) (i : LockCall) : Prop :=
    0 ≤ i.startTime ∧ 0 < i.duration ∧ ∀ j ∈ before, j.startTime ≤ i.startTime
  have hok : ∀ pre i post, calls = pre ++ i :: post → ok ([] ++ pre) i := by
    rintro pre i post rfl
    obtain ⟨h0, hd⟩ := hvalid i (List.mem_append_right _ List.mem_cons_self)
    refine ⟨h0, hd, fun j hj => ?_⟩
    exact (List.pairwise_append.mp hmono).2.2 j hj i List.mem_cons_self
  obtain ⟨ch, granted, hrun, hledger⟩ := transcript_inv ok
    (fun _ _ _ _ hi h => Ledger.lock hsort h hi.1 hi.2.1 hi.2.2)
    (ledger_new hctrl hdata maxConnections) hok
  exact ⟨ch, granted, hrun, hledger.toScheduled⟩

/-- A stable sort by lock times. -/
def sortTimings (l : List LockTimes) : List LockTimes :=
  l.mergeSort fun x y => decide (x.lockTime ≤ y.lockTime)

theorem sortsByLockTime_sortTimings : SortsByLockTime sortTimings where
  perm l := List.mergeSort_perm l _
  sorted l := by
    have h : (sortTimings l).Pairwise fun x y => decide (x.lockTime ≤ y.lockTime) :=
      List.pairwise_mergeSort
        (fun x y z hxy hyz => decide_eq_true ((of_decide_eq_true hxy).trans (of_decide_eq_true hyz)))
        (fun x y => by simp [le_total]) l
    exact h.imp fun hxy => not_lt.mpr (of_decide_eq_true hxy)

/-- Two calls of length 4 that start 1 apart. -/
def overlappingCalls : List LockCall := [⟨0, 4, ⟨0, 0⟩⟩, ⟨1, 4, ⟨0, 0⟩⟩]

theorem channel_schedule_overlappingCalls :
    SortsByLockTime sortTimings ∧ (0 : ℚ) ≤ 1 ∧ (0 : ℚ) ≤ 10 ∧
      (∀ i ∈ overlappingCalls, 0 ≤ i.startTime ∧ 0 < i.duration) ∧
      overlappingCalls.Pairwise (fun i j => i.startTime ≤ j.startTime) ∧
      ∃ ch granted,
        transcript (Bus.lock sortTimings) (Channel.new 1 10 8) overlappingCalls =
          some (ch, granted) ∧ Scheduled overlappingCalls granted ch := by
  have hctrl : (0 : ℚ) ≤ 1 := by norm_num
  have hdata : (0 : ℚ) ≤ 10 := by norm_num
  have hvalid : ∀ i ∈ overlappingCalls, 0 ≤ i.startTime ∧ 0 < i.duration := by
    simp [overlappingCalls]
  have hmono : overlappingCalls.Pairwise fun i j => i.startTime ≤ j.startTime := by
    simp [overlappingCalls]
  exact ⟨sortsByLockTime_sortTimings, hctrl, hdata, hvalid, hmono,
    channel_schedule sortsByLockTime_sortTimings hctrl hdata 8 hvalid hmono⟩

end ZnsFlash
