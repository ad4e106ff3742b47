import ZnsFlash.Ssd.FastIsolation

/-!
# When random merges of FAST lose nothing

* `Rounds.logged`, `Rounds.holds`, `Rounds.copied`: what a merge leaves in the log, and what it copies;
* `Fast.MergeKeeps`, `Fast.FirstSlotsRepeated`, **`random_merge_keeps_iff`**: a merge keeps the newest
  versions exactly when none of them is in a slot 0 alone;
* `newest_in_first_slot_lost`: a merge that goes back to an older version.
-/

namespace ZnsFlash

open Holdings

variable {size : ℕ} {π : Type}

namespace Fast

/-- The log block has the page. -/
def Has (victim : FastLog) (la : ℕ) : Prop := ∃ i < victim.numPages, victim.aPages i = some la

section Kept

variable {s t : Fast size π} {limit k i a x la : ℕ} {log victim : FastLog}

/-- **No newest version is lost** when the log block is given up after its merge. -/
structure MergeKeeps (s t : Fast size π) (victim : FastLog) : Prop where
  /-- A page of the log block: its newest version is in the new data block. -/
  merged : ∀ la, Has victim la → ∀ k i log, Latest s.logPages (fun _ => True) k i log la →
    ∃ a, t.dataList (logicalBlock size la) = some a ∧
      t.media.flash.Holds (a + la % size) (s.media.flash.pageData (log.address + i))
  /-- A page of other log blocks only: its newest version stays there. -/
  logged : ∀ la, ¬ Has victim la → ∀ k i log, Latest s.logPages (fun _ => True) k i log la →
    ∃ log', Latest t.logPages (fun _ => True) k i log' la ∧ log'.address = log.address ∧
      t.media.flash.stateAt (log.address + i) = s.media.flash.stateAt (log.address + i) ∧
      t.media.flash.pageData (log.address + i) = s.media.flash.pageData (log.address + i)
  /-- A page that is not in the log: a data block has it. -/
  stored : ∀ la, (∀ k i log, ¬ Entry s.logPages k i log la) → ∀ a payload,
    s.dataList (logicalBlock size la) = some a → s.media.flash.Holds (a + la % size) payload →
    ∃ a', t.dataList (logicalBlock size la) = some a' ∧ t.media.flash.Holds (a' + la % size) payload
  /-- The pages of the SW block stay there. -/
  sequential : SameSequential s t ∧ ∀ b, s.sequentialLogicalblockAddress = some b → ∀ i < size,
    t.media.flash.stateAt (s.sequentialAddress + i) = s.media.flash.stateAt (s.sequentialAddress + i) ∧
    t.media.flash.pageData (s.sequentialAddress + i) = s.media.flash.pageData (s.sequentialAddress + i)

/-- If the newest version of a page of the log block is in a slot 0, the version that is copied instead
has the same content. -/
def FirstSlotsRepeated (s : Fast size π) (victim : FastLog) : Prop :=
  ∀ la, Has victim la → ∀ k log, Latest s.logPages (fun _ => True) k 0 log la →
    ∃ x, s.Copied la x ∧ s.media.flash.pageData x = s.media.flash.pageData log.address

section Rounds

variable {pre : List ℕ}

theorem Rounds.unchanged (h : Rounds s t limit pre) {owner : FastOwner}
    (hown : s.own owner = some (x / size)) (hpre : ∀ b ∈ pre, owner ≠ .data b) :
    t.media.flash.stateAt x = s.media.flash.stateAt x ∧
      t.media.flash.pageData x = s.media.flash.pageData x :=
  ⟨Flash.stateAt_congr (h.block owner _ hown hpre), h.pageData owner x hown hpre⟩

theorem Latest.not_superseded (h : Latest s.logPages (fun _ => True) k i log la) :
    ¬ Superseded s.logPages (k, i) := by
  rintro ⟨la', hpage, k', i', log', he, hnewer⟩
  rw [slotPage_eq h.block, h.page] at hpage
  obtain rfl := Option.some.inj hpage
  exact h.last k' i' log' he trivial hnewer

theorem Rounds.logged (hs : Housed s) (h : Rounds s t limit pre)
    (hlatest : Latest s.logPages (fun _ => True) k i log la) :
    ∃ log', Latest t.logPages (fun _ => True) k i log' la ∧ log'.address = log.address ∧
      t.media.flash.stateAt (log.address + i) = s.media.flash.stateAt (log.address + i) ∧
      t.media.flash.pageData (log.address + i) = s.media.flash.pageData (log.address + i) := by
  obtain ⟨log', he, haddress⟩ := h.thinned.kept hlatest.toEntry fun _ => hlatest.not_superseded
  refine ⟨log', ⟨he, trivial, fun k' i' log₁ he' _ hnewer => ?_⟩, haddress, ?_⟩
  · obtain ⟨log₀, he₀, -⟩ := h.thinned.entry he'
    exact hlatest.last k' i' log₀ he₀ trivial hnewer
  · exact h.unchanged (hs.located.log hlatest.block hlatest.lt) fun _ _ => nofun

/-- **The new data block has the version that is copied.** -/
theorem Rounds.holds (hsize : 0 < size) (hlimit : s.logPages.length = limit)
    (h : Rounds s t limit pre) (hb : logicalBlock size la ∈ pre)
    (ha : s.dataList (logicalBlock size la) = some a) (hcopied : s.Copied la x) :
    ∃ a', t.dataList (logicalBlock size la) = some a' ∧
      t.media.flash.Holds (a' + la % size) (s.media.flash.pageData x) := by
  obtain ⟨a', hlist, hfilled⟩ := h.merged _ hb a ha
  exact ⟨a', hlist, hfilled.copied hsize hlimit ha hcopied⟩

theorem Rounds.copied (hsize : 0 < size) (hlimit : s.logPages.length = limit)
    (h : Rounds s t limit pre) (hb : logicalBlock size la ∈ pre)
    (ha : s.dataList (logicalBlock size la) = some a) {a' : ℕ} {payload : π}
    (ha' : t.dataList (logicalBlock size la) = some a')
    (hholds : t.media.flash.Holds (a' + la % size) payload) :
    ∃ x, s.Copied la x ∧ s.media.flash.pageData x = payload := by
  have hlt := Nat.mod_lt la hsize
  obtain ⟨address, hlist, hfilled⟩ := h.merged _ hb a ha
  obtain rfl := Option.some.inj (ha'.symm.trans hlist)
  cases hsource : mergedSource s limit (logicalBlock size la) a (la % size) with
  | none =>
    have hempty := hfilled.empty _ hlt hsource
    rw [hholds.valid] at hempty
    cases hempty
  | some x =>
    refine ⟨x, (mergedSource_eq_some hsize hlimit ha).mp hsource, ?_⟩
    exact (hfilled.holds _ hlt x hsource).data.symm.trans hholds.data

theorem Rounds.stored (hsize : 0 < size) (hs : Housed s) (hlimit : s.logPages.length = limit)
    (h : Rounds s t limit pre) (hno : ∀ k i log, ¬ Entry s.logPages k i log la) {payload : π}
    (ha : s.dataList (logicalBlock size la) = some a)
    (hholds : s.media.flash.Holds (a + la % size) payload) :
    ∃ a', t.dataList (logicalBlock size la) = some a' ∧
      t.media.flash.Holds (a' + la % size) payload := by
  by_cases hb : logicalBlock size la ∈ pre
  · rw [← hholds.data]
    exact h.holds hsize hlimit hb ha
      (.data (fun k i log he => absurd he (hno k i log)) ha hholds.valid)
  · have hown := hs.located.data ha (Nat.mod_lt la hsize)
    have hother : ∀ b ∈ pre, FastOwner.data (logicalBlock size la) ≠ .data b := fun b hmem heq =>
      hb (FastOwner.data.inj heq ▸ hmem)
    exact ⟨a, (h.rest _ hb).trans ha,
      hholds.congr (h.block _ _ hown hother) (h.pageData _ _ hown hother)⟩

theorem Rounds.keeps_iff (hsize : 0 < size) (hs : Housed s) (hlimit : s.logPages.length = limit)
    (hvictim : victim ∈ s.logPages) (h : Rounds s t limit (mergeBlocks size victim)) :
    MergeKeeps s t victim ↔ s.FirstSlotsRepeated victim := by
  have hdata : ∀ la, Has victim la → logicalBlock size la ∈ mergeBlocks size victim ∧
      ∃ a, s.dataList (logicalBlock size la) = some a := by
    rintro la ⟨i, hi, hpage⟩
    exact ⟨mem_mergeBlocks.mpr ⟨i, hi, la, hpage, rfl⟩, hs.placed victim hvictim i la hpage⟩
  constructor
  · intro hkeeps la hhas k log hlatest
    obtain ⟨hb, a, ha⟩ := hdata la hhas
    obtain ⟨a', ha', hholds⟩ := hkeeps.merged la hhas k 0 log hlatest
    exact h.copied hsize hlimit hb ha ha' hholds
  · intro hrepeated
    refine ⟨fun la hhas k i log hlatest => ?_, fun la _ k i log hlatest => h.logged hs hlatest,
      fun la hno a payload ha hholds => h.stored hsize hs hlimit hno ha hholds, h.same,
      fun b hb i hi => ?_⟩
    · obtain ⟨hb, a, ha⟩ := hdata la hhas
      by_cases hi : i = 0
      · subst hi
        obtain ⟨x, hcopied, hx⟩ := hrepeated la hhas k log hlatest
        rw [Nat.add_zero, ← hx]
        exact h.holds hsize hlimit hb ha hcopied
      · exact h.holds hsize hlimit hb ha (.log ⟨hlatest.toEntry, hi, fun k' i' log' he' _ =>
          hlatest.last k' i' log' he' trivial⟩)
    · have hown := own_sequential hb
      rw [← Flash.page_div (hs.sequential b hb) hi] at hown
      exact h.unchanged hown fun _ _ => nofun

end Rounds

end Kept

end Fast

/-- **What `random_merge` loses.** For any log it returns unless no block can be allocated, and it keeps
the newest versions exactly when none of the pages of the log block has its newest version in a slot 0
alone. -/
theorem random_merge_keeps_iff {π : Type} (cfg : FastConfig) (s : Fast cfg.blockSize π)
    (hs : s.Housed) (hlimit : s.logPages.length = cfg.logBlockLimit) (victim : FastLog)
    (hvictim : victim ∈ s.logPages) :
    Yields (fun e => e = .worn ∨ e = .noFreeBlock ∨ e = .badAlloc) (s.randomMerge cfg victim)
      fun t => Fast.MergeKeeps s t victim ↔ s.FirstSlotsRepeated victim :=
  (Fast.randomMerge_rounds cfg.blockSize_pos (Or.inl rfl) (Or.inr (Or.inl rfl))
    (Or.inr (Or.inr rfl)) cfg hs hlimit hvictim).mono
    fun _ ht => ht.keeps_iff cfg.blockSize_pos hs hlimit hvictim

namespace Fast

/-! ## Logs of which the newest versions are known -/

/-- All slots of the log. -/
def slots (logs : List FastLog) : List (ℕ × ℕ) :=
  (List.range logs.length).flatMap fun k =>
    (List.range ((logs[k]?.map FastLog.numPages).getD 0)).map (k, ·)

variable {logs : List FastLog} {k i la : ℕ} {log victim : FastLog}

theorem mem_slots : (k, i) ∈ slots logs ↔ ∃ log, logs[k]? = some log ∧ i < log.numPages := by
  simp only [slots, List.mem_flatMap, List.mem_map, List.mem_range, Prod.mk.injEq]
  constructor
  · rintro ⟨k', hk, i', hi, rfl, rfl⟩
    rw [List.getElem?_eq_getElem hk] at hi
    exact ⟨_, List.getElem?_eq_getElem hk, hi⟩
  · rintro ⟨log, hk, hi⟩
    refine ⟨k, (List.getElem?_eq_some_iff.mp hk).1, i, ?_, rfl, rfl⟩
    rw [hk]
    exact hi

theorem Entry.mem_slots (h : Entry logs k i log la) : (k, i) ∈ slots logs :=
  Fast.mem_slots.mpr ⟨log, h.block, h.lt⟩

theorem Latest.of_slots (h : Entry logs k i log la)
    (hlast : ∀ slot ∈ slots logs, slotPage logs slot = some la → ¬ Newer slot (k, i)) :
    Latest logs (fun _ => True) k i log la :=
  ⟨h, trivial, fun k' i' _ he _ =>
    hlast (k', i') he.mem_slots ((slotPage_eq he.block i').trans he.page)⟩

/-- The versions in slots 0 of the pages of a log block all have newer ones. -/
def FirstSlotsOld (logs : List FastLog) (victim : FastLog) : Prop :=
  ∀ i < victim.numPages, ∀ first ∈ slots logs, first.2 = 0 →
    slotPage logs first = victim.aPages i →
      ∃ slot ∈ slots logs, slotPage logs slot = victim.aPages i ∧ Newer slot first

instance (logs : List FastLog) (victim : FastLog) : Decidable (FirstSlotsOld logs victim) :=
  inferInstanceAs (Decidable (∀ i < victim.numPages, ∀ first ∈ slots logs, _ → _ → _))

theorem FirstSlotsOld.repeated {s : Fast size π} (h : FirstSlotsOld s.logPages victim) :
    s.FirstSlotsRepeated victim := by
  rintro la ⟨i, hi, hpage⟩ k log hlatest
  have hfirst : slotPage s.logPages (k, 0) = victim.aPages i :=
    ((slotPage_eq hlatest.block 0).trans hlatest.page).trans hpage.symm
  obtain ⟨slot, hmem, hslot, hnewer⟩ := h i hi (k, 0) hlatest.toEntry.mem_slots rfl hfirst
  obtain ⟨log', hk, hlt⟩ := Fast.mem_slots.mp (show (slot.1, slot.2) ∈ slots s.logPages from hmem)
  have he : Entry s.logPages slot.1 slot.2 log' la :=
    ⟨hk, hlt, ((slotPage_eq hk slot.2).symm.trans hslot).trans hpage⟩
  exact absurd hnewer (hlatest.last slot.1 slot.2 log' he trivial)

end Fast

theorem random_merge_keeps_iff_trimmedRequests :
    ∃ s victim t, Fast.serveAll smallFast (Fast.new 9 id : Fast 2 ℕ) trimmedRequests = .ok s ∧
      s.logPages[0]? = some victim ∧ s.randomMerge smallFast victim = .ok t ∧
        Fast.MergeKeeps s t victim := by
  have hrun : ∃ s victim t,
      Fast.serveAll smallFast (Fast.new 9 id : Fast 2 ℕ) trimmedRequests = .ok s ∧
        s.logPages[0]? = some victim ∧ s.randomMerge smallFast victim = .ok t ∧
          s.logPages.length = 2 ∧ Fast.FirstSlotsOld s.logPages victim :=
    ⟨_, _, _, rfl, rfl, rfl, rfl, by decide⟩
  obtain ⟨s, victim, t, hs, hvictim, ht, hlength, hold⟩ := hrun
  have hsteady : Yields (fun _ => True)
      (Fast.serveAll smallFast (Fast.new 9 id : Fast 2 ℕ) trimmedRequests) (Fast.Steady smallFast) :=
    Yields.foldlM_along _ (fun u r hu hr => Fast.serve_steady (by decide) (fun _ => trivial) hu hr)
      (Fast.steady_new (by decide) smallFast 9 id) (by decide)
  have hkeeps := random_merge_keeps_iff smallFast s (hsteady.of_ok hs).tenancy.toHoused hlength victim
    (List.mem_of_getElem? hvictim)
  exact ⟨s, victim, t, hs, hvictim, ht, (hkeeps.of_ok ht).mpr hold.repeated⟩

/-- Four pages, and a newer version of each in the RW log: pages 1 and 3 in the first block. -/
def loggedRequests : List (FastRequest ℕ) :=
  [.write 1 11, .write 3 13, .write 5 15, .write 7 17,
    .write 1 21, .write 3 23, .write 5 25, .write 7 27]

/-- **The newest version of page 1 is lost**: it is in slot 0 of the log block that is merged, and the
new data block has the version before it. -/
theorem newest_in_first_slot_lost :
    ∃ s victim t, Fast.serveAll smallFast (Fast.new 9 id : Fast 2 ℕ) loggedRequests = .ok s ∧
      s.logPages[0]? = some victim ∧ s.randomMerge smallFast victim = .ok t ∧
        ¬ Fast.MergeKeeps s t victim := by
  have hrun : ∃ s victim t,
      Fast.serveAll smallFast (Fast.new 9 id : Fast 2 ℕ) loggedRequests = .ok s ∧
        s.logPages[0]? = some victim ∧ s.randomMerge smallFast victim = .ok t ∧
          (0 < victim.numPages ∧ victim.aPages 0 = some 1 ∧
            s.media.flash.pageData victim.address = 21) ∧
          (∀ slot ∈ Fast.slots s.logPages, Fast.slotPage s.logPages slot = some 1 →
            ¬ Fast.Newer slot (0, 0)) ∧
          (t.dataList 0).map (fun a => t.media.flash.pageData (a + 1)) = some 11 :=
    ⟨_, _, _, rfl, rfl, rfl, by decide, by decide, rfl⟩
  obtain ⟨s, victim, t, hs, hvictim, ht, ⟨hpages, hpage, hdata⟩, hlast, hlost⟩ := hrun
  refine ⟨s, victim, t, hs, hvictim, ht, fun hkeeps => ?_⟩
  obtain ⟨a, ha, hholds⟩ := hkeeps.merged 1 ⟨0, hpages, hpage⟩ 0 0 victim
    (.of_slots ⟨hvictim, hpages, hpage⟩ hlast)
  have hnew : t.media.flash.pageData (a + 1) = 21 := hholds.data.trans hdata
  rw [show logicalBlock 2 1 = 0 from rfl] at ha
  rw [ha, Option.map_some, hnew] at hlost
  cases hlost

end ZnsFlash
