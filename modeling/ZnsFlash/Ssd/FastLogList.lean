import ZnsFlash.Library.Buckets
import ZnsFlash.Ssd.Counters
import ZnsFlash.Ssd.FastReads
import ZnsFlash.Ssd.FastTrim

/-!
# The list of random-write log blocks

* `Fast.LogsFormed`, `Fast.FindsRoom`: the blocks of the list fill one after another, and the search for
  room ends at the block that takes the next page;
* `randomMerge_logs`, `replaceVictim_formed`, `appendPage_split`: the operations on the list;
* **`fast_log_list_formed`**: no null pointer is followed along runs that never replace the only block
  of the list.
-/

namespace ZnsFlash

open Buckets

variable {size : ℕ} {π : Type} {ok : Halt → Prop}

namespace Fast

/-- How many pages each block of the RW log has. -/
def fillLevels (logs : List FastLog) : List ℕ := logs.map FastLog.numPages

/-- **The RW log is well formed**: the list has its full length, `log_page_next` counts the pages, and
the blocks fill one after another. -/
structure LogsFormed (cfg : FastConfig) (s : Fast size π) : Prop where
  length : s.logPages.length = cfg.logBlockLimit
  next : s.logPageNext = (fillLevels s.logPages).sum
  filling : Filling size (fillLevels s.logPages)

/-- The search for room ends at a block, and the next page follows the pages that it has. -/
def FindsRoom (s : Fast size π) : Prop :=
  ∃ pre log post, s.logPages = pre ++ log :: post ∧ (∀ full ∈ pre, full.numPages = size) ∧
    log.numPages < size ∧ s.logPageNext % size = log.numPages

/-- The RW log has not been touched. -/
structure SameLogs (s t : Fast size π) : Prop where
  levels : fillLevels t.logPages = fillLevels s.logPages
  next : t.logPageNext = s.logPageNext

theorem SameLogs.refl (s : Fast size π) : SameLogs s s := ⟨rfl, rfl⟩

theorem SameLogs.trans {s t u : Fast size π} (h : SameLogs s t) (h' : SameLogs t u) : SameLogs s u :=
  ⟨h'.levels.trans h.levels, h'.next.trans h.next⟩

variable {s t : Fast size π} {cfg : FastConfig} {la : ℕ}

theorem length_fillLevels (logs : List FastLog) : (fillLevels logs).length = logs.length :=
  List.length_map _

theorem SameLogs.length (h : SameLogs s t) : t.logPages.length = s.logPages.length := by
  rw [← length_fillLevels, h.levels, length_fillLevels]

theorem LogsFormed.of_same (h : LogsFormed cfg s) (hsame : SameLogs s t) : LogsFormed cfg t := by
  refine ⟨hsame.length.trans h.length, ?_, ?_⟩
  · rw [hsame.next, hsame.levels]
    exact h.next
  · rw [hsame.levels]
    exact h.filling

theorem LogsFormed.findsRoom (h : LogsFormed cfg s) (hroom : s.logPageNext ≠ cfg.logBlockLimit * size) :
    s.FindsRoom := by
  have hlength : (fillLevels s.logPages).length = cfg.logBlockLimit :=
    (length_fillLevels _).trans h.length
  have hlt : (fillLevels s.logPages).sum < (fillLevels s.logPages).length * size := by
    rw [hlength, ← h.next]
    refine lt_of_le_of_ne ?_ hroom
    rw [h.next, ← hlength]
    exact h.filling.sum_le
  obtain ⟨pre, n, post, hlevels, hpre, hn, hmod⟩ := h.filling.exists_room hlt
  obtain ⟨logs, rest, hlogs, rfl, hrest⟩ := List.map_eq_append_iff.mp hlevels
  obtain ⟨log, later, rfl, rfl, rfl⟩ := List.map_eq_cons_iff.mp hrest
  refine ⟨logs, log, later, hlogs, fun full hfull => ?_, hn, ?_⟩
  · exact hpre _ (List.mem_map_of_mem hfull)
  · rw [h.next]
    exact hmod

/-! ## The operations on the list -/

theorem appendPage_split (la next : ℕ) {pre post : List FastLog} {log : FastLog}
    (hpre : ∀ full ∈ pre, full.numPages = size) (hlog : log.numPages ≠ size) :
    appendPage size next la (pre ++ log :: post) =
      some (pre ++ log.push (next % size) la :: post, log.address + next % size) := by
  induction pre with
  | nil => rw [List.nil_append, appendPage, if_neg hlog, List.nil_append]
  | cons full pre ih =>
    rw [List.cons_append, appendPage, if_pos (hpre full List.mem_cons_self),
      ih fun later hlater => hpre later (List.mem_cons_of_mem full hlater)]
    rfl

theorem fillLevels_set {logs : List FastLog} {k : ℕ} {log log' : FastLog} (hk : logs[k]? = some log)
    (hsame : log'.numPages = log.numPages) : fillLevels (logs.set k log') = fillLevels logs := by
  obtain ⟨hlt, rfl⟩ := List.getElem?_eq_some_iff.mp hk
  have hlt' : k < (fillLevels logs).length := hlt.trans_eq (length_fillLevels logs).symm
  have hget : (fillLevels logs)[k] = log'.numPages := by
    rw [hsame]
    exact List.getElem_map _
  rw [fillLevels, List.map_set, ← hget]
  exact List.set_getElem_self _

theorem mergeSlot_logs (b new : ℕ) {m : MergeState size π} {slot : ℕ × ℕ}
    (hslot : slot.1 < m.logs.length) :
    Yields ok (mergeSlot b new m slot) fun m' => fillLevels m'.logs = fillLevels m.logs := by
  have hget := List.getElem?_eq_getElem hslot
  rw [mergeSlot, hget]
  dsimp only
  cases (m.logs[slot.1]).aPages slot.2 with
  | none => exact rfl
  | some la =>
    dsimp only
    split_ifs with hb hpinned hempty
    · exact fillLevels_set hget rfl
    · rw [Flash.write, if_pos hempty]
      exact rfl
    · exact rfl
    · exact rfl

theorem mergeDataPage_logs (cfg : SsdConfig) (data : Option ℕ) (new : ℕ) (m : MergeState size π)
    (i : ℕ) :
    Yields ok (mergeDataPage cfg data new m i) fun m' => m'.logs = m.logs := by
  rw [mergeDataPage]
  split_ifs with hempty
  · rw [Flash.write, if_pos hempty.1]
    exact rfl
  · exact rfl
  · exact rfl

theorem collect_halts (hworn : ok .worn) (cfg : FastConfig) (m : Media size π) :
    Yields ok (collect cfg m) fun _ => True := collect_of cfg (insertEvents_halts hworn _ _) trivial

theorem mergeVictim_logs (hworn : ok .worn) (hnone : ok .noFreeBlock) (hbad : ok .badAlloc)
    (hlimit : s.logPages.length = cfg.logBlockLimit) (b : ℕ) :
    Yields ok (s.mergeVictim cfg b) (SameLogs s) := by
  refine (collect_halts hworn cfg s.media).bind fun m₁ _ => ?_
  refine (getFreeBlock_halts hworn hnone hbad cfg.toSsdConfig .data m₁).bind fun r _ => ?_
  have hslots : Yields ok ((visits cfg.logBlockLimit s.logPages).foldlM (mergeSlot b r.1)
      ⟨r.2.flash, fun _ => false, s.logPages⟩) fun m => fillLevels m.logs = fillLevels s.logPages := by
    refine Yields.foldlM_list
      (fun _ (m : MergeState size π) => fillLevels m.logs = fillLevels s.logPages) rfl ?_
    intro pre slot post m hsplit hm
    have hmem : (slot.1, slot.2) ∈ visits cfg.logBlockLimit s.logPages := by
      rw [hsplit]
      exact List.mem_append_right _ List.mem_cons_self
    have hlt : slot.1 < m.logs.length := by
      rw [← length_fillLevels, hm, length_fillLevels, hlimit]
      exact (mem_visits.mp hmem).1
    exact (mergeSlot_logs b r.1 hlt).mono fun m' hm' => hm'.trans hm
  refine hslots.bind fun m hm => ?_
  have hdata : Yields ok ((List.range size).foldlM
      (mergeDataPage cfg.toSsdConfig (s.dataList b) r.1) m) fun m' => m'.logs = m.logs :=
    Yields.foldlM_range (fun _ m' => m'.logs = m.logs) rfl fun k m' _ hm' =>
      (mergeDataPage_logs _ _ _ m' k).mono fun m'' hm'' => hm''.trans hm'
  refine hdata.bind fun m' hm' => ⟨?_, rfl⟩
  dsimp only
  rw [hm']
  exact hm

theorem randomMerge_logs (hworn : ok .worn) (hnone : ok .noFreeBlock) (hbad : ok .badAlloc)
    (hlimit : s.logPages.length = cfg.logBlockLimit) (victim : FastLog) :
    Yields ok (s.randomMerge cfg victim) (SameLogs s) := by
  refine Yields.foldlM_list (fun _ t => SameLogs s t) (.refl s) fun pre b post t _ ht => ?_
  exact (mergeVictim_logs hworn hnone hbad (ht.length.trans hlimit) b).mono fun u hu => ht.trans hu

theorem appendLogBlock_logs (hworn : ok .worn) (hnone : ok .noFreeBlock) (hbad : ok .badAlloc)
    (s : Fast size π) :
    Yields ok (s.appendLogBlock cfg) fun t => fillLevels t.logPages = fillLevels s.logPages ++ [0] ∧
      t.logPageNext = s.logPageNext := by
  refine (getFreeBlock_halts hworn hnone hbad cfg.toSsdConfig .log s.media).bind fun r _ => ⟨?_, rfl⟩
  exact List.map_append

/-- Before the list is made. -/
structure Untouched (s : Fast size π) : Prop where
  logs : s.logPages = []
  next : s.logPageNext = 0

theorem initializeLogPages_formed (hworn : ok .worn) (hnone : ok .noFreeBlock) (hbad : ok .badAlloc)
    (h : s.Untouched ∨ LogsFormed cfg s) :
    Yields ok (s.initializeLogPages cfg) fun t =>
      LogsFormed cfg t ∧ (s.Untouched ∧ t.logPageNext = 0 ∨ t = s) := by
  rw [initializeLogPages]
  split_ifs with hnil
  · have hnext : s.logPageNext = 0 := by
      rcases h with h | h
      · exact h.next
      · rw [h.next, hnil]
        rfl
    have hloop : Yields ok ((List.range cfg.logBlockLimit).foldlM (fun s _ => s.appendLogBlock cfg) s)
        fun t => fillLevels t.logPages = List.replicate cfg.logBlockLimit 0 ∧ t.logPageNext = 0 := by
      refine Yields.foldlM_range (fun k (t : Fast size π) =>
        fillLevels t.logPages = List.replicate k 0 ∧ t.logPageNext = 0) ⟨?_, hnext⟩ ?_
      · rw [hnil]
        rfl
      · rintro k t - ⟨hlevels, hzero⟩
        refine (appendLogBlock_logs hworn hnone hbad t).mono ?_
        rintro u ⟨hlevels', hnext'⟩
        rw [hlevels', hlevels, List.replicate_succ']
        exact ⟨rfl, hnext'.trans hzero⟩
    refine hloop.mono ?_
    rintro t ⟨hlevels, hzero⟩
    refine ⟨⟨?_, ?_, ?_⟩, Or.inl ⟨⟨hnil, hnext⟩, hzero⟩⟩
    · rw [← length_fillLevels, hlevels, List.length_replicate]
    · rw [hzero, hlevels, List.sum_replicate, nsmul_zero]
    · rw [hlevels]
      exact filling_replicate_zero size _
  · refine ⟨h.resolve_left fun h => hnil h.logs, Or.inr rfl⟩

/-- **The oldest block of a full list is replaced**, when it is not the only one. -/
theorem replaceVictim_formed (hsize : 0 < size) (hworn : ok .worn) (hnone : ok .noFreeBlock)
    (hbad : ok .badAlloc) (hnull : cfg.logBlockLimit < 2 → ok .nullNext) (h : LogsFormed cfg s)
    (hfull : s.logPageNext = cfg.logBlockLimit * size) :
    Yields ok (s.replaceVictim cfg) fun t =>
      2 ≤ cfg.logBlockLimit ∧ LogsFormed cfg t ∧ t.logPageNext ≠ cfg.logBlockLimit * size := by
  rw [replaceVictim]
  cases hlogs : s.logPages with
  | nil =>
    have hpos := cfg.logBlockLimit_pos
    rw [← h.length, hlogs] at hpos
    exact absurd hpos (Nat.lt_irrefl 0)
  | cons victim rest =>
    refine (randomMerge_logs hworn hnone hbad h.length victim).bind fun t ht => ?_
    have hformed := h.of_same ht
    have hlevels : ∃ n levels, fillLevels t.logPages = n :: levels ∧
        levels.length + 1 = cfg.logBlockLimit := by
      refine ⟨victim.numPages, fillLevels rest, ?_, ?_⟩
      · rw [ht.levels, hlogs]
        rfl
      · rw [length_fillLevels, ← h.length, hlogs, List.length_cons]
    obtain ⟨n, levels, hlevels, hlength⟩ := hlevels
    have hfilling := hformed.filling
    have hnext := hformed.next
    rw [ht.next, hfull] at hnext
    rw [hlevels] at hfilling hnext
    -- the log is full, so the victim is; without it the next page is the first of the new block
    have hn : n = size := hfilling.eq_of_full (by rw [hlength]; exact hnext.symm)
    rw [List.sum_cons, hn] at hnext
    refine (appendLogBlock_logs hworn hnone hbad _).bind ?_
    rintro u ⟨hlevels', hnext'⟩
    dsimp only at hlevels' hnext'
    have htail : fillLevels t.logPages.tail = levels := by
      rw [fillLevels, List.map_tail]
      exact congrArg List.tail hlevels
    rw [htail] at hlevels'
    have hulength : u.logPages.length = cfg.logBlockLimit := by
      rw [← length_fillLevels, hlevels', List.length_append]
      exact hlength
    split_ifs with hone
    -- the only block of the list was replaced: its `next` is followed, and null
    · exact hnull (by omega)
    · have htwo : 2 ≤ cfg.logBlockLimit := by omega
      rw [ht.next, hfull, hnext, Nat.add_sub_cancel_left] at hnext'
      refine ⟨htwo, ⟨hulength, ?_, ?_⟩, ?_⟩
      · rw [hlevels', List.sum_append, hnext']
        rfl
      · rw [hlevels']
        exact hfilling.tail.concat_zero
      · rw [hnext', hnext]
        omega

theorem makeRoom_formed (hsize : 0 < size) (hworn : ok .worn) (hnone : ok .noFreeBlock)
    (hbad : ok .badAlloc)
    (hnull : cfg.logBlockLimit < 2 → s.logPageNext = cfg.logBlockLimit * size → ok .nullNext)
    (h : LogsFormed cfg s) :
    Yields ok (s.makeRoom cfg) fun t => LogsFormed cfg t ∧ t.FindsRoom := by
  rw [makeRoom]
  split_ifs with hfull
  · refine (replaceVictim_formed hsize hworn hnone hbad (fun hlt => hnull hlt hfull) h hfull).mono ?_
    rintro t ⟨-, ht, hroom⟩
    exact ⟨ht, ht.findsRoom hroom⟩
  · exact ⟨h, h.findsRoom hfull⟩

/-! ## Requests -/

/-- A write goes to the RW log, which is full. -/
structure MeetsFullLog (cfg : FastConfig) (s : Fast size π) (la : ℕ) : Prop where
  placed : ∃ a, s.dataList (logicalBlock size la) = some a ∧
    s.media.flash.stateAt (a + la % size) ≠ .empty
  offset : la % size ≠ 0
  owner : s.sequentialLogicalblockAddress ≠ some (logicalBlock size la)
  full : s.logPageNext = cfg.logBlockLimit * size

/-- There is a block besides the oldest one, or the oldest one is not replaced. -/
def RoomSafe (cfg : FastConfig) (s : Fast size π) : FastRequest π → Prop
  | .write la _ => 2 ≤ cfg.logBlockLimit ∨ ¬ s.MeetsFullLog cfg la
  | _ => True

instance (cfg : FastConfig) (s : Fast size π) (la : ℕ) : Decidable (s.MeetsFullLog cfg la) :=
  match h : s.dataList (logicalBlock size la) with
  | none => isFalse fun hm => by
    obtain ⟨a, ha, -⟩ := hm.placed
    rw [h] at ha
    cases ha
  | some a =>
    decidable_of_iff (s.media.flash.stateAt (a + la % size) ≠ .empty ∧ la % size ≠ 0 ∧
        s.sequentialLogicalblockAddress ≠ some (logicalBlock size la) ∧
        s.logPageNext = cfg.logBlockLimit * size)
      ⟨fun ⟨hplaced, hrest⟩ => ⟨⟨a, h, hplaced⟩, hrest.1, hrest.2.1, hrest.2.2⟩, fun hm => by
        obtain ⟨⟨a', ha', hplaced⟩, hoffset, howner, hfull⟩ := hm
        rw [h] at ha'
        exact ⟨Option.some.inj ha' ▸ hplaced, hoffset, howner, hfull⟩⟩

instance (cfg : FastConfig) (s : Fast size π) : DecidablePred (s.RoomSafe cfg)
  | .read _ => isTrue trivial
  | .write la _ => inferInstanceAs (Decidable (2 ≤ cfg.logBlockLimit ∨ ¬ s.MeetsFullLog cfg la))
  | .trim _ => isTrue trivial

theorem mergeSequential_logs (hworn : ok .worn) (hnone : ok .noFreeBlock) (hbad : ok .badAlloc)
    (hnot : ok .notEmpty) (cfg : FastConfig) (s : Fast size π) :
    Yields ok (s.mergeSequential cfg) (SameLogs s) := by
  rw [mergeSequential]
  cases hb : s.sequentialLogicalblockAddress with
  | none => exact .refl s
  | some b =>
    refine (getFreeBlock_halts hworn hnone hbad cfg.toSsdConfig .data s.media).bind fun r _ => ?_
    refine (collect_halts hworn cfg r.2).bind fun m _ => ?_
    exact (copyPages_halts hnot _ r.1 m.flash).bind fun _ _ => ⟨rfl, rfl⟩

theorem newSequential_logs (hworn : ok .worn) (hnone : ok .noFreeBlock) (hbad : ok .badAlloc)
    (cfg : FastConfig) (b : ℕ) (s : Fast size π) :
    Yields ok (s.newSequential cfg b) fun r => SameLogs s r.1 :=
  (getFreeBlock_halts hworn hnone hbad cfg.toSsdConfig .data s.media).bind fun _ _ => ⟨rfl, rfl⟩

theorem finishSequential_logs (hworn : ok .worn) (hnone : ok .noFreeBlock) (hbad : ok .badAlloc)
    (hnot : ok .notEmpty) (hwild : ok .wildAccess) (cfg : FastConfig) (s : Fast size π) :
    Yields ok (s.finishSequential cfg) (SameLogs s) := by
  rw [finishSequential]
  split_ifs
  · rw [switchSequential]
    cases s.sequentialLogicalblockAddress with
    | none => exact hwild
    | some b => exact ⟨rfl, rfl⟩
  · exact mergeSequential_logs hworn hnone hbad hnot cfg s

theorem FindsRoom.appendPage (h : s.FindsRoom) (la : ℕ) :
    ∃ pre log post, s.logPages = pre ++ log :: post ∧ (∀ full ∈ pre, full.numPages = size) ∧
      log.numPages < size ∧ appendPage size s.logPageNext la s.logPages =
        some (pre ++ log.push log.numPages la :: post, log.address + log.numPages) := by
  obtain ⟨pre, log, post, hlogs, hpre, hlt, hmod⟩ := h
  refine ⟨pre, log, post, hlogs, hpre, hlt, ?_⟩
  rw [hlogs, appendPage_split la _ hpre hlt.ne, hmod]

theorem writeToLogBlock_formed (hsize : 0 < size) (h : LogsFormed cfg s)
    (hsafe : 2 ≤ cfg.logBlockLimit ∨ (la % size ≠ 0 →
      s.sequentialLogicalblockAddress ≠ some (logicalBlock size la) →
        s.logPageNext ≠ cfg.logBlockLimit * size)) :
    Yields (· ≠ .nullNext) (s.writeToLogBlock cfg la) fun r => LogsFormed cfg r.1 := by
  rw [writeToLogBlock]
  have hnew : ∀ t : Fast size π, SameLogs s t → Yields (· ≠ .nullNext)
      (t.newSequential cfg (logicalBlock size la)) fun r => LogsFormed cfg r.1 := fun t ht =>
    (newSequential_logs (by decide) (by decide) (by decide) cfg _ t).mono fun r hr => h.of_same (ht.trans hr)
  split_ifs with hzero howner hoffset
  · exact (finishSequential_logs (by decide) (by decide) (by decide) (by decide) (by decide) cfg s).bind hnew
  · dsimp only
    split_ifs
    · exact h.of_same ⟨rfl, rfl⟩
    · simp [Yields]
  · exact (mergeSequential_logs (by decide) (by decide) (by decide) (by decide) cfg s).bind hnew
  · have hroom : Yields (· ≠ .nullNext) (s.makeRoom cfg) fun t => LogsFormed cfg t ∧ t.FindsRoom := by
      refine makeRoom_formed hsize (by decide) (by decide) (by decide) (fun hlt hfull => ?_) h
      exact absurd hfull (hsafe.resolve_left (by omega) hzero howner)
    refine hroom.bind fun t ht => ?_
    obtain ⟨hformed, hfinds⟩ := ht
    obtain ⟨pre, log, post, hlogs, hpre, hlt, happ⟩ := hfinds.appendPage la
    rw [happ]
    have hlevels : fillLevels t.logPages = fillLevels pre ++ log.numPages :: fillLevels post := by
      rw [hlogs, fillLevels, List.map_append]
      rfl
    have hlevels' : fillLevels (pre ++ log.push log.numPages la :: post) =
        fillLevels pre ++ (log.numPages + 1) :: fillLevels post := List.map_append
    obtain ⟨hlength, hnext, hfilling⟩ := hformed
    rw [hlevels] at hnext hfilling
    refine ⟨?_, ?_, ?_⟩
    · rw [← hlength, hlogs, List.length_append, List.length_append, List.length_cons,
        List.length_cons]
    · rw [hlevels']
      dsimp only
      rw [hnext, List.sum_append, List.sum_append, List.sum_cons, List.sum_cons]
      omega
    · rw [hlevels']
      refine hfilling.succ (fun n hn => ?_) hlt
      obtain ⟨full, hfull, rfl⟩ := List.mem_map.mp hn
      exact hpre full hfull

theorem place_formed (hsize : 0 < size) (h : LogsFormed cfg s)
    (hsafe : 2 ≤ cfg.logBlockLimit ∨ ¬ s.MeetsFullLog cfg la) :
    Yields (· ≠ .nullNext) (s.place cfg la) fun r => LogsFormed cfg r.1 := by
  rw [place]
  cases ha : s.dataList (logicalBlock size la) with
  | none =>
    refine (getFreeBlock_halts (by decide) (by decide) (by decide) cfg.toSsdConfig .data s.media).bind
      fun r _ => ?_
    exact h.of_same ⟨rfl, rfl⟩
  | some a =>
    dsimp only
    split_ifs with hempty
    · exact h
    · refine writeToLogBlock_formed hsize h (hsafe.imp_right fun hno hzero howner hfull => ?_)
      exact hno ⟨⟨a, ha, hempty⟩, hzero, howner, hfull⟩

theorem write_formed (hsize : 0 < size) (h : s.Untouched ∨ LogsFormed cfg s) {payload : π}
    (hsafe : s.RoomSafe cfg (.write la payload)) :
    Yields (· ≠ .nullNext) (s.write cfg la payload) (LogsFormed cfg) := by
  rw [write]
  split_ifs
  · simp [Yields]
  · refine (initializeLogPages_formed (by decide) (by decide) (by decide) h).bind ?_
    rintro t ⟨ht, hcases⟩
    have hsafe' : 2 ≤ cfg.logBlockLimit ∨ ¬ t.MeetsFullLog cfg la := by
      rcases hcases with ⟨-, hzero⟩ | rfl
      · refine Or.inr fun hmeets => ?_
        have hpos := Nat.mul_pos cfg.logBlockLimit_pos hsize
        rw [← hmeets.full, hzero] at hpos
        exact Nat.lt_irrefl 0 hpos
      · exact hsafe
    refine (place_formed hsize ht hsafe').bind fun r hr => ?_
    refine (insertEvents_halts (by decide) cfg.toSsdConfig r.1.media).bind fun m _ => ?_
    exact (Flash.write_halts (by decide) r.2 payload).bind fun _ _ => hr.of_same ⟨rfl, rfl⟩

theorem trimPage_logs (hworn : ok .worn) (s : Fast size π) (la : ℕ) :
    Yields ok (s.trimPage la) (SameLogs s) := by
  have hinvalidate : ∀ (t : Fast size π) block address (forget : Fast size π → Fast size π),
      SameLogs s t → (∀ u, SameLogs u (forget u)) →
        Yields ok (t.invalidatePage block address forget) (SameLogs s) := by
    intro t block address forget ht hforget
    have hflash : SameLogs s { t with media := ⟨t.media.flash.invalidate address, t.media.bm⟩ } :=
      ⟨ht.levels, ht.next⟩
    rw [invalidatePage]
    dsimp only
    split_ifs
    · refine (eraseAndInvalidate_halts hworn _ block .log).bind fun m _ => ?_
      exact ⟨(hforget _).levels.trans ht.levels, (hforget _).next.trans ht.next⟩
    · exact hflash
  rw [trimPage]
  cases hdrop : dropEntry la s.logPages with
  | some r =>
    obtain ⟨logs, block, address⟩ := r
    refine hinvalidate _ _ _ _ ⟨?_, rfl⟩ fun _ => ⟨rfl, rfl⟩
    exact (dropEntry_eq_some hdrop).numPages
  | none =>
    dsimp only
    split_ifs
    · exact hinvalidate _ _ _ _ (.refl s) fun _ => ⟨rfl, rfl⟩
    · cases s.dataList (logicalBlock size la) with
      | none => exact .refl s
      | some a => exact hinvalidate _ _ _ _ (.refl s) fun _ => ⟨rfl, rfl⟩

theorem serve_formed (hsize : 0 < size) (h : s.Untouched ∨ LogsFormed cfg s) {r : FastRequest π}
    (hsafe : s.RoomSafe cfg r) : Yields (· ≠ .nullNext) (s.serve cfg r) (LogsFormed cfg) := by
  cases r with
  | read la =>
    rw [serve, read]
    split_ifs
    · simp [Yields]
    · exact (initializeLogPages_formed (by decide) (by decide) (by decide) h).mono fun t ht => ht.1
  | write la payload => exact write_formed hsize h hsafe
  | trim la =>
    rw [serve, trim]
    split_ifs
    · simp [Yields]
    · refine (initializeLogPages_formed (by decide) (by decide) (by decide) h).bind fun t ht => ?_
      refine (trimPage_logs (by decide) t la).bind fun u hu => ?_
      refine (insertEvents_halts (by decide) cfg.toSsdConfig u.media).bind fun m _ => ?_
      exact (ht.1.of_same hu).of_same ⟨rfl, rfl⟩

theorem write_stuck (hsize : 0 < size) (hworn : ok .worn) (hnone : ok .noFreeBlock)
    (hbad : ok .badAlloc) (harray : ok .outOfArray) (hnull : ok .nullNext) (h : LogsFormed cfg s)
    (hone : cfg.logBlockLimit < 2) (hmeets : s.MeetsFullLog cfg la) (payload : π) :
    Yields ok (s.write cfg la payload) fun _ => False := by
  have hlogs : s.logPages ≠ [] := by
    intro hnil
    have hpos := cfg.logBlockLimit_pos
    rw [← h.length, hnil] at hpos
    exact Nat.lt_irrefl 0 hpos
  obtain ⟨⟨a, ha, hempty⟩, hzero, howner, hfull⟩ := hmeets
  rw [write]
  split_ifs
  · exact harray
  · have hplace : Yields ok (s.place cfg la) fun _ => False := by
      rw [place, ha]
      dsimp only
      rw [if_neg hempty, writeToLogBlock]
      dsimp only
      rw [if_neg hzero, if_neg howner, makeRoom, if_pos hfull]
      refine (replaceVictim_formed hsize hworn hnone hbad (fun _ => hnull) h hfull).bind ?_
      rintro t ⟨htwo, -⟩
      omega
    rw [initializeLogPages, if_neg hlogs]
    exact hplace.bind fun _ hfalse => hfalse.elim

theorem Untouched.next_ne (hsize : 0 < size) (cfg : FastConfig) (h : s.Untouched) :
    s.logPageNext ≠ cfg.logBlockLimit * size := by
  rw [h.next]
  exact (Nat.mul_pos cfg.logBlockLimit_pos hsize).ne

theorem serveAll_formed (hsize : 0 < size) (h : s.Untouched) {rs : List (FastRequest π)}
    (hsafe : Yields.Along (serve cfg) (RoomSafe cfg) s rs) :
    Yields (· ≠ .nullNext) (s.serveAll cfg rs) fun t =>
      (rs ≠ [] → LogsFormed cfg t) ∧ (t.Untouched ∨ LogsFormed cfg t) := by
  cases rs with
  | nil => exact ⟨fun hne => absurd rfl hne, Or.inl h⟩
  | cons r rs =>
    have hrun : Yields (· ≠ .nullNext) (s.serveAll cfg (r :: rs)) (LogsFormed cfg) := by
      have hfirst := serve_formed hsize (Or.inl h) hsafe.1
      have hrest := hsafe.2
      rw [serveAll, List.foldlM_cons]
      cases hs : s.serve cfg r with
      | error e =>
        rw [hs] at hfirst
        exact hfirst
      | ok t =>
        rw [hs] at hfirst hrest
        exact Yields.foldlM_along (LogsFormed cfg)
          (fun u r hu hr => serve_formed hsize (Or.inr hu) hr) hfirst hrest
    exact hrun.mono fun t ht => ⟨fun _ => ht, Or.inr ht⟩

end Fast

/-- **The list of random-write log blocks.** Along every run that replaces no only block, no null
pointer is followed, the list is well formed, and the search for room ends at the block that takes the
next page. A write that would replace the only block comes to nothing. -/
theorem fast_log_list_formed {π : Type} (cfg : FastConfig) (erases : ℕ) (junk : ℕ → π)
    (rs : List (FastRequest π))
    (hsafe : Yields.Along (Fast.serve cfg) (Fast.RoomSafe cfg)
      (Fast.new erases junk : Fast cfg.blockSize π) rs) :
    Yields (· ≠ .nullNext) (Fast.serveAll cfg (Fast.new erases junk : Fast cfg.blockSize π) rs)
      fun s =>
        (rs ≠ [] → s.LogsFormed cfg) ∧
        (∀ t u, s.initializeLogPages cfg = .ok t → t.makeRoom cfg = .ok u → u.FindsRoom) ∧
        ∀ la payload, ¬ s.RoomSafe cfg (.write la payload) →
          Yields (· ∈ [.nullNext, .noFreeBlock, .badAlloc, .worn, .outOfArray])
            (s.write cfg la payload) fun _ => False := by
  have hsize := cfg.blockSize_pos
  refine (Fast.serveAll_formed hsize ⟨rfl, rfl⟩ hsafe).mono ?_
  rintro s ⟨hformed, hs⟩
  refine ⟨hformed, fun t u ht hu => ?_, fun la payload hunsafe => ?_⟩
  · have hstart : Yields (fun _ => True) (s.initializeLogPages cfg) fun t =>
        t.LogsFormed cfg ∧ (s.Untouched ∧ t.logPageNext = 0 ∨ t = s) :=
      Fast.initializeLogPages_formed trivial trivial trivial hs
    have hroom : Yields (fun _ => True) (t.makeRoom cfg) fun u => u.LogsFormed cfg ∧ u.FindsRoom :=
      Fast.makeRoom_formed hsize trivial trivial trivial (fun _ _ => trivial) (hstart.of_ok ht).1
    exact (hroom.of_ok hu).2
  · obtain ⟨hone, hmeets⟩ := not_or.mp hunsafe
    have hfull := not_not.mp hmeets
    have hlogs := hs.resolve_left fun hnew => hnew.next_ne hsize cfg hfull.full
    exact Fast.write_stuck hsize (by simp) (by simp) (by simp) (by simp) (by simp) hlogs
      (not_le.mp hone) hfull payload

/-- Two RW log blocks of two pages each; the requests replace the oldest one, twice. -/
def logRequests : List (FastRequest ℕ) :=
  [.write 1 10, .write 3 11, .write 1 12, .write 3 13, .trim 3, .write 1 14, .write 3 15, .write 1 16,
    .write 3 17, .write 1 18]

theorem fast_log_list_formed_logRequests :
    ∃ s, Fast.serveAll smallFast (Fast.new 9 id : Fast 2 ℕ) logRequests = .ok s ∧
      s.LogsFormed smallFast := by
  have hformed := fast_log_list_formed smallFast 9 id logRequests (by decide)
  have hrun : ∃ s, Fast.serveAll smallFast (Fast.new 9 id : Fast 2 ℕ) logRequests = .ok s := ⟨_, rfl⟩
  obtain ⟨s, hs⟩ := hrun
  exact ⟨s, hs, (hformed.of_ok hs).1 (List.cons_ne_nil _ _)⟩

/-- One RW log block of two pages. -/
def oneLogBlock : FastConfig := ⟨⟨2, 12, 12, fun _ => false, Nat.two_pos⟩, 1, Nat.one_pos⟩

/-- **The only block of the list is dropped**, and the loop to the end of the list starts with a null
pointer. -/
theorem only_log_block_dropped :
    Fast.serveAll oneLogBlock (Fast.new 9 id : Fast 2 ℕ)
      [.write 1 10, .write 1 11, .write 1 12, .write 1 13] = .error .nullNext := rfl

end ZnsFlash
