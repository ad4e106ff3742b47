import ZnsFlash.Ssd.FastReads
import ZnsFlash.Ssd.FastVersions

/-!
# The blocks of FAST, counted

* `Fast.dataBlocks`, **`Fast.Tenancy`**: the blocks in use are not free, and the counters of the block
  manager are their numbers;
* `mergeSequential_tenancy`, `finishSequential_tenancy`, `newSequential_tenancy`: the SW block;
* `randomMerge_tenancy`, `replaceVictim_tenancy`, `appendPage_tenancy`: the RW log;
* **`write_tenancy`**, `read_tenancy`: writes and reads keep it.
-/

namespace ZnsFlash

open Holdings

variable {size : ℕ} {π : Type} {ok : Halt → Prop}

namespace Fast

/-! ## Numbers of blocks -/

/-- How many logical blocks have a data block. -/
def entries (n : ℕ) (list : ℕ → Option ℕ) : ℕ :=
  (Finset.univ.filter fun b : Fin n => (list b).isSome = true).card

/-- The blocks allocated as `DATA`: the data blocks, and the SW block. -/
def dataBlocks (n : ℕ) (s : Fast size π) : ℕ :=
  entries n s.dataList + s.sequentialLogicalblockAddress.elim 0 fun _ => 1

section Entries

variable {n b address : ℕ} {list list' : ℕ → Option ℕ} {s t : Fast size π}

theorem entries_le (n : ℕ) (list : ℕ → Option ℕ) : entries n list ≤ n := by
  have hle := Finset.card_filter_le (Finset.univ : Finset (Fin n)) fun b => (list b).isSome = true
  rw [Finset.card_univ, Fintype.card_fin] at hle
  exact hle

theorem entries_congr (h : ∀ b, (list' b).isSome = (list b).isSome) :
    entries n list' = entries n list := by
  simp only [entries, h]

theorem entries_update (list : ℕ → Option ℕ) (hb : b < n) (address : ℕ) :
    entries n (Function.update list b (some address)) + (if (list b).isSome = true then 1 else 0) =
      entries n list + 1 := by
  have hfin : (fun i : Fin n => Function.update list b (some address) i) =
      Function.update (fun i : Fin n => list i) ⟨b, hb⟩ (some address) :=
    Function.update_comp_eq_of_injective list Fin.val_injective ⟨b, hb⟩ (some address)
  have hcount := Zoned.card_filter_update (fun o : Option ℕ => o.isSome = true)
    (fun i : Fin n => list i) ⟨b, hb⟩ (some address)
  rw [← hfin] at hcount
  exact hcount

theorem entries_update_none (hb : b < n) (h : list b = none) (address : ℕ) :
    entries n (Function.update list b (some address)) = entries n list + 1 := by
  have hcount := entries_update list hb address
  rw [h] at hcount
  exact hcount

theorem entries_update_some (hb : b < n) {a : ℕ} (h : list b = some a) (address : ℕ) :
    entries n (Function.update list b (some address)) = entries n list := by
  have hcount := entries_update list hb address
  rw [h] at hcount
  exact Nat.succ_inj.mp hcount

theorem dataBlocks_le (n : ℕ) (s : Fast size π) : s.dataBlocks n ≤ n + 1 := by
  have hle := entries_le n s.dataList
  rw [dataBlocks]
  cases s.sequentialLogicalblockAddress with
  | none => exact Nat.le_succ_of_le hle
  | some b => exact Nat.succ_le_succ hle

end Entries

/-- **The blocks in use are not free, and counted.** -/
structure Tenancy (cfg : FastConfig) (s : Fast size π) : Prop extends Housed s where
  bounded : ∀ b a, s.dataList b = some a → b < cfg.addressableBlocks
  owner : ∀ b, s.sequentialLogicalblockAddress = some b → b < cfg.addressableBlocks
  counts : Counts s.media.bm (s.dataBlocks cfg.addressableBlocks) s.logPages.length

variable {s t : Fast size π} {cfg : FastConfig} {m : Media size π} {la b a : ℕ}

theorem Tenancy.unowned_counts (h : Tenancy cfg s.unowned) :
    Counts s.media.bm (entries cfg.addressableBlocks s.dataList) s.logPages.length := h.counts

theorem collect_counts (hworn : ok .worn) {d l : ℕ} (h : Counts m.bm d l) :
    Yields ok (collect cfg m) fun m' => Counts m'.bm d l := collect_of cfg (insertEvents_counts hworn _ h) h

theorem bounded_update {n : ℕ} {list : ℕ → Option ℕ} (h : ∀ b a, list b = some a → b < n) (hb : b < n)
    (address : ℕ) : ∀ b' a', Function.update list b (some address) b' = some a' → b' < n := by
  intro b' a' ha'
  by_cases hb' : b' = b
  · rw [hb']
    exact hb
  · rw [Function.update_of_ne hb'] at ha'
    exact h b' a' ha'

/-! ## The sequential log block -/

/-- The counter of data blocks when a data block is given back and another one registered. -/
theorem counts_invalidateData (hb : b < cfg.addressableBlocks) (s : Fast size π) (address l : ℕ)
    (h : Counts m.bm (entries cfg.addressableBlocks s.dataList + 1) l) :
    Counts (match s.dataList b with
      | none => m
      | some a => m.invalidateBlock a .data).bm
      (entries cfg.addressableBlocks (Function.update s.dataList b (some address))) l := by
  cases ha : s.dataList b with
  | none =>
    rw [entries_update_none hb ha]
    exact h
  | some a =>
    rw [entries_update_some hb ha]
    exact invalidateBlock_data_counts a h

theorem owner_unowned (t : Fast size π) (n : ℕ) :
    ∀ b, t.unowned.sequentialLogicalblockAddress = some b → b < n := by
  intro b hb
  cases hb

theorem mergeSequential_tenancy (hsize : 0 < size) (hall : ∀ e, ok e) (h : Tenancy cfg s) :
    Yields ok (s.mergeSequential cfg) fun t =>
      Tenancy cfg t.unowned ∧ t.logPages = s.logPages := by
  have hcounts : Yields ok (s.mergeSequential cfg) fun t =>
      (∀ b a, t.dataList b = some a → b < cfg.addressableBlocks) ∧ t.logPages = s.logPages ∧
        Counts t.media.bm (entries cfg.addressableBlocks t.dataList) t.logPages.length := by
    rw [mergeSequential]
    have hstart := h.counts
    rw [dataBlocks] at hstart
    cases hb : s.sequentialLogicalblockAddress with
    | none =>
      rw [hb] at hstart
      exact ⟨h.bounded, rfl, hstart⟩
    | some b =>
      rw [hb] at hstart
      have hlt := h.owner b hb
      refine (getFreeBlock_data_counts (hall _) (hall _) cfg.toSsdConfig hstart).bind fun r hr => ?_
      refine (collect_counts (hall _) hr).bind fun m hm => ?_
      refine (copyPages_halts (hall _) _ r.1 m.flash).bind fun f _ => ⟨bounded_update h.bounded hlt _, rfl, ?_⟩
      refine counts_invalidateData hlt s r.1 _ (invalidateBlock_data_counts _ ?_)
      exact ⟨hm.data, hm.log⟩
  refine ((mergeSequential_housed hsize (hall _) (hall _) (hall _) (hall _) cfg h.toHoused).and
    hcounts).mono ?_
  rintro t ⟨hhoused, hbounded, hlogs, hcounts⟩
  exact ⟨⟨hhoused, hbounded, owner_unowned t _, hcounts⟩, hlogs⟩

theorem finishSequential_tenancy (hsize : 0 < size) (hall : ∀ e, ok e) (h : Tenancy cfg s) :
    Yields ok (s.finishSequential cfg) fun t =>
      Tenancy cfg t.unowned ∧ t.logPages = s.logPages := by
  rw [finishSequential]
  split_ifs
  · have hswitch : Yields ok s.switchSequential fun t =>
        (∀ b a, t.dataList b = some a → b < cfg.addressableBlocks) ∧ t.logPages = s.logPages ∧
          Counts t.media.bm (entries cfg.addressableBlocks t.dataList) t.logPages.length := by
      rw [switchSequential]
      have hstart := h.counts
      rw [dataBlocks] at hstart
      cases hb : s.sequentialLogicalblockAddress with
      | none => exact hall _
      | some b =>
        rw [hb] at hstart
        have hlt := h.owner b hb
        exact ⟨bounded_update h.bounded hlt _, rfl, counts_invalidateData hlt s _ _ hstart⟩
    refine ((switchSequential_housed (hall _) h.toHoused).and hswitch).mono ?_
    rintro t ⟨hhoused, hbounded, hlogs, hcounts⟩
    exact ⟨⟨hhoused, hbounded, owner_unowned t _, hcounts⟩, hlogs⟩
  · exact mergeSequential_tenancy hsize hall h

/-- The page that is written next is in a block in use. -/
structure Issued (cfg : FastConfig) (s : Fast size π) (a : ℕ) : Prop where
  tenancy : Tenancy cfg s
  mem : a / size ∈ held s.own

theorem newSequential_tenancy (hsize : 0 < size) (hall : ∀ e, ok e) (hb : b < cfg.addressableBlocks)
    (h : Tenancy cfg s.unowned) :
    Yields ok (s.newSequential cfg b) fun r => Issued cfg r.1 r.2 := by
  have halloc : Yields ok (s.media.getFreeBlock cfg.toSsdConfig .data) fun r =>
      Allocated s.media (held s.unowned.own) r.1 r.2 :=
    getFreeBlock_spec hsize (hall _) (hall _) (hall _) cfg.toSsdConfig .data h.pool
  have hcounts := getFreeBlock_data_counts (hall _) (hall _) cfg.toSsdConfig h.unowned_counts
  refine (halloc.and hcounts).bind fun r hr => ?_
  have hhoused := h.toHoused.newSequential b 1 hr.1
  refine ⟨⟨hhoused, h.bounded, fun b' hb' => ?_, hr.2⟩, mem_held (own_sequential rfl)⟩
  rw [← Option.some.inj hb']
  exact hb

/-! ## The random-write log -/

theorem mergeVictim_counts (hall : ∀ e, ok e) {d l : ℕ} (h : Counts s.media.bm d l) (b : ℕ) :
    Yields ok (s.mergeVictim cfg b) fun t => Counts t.media.bm d l := by
  refine (collect_counts (hall _) h).bind fun m₁ hm₁ => ?_
  refine (getFreeBlock_data_counts (hall _) (hall _) cfg.toSsdConfig hm₁).bind fun r hr => ?_
  have hany : ∀ x : Except Halt (MergeState size π), Yields ok x fun _ => True := by
    rintro (e | m)
    · exact hall e
    · trivial
  refine (hany _).bind fun m _ => (hany _).bind fun m' _ => ?_
  exact invalidateBlock_data_counts _ ⟨hr.data, hr.log⟩

theorem randomMerge_counts (hall : ∀ e, ok e) {d l : ℕ} (h : Counts s.media.bm d l)
    (victim : FastLog) : Yields ok (s.randomMerge cfg victim) fun t => Counts t.media.bm d l :=
  Yields.foldlM_list (fun _ (t : Fast size π) => Counts t.media.bm d l) h fun _ b _ _ _ ht =>
    mergeVictim_counts hall ht b

theorem Rounds.isSome_eq (hs : Housed s) {limit : ℕ} {victim : FastLog} (hvictim : victim ∈ s.logPages)
    (h : Rounds s t limit (mergeBlocks size victim)) (b : ℕ) :
    (t.dataList b).isSome = (s.dataList b).isSome := by
  by_cases hb : b ∈ mergeBlocks size victim
  · obtain ⟨i, -, la, hpage, rfl⟩ := mem_mergeBlocks.mp hb
    obtain ⟨a, ha⟩ := hs.placed victim hvictim i la hpage
    obtain ⟨address, haddress, -⟩ := h.merged _ hb a ha
    rw [haddress, ha]
    rfl
  · rw [h.rest b hb]

theorem randomMerge_tenancy (hsize : 0 < size) (hall : ∀ e, ok e) (h : Tenancy cfg s)
    (hlimit : s.logPages.length = cfg.logBlockLimit) {victim : FastLog}
    (hvictim : victim ∈ s.logPages) :
    Yields ok (s.randomMerge cfg victim) fun t => Tenancy cfg t ∧
      t.logPages.map FastLog.address = s.logPages.map FastLog.address ∧ SameSequential s t ∧
        ∀ b, (t.dataList b).isSome = (s.dataList b).isSome := by
  have hrounds : Yields ok (s.randomMerge cfg victim) fun t =>
      Rounds s t cfg.logBlockLimit (mergeBlocks size victim) :=
    randomMerge_rounds hsize (hall _) (hall _) (hall _) cfg h.toHoused hlimit hvictim
  refine (hrounds.and (randomMerge_counts hall h.counts victim)).mono ?_
  rintro t ⟨ht, hcounts⟩
  have hsame := ht.isSome_eq h.toHoused hvictim
  refine ⟨⟨ht.housed, fun b a ha => ?_, fun b hb => ?_, ?_⟩, ht.thinned.addresses, ht.same, hsame⟩
  · have hsome := hsame b
    rw [ha] at hsome
    obtain ⟨a', ha'⟩ := Option.isSome_iff_exists.mp hsome.symm
    exact h.bounded b a' ha'
  · rw [ht.same.owner] at hb
    exact h.owner b hb
  · rw [dataBlocks, entries_congr hsame, ht.same.owner, ht.thinned.length]
    exact hcounts

theorem appendLogBlock_tenancy (hsize : 0 < size) (hall : ∀ e, ok e) (h : Tenancy cfg s) :
    Yields ok (s.appendLogBlock cfg) fun t => Tenancy cfg t ∧ t.dataList = s.dataList ∧
      t.sequentialLogicalblockAddress = s.sequentialLogicalblockAddress ∧
        t.logPages.length = s.logPages.length + 1 := by
  have halloc : Yields ok (s.media.getFreeBlock cfg.toSsdConfig .log) fun r =>
      Allocated s.media (held s.own) r.1 r.2 :=
    getFreeBlock_spec hsize (hall _) (hall _) (hall _) cfg.toSsdConfig .log h.pool
  have hcounts := getFreeBlock_log_counts (hall _) (hall _) (hall _) cfg.toSsdConfig h.counts
  refine (halloc.and hcounts).bind fun r hr => ?_
  refine ⟨⟨h.toHoused.appendLog hr.1, h.bounded, h.owner, ?_⟩, rfl, rfl, List.length_append⟩
  dsimp only
  rw [List.length_append]
  exact hr.2

theorem initializeLogPages_tenancy (hsize : 0 < size) (hall : ∀ e, ok e) (h : Tenancy cfg s)
    (hlength : s.logPages = [] ∨ s.logPages.length = cfg.logBlockLimit) :
    Yields ok (s.initializeLogPages cfg) fun t => Tenancy cfg t ∧ t.dataList = s.dataList ∧
      t.sequentialLogicalblockAddress = s.sequentialLogicalblockAddress ∧
        t.logPages.length = cfg.logBlockLimit := by
  rw [initializeLogPages]
  split_ifs with hnil
  · refine Yields.foldlM_range (fun k (t : Fast size π) => Tenancy cfg t ∧ t.dataList = s.dataList ∧
      t.sequentialLogicalblockAddress = s.sequentialLogicalblockAddress ∧ t.logPages.length = k)
      ⟨h, rfl, rfl, congrArg List.length hnil⟩ ?_
    rintro k t - ⟨ht, hlist, howner, hlength'⟩
    refine (appendLogBlock_tenancy hsize hall ht).mono ?_
    rintro u ⟨hu, hlist', howner', hlength''⟩
    exact ⟨hu, hlist'.trans hlist, howner'.trans howner, hlength''.trans (congrArg (· + 1) hlength')⟩
  · exact ⟨h, rfl, rfl, hlength.resolve_left hnil⟩

theorem replaceVictim_tenancy (hsize : 0 < size) (hall : ∀ e, ok e) (h : Tenancy cfg s)
    (hlimit : s.logPages.length = cfg.logBlockLimit) :
    Yields ok (s.replaceVictim cfg) fun t => Tenancy cfg t ∧
      t.logPages.length = cfg.logBlockLimit ∧ ∀ b, (t.dataList b).isSome = (s.dataList b).isSome := by
  rw [replaceVictim]
  cases hlogs : s.logPages with
  | nil => exact hall _
  | cons victim rest =>
    have hmem : victim ∈ s.logPages := by
      rw [hlogs]
      exact List.mem_cons_self
    refine (randomMerge_tenancy hsize hall h hlimit hmem).bind ?_
    rintro t ⟨ht, haddresses, -, hsame⟩
    rw [hlogs, List.map_cons] at haddresses
    obtain ⟨victim', rest', htlogs, haddress, -⟩ := List.map_eq_cons_iff.mp haddresses
    have hhead : t.logPages[0]? = some victim' := by rw [htlogs, List.getElem?_cons_zero]
    have hheld : victim.address / size ∈ held t.own := haddress ▸ mem_held (own_log hhead)
    obtain ⟨hpool, -⟩ := invalidateBlock_spec .log ht.pool hheld
    have hcounts := ht.counts
    rw [htlogs, List.length_cons] at hcounts
    have hdropped : Tenancy cfg { t with
        logPages := t.logPages.tail
        media := t.media.invalidateBlock victim.address .log
        logPageNext := t.logPageNext - size } := by
      rw [← haddress] at hpool
      have hhoused := ht.toHoused.dropVictim htlogs hpool
      rw [haddress] at hhoused
      rw [htlogs, List.tail_cons]
      exact ⟨hhoused, ht.bounded, ht.owner, invalidateBlock_log_counts victim.address hcounts⟩
    refine (appendLogBlock_tenancy hsize hall hdropped).bind ?_
    rintro u ⟨hu, hlist, -, hlength⟩
    split_ifs
    · exact hall _
    · refine ⟨hu, ?_, fun b => ?_⟩
      · have hcount := congrArg List.length haddresses
        rw [List.length_map, List.length_cons, List.length_map] at hcount
        rw [hlength, ← hlimit, hlogs, List.length_tail, List.length_cons, hcount]
        rfl
      · rw [hlist]
        exact hsame b

/-- A page is appended to a block of the log. -/
structure Pushed (size : ℕ) (la : ℕ) (logs logs' : List FastLog) (a : ℕ) : Prop where
  addresses : logs'.map FastLog.address = logs.map FastLog.address
  mem : ∀ log' ∈ logs', ∃ log ∈ logs, log'.address = log.address ∧
    (log.numPages ≤ size → log'.numPages ≤ size) ∧
      ∀ i, log'.aPages i = log.aPages i ∨ log'.aPages i = some la
  block : ∃ log ∈ logs, ∃ i < size, a = log.address + i

theorem appendPage_pushed (hsize : 0 < size) {next la : ℕ} {logs logs' : List FastLog}
    (h : appendPage size next la logs = some (logs', a)) : Pushed size la logs logs' a := by
  induction logs generalizing logs' with
  | nil => cases h
  | cons log rest ih =>
    rw [appendPage] at h
    split_ifs at h with hfull
    · obtain ⟨⟨rest', a'⟩, hrest, heq⟩ := Option.map_eq_some_iff.mp h
      obtain ⟨rfl, rfl⟩ := Prod.mk.inj heq
      obtain ⟨haddresses, hmem, full, hmem', i, hi, ha⟩ := ih hrest
      refine ⟨congrArg (log.address :: ·) haddresses, fun log' hlog' => ?_, full,
        List.mem_cons_of_mem _ hmem', i, hi, ha⟩
      rcases List.mem_cons.mp hlog' with rfl | hlog'
      · exact ⟨log', List.mem_cons_self, rfl, id, fun _ => Or.inl rfl⟩
      · obtain ⟨old, hold, hkept⟩ := hmem log' hlog'
        exact ⟨old, List.mem_cons_of_mem _ hold, hkept⟩
    · obtain ⟨rfl, rfl⟩ := Prod.mk.inj (Option.some.inj h)
      refine ⟨rfl, fun log' hlog' => ?_, log, List.mem_cons_self, next % size, Nat.mod_lt _ hsize, rfl⟩
      rcases List.mem_cons.mp hlog' with rfl | hlog'
      · refine ⟨log, List.mem_cons_self, rfl, fun hle => lt_of_le_of_ne hle hfull, fun i => ?_⟩
        by_cases hi : i = next % size
        · rw [hi]
          exact Or.inr (Function.update_self _ _ _)
        · exact Or.inl (Function.update_of_ne hi _ _)
      · exact ⟨log', List.mem_cons_of_mem _ hlog', rfl, id, fun _ => Or.inl rfl⟩

theorem appendPage_tenancy (hsize : 0 < size) (h : Tenancy cfg s) {logs : List FastLog}
    (hplaced : ∃ a, s.dataList (logicalBlock size la) = some a)
    (happ : appendPage size s.logPageNext la s.logPages = some (logs, a)) :
    Issued cfg { s with logPages := logs, logPageNext := s.logPageNext + 1 } a := by
  obtain ⟨haddresses, hmem, log, hlog, i, hi, rfl⟩ := appendPage_pushed hsize happ
  have hown : ({ s with logPages := logs, logPageNext := s.logPageNext + 1 } : Fast size π).own =
      s.own := own_congr rfl rfl rfl haddresses
  have hlength : logs.length = s.logPages.length := by
    have hcount := congrArg List.length haddresses
    rwa [List.length_map, List.length_map] at hcount
  refine ⟨⟨⟨hown.symm ▸ h.exclusive, hown.symm ▸ h.pool, h.data, h.sequential, fun log' hlog' => ?_,
    fun log' hlog' j la' hpage => ?_⟩, h.bounded, h.owner, hlength.symm ▸ h.counts⟩, ?_⟩
  · obtain ⟨old, hold, haddress, hpages, -⟩ := hmem log' hlog'
    rw [haddress]
    exact ⟨(h.log old hold).1, hpages (h.log old hold).2⟩
  · obtain ⟨old, hold, -, -, hkept⟩ := hmem log' hlog'
    rcases hkept j with hsame | hnew
    · exact h.placed old hold j la' (hsame.symm.trans hpage)
    · rw [← Option.some.inj (hnew.symm.trans hpage)]
      exact hplaced
  · obtain ⟨k, hk⟩ := own_mem_log hlog
    rw [hown, Flash.page_div (h.log log hlog).1 hi]
    exact mem_held hk

theorem writeToLogBlock_tenancy (hsize : 0 < size) (hall : ∀ e, ok e) (h : Tenancy cfg s)
    (hlimit : s.logPages.length = cfg.logBlockLimit)
    (hplaced : ∃ a, s.dataList (logicalBlock size la) = some a) :
    Yields ok (s.writeToLogBlock cfg la) fun r =>
      Issued cfg r.1 r.2 ∧ r.1.logPages.length = cfg.logBlockLimit := by
  obtain ⟨a, ha⟩ := hplaced
  have hlt := h.bounded _ a ha
  have hnew : ∀ t : Fast size π, Tenancy cfg t.unowned ∧ t.logPages = s.logPages → Yields ok
      (t.newSequential cfg (logicalBlock size la)) fun r =>
        Issued cfg r.1 r.2 ∧ r.1.logPages.length = cfg.logBlockLimit := by
    rintro t ⟨ht, hlogs⟩
    have hlength : Yields ok (t.newSequential cfg (logicalBlock size la)) fun r =>
        r.1.logPages.length = cfg.logBlockLimit :=
      (getFreeBlock_halts (hall _) (hall _) (hall _) cfg.toSsdConfig .data t.media).bind fun _ _ =>
        (congrArg List.length hlogs).trans hlimit
    exact (newSequential_tenancy hsize hall hlt ht).and hlength
  rw [writeToLogBlock]
  -- page 0 of a block; the next page of the SW block; out of order for it; the RW log
  split_ifs with hzero howner hoffset
  · exact (finishSequential_tenancy hsize hall h).bind hnew
  · dsimp only
    split_ifs with hpage
    · refine ⟨⟨⟨⟨h.exclusive, h.pool, h.data, h.sequential, h.log, h.placed⟩, h.bounded, h.owner,
        h.counts⟩, ?_⟩, hlimit⟩
      rw [Flash.page_div (h.sequential _ howner) hpage]
      exact mem_held (own_sequential howner)
    · exact hall _
  · exact (mergeSequential_tenancy hsize hall h).bind hnew
  · have hroom : Yields ok (s.makeRoom cfg) fun t => Tenancy cfg t ∧
        t.logPages.length = cfg.logBlockLimit ∧ ∀ b, (t.dataList b).isSome = (s.dataList b).isSome := by
      rw [makeRoom]
      split_ifs
      · exact replaceVictim_tenancy hsize hall h hlimit
      · exact ⟨h, hlimit, fun _ => rfl⟩
    refine hroom.bind ?_
    rintro t ⟨ht, hlength, hsame⟩
    have hplaced' : ∃ a, t.dataList (logicalBlock size la) = some a := by
      refine Option.isSome_iff_exists.mp ((hsame _).trans ?_)
      rw [ha]
      rfl
    cases happ : appendPage size t.logPageNext la t.logPages with
    | none => exact hall _
    | some r =>
      refine ⟨appendPage_tenancy hsize ht hplaced' happ, ?_⟩
      have hcount := congrArg List.length (appendPage_pushed hsize happ).addresses
      rw [List.length_map, List.length_map] at hcount
      exact hcount.trans hlength

/-! ## Requests -/

theorem place_tenancy (hsize : 0 < size) (hall : ∀ e, ok e) (h : Tenancy cfg s)
    (hlimit : s.logPages.length = cfg.logBlockLimit)
    (hlt : logicalBlock size la < cfg.addressableBlocks) :
    Yields ok (s.place cfg la) fun r =>
      Issued cfg r.1 r.2 ∧ r.1.logPages.length = cfg.logBlockLimit := by
  rw [place]
  cases ha : s.dataList (logicalBlock size la) with
  | none =>
    have halloc : Yields ok (s.media.getFreeBlock cfg.toSsdConfig .data) fun r =>
        Allocated s.media (held s.own) r.1 r.2 :=
      getFreeBlock_spec hsize (hall _) (hall _) (hall _) cfg.toSsdConfig .data h.pool
    have hcounts := getFreeBlock_data_counts (hall _) (hall _) cfg.toSsdConfig h.counts
    refine (halloc.and hcounts).bind fun r hr => ?_
    obtain ⟨⟨haligned, hnew, -, hpool, -⟩, hcount⟩ := hr
    have hfree : s.own (.data (logicalBlock size la)) = none := by
      rw [own, ha, Option.map_none]
    have hhoused : Housed { s with
        media := r.2
        dataList := Function.update s.dataList (logicalBlock size la) (some r.1) } := by
      refine h.toHoused.setData haligned ?_ ?_
      · rw [held_release h.exclusive]
        exact fun hmem => hnew hmem.1
      · rw [holding_of_none hfree, Set.sdiff_empty]
        exact hpool
    refine ⟨⟨⟨hhoused, bounded_update h.bounded hlt _, h.owner, ?_⟩, ?_⟩, hlimit⟩
    · dsimp only
      rw [dataBlocks, entries_update_none hlt ha, Nat.add_right_comm]
      exact hcount
    · have hself : Function.update s.dataList (logicalBlock size la) (some r.1)
          (logicalBlock size la) = some r.1 := Function.update_self _ _ _
      exact mem_held (hhoused.located.data hself (Nat.mod_lt la hsize))
  | some a =>
    dsimp only
    split_ifs
    · exact ⟨⟨h, mem_held (h.toHoused.located.data ha (Nat.mod_lt la hsize))⟩, hlimit⟩
    · exact writeToLogBlock_tenancy hsize hall h hlimit ⟨a, ha⟩

theorem Tenancy.insertEvents (hall : ∀ e, ok e) (h : Tenancy cfg s) :
    Yields ok (s.media.insertEvents cfg.toSsdConfig) fun m => Tenancy cfg { s with media := m } := by
  refine ((insertEvents_spec (hall _) cfg.toSsdConfig h.pool).and
    (insertEvents_counts (hall _) cfg.toSsdConfig h.counts)).mono ?_
  rintro m ⟨⟨hpool, -⟩, hcounts⟩
  exact ⟨h.toHoused.of_media hpool, h.bounded, h.owner, hcounts⟩

/-- **A write** keeps the blocks in use apart and counted. -/
theorem write_tenancy (hsize : 0 < size) (hall : ∀ e, ok e) (h : Tenancy cfg s)
    (hlength : s.logPages = [] ∨ s.logPages.length = cfg.logBlockLimit) (payload : π) :
    Yields ok (s.write cfg la payload) fun t =>
      Tenancy cfg t ∧ t.logPages.length = cfg.logBlockLimit := by
  rw [write]
  split_ifs with hlt
  · exact hall _
  · refine (initializeLogPages_tenancy hsize hall h hlength).bind ?_
    rintro t ⟨ht, -, -, hlimit⟩
    refine (place_tenancy hsize hall ht hlimit (not_le.mp hlt)).bind ?_
    rintro r ⟨⟨hr, hmem⟩, hlimit'⟩
    refine (hr.insertEvents hall).bind fun m hm => ?_
    refine (write_frame hsize (hall _) hm.pool.sound r.2 payload).bind fun g hg => ?_
    have hpool : Pool (⟨g, m.bm⟩ : Media size π) (held r.1.own) :=
      hm.pool.of_flash hg.1 fun c hc => hg.2 c fun heq => hc (heq ▸ hmem)
    exact ⟨⟨hr.toHoused.of_media hpool, hr.bounded, hr.owner, hm.counts⟩, hlimit'⟩

theorem read_tenancy (hsize : 0 < size) (hall : ∀ e, ok e) (h : Tenancy cfg s)
    (hlength : s.logPages = [] ∨ s.logPages.length = cfg.logBlockLimit) :
    Yields ok (s.read cfg la) fun t =>
      Tenancy cfg t ∧ t.logPages.length = cfg.logBlockLimit := by
  rw [read]
  split_ifs
  · exact hall _
  · exact (initializeLogPages_tenancy hsize hall h hlength).mono fun t ht => ⟨ht.1, ht.2.2.2⟩

end Fast

end ZnsFlash
