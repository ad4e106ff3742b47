import ZnsFlash.Ssd.FastSlots

/-!
# The merges of the random-write log

* `Fast.DataMerged`, `mergeDataPages_spec`: the loop over the data block, after that over the log;
* `Fast.Rebuilt`, **`mergeVictim_rebuilt`**: a logical block gets a new data block, whatever the log has;
* `Fast.Copied`, `mergedSource_eq_some`: the version that the new block has;
* **`Fast.mergeVictim_spec`**, **`Fast.randomMerge_spec`**: after a merge of the oldest block of a log
  that has each page once, the data blocks have its pages, but for the first.
-/

namespace ZnsFlash

open Holdings

variable {size : ℕ} {π : Type} {ok : Halt → Prop}

namespace Fast

/-! ## The loop over the data block -/

section Data

variable {f₀ : Flash size π} {new a k : ℕ} {source : ℕ → Option ℕ} {m : MergeState size π}

/-- The sources of a new block after `k` rounds over the data block. -/
def dataSource (f₀ : Flash size π) (a : ℕ) (source : ℕ → Option ℕ) (k i : ℕ) : Option ℕ :=
  match source i with
  | some x => some x
  | none => if i < k ∧ f₀.stateAt (a + i) = .valid then some (a + i) else none

theorem dataSource_of_some {i x : ℕ} (h : source i = some x) : dataSource f₀ a source k i = some x := by
  rw [dataSource, h]

theorem dataSource_of_none {i : ℕ} (h : source i = none) : dataSource f₀ a source k i =
    if i < k ∧ f₀.stateAt (a + i) = .valid then some (a + i) else none := by
  rw [dataSource, h]

theorem dataSource_self (h : source k = none) : dataSource f₀ a source k k = none := by
  rw [dataSource_of_none h, if_neg fun hlt => Nat.lt_irrefl k hlt.1]

theorem dataSource_succ_of_ne {i : ℕ} (hi : i ≠ k) :
    dataSource f₀ a source (k + 1) i = dataSource f₀ a source k i := by
  have hlt : i < k + 1 ↔ i < k := by omega
  rw [dataSource, dataSource]
  simp only [hlt]

theorem dataSource_succ_of_skip (h : source k = none → f₀.stateAt (a + k) ≠ .valid) :
    dataSource f₀ a source (k + 1) = dataSource f₀ a source k := by
  funext i
  by_cases hi : i = k
  · subst hi
    cases hs : source i with
    | some x => rw [dataSource_of_some hs, dataSource_of_some hs]
    | none => rw [dataSource_of_none hs, if_neg fun hv => h hs hv.2, dataSource_self hs]
  · exact dataSource_succ_of_ne hi

theorem dataSource_succ_of_valid (hs : source k = none) (h : f₀.stateAt (a + k) = .valid) :
    dataSource f₀ a source (k + 1) =
      Function.update (dataSource f₀ a source k) k (some (a + k)) := by
  funext i
  by_cases hi : i = k
  · subst hi
    rw [Function.update_self, dataSource_of_none hs, if_pos ⟨Nat.lt_succ_self i, h⟩]
  · rw [Function.update_of_ne hi, dataSource_succ_of_ne hi]

/-- The new block after `k` rounds over the data block. -/
structure DataMerged (f₀ : Flash size π) (a new : ℕ) (source : ℕ → Option ℕ) (logs : List FastLog)
    (k : ℕ) (m : MergeState size π) : Prop where
  same : m.logs = logs
  image : Image f₀ new (dataSource f₀ a source k) m.flash
  pinned : ∀ o, m.pinned o = (dataSource f₀ a source k o).isSome

theorem mergeDataPage_spec (cfg : SsdConfig) (hsize : 0 < size) (haligned : new = new / size * size)
    {logs : List FastLog} (hk : k < size) (hapart : (a + k) / size ≠ new / size)
    (h : DataMerged f₀ a new source logs k m) :
    Yields ok (mergeDataPage cfg (some a) new m k) (DataMerged f₀ a new source logs (k + 1)) := by
  have hskip : (source k = none → f₀.stateAt (a + k) ≠ .valid) →
      DataMerged f₀ a new source logs (k + 1) m := by
    intro hno
    have hsame := dataSource_succ_of_skip hno
    exact ⟨h.same, hsame ▸ h.image, hsame ▸ h.pinned⟩
  rw [mergeDataPage]
  cases hs : source k with
  | some x =>
    have hvalid := h.image.valid k hk x (dataSource_of_some hs)
    rw [if_neg fun hempty => by rw [hvalid] at hempty; cases hempty.1]
    refine hskip fun hnone => ?_
    rw [hs] at hnone
    cases hnone
  | none =>
    have hself : dataSource f₀ a source k k = none := dataSource_self hs
    have hempty := h.image.empty k hk hself
    have hpinned := h.pinned k
    rw [hself] at hpinned
    have hreached : m.flash.stateAt (reachedPage cfg size (some a) k) = f₀.stateAt (a + k) :=
      h.image.stateAt hapart
    rw [if_pos ⟨hempty, hpinned⟩, hreached]
    by_cases hvalid : f₀.stateAt (a + k) = .valid
    · rw [if_pos hvalid]
      refine (h.image.copy hsize haligned hk hself hapart).bind fun f hf => ?_
      have hsource := dataSource_succ_of_valid hs hvalid
      refine ⟨h.same, hsource ▸ hf, fun o => ?_⟩
      rw [hsource]
      exact pinned_update h.pinned k (a + k) o
    · rw [if_neg hvalid]
      exact hskip fun _ => hvalid

/-- **The loop over the data block** copies the pages that the log did not have. -/
theorem mergeDataPages_spec (cfg : SsdConfig) (hsize : 0 < size) (haligned : new = new / size * size)
    (hapart : ∀ i < size, (a + i) / size ≠ new / size) (himage : Image f₀ new source m.flash)
    (hpinned : ∀ o, m.pinned o = (source o).isSome) :
    Yields ok ((List.range size).foldlM (mergeDataPage cfg (some a) new) m)
      (DataMerged f₀ a new source m.logs size) := by
  have hzero : dataSource f₀ a source 0 = source := by
    funext i
    cases hs : source i with
    | some x => exact dataSource_of_some hs
    | none => rw [dataSource_of_none hs, if_neg fun hlt => Nat.not_lt_zero i hlt.1]
  refine Yields.foldlM_range (DataMerged f₀ a new source m.logs) ?_ fun k m' hk h =>
    mergeDataPage_spec cfg hsize haligned hk (hapart k hk) h
  exact ⟨rfl, hzero.symm ▸ himage, hzero.symm ▸ hpinned⟩

end Data

/-! ## One logical block -/

section Rebuilt

variable {s t : Fast size π} {limit b a address x la : ℕ}

/-- **The version that a merge copies**: the newest one that is not in a slot 0, else the one in the data
block. -/
inductive Copied (s : Fast size π) (la : ℕ) : ℕ → Prop
  | log {k i : ℕ} {log : FastLog} :
    Latest s.logPages (· ≠ 0) k i log la → Copied s la (log.address + i)
  | data {a : ℕ} :
    (∀ k i log, Entry s.logPages k i log la → i = 0) →
    s.dataList (logicalBlock size la) = some a →
    s.media.flash.stateAt (a + la % size) = .valid →
    Copied s la (a + la % size)

/-- Where a merge finds the pages of a logical block: in the log, else in the data block. -/
def mergedSource (s : Fast size π) (limit b a : ℕ) : ℕ → Option ℕ :=
  dataSource s.media.flash a (slotSource size s.logPages b (visits limit s.logPages)) size

/-- A block is filled with the pages of the sources. -/
structure Filled (f g : Flash size π) (address : ℕ) (source : ℕ → Option ℕ) : Prop where
  empty : ∀ o < size, source o = none → g.stateAt (address + o) = .empty
  holds : ∀ o < size, ∀ x, source o = some x → g.Holds (address + o) (f.pageData x)

/-- The SW block and the number of pages in the log are left alone. -/
structure SameSequential (s t : Fast size π) : Prop where
  offset : t.sequentialOffset = s.sequentialOffset
  address : t.sequentialAddress = s.sequentialAddress
  owner : t.sequentialLogicalblockAddress = s.sequentialLogicalblockAddress
  next : t.logPageNext = s.logPageNext

/-- The pages of the data blocks and of the log are in the blocks that the maps name. -/
structure Located (s : Fast size π) : Prop where
  data : ∀ {b a i}, s.dataList b = some a → i < size → s.own (.data b) = some ((a + i) / size)
  log : ∀ {k i : ℕ} {log}, s.logPages[k]? = some log → i < log.numPages →
    s.own (.log k) = some ((log.address + i) / size)

/-- **A logical block gets a new data block** at `address`, from the one at `a` and the log. -/
structure Rebuilt (s t : Fast size π) (limit b a address : ℕ) : Prop where
  aligned : address = address / size * size
  fresh : address / size ∉ held s.own
  pool : Pool t.media (insert (address / size) (held s.own \ {c | s.own (.data b) = some c}))
  eq : t = { s with
    media := t.media
    dataList := Function.update s.dataList b (some address)
    logPages := t.logPages }
  thinned : Thinned size s.logPages t.logPages {b}
  unvisited : ∀ k i log log', (k, i) ∉ visits limit s.logPages → s.logPages[k]? = some log →
    t.logPages[k]? = some log' → log'.aPages i = log.aPages i
  block : ∀ c ∈ held s.own, t.media.flash.block c = s.media.flash.block c
  pageData : ∀ x, x / size ∈ held s.own → t.media.flash.pageData x = s.media.flash.pageData x
  filled : Filled s.media.flash t.media.flash address (mergedSource s limit b a)

theorem mergeVictim_rebuilt (hsize : 0 < size) (hworn : ok .worn) (hnone : ok .noFreeBlock)
    (hbad : ok .badAlloc) (cfg : FastConfig) (h : Located s) (hpool : Pool s.media (held s.own))
    (hlimit : s.logPages.length = cfg.logBlockLimit) (ha : s.dataList b = some a) :
    Yields ok (s.mergeVictim cfg b) fun t => ∃ address, Rebuilt s t cfg.logBlockLimit b a address := by
  refine (collect_spec hworn cfg hpool).bind fun m₁ hm₁ => ?_
  obtain ⟨hpool₁, hkeeps₁⟩ := hm₁
  refine (getFreeBlock_spec hsize hworn hnone hbad cfg.toSsdConfig .data hpool₁).bind fun r hr => ?_
  obtain ⟨address, m₂⟩ := r
  obtain ⟨haligned, hnew, herased, hpool₂, hkeeps₂⟩ := hr
  dsimp only at haligned hnew herased hpool₂ hkeeps₂
  have hkeeps : Keeps s.media m₂ (held s.own) := hkeeps₁.trans hkeeps₂
  have hapart : Apart s.logPages size address := fun k log hk i hi heq =>
    hnew (heq ▸ mem_held (h.log hk hi))
  -- the log first, from the newest slot on, then what is left from the data block
  refine (mergeSlots_taken hsize haligned hapart hlimit hpool₂.sound herased).bind fun m hm => ?_
  have hloop : Yields ok ((List.range size).foldlM (mergeDataPage cfg.toSsdConfig (some a) address) m)
      (DataMerged m₂.flash a address
        (slotSource size s.logPages b (visits cfg.logBlockLimit s.logPages)) m.logs size) :=
    mergeDataPages_spec cfg.toSsdConfig hsize haligned
      (fun i hi heq => hnew (heq ▸ mem_held (h.data ha hi))) hm.image hm.pinned
  rw [← ha] at hloop
  refine hloop.bind fun m' hdata => ?_
  rw [ha]
  have hother : ∀ c ∈ held s.own, c ≠ address / size := fun c hc heq => hnew (heq ▸ hc)
  have hpool₃ : Pool (⟨m'.flash, m₂.bm⟩ : Media size π) (insert (address / size) (held s.own)) :=
    hpool₂.of_flash hdata.image.sound fun c hc => hdata.image.other c fun heq => hc (Or.inl heq)
  obtain ⟨hpool₄, -⟩ := invalidateBlock_spec .data hpool₃ (Or.inr (mem_held (own_data ha)))
  rw [← holding_of_some (own_data ha), insert_diff_holding hnew] at hpool₄
  -- the merge starts from a flash that agrees with `s` on the blocks in use
  have hsource : ∀ o < size, mergedSource s cfg.logBlockLimit b a o = dataSource m₂.flash a
      (slotSource size s.logPages b (visits cfg.logBlockLimit s.logPages)) size o := by
    intro o ho
    have hstate : m₂.flash.stateAt (a + o) = s.media.flash.stateAt (a + o) :=
      Flash.stateAt_congr (hkeeps.block _ (mem_held (h.data ha ho)))
    rw [mergedSource, dataSource, dataSource, hstate]
  refine ⟨address, haligned, hnew, hpool₄, rfl, hdata.same ▸ hm.thinned, ?_, fun c hc => ?_,
    fun x hx => ?_, fun o ho hnone => ?_, fun o ho x hx => ⟨?_, ?_⟩⟩
  · rw [hdata.same]
    exact hm.ahead
  · exact (hdata.image.other c (hother c hc)).trans (hkeeps.block c hc)
  · exact (hdata.image.data x (hother _ hx)).trans (congrFun hkeeps.pageData x)
  · exact hdata.image.empty o ho ((hsource o ho).symm.trans hnone)
  · exact hdata.image.valid o ho x ((hsource o ho).symm.trans hx)
  · exact (hdata.image.copied o ho x ((hsource o ho).symm.trans hx)).trans (congrFun hkeeps.pageData x)

/-- **The source of a merge** is the version that is copied. -/
theorem mergedSource_eq_some (hsize : 0 < size) (hlimit : s.logPages.length = limit)
    (ha : s.dataList (logicalBlock size la) = some a) :
    mergedSource s limit (logicalBlock size la) a (la % size) = some x ↔ s.Copied la x := by
  have hlt := Nat.mod_lt la hsize
  rw [mergedSource]
  cases hfirst : firstSlot size s.logPages (logicalBlock size la) (visits limit s.logPages)
    (la % size) with
  | some slot =>
    obtain ⟨log, hlatest⟩ := (firstSlot_eq_some (k := slot.1) (i := slot.2) hsize hlimit).mp hfirst
    have hsource : slotSource size s.logPages (logicalBlock size la) (visits limit s.logPages)
        (la % size) = some (log.address + slot.2) := by
      rw [slotSource, hfirst, Option.map_some, ← Prod.mk.eta (p := slot), slotAddress_eq hlatest.block]
    rw [dataSource_of_some hsource, Option.some.injEq]
    refine ⟨fun hx => hx ▸ .log hlatest, fun hcopied => ?_⟩
    cases hcopied with
    | log hlatest' =>
      have hfirst' := (firstSlot_eq_some hsize hlimit).mpr ⟨_, hlatest'⟩
      obtain rfl := Option.some.inj (hfirst.symm.trans hfirst')
      rw [Option.some.inj (hlatest.block.symm.trans hlatest'.block)]
    | data hzero _ _ => exact absurd (hzero _ _ log hlatest.toEntry) hlatest.slot
  | none =>
    have hsource : slotSource size s.logPages (logicalBlock size la) (visits limit s.logPages)
        (la % size) = none := by
      rw [slotSource, hfirst]
      rfl
    have hzero := (firstSlot_eq_none hsize hlimit).mp hfirst
    rw [dataSource_of_none hsource]
    constructor
    · intro hx
      split_ifs at hx with hvalid
      obtain rfl := Option.some.inj hx
      exact .data hzero ha hvalid.2
    · intro hcopied
      cases hcopied with
      | log hlatest => exact absurd (hzero _ _ _ hlatest.toEntry) hlatest.slot
      | data _ ha' hvalid =>
        obtain rfl := Option.some.inj (ha.symm.trans ha')
        rw [if_pos ⟨hlt, hvalid⟩]

/-- **The new data block has the version that is copied.** -/
theorem Filled.copied (hsize : 0 < size) (hlimit : s.logPages.length = limit)
    (ha : s.dataList (logicalBlock size la) = some a) {g : Flash size π}
    (h : Filled s.media.flash g address (mergedSource s limit (logicalBlock size la) a))
    (hcopied : s.Copied la x) : g.Holds (address + la % size) (s.media.flash.pageData x) :=
  h.holds _ (Nat.mod_lt la hsize) x ((mergedSource_eq_some hsize hlimit ha).mpr hcopied)

theorem Filled.clean {f g : Flash size π} {source : ℕ → Option ℕ} (h : Filled f g address source)
    (haligned : address = address / size * size) : Clean g address := by
  refine ⟨haligned, fun i hi => ?_⟩
  cases hsource : source i with
  | none =>
    rw [h.empty i hi hsource]
    decide
  | some x =>
    rw [(h.holds i hi x hsource).valid]
    decide

end Rebuilt

/-! ## A log that has each page once -/

section Victim

variable {s t : Fast size π} {latest : ℕ → Option π} {limit b a address la : ℕ}

theorem Core.located (h : Core s latest) : Located s := by
  refine ⟨fun {b a i} ha hi => ?_, fun {k i log} hk hi => ?_⟩
  · rw [Flash.page_div (h.data b a ha).aligned hi]
    exact own_data ha
  · have happ := h.log k log hk
    rw [Flash.page_div happ.aligned (hi.trans_le happ.full)]
    exact own_log hk

theorem Core.exists_copied (h : Core s latest) (hla : s.Placed la) : ∃ x, s.Copied la x := by
  by_cases hlog : ∃ k i log, Entry s.logPages k i log la ∧ i ≠ 0
  · obtain ⟨k, i, log, he, hi⟩ := hlog
    exact ⟨_, .log (he.latest h.unique hi)⟩
  · obtain ⟨a, ha, hvalid⟩ := hla
    refine ⟨_, .data (fun k i log he => ?_) ha hvalid⟩
    by_contra hi
    exact hlog ⟨k, i, log, he, hi⟩

/-- The data block of a logical block has what the log has, but for the pages in slots 0. -/
def Settled (s : Fast size π) (latest : ℕ → Option π) (b : ℕ) : Prop :=
  ∀ k i log la p a, i ≠ 0 → Entry s.logPages k i log la → logicalBlock size la = b →
    latest la = some p → s.dataList b = some a → s.media.flash.pageData (a + la % size) = p

theorem Rebuilt.eq_of_core (hr : Rebuilt s t limit b a address) (h : Core s latest) : t = { s with
    media := t.media
    dataList := Function.update s.dataList b (some address) } := by
  have hlogs := hr.thinned.eq_of_unique h.unique hr.unvisited
  have heq := hr.eq
  rw [hlogs] at heq
  exact heq

theorem Rebuilt.core (hsize : 0 < size) (hlimit : s.logPages.length = limit)
    (ha : s.dataList b = some a) (hr : Rebuilt s t limit b a address) (h : Core s latest) :
    Core t latest := by
  rw [hr.eq_of_core h]
  refine (h.of_flash hsize hr.block hr.pageData).setData (fun _ _ hp => hp) (fun _ _ => rfl)
    (hr.filled.clean hr.aligned) ?_ (fun la p hla hp => ?_) fun la p hla hp hlogged hout => ?_
  · exact fun hmem => hr.fresh (held_release h.exclusive _ ▸ hmem).1
  · subst hla
    obtain ⟨x, hx⟩ := h.exists_copied (h.placed la p hp)
    exact (hr.filled.copied hsize hlimit ha hx).valid
  · subst hla
    obtain ⟨a', ha', hvalid⟩ := h.placed la p hp
    have hcopied : s.Copied la (a' + la % size) :=
      .data (fun k i log he => absurd (logged_iff.mpr ⟨k, i, log, he⟩) hlogged) ha' hvalid
    exact (hr.filled.copied hsize hlimit ha hcopied).data.trans (h.stored la p a' hp hlogged hout ha')

/-- **A round of `random_merge`** moves a logical block to a new data block. -/
theorem mergeVictim_spec (hsize : 0 < size) (hworn : ok .worn) (hnone : ok .noFreeBlock)
    (hbad : ok .badAlloc) (cfg : FastConfig) (h : Core s latest) (hpool : Pool s.media (held s.own))
    (hlimit : s.logPages.length = cfg.logBlockLimit) (ha : s.dataList b = some a) :
    Yields ok (s.mergeVictim cfg b) fun t =>
      Core t latest ∧ Pool t.media (held t.own) ∧ Merged s t ∧ Settled t latest b ∧
        ∀ b' ≠ b, Settled s latest b' → Settled t latest b' := by
  refine (mergeVictim_rebuilt hsize hworn hnone hbad cfg h.located hpool hlimit ha).mono ?_
  rintro t ⟨address, hr⟩
  have hcore := hr.core hsize hlimit ha h
  have heq := hr.eq_of_core h
  have hdata : t.dataList = Function.update s.dataList b (some address) := by rw [heq]
  have hlogs : t.logPages = s.logPages := by rw [heq]
  refine ⟨hcore, ?_, ⟨?_, ?_, ?_, hlogs, ?_, fun la hla => ?_⟩, fun k i log la p a' hi he hla hp ha' => ?_,
    fun b' hb' hold k i log la p a' hi he hla hp ha' => ?_⟩
  · have hown : t.own = Function.update s.own (.data b) (some (address / size)) := by
      rw [heq]
      exact own_setData s b address
    rw [hown, held_exchange h.exclusive]
    exact hr.pool
  · rw [heq]
  · rw [heq]
  · rw [heq]
  · rw [heq]
  · refine h.placed_setData hsize hdata (fun la' hla' hp => ?_)
      (fun b' a' _ ha' => hr.block _ (mem_held (own_data ha'))) hla
    subst hla'
    obtain ⟨x, hx⟩ := h.exists_copied hp
    exact (hr.filled.copied hsize hlimit ha hx).valid
  · subst hla
    rw [hlogs] at he
    rw [hdata, Function.update_self] at ha'
    obtain rfl := Option.some.inj ha'
    obtain ⟨-, q, hq, hholds⟩ := h.entry he
    obtain rfl := Option.some.inj (hp.symm.trans hq)
    have hcopied : s.Copied la (log.address + i) := .log (he.latest h.unique hi)
    exact (hr.filled.copied hsize hlimit ha hcopied).data.trans hholds.data
  · rw [hlogs] at he
    rw [hdata, Function.update_of_ne hb'] at ha'
    rw [← hold k i log la p a' hi he hla hp ha']
    exact hr.pageData _ (mem_held (h.located.data ha' (Nat.mod_lt la hsize)))

theorem mem_mergeBlocks {log : FastLog} : b ∈ mergeBlocks size log ↔
    ∃ i < log.numPages, ∃ la, log.aPages i = some la ∧ logicalBlock size la = b := by
  rw [mergeBlocks, List.mem_insertionSort, List.mem_dedup, List.mem_filterMap]
  constructor
  · rintro ⟨i, hi, hb⟩
    obtain ⟨la, hla, rfl⟩ := Option.map_eq_some_iff.mp hb
    exact ⟨i, List.mem_range.mp hi, la, hla, rfl⟩
  · rintro ⟨i, hi, la, hla, rfl⟩
    refine ⟨i, List.mem_range.mpr hi, ?_⟩
    rw [hla, Option.map_some]

/-- **`random_merge`** brings the pages of the oldest block to the data blocks, but for the first. -/
theorem randomMerge_spec (hsize : 0 < size) (hworn : ok .worn) (hnone : ok .noFreeBlock)
    (hbad : ok .badAlloc) (cfg : FastConfig) (h : Core s latest) (hpool : Pool s.media (held s.own))
    (hlimit : s.logPages.length = cfg.logBlockLimit) {victim : FastLog}
    (hvictim : s.logPages[0]? = some victim) :
    Yields ok (s.randomMerge cfg victim) fun t =>
      Core t latest ∧ Pool t.media (held t.own) ∧ Merged s t ∧
        ∀ b ∈ mergeBlocks size victim, Settled t latest b := by
  refine Yields.foldlM_list (fun pre t => Core t latest ∧ Pool t.media (held t.own) ∧ Merged s t ∧
    ∀ b ∈ pre, Settled t latest b) ⟨h, hpool, .refl s, nofun⟩ ?_
  rintro pre b post t hsplit ⟨hcore, hpool', hmerged, hsettled⟩
  have hb : b ∈ mergeBlocks size victim := by
    rw [hsplit]
    exact List.mem_append_right _ List.mem_cons_self
  obtain ⟨i, hi, la, hpage, rfl⟩ := mem_mergeBlocks.mp hb
  have he : Entry t.logPages 0 i victim la := by
    rw [hmerged.logPages]
    exact ⟨hvictim, hi, hpage⟩
  obtain ⟨-, p, hp, -⟩ := hcore.entry he
  obtain ⟨a, ha, -⟩ := hcore.placed la p hp
  have hlimit' : t.logPages.length = cfg.logBlockLimit := by
    rw [hmerged.logPages]
    exact hlimit
  refine (mergeVictim_spec hsize hworn hnone hbad cfg hcore hpool' hlimit' ha).mono ?_
  rintro u ⟨hcore', hpool'', hmerged', hself, hothers⟩
  refine ⟨hcore', hpool'', hmerged.trans hmerged', fun b' hb' => ?_⟩
  rcases List.mem_append.mp hb' with hb' | hb'
  · by_cases heq : b' = logicalBlock size la
    · rw [heq]
      exact hself
    · exact hothers b' heq (hsettled b' hb')
  · rw [List.mem_singleton.mp hb']
    exact hself

end Victim

end Fast

end ZnsFlash
