import ZnsFlash.Ssd.FastTenancy

/-!
# When trims of FAST are isolated

* `Fast.EmptiesBlock`: the trim of a page leaves its block without valid pages, and erases it;
* `trimPage_kept`, `trimPage_emptied`: the two cases;
* `Fast.Isolated`, **`fast_trim_isolated_iff`**: a trim is isolated exactly when it empties no block;
* `trim_unmaps_other_page`: a trim that loses another page.
-/

namespace ZnsFlash

open Holdings

variable {size : ℕ} {π : Type} {ok : Halt → Prop}

namespace Fast

variable {s t : Fast size π} {cfg : FastConfig} {la a block : ℕ} {logs : List FastLog}

/-- The trim of a page leaves its block inactive: `invalidate_page` finds no other page in it that is
not invalid. -/
def EmptiesBlock (s : Fast size π) (la : ℕ) : Prop :=
  ∃ a, s.lookup la = some a ∧
    ((s.media.flash.invalidate a).block (a / size)).state = .inactive

instance (s : Fast size π) (la : ℕ) : Decidable (s.EmptiesBlock la) :=
  match h : s.lookup la with
  | none => isFalse fun ⟨a, ha, _⟩ => by
    rw [h] at ha
    cases ha
  | some a =>
    decidable_of_iff (((s.media.flash.invalidate a).block (a / size)).state = .inactive)
      ⟨fun hstate => ⟨a, h, hstate⟩, fun ⟨a', ha', hstate⟩ => by
        rw [h] at ha'
        exact Option.some.inj ha' ▸ hstate⟩

theorem lookup_congr (h : findPage la t.logPages = findPage la s.logPages)
    (hdata : t.dataList = s.dataList) (hoffset : t.sequentialOffset = s.sequentialOffset)
    (haddress : t.sequentialAddress = s.sequentialAddress)
    (howner : t.sequentialLogicalblockAddress = s.sequentialLogicalblockAddress) :
    t.lookup la = s.lookup la := by
  rw [lookup, lookup, h, hdata, hoffset, haddress, howner]

theorem lookup_eq_none (h : Housed s) (hdata : ∀ b, s.dataList b = none)
    (howner : s.sequentialLogicalblockAddress = none) (la : ℕ) : s.lookup la = none := by
  have hfind : findPage la s.logPages = none := by
    cases hfind : findPage la s.logPages with
    | none => rfl
    | some a =>
      obtain ⟨k, i, log, he, -⟩ := exists_of_findPage hfind
      obtain ⟨d, hd⟩ := h.placed log (List.mem_of_getElem? he.block) i la he.page
      rw [hdata] at hd
      cases hd
  rw [lookup, hfind, howner, hdata]
  refine if_neg ?_
  rintro ⟨heq, -⟩
  cases heq

/-! ## What a trim finds -/

theorem Dropped.addresses (h : Dropped la s.logPages logs block a) :
    logs.map FastLog.address = s.logPages.map FastLog.address := by
  obtain ⟨-, pre, log, post, i, hlogs, rfl, -⟩ := h
  rw [hlogs, List.map_append, List.map_append, List.map_cons, List.map_cons]
  rfl

theorem Dropped.mem (h : Dropped la s.logPages logs block a) :
    ∀ log' ∈ logs, ∃ log ∈ s.logPages, log'.address = log.address ∧ log'.numPages = log.numPages ∧
      ∀ i, log'.aPages i = log.aPages i ∨ log'.aPages i = none := by
  obtain ⟨-, pre, log, post, i, hlogs, rfl, -⟩ := h
  rw [hlogs]
  intro log' hlog'
  rcases List.mem_append.mp hlog' with hpre | hpost
  · exact ⟨log', List.mem_append_left _ hpre, rfl, rfl, fun _ => Or.inl rfl⟩
  · rcases List.mem_cons.mp hpost with rfl | hpost
    · refine ⟨log, List.mem_append_right _ List.mem_cons_self, rfl, rfl, fun j => ?_⟩
      by_cases hj : j = i
      · rw [hj]
        exact Or.inr (Function.update_self _ _ _)
      · exact Or.inl (Function.update_of_ne hj _ _)
    · exact ⟨log', List.mem_append_right _ (List.mem_cons_of_mem _ hpost), rfl, rfl,
        fun _ => Or.inl rfl⟩

/-- The maps of `t` are those of `s`, but for the page that is trimmed, which is at `a`. -/
structure Target (s t : Fast size π) (la a : ℕ) : Prop where
  media : t.media = s.media
  length : t.logPages.length = s.logPages.length
  mem : a / size ∈ held t.own
  lookup : ∀ q ≠ la, t.lookup q = s.lookup q

/-- **The page that a trim invalidates** is the one that a read finds. -/
theorem trimPage_eq (hsize : 0 < size) (h : Tenancy cfg s) (ha : s.lookup la = some a) :
    ∃ t block forget, Tenancy cfg t ∧ Target s t la a ∧
      (∀ u : Fast size π, (forget u).media = u.media ∧ (forget u).logPages = u.logPages) ∧
        s.trimPage la = t.invalidatePage block a forget := by
  let unmap : Fast size π → Fast size π := fun u =>
    { u with dataList := Function.update u.dataList (logicalBlock size la) none }
  rw [trimPage]
  -- in the order of the source: the RW log, the SW block, the data block
  cases hdrop : dropEntry la s.logPages with
  | some r =>
    obtain ⟨logs, block, address⟩ := r
    have hd := dropEntry_eq_some hdrop
    rw [lookup, hd.found] at ha
    obtain rfl := Option.some.inj ha
    have hown : ({ s with logPages := logs } : Fast size π).own = s.own :=
      own_congr rfl rfl rfl hd.addresses
    have hlength : logs.length = s.logPages.length := by
      have hcount := congrArg List.length hd.addresses
      rwa [List.length_map, List.length_map] at hcount
    obtain ⟨-, pre, log, post, i, hlogs, -, hi, -, -, haddress⟩ := hd
    have hlog : log ∈ s.logPages := by
      rw [hlogs]
      exact List.mem_append_right _ List.mem_cons_self
    have hd := dropEntry_eq_some hdrop
    refine ⟨{ s with logPages := logs }, block, unmap, ?_, ⟨rfl, hlength, ?_, fun q hq => ?_⟩,
      fun _ => ⟨rfl, rfl⟩, rfl⟩
    · exact ⟨h.toHoused.setLogs hd.addresses hd.mem, h.bounded, h.owner, hlength.symm ▸ h.counts⟩
    · obtain ⟨k, hk⟩ := List.getElem?_of_mem hlog
      rw [hown, haddress]
      exact mem_held (h.toHoused.located.log hk hi)
    · exact lookup_congr (hd.findPage_eq hq) rfl rfl rfl rfl
  | none =>
    rw [lookup, dropEntry_eq_none hdrop] at ha
    dsimp only at ha ⊢
    have hlt := Nat.mod_lt la hsize
    split_ifs at ha ⊢ with hin
    · obtain rfl := Option.some.inj ha
      refine ⟨s, _, fun u => { u with sequentialLogicalblockAddress := none }, h,
        ⟨rfl, rfl, ?_, fun _ _ => rfl⟩, fun _ => ⟨rfl, rfl⟩, rfl⟩
      rw [Flash.page_div (h.sequential _ hin.1) hlt]
      exact mem_held (own_sequential hin.1)
    · obtain ⟨d, hd, rfl⟩ := Option.map_eq_some_iff.mp ha
      rw [hd]
      exact ⟨s, _, unmap, h, ⟨rfl, rfl, mem_held (h.toHoused.located.data hd hlt), fun _ _ => rfl⟩,
        fun _ => ⟨rfl, rfl⟩, rfl⟩

theorem trimPage_of_none (h : s.lookup la = none) : s.trimPage la = .ok s := by
  rw [trimPage]
  cases hdrop : dropEntry la s.logPages with
  | some r =>
    obtain ⟨logs, block, address⟩ := r
    rw [lookup, (dropEntry_eq_some hdrop).found] at h
    cases h
  | none =>
    rw [lookup, dropEntry_eq_none hdrop] at h
    dsimp only at h ⊢
    split_ifs at h ⊢ with hin
    rw [Option.map_eq_none_iff.mp h]

/-- **A trim that keeps the block** changes the page alone. -/
theorem trimPage_kept (hsize : 0 < size) (h : Tenancy cfg s) (hkeeps : ¬ s.EmptiesBlock la) :
    Yields ok (s.trimPage la) fun t =>
      Tenancy cfg t ∧ t.logPages.length = s.logPages.length ∧ ∀ q ≠ la, t.lookup q = s.lookup q := by
  cases ha : s.lookup la with
  | none =>
    rw [trimPage_of_none ha]
    exact ⟨h, rfl, fun _ _ => rfl⟩
  | some a =>
    obtain ⟨t, block, forget, ht, htarget, -, heq⟩ := trimPage_eq hsize h ha
    have hactive : ¬ ((t.media.flash.invalidate a).block (a / size)).state = .inactive := by
      rw [htarget.media]
      exact fun hstate => hkeeps ⟨a, ha, hstate⟩
    rw [heq, invalidatePage]
    dsimp only
    rw [if_neg hactive]
    obtain ⟨hsound, -, -, -, hother⟩ := Flash.invalidate_spec hsize ht.pool.sound a
    have hpool : Pool (⟨t.media.flash.invalidate a, t.media.bm⟩ : Media size π) (held t.own) :=
      ht.pool.of_flash hsound fun c hc => hother c fun heq => hc (heq ▸ htarget.mem)
    refine ⟨⟨ht.toHoused.of_media hpool, ht.bounded, ht.owner, ht.counts⟩, htarget.length,
      fun q hq => ?_⟩
    exact (lookup_congr rfl rfl rfl rfl rfl).trans (htarget.lookup q hq)

/-- **A trim that erases the block** counts one log block less than the RW log has. -/
theorem trimPage_emptied (hsize : 0 < size) (hworn : ok .worn) (h : Tenancy cfg s)
    (hempties : s.EmptiesBlock la) {l : ℕ} (hl : s.logPages.length = l + 1) :
    Yields ok (s.trimPage la) fun t =>
      Counts t.media.bm (s.dataBlocks cfg.addressableBlocks) l ∧ t.logPages.length = l + 1 := by
  obtain ⟨a, ha, hstate⟩ := hempties
  obtain ⟨t, block, forget, ht, htarget, hforget, heq⟩ := trimPage_eq hsize h ha
  have hcounts := h.counts
  rw [← htarget.media, hl] at hcounts
  rw [heq, invalidatePage]
  dsimp only
  rw [htarget.media, if_pos hstate]
  have hflash : Counts (⟨s.media.flash.invalidate a, t.media.bm⟩ : Media size π).bm
      (s.dataBlocks cfg.addressableBlocks) (l + 1) := ⟨hcounts.data, hcounts.log⟩
  rw [htarget.media] at hflash
  refine (eraseAndInvalidate_log_counts hworn block hflash).bind fun m hm => ?_
  obtain ⟨hmedia, hlogs⟩ := hforget { t with media := m }
  refine ⟨?_, ?_⟩
  · rw [hmedia]
    exact hm
  · rw [hlogs]
    exact htarget.length.trans hl

/-! ## Requests -/

/-- No request yet. -/
structure Blank (s : Fast size π) : Prop where
  dataList : ∀ b, s.dataList b = none
  owner : s.sequentialLogicalblockAddress = none
  logs : s.logPages = []

/-- **What holds between requests** when no trim has emptied a block. -/
structure Steady (cfg : FastConfig) (s : Fast size π) : Prop where
  tenancy : Tenancy cfg s
  started : s.Blank ∨ s.logPages.length = cfg.logBlockLimit

theorem Steady.length (h : Steady cfg s) :
    s.logPages = [] ∨ s.logPages.length = cfg.logBlockLimit := h.started.imp_left Blank.logs

theorem Steady.initializeLogs (hsize : 0 < size) (hall : ∀ e, ok e) (h : Steady cfg s) :
    Yields ok (s.initializeLogPages cfg) fun t => Tenancy cfg t ∧
      t.logPages.length = cfg.logBlockLimit ∧ (∀ q, t.lookup q = s.lookup q) ∧
        ∀ la, t.EmptiesBlock la ↔ s.EmptiesBlock la := by
  rcases h.started with hblank | hlimit
  · refine (initializeLogPages_tenancy hsize hall h.tenancy h.length).mono ?_
    rintro t ⟨ht, hlist, howner, hlength⟩
    have hs : ∀ q, s.lookup q = none :=
      lookup_eq_none h.tenancy.toHoused hblank.dataList hblank.owner
    have ht' : ∀ q, t.lookup q = none := lookup_eq_none ht.toHoused
      (fun b => (congrFun hlist b).trans (hblank.dataList b)) (howner.trans hblank.owner)
    refine ⟨ht, hlength, fun q => (ht' q).trans (hs q).symm, fun la => iff_of_false ?_ ?_⟩
    · rintro ⟨a, ha, -⟩
      rw [ht' la] at ha
      cases ha
    · rintro ⟨a, ha, -⟩
      rw [hs la] at ha
      cases ha
  · have hne : s.logPages ≠ [] := by
      intro hnil
      have hpos := cfg.logBlockLimit_pos
      rw [← hlimit, hnil] at hpos
      exact Nat.lt_irrefl 0 hpos
    rw [initializeLogPages, if_neg hne]
    exact ⟨h.tenancy, hlimit, fun _ => rfl, fun _ => Iff.rfl⟩

theorem trim_kept (hsize : 0 < size) (hall : ∀ e, ok e) (h : Steady cfg s)
    (hkeeps : ¬ s.EmptiesBlock la) :
    Yields ok (s.trim cfg la) fun t => Tenancy cfg t ∧ t.logPages.length = cfg.logBlockLimit ∧
      ∀ q ≠ la, t.lookup q = s.lookup q := by
  rw [trim]
  split_ifs
  · exact hall _
  · refine (h.initializeLogs hsize hall).bind ?_
    rintro t ⟨ht, hlength, hlookup, hempties⟩
    refine (trimPage_kept hsize ht ((hempties la).not.mpr hkeeps)).bind ?_
    rintro u ⟨hu, hlength', hlookup'⟩
    refine (hu.insertEvents hall).bind fun m hm => ⟨hm, hlength'.trans hlength, fun q hq => ?_⟩
    exact (lookup_congr rfl rfl rfl rfl rfl).trans ((hlookup' q hq).trans (hlookup q))

theorem trim_emptied (hsize : 0 < size) (hall : ∀ e, ok e) (h : Steady cfg s)
    (hempties : s.EmptiesBlock la) :
    Yields ok (s.trim cfg la) fun t => ∃ d l, Counts t.media.bm d l ∧ t.logPages.length = l + 1 ∧
      l < cfg.logBlockLimit := by
  rw [trim]
  split_ifs
  · exact hall _
  · refine (h.initializeLogs hsize hall).bind ?_
    rintro t ⟨ht, hlength, -, hiff⟩
    obtain ⟨l, hl⟩ : ∃ l, cfg.logBlockLimit = l + 1 :=
      ⟨_, (Nat.succ_pred_eq_of_pos cfg.logBlockLimit_pos).symm⟩
    refine (trimPage_emptied hsize (hall _) ht ((hiff la).mpr hempties) (hlength.trans hl)).bind ?_
    rintro u ⟨hcounts, hlength'⟩
    refine (insertEvents_counts (hall _) cfg.toSsdConfig hcounts).bind fun m hm => ?_
    exact ⟨_, l, hm, hlength', hl ▸ Nat.lt_succ_self l⟩

/-- The request is not a trim that empties a block. -/
def KeepsBlocks (s : Fast size π) : FastRequest π → Prop
  | .trim la => ¬ s.EmptiesBlock la
  | _ => True

instance (s : Fast size π) : DecidablePred s.KeepsBlocks
  | .read _ => isTrue trivial
  | .write _ _ => isTrue trivial
  | .trim la => inferInstanceAs (Decidable (¬ s.EmptiesBlock la))

theorem steady_new (hsize : 0 < size) (cfg : FastConfig) (erases : ℕ) (junk : ℕ → π) :
    Steady cfg (new erases junk : Fast size π) := by
  have hinv := inv_new hsize cfg erases junk
  refine ⟨⟨⟨hinv.exclusive, hinv.pool, nofun, nofun, nofun, nofun⟩, nofun, nofun, ?_⟩,
    Or.inl ⟨fun _ => rfl, rfl, rfl⟩⟩
  have hzero : (new erases junk : Fast size π).dataBlocks cfg.addressableBlocks = 0 := by
    simp [dataBlocks, entries, new]
  rw [hzero]
  exact ⟨rfl, rfl⟩

theorem serve_steady (hsize : 0 < size) (hall : ∀ e, ok e) (h : Steady cfg s) {r : FastRequest π}
    (hr : s.KeepsBlocks r) : Yields ok (s.serve cfg r) (Steady cfg) := by
  cases r with
  | read la =>
    exact (read_tenancy hsize hall h.tenancy h.length).mono fun t ht => ⟨ht.1, Or.inr ht.2⟩
  | write la payload =>
    exact (write_tenancy hsize hall h.tenancy h.length payload).mono fun t ht => ⟨ht.1, Or.inr ht.2⟩
  | trim la => exact (trim_kept hsize hall h hr).mono fun t ht => ⟨ht.1, Or.inr ht.2.1⟩

/-- **The trim of a page is isolated**: other pages are found, and read, where they were, no block that it
frees is in use, and the counters are the numbers of blocks. -/
structure Isolated (cfg : FastConfig) (s t : Fast size π) (la : ℕ) : Prop where
  lookup : ∀ q ≠ la, t.lookup q = s.lookup q
  readAddress : ∀ q ≠ la, t.readAddress q = s.readAddress q
  freed : ∀ c ∈ t.media.bm.freeList, c ∉ s.media.bm.freeList → c ∉ held t.own
  dataActive : t.media.bm.dataActive.toNat = t.dataBlocks cfg.addressableBlocks
  logActive : t.media.bm.logActive.toNat = t.logPages.length

end Fast

/-- **Trims of FAST.** In every state that is reached without emptying a block, a trim is isolated
exactly when it does not empty the block of its page. -/
theorem fast_trim_isolated_iff {π : Type} (cfg : FastConfig) (hblocks : cfg.addressableBlocks < 2 ^ 32)
    (hlimit : cfg.logBlockLimit < 2 ^ 32) (erases : ℕ) (junk : ℕ → π) (rs : List (FastRequest π))
    (hkeeps : Yields.Along (Fast.serve cfg) Fast.KeepsBlocks
      (Fast.new erases junk : Fast cfg.blockSize π) rs) (s t : Fast cfg.blockSize π) (la : ℕ)
    (hs : Fast.serveAll cfg (Fast.new erases junk) rs = .ok s) (ht : s.trim cfg la = .ok t) :
    Fast.Isolated cfg s t la ↔ ¬ s.EmptiesBlock la := by
  have hsize := cfg.blockSize_pos
  have hrun : Yields (fun _ => True) (Fast.serveAll cfg (Fast.new erases junk) rs)
      (Fast.Steady cfg : Fast cfg.blockSize π → Prop) :=
    Yields.foldlM_along _ (fun u r hu hr => Fast.serve_steady hsize (fun _ => trivial) hu hr)
      (Fast.steady_new hsize cfg erases junk) hkeeps
  have hsteady := hrun.of_ok hs
  refine ⟨fun hisolated hempties => ?_, fun hkept => ?_⟩
  · have hemptied : Yields (fun _ => True) (s.trim cfg la) fun t => ∃ d l,
        Counts t.media.bm d l ∧ t.logPages.length = l + 1 ∧ l < cfg.logBlockLimit :=
      Fast.trim_emptied hsize (fun _ => trivial) hsteady hempties
    obtain ⟨d, l, hcounts, hlength, hl⟩ := hemptied.of_ok ht
    have hactive := hisolated.logActive
    rw [hcounts.log, BitVec.toNat_ofNat, Nat.mod_eq_of_lt (by omega), hlength] at hactive
    omega
  · have htrimmed : Yields (fun _ => True) (s.trim cfg la) fun t => t.Tenancy cfg ∧
        t.logPages.length = cfg.logBlockLimit ∧ ∀ q ≠ la, t.lookup q = s.lookup q :=
      Fast.trim_kept hsize (fun _ => trivial) hsteady hkept
    obtain ⟨htenancy, hlength, hlookup⟩ := htrimmed.of_ok ht
    have hle := Fast.dataBlocks_le cfg.addressableBlocks t
    obtain ⟨hdata, hlog⟩ := htenancy.counts.toNat (by omega) (by omega)
    have hread : ∀ q ≠ la, t.readAddress q = s.readAddress q := fun q hq => by
      rw [Fast.readAddress_eq, Fast.readAddress_eq, hlookup q hq]
    refine ⟨hlookup, hread, fun c hc _ hheld => ?_, hdata, hlog⟩
    exact htenancy.pool.apart c hheld (List.mem_append_left _ hc)

/-- Two pages of one logical block, and two newer versions of the second one in the RW log. -/
def trimmedRequests : List (FastRequest ℕ) := [.write 0 10, .write 1 11, .write 1 12, .write 1 13]

theorem fast_trim_isolated_iff_trimmedRequests :
    ∃ s t, Fast.serveAll smallFast (Fast.new 9 id : Fast 2 ℕ) trimmedRequests = .ok s ∧
      s.trim smallFast 1 = .ok t ∧ Fast.Isolated smallFast s t 1 := by
  have hrun : ∃ s t, Fast.serveAll smallFast (Fast.new 9 id : Fast 2 ℕ) trimmedRequests = .ok s ∧
      s.trim smallFast 1 = .ok t ∧ ¬ s.EmptiesBlock 1 := ⟨_, _, rfl, rfl, by decide⟩
  obtain ⟨s, t, hs, ht, hkept⟩ := hrun
  exact ⟨s, t, hs, ht, (fast_trim_isolated_iff smallFast (by decide) (by decide) 9 id trimmedRequests
    (by decide) s t 1 hs ht).mpr hkept⟩

/-- **Another page is lost**: the second trim empties a log block, and unmaps the data block of the
logical block. -/
theorem trim_unmaps_other_page :
    ∃ s t, Fast.serveAll smallFast (Fast.new 9 id : Fast 2 ℕ) (trimmedRequests ++ [.trim 1]) = .ok s ∧
      s.trim smallFast 1 = .ok t ∧ s.lookup 0 = some 4 ∧ s.media.flash.Holds 4 10 ∧
        t.lookup 0 = none :=
  ⟨_, _, rfl, rfl, rfl, ⟨rfl, rfl⟩, rfl⟩

end ZnsFlash
