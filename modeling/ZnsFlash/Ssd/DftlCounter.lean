import ZnsFlash.Ssd.DftlCache

/-!
# The cache counter of DFTL

* `DftlParent.Counted`: each entry is at its own number, and `cmt` is the number of cached entries;
* `evictPageFromCache_spec`, `resolveMapping_spec`: what the cache keeps of it;
* `cleanupBlocks_spec`: pages that are moved are cached;
* `trim_stale`: the stale copy of a trim;
* `DftlParent.Exact`, `DftlParent.KeepsCount`, **`dftl_counter_exact_iff`**: the requests that keep the
  counter exact;
* `trimmed_entry_stays_cached`: a trim that does not.
-/

namespace ZnsFlash

variable {n : ℕ} {τ : Type} [Clock τ] [TransMap n τ] {ok : Halt → Prop}

namespace DftlParent

variable {s t : DftlParent n τ} {cfg : DftlConfig} {mpage : MPage τ} {i dlpn : ℕ}

/-- **The counter is exact**, and the entries are at their numbers. -/
structure Counted (s : DftlParent n τ) : Prop where
  numbered : Numbered s
  count : s.cmt = s.cachedEntries.card

theorem Replaced.counted (h : Replaced s i mpage t) (hs : Counted s) {j : Fin n} (hj : (j : ℕ) = i)
    (hvpn : mpage.vpn = i) (hcached : mpage.cached = (s.transMap.get j).cached) : Counted t := by
  refine ⟨h.numbered hs.numbered hvpn, ?_⟩
  rw [h.cmt, h.entries_eq hj hcached]
  exact hs.count

theorem Evicted.counted {j : Fin n} (h : Evicted s j t) (hs : Counted s) : Counted t := by
  refine ⟨h.same.numbered hs.numbered, ?_⟩
  have hcard := Finset.card_erase_add_one h.cached
  have hcount := hs.count
  have hcmt := h.cmt
  rw [h.entries]
  omega

/-! ## The cache -/

/-- **Room in the cache**: entries are evicted until there is. -/
structure Roomy (cfg : DftlConfig) (s t : DftlParent n τ) : Prop where
  counted : Counted t
  subset : t.cachedEntries ⊆ s.cachedEntries
  lt : t.cmt < cfg.totalCMTentries

/-- **`evict_page_from_cache`** picks cached entries only. -/
theorem evictPageFromCache_spec (hout : ok .outOfArray) (htime : ok .noTimestamp) (hs : Counted s) :
    Yields ok (s.evictPageFromCache cfg) (Roomy cfg s) := by
  have hloop : Yields ok (s.evictPageFromCache cfg) fun t =>
      (Counted t ∧ t.cachedEntries ⊆ s.cachedEntries) ∧ t.cmt < cfg.totalCMTentries := by
    refine evictWhile_spec cfg hout htime
      (fun u => Counted u ∧ u.cachedEntries ⊆ s.cachedEntries) ?_ ?_ _ ⟨hs, subset_rfl⟩ (by omega)
    · rintro u ⟨hu, -⟩
      refine ⟨hu.numbered, fun hfull => Or.inl (Finset.card_pos.mp ?_)⟩
      have hcount := hu.count
      have hpos := cfg.totalCMTentries_pos
      omega
    · rintro u v j ⟨hu, hsub⟩ hv
      exact ⟨hv.counted hu, hv.entries ▸ (Finset.erase_subset _ _).trans hsub⟩
  exact hloop.mono fun t ht => ⟨ht.1.1, ht.1.2, ht.2⟩

/-- **A lookup** leaves the counter exact and within its limit. -/
theorem resolveMapping_spec (cfg : DftlConfig) (hout : ok .outOfArray) (htime : ok .noTimestamp)
    (hs : Counted s) (hle : s.cmt ≤ cfg.totalCMTentries) (dlpn : ℕ) (startTime : τ) (isWrite : Bool) :
    Yields ok (s.resolveMapping cfg dlpn startTime isWrite) fun t =>
      Counted t ∧ t.cmt ≤ cfg.totalCMTentries := by
  refine (entry_spec hout s dlpn).bind ?_
  rintro found ⟨hlt, rfl⟩
  by_cases hfound : (s.transMap.get ⟨dlpn, hlt⟩).cached = true
  · rw [if_pos hfound]
    refine (replace_spec hout s dlpn _).mono fun t ht => ⟨?_, ht.cmt.trans_le hle⟩
    exact ht.counted (j := ⟨dlpn, hlt⟩) hs rfl (hs.numbered _) rfl
  · rw [if_neg hfound]
    refine (evictPageFromCache_spec hout htime hs).bind fun t ht => ?_
    refine (entry_spec hout t dlpn).bind ?_
    rintro current ⟨-, rfl⟩
    refine (replace_spec hout t dlpn _).bind fun u hu => ?_
    have hinsert : u.cachedEntries = insert ⟨dlpn, hlt⟩ t.cachedEntries := hu.entries_insert rfl rfl
    have hnot : ⟨dlpn, hlt⟩ ∉ t.cachedEntries := fun hmem =>
      hfound (mem_cachedEntries.mp (ht.subset hmem))
    refine ⟨⟨hu.numbered ht.counted.numbered (ht.counted.numbered ⟨dlpn, hlt⟩), ?_⟩, ?_⟩
    · show u.cmt + 1 = u.cachedEntries.card
      rw [hu.cmt, ht.counted.count, hinsert, Finset.card_insert_of_notMem hnot]
      rfl
    · show u.cmt + 1 ≤ cfg.totalCMTentries
      rw [hu.cmt]
      exact ht.lt

/-! ## Pages that are moved -/

theorem moveEntry_spec (hout : ok .outOfArray) (hs : Counted s) (startTime : τ) (page : ℕ × ℕ) :
    Yields ok (moveEntry startTime s page) fun t => Counted t ∧ ∃ h : page.1 < n,
      t.cachedEntries = insert ⟨page.1, h⟩ s.cachedEntries := by
  refine (entry_spec hout s page.1).bind ?_
  rintro current ⟨hlt, rfl⟩
  dsimp only [updateTranslationMap]
  split_ifs with hcached
  · refine (replace_spec hout _ page.1 _).mono fun t ht => ⟨?_, hlt, ?_⟩
    · exact ht.counted (j := ⟨page.1, hlt⟩) ⟨hs.numbered, hs.count⟩ rfl (hs.numbered _) rfl
    · exact ht.entries_insert rfl hcached
  · refine (replace_spec hout _ page.1 _).mono fun t ht => ?_
    have hinsert : t.cachedEntries = insert ⟨page.1, hlt⟩ s.cachedEntries :=
      ht.entries_insert rfl rfl
    refine ⟨⟨ht.numbered hs.numbered (hs.numbered ⟨page.1, hlt⟩), ?_⟩, hlt, hinsert⟩
    have hnot : ⟨page.1, hlt⟩ ∉ s.cachedEntries := fun hmem => hcached (mem_cachedEntries.mp hmem)
    rw [ht.cmt, hinsert, Finset.card_insert_of_notMem hnot]
    show s.cmt + 1 = _
    rw [hs.count]
    rfl

/-- The entries of some logical pages. -/
def entriesOf (n : ℕ) (pages : List (ℕ × ℕ)) : Finset (Fin n) :=
  Finset.univ.filter fun i => ∃ page ∈ pages, page.1 = i

theorem entriesOf_concat (pages : List (ℕ × ℕ)) (page : ℕ × ℕ) (h : page.1 < n) :
    entriesOf n (pages ++ [page]) = insert ⟨page.1, h⟩ (entriesOf n pages) := by
  ext i
  simp only [entriesOf, Finset.mem_filter, Finset.mem_univ, true_and, Finset.mem_insert,
    List.mem_append, List.mem_singleton, Fin.ext_iff]
  constructor
  · rintro ⟨page', hmem | rfl, hi⟩
    · exact Or.inr ⟨page', hmem, hi⟩
    · exact Or.inl hi.symm
  · rintro (hi | ⟨page', hmem, hi⟩)
    · exact ⟨page, Or.inr rfl, hi.symm⟩
    · exact ⟨page', Or.inl hmem, hi⟩

/-- The entries of the pages of a block that are moved. -/
def movedEntries (s : DftlParent n τ) (block : Collection) : Finset (Fin n) :=
  entriesOf n (s.invalidatedTranslation block)

theorem cleanupBlock_spec (hout : ok .outOfArray) (hs : Counted s) (startTime : τ)
    (block : Collection) : Yields ok (cleanupBlock startTime s block) fun t =>
      Counted t ∧ t.cachedEntries = s.cachedEntries ∪ s.movedEntries block := by
  refine Yields.foldlM_list (fun pre (t : DftlParent n τ) => Counted t ∧
    t.cachedEntries = s.cachedEntries ∪ entriesOf n pre) ⟨hs, ?_⟩ ?_
  · simp [entriesOf]
  · rintro pre page post t - ⟨ht, hentries⟩
    refine (moveEntry_spec hout ht startTime page).mono ?_
    rintro u ⟨hu, hlt, hinsert⟩
    rw [hentries, ← Finset.union_insert, ← entriesOf_concat] at hinsert
    exact ⟨hu, hinsert⟩

/-- The entries that are cached or moved fit into the cache. -/
def Fits (cfg : DftlConfig) (s : DftlParent n τ) (block : Collection) : Prop :=
  (s.cachedEntries ∪ s.movedEntries block).card ≤ cfg.totalCMTentries

instance (s : DftlParent n τ) (block : Collection) : Decidable (Fits cfg s block) :=
  inferInstanceAs (Decidable (_ ≤ _))

theorem cleanupBlocks_spec (cfg : DftlConfig) (hout : ok .outOfArray) (hs : Counted s)
    (startTime : τ) (blocks : List Collection) : Yields ok (blocks.foldlM (cleanupBlock startTime) s) fun t =>
      Counted t ∧ s.cachedEntries ⊆ t.cachedEntries ∧
        (s.cachedEntries.card ≤ cfg.totalCMTentries →
          (t.cachedEntries.card ≤ cfg.totalCMTentries ↔
            Yields.Along (cleanupBlock startTime) (Fits cfg) s blocks)) := by
  induction blocks generalizing s with
  | nil => exact ⟨hs, subset_rfl, fun hle => iff_of_true hle trivial⟩
  | cons block blocks ih =>
    have hclean := cleanupBlock_spec hout hs startTime block
    rw [List.foldlM_cons, Yields.Along]
    cases hnext : cleanupBlock startTime s block with
    | error e =>
      rw [hnext] at hclean
      exact hclean
    | ok t =>
      obtain ⟨ht, hentries⟩ := hclean.of_ok hnext
      refine (ih ht).mono ?_
      rintro u ⟨hu, hsub, hiff⟩
      have hsub' : s.cachedEntries ⊆ t.cachedEntries := hentries ▸ Finset.subset_union_left
      have hfits : Fits cfg s block ↔ t.cachedEntries.card ≤ cfg.totalCMTentries := by
        rw [Fits, hentries]
      refine ⟨hu, hsub'.trans hsub, fun _ => ?_⟩
      dsimp only
      rw [hfits]
      constructor
      · intro hle
        have hle' := (Finset.card_le_card hsub).trans hle
        exact ⟨hle', (hiff hle').mp hle⟩
      · rintro ⟨hle', hrest⟩
        exact (hiff hle').mpr hrest

/-! ## Requests -/

/-- **The counter is exact**: it is the number of cached entries, and within the limits of the cache. -/
structure Exact (cfg : DftlConfig) (s : DftlParent n τ) : Prop where
  count : s.cmt = s.cachedEntries.card
  nonneg : 0 ≤ s.cmt
  le : s.cmt ≤ cfg.totalCMTentries

theorem Counted.exact_iff (h : Counted s) :
    Exact cfg s ↔ s.cachedEntries.card ≤ cfg.totalCMTentries := by
  have hcount := h.count
  refine ⟨fun hexact => ?_, fun hle => ⟨hcount, by omega, by omega⟩⟩
  have hle := hexact.le
  omega

/-- **The requests that keep the counter exact**: trims of pages that are not both mapped and cached, and
writes in which the pages that are moved fit into the cache. -/
def KeepsCount (cfg : DftlConfig) (s : DftlParent n τ) : DftlRequest τ → Prop
  | .read _ _ => True
  | .write dlpn startTime blocks _ =>
    match s.resolveMapping cfg dlpn startTime true with
    | .ok t => Yields.Along (cleanupBlock startTime) (Fits cfg) t blocks
    | .error _ => True
  | .trim dlpn => ∀ h : dlpn < n,
    (s.transMap.get ⟨dlpn, h⟩).ppn = none ∨ (s.transMap.get ⟨dlpn, h⟩).cached = false

instance (s : DftlParent n τ) : DecidablePred (s.KeepsCount cfg)
  | .read _ _ => isTrue trivial
  | .write dlpn startTime blocks _ =>
    match h : s.resolveMapping cfg dlpn startTime true with
    | .ok t => decidable_of_iff (Yields.Along (cleanupBlock startTime) (Fits cfg) t blocks) <| by
      rw [KeepsCount, h]
    | .error e => isTrue <| by
      rw [KeepsCount, h]
      trivial
  | .trim dlpn => inferInstanceAs (Decidable (∀ _ : dlpn < n, _ ∨ _))

/-- **A trim of a page that is not both mapped and cached**. -/
theorem trim_counted (hout : ok .outOfArray) (hs : Counted s)
    (hkeeps : s.KeepsCount cfg (.trim dlpn)) :
    Yields ok (s.trim cfg dlpn) fun t => Counted t ∧ t.cachedEntries = s.cachedEntries := by
  have hentry := entry_spec hout s dlpn
  rw [trim]
  refine hentry.bind ?_
  rintro current ⟨hlt, rfl⟩
  cases hppn : (s.transMap.get ⟨dlpn, hlt⟩).ppn with
  | none => exact ⟨hs, rfl⟩
  | some ppn =>
    have hcached : (s.transMap.get ⟨dlpn, hlt⟩).cached = false := by
      refine (hkeeps hlt).resolve_left fun hnone => ?_
      rw [hppn] at hnone
      cases hnone
    have hevict : Yields ok (s.evictSpecificPageFromCache cfg dlpn) fun t => t = s := by
      refine hentry.bind ?_
      rintro evictPage ⟨-, rfl⟩
      rw [if_pos hcached]
      exact rfl
    refine hevict.bind ?_
    rintro t rfl
    refine (replace_spec hout _ dlpn _).mono fun u hu => ?_
    have hentries := hu.entries_eq (j := ⟨dlpn, hlt⟩) rfl rfl
    exact ⟨hu.counted (j := ⟨dlpn, hlt⟩) ⟨hs.numbered, hs.count⟩ rfl (hs.numbered _) rfl, hentries⟩

/-- **A trim of a page that is mapped and cached**: the entry is evicted, and the stale copy of it is put
back with its flag set. -/
theorem trim_stale (hout : ok .outOfArray) (htime : ok .noTimestamp) (hs : Counted s)
    (hstale : ¬ s.KeepsCount cfg (.trim dlpn)) :
    Yields ok (s.trim cfg dlpn) fun t => t.cmt + 1 = t.cachedEntries.card := by
  rw [KeepsCount] at hstale
  push Not at hstale
  obtain ⟨hlt, hppn, hcached⟩ := hstale
  rw [ne_eq, Bool.not_eq_false] at hcached
  have hentry := entry_spec hout s dlpn
  rw [trim]
  refine hentry.bind ?_
  rintro current ⟨-, rfl⟩
  cases hmapped : (s.transMap.get ⟨dlpn, hlt⟩).ppn with
  | none => exact absurd hmapped hppn
  | some ppn =>
    have hevict : Yields ok (s.evictSpecificPageFromCache cfg dlpn) (Evicted s ⟨dlpn, hlt⟩) := by
      refine hentry.bind ?_
      rintro evictPage ⟨-, rfl⟩
      rw [if_neg (by rw [hcached]; decide)]
      exact evict_spec hout htime hs.numbered fun hnot => by
        rw [hcached] at hnot
        cases hnot
    refine hevict.bind fun t ht => ?_
    refine (replace_spec hout _ dlpn _).mono fun u hu => ?_
    have hinsert : u.cachedEntries = insert ⟨dlpn, hlt⟩ t.cachedEntries :=
      hu.entries_insert rfl hcached
    rw [ht.entries, Finset.insert_erase (mem_cachedEntries.mpr hcached)] at hinsert
    have hcard := Finset.card_erase_add_one (mem_cachedEntries.mpr hcached)
    have hcount := (ht.counted hs).count
    rw [ht.entries] at hcount
    have hcmt : u.cmt = t.cmt := hu.cmt
    rw [hcmt, hinsert]
    omega

theorem write_spec (hout : ok .outOfArray) (htime : ok .noTimestamp) (hs : Counted s)
    (hle : s.cmt ≤ cfg.totalCMTentries) (dlpn : ℕ) (startTime : τ) (blocks : List Collection)
    (freePage : ℕ) : Yields ok (s.write cfg dlpn startTime blocks freePage) fun t => Counted t ∧
      (t.cachedEntries.card ≤ cfg.totalCMTentries ↔
        s.KeepsCount cfg (.write dlpn startTime blocks freePage)) := by
  have hresolve := resolveMapping_spec cfg hout htime hs hle dlpn startTime true
  rw [write, KeepsCount]
  cases hnext : s.resolveMapping cfg dlpn startTime true with
  | error e =>
    rw [hnext] at hresolve
    exact hresolve
  | ok t =>
    obtain ⟨ht, htle⟩ := hresolve.of_ok hnext
    refine (cleanupBlocks_spec cfg hout ht startTime blocks).bind ?_
    rintro u ⟨hu, -, hiff⟩
    refine (entry_spec hout u dlpn).bind ?_
    rintro current ⟨hlt, rfl⟩
    refine (replace_spec hout _ dlpn _).mono fun v hv => ⟨?_, ?_⟩
    · exact hv.counted (j := ⟨dlpn, hlt⟩) ⟨hu.numbered, hu.count⟩ rfl (hu.numbered _) rfl
    · have hentries := hv.entries_eq (j := ⟨dlpn, hlt⟩) rfl rfl
      have hcount := ht.count
      rw [hentries]
      exact hiff (by omega)

/-- **One request**: the counter stays exact precisely when the request keeps it so. -/
theorem serve_spec (hout : ok .outOfArray) (htime : ok .noTimestamp) (hs : Counted s)
    (hexact : Exact cfg s) (r : DftlRequest τ) :
    Yields ok (s.serve cfg r) fun t => (s.KeepsCount cfg r → Counted t) ∧
      (Exact cfg t ↔ s.KeepsCount cfg r) := by
  cases r with
  | read dlpn startTime =>
    refine (resolveMapping_spec cfg hout htime hs hexact.le dlpn startTime false).mono ?_
    rintro t ⟨ht, hle⟩
    have hcount := ht.count
    exact ⟨fun _ => ht, iff_of_true (ht.exact_iff.mpr (by omega)) trivial⟩
  | write dlpn startTime blocks freePage =>
    refine (write_spec hout htime hs hexact.le dlpn startTime blocks freePage).mono ?_
    rintro t ⟨ht, hiff⟩
    exact ⟨fun _ => ht, ht.exact_iff.trans hiff⟩
  | trim dlpn =>
    by_cases hkeeps : s.KeepsCount cfg (.trim dlpn)
    · refine (trim_counted hout hs hkeeps).mono ?_
      rintro t ⟨ht, hentries⟩
      refine ⟨fun _ => ht, iff_of_true (ht.exact_iff.mpr ?_) hkeeps⟩
      rw [hentries]
      exact hs.exact_iff.mp hexact
    · refine (trim_stale hout htime hs hkeeps).mono fun t ht => ⟨fun h => absurd h hkeeps, ?_⟩
      refine iff_of_false (fun hexact' => ?_) hkeeps
      have hcount := hexact'.count
      omega

theorem counted_new (junk : Option ℕ → ℕ) : Counted (new junk : DftlParent n τ) := by
  refine ⟨numbered_new junk, ?_⟩
  simp [cachedEntries, new, MPage.new]

end DftlParent

/-- **The cache counter of DFTL.** Requests that keep the counter exact leave it so, and the entries that
are evicted are cached; after them, a request leaves it exact precisely when it is one that keeps it. -/
theorem dftl_counter_exact_iff {n : ℕ} {τ : Type} [Clock τ] [TransMap n τ] (cfg : DftlConfig)
    (junk : Option ℕ → ℕ) (rs : List (DftlRequest τ))
    (hkeeps : Yields.Along (DftlParent.serve cfg) (DftlParent.KeepsCount cfg)
      (DftlParent.new junk : DftlParent n τ) rs) (r : DftlRequest τ) :
    Yields (· ≠ .notCached) (DftlParent.serveAll cfg (DftlParent.new junk : DftlParent n τ) rs)
      fun s => DftlParent.Exact cfg s ∧ Yields (· ≠ .notCached) (s.serve cfg r)
        fun t => DftlParent.Exact cfg t ↔ s.KeepsCount cfg r := by
  have hstart : (DftlParent.new junk : DftlParent n τ).Counted := DftlParent.counted_new junk
  have hrun : Yields (· ≠ .notCached)
      (DftlParent.serveAll cfg (DftlParent.new junk : DftlParent n τ) rs)
      fun s => s.Counted ∧ s.Exact cfg := by
    refine Yields.foldlM_along _ ?_ ⟨hstart, hstart.exact_iff.mpr ?_⟩ hkeeps
    · rintro s r ⟨hs, hexact⟩ hr
      refine (DftlParent.serve_spec (by decide) (by decide) hs hexact r).mono fun t ht => ?_
      exact ⟨ht.1 hr, ht.2.mpr hr⟩
    · have hcount := hstart.count
      have hzero : (DftlParent.new junk : DftlParent n τ).cmt = 0 := rfl
      omega
  refine hrun.mono ?_
  rintro s ⟨hs, hexact⟩
  exact ⟨hexact, (DftlParent.serve_spec (by decide) (by decide) hs hexact r).mono fun t ht => ht.2⟩

def smallDftl : DftlConfig := ⟨2, 2, by decide, by decide⟩

/-- The third write evicts the entry of page 0 and then moves page 1, whose entry is cached; the page that
is trimmed is not. -/
def cachedRequests : List (DftlRequest ℤ) :=
  [.write 0 0 [] 0, .write 1 1 [] 1, .write 2 2 [⟨0, [(1, 4)]⟩] 2, .trim 0]

theorem dftl_counter_exact_iff_cachedRequests :
    ∃ s t, DftlParent.serveAll smallDftl (.new fun _ => 0 : DftlParent 4 ℤ) cachedRequests = .ok s ∧
      s.serve smallDftl (.read 0 3) = .ok t ∧ s.Exact smallDftl ∧ t.Exact smallDftl := by
  have hrun : ∃ s t,
      DftlParent.serveAll smallDftl (.new fun _ => 0 : DftlParent 4 ℤ) cachedRequests = .ok s ∧
        s.serve smallDftl (.read 0 3) = .ok t := ⟨_, _, rfl, rfl⟩
  obtain ⟨s, t, hs, ht⟩ := hrun
  obtain ⟨hexact, hnext⟩ := (dftl_counter_exact_iff smallDftl (fun _ => 0) cachedRequests (by decide)
    (.read 0 3)).of_ok hs
  exact ⟨s, t, hs, ht, hexact, (hnext.of_ok ht).mpr trivial⟩

/-- **The flag of a trimmed entry stays set**, and the counter does not count it. -/
theorem trimmed_entry_stays_cached :
    ∃ t, DftlParent.serveAll smallDftl (.new fun _ => 0 : DftlParent 4 ℤ)
      [.write 0 0 [] 0, .trim 0] = .ok t ∧ t.cmt = 0 ∧ t.cachedEntries = {0} ∧
        ¬ t.Exact smallDftl := by
  have hrun : ∃ t, DftlParent.serveAll smallDftl (.new fun _ => 0 : DftlParent 4 ℤ)
      [.write 0 0 [] 0, .trim 0] = .ok t ∧ t.cmt = 0 ∧ t.cachedEntries = {0} :=
    ⟨_, rfl, rfl, by decide⟩
  obtain ⟨t, ht, hcmt, hentries⟩ := hrun
  refine ⟨t, ht, hcmt, hentries, fun hexact => ?_⟩
  have hcount := hexact.count
  rw [hcmt, hentries] at hcount
  cases hcount

end ZnsFlash
