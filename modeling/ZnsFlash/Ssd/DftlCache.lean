import ZnsFlash.Library.Yields
import ZnsFlash.Ssd.Dftl
import Mathlib.Data.Fintype.Card

/-!
# The cache of DFTL

What the functions of the cache do to the entries of the table, to their flags and to the counter.

* `DftlParent.cachedEntries`; `DftlParent.Replaced`: one entry is replaced;
* `DftlParent.SameMapping`: no logical page moves;
* `DftlParent.Evicted`, `evict_spec`, **`evictWhile_spec`**: entries leave the cache;
* `cached_of_head`: the first entry is cached if any is;
* `resolveMapping_same`: a lookup moves no page.
-/

namespace ZnsFlash

variable {n : ℕ} {τ : Type} [Clock τ] [TransMap n τ] {ok : Halt → Prop}

namespace DftlParent

variable {s t u : DftlParent n τ} {cfg : DftlConfig} {mpage : MPage τ} {i : ℕ}

/-- The entries whose cached flag is set. -/
def cachedEntries (s : DftlParent n τ) : Finset (Fin n) :=
  Finset.univ.filter fun i => (s.transMap.get i).cached = true

@[simp]
theorem mem_cachedEntries {i : Fin n} :
    i ∈ s.cachedEntries ↔ (s.transMap.get i).cached = true := by simp [cachedEntries]

/-- The entries are at their numbers. -/
def Numbered (s : DftlParent n τ) : Prop := ∀ i, (s.transMap.get i).vpn = i

theorem numbered_new (junk : Option ℕ → ℕ) : Numbered (new junk : DftlParent n τ) := fun i =>
  congrArg MPage.vpn (get_new junk i)

/-- **No logical page moves.** -/
structure SameMapping (s t : DftlParent n τ) : Prop where
  vpn : ∀ i, (t.transMap.get i).vpn = (s.transMap.get i).vpn
  ppn : ∀ i, (t.transMap.get i).ppn = (s.transMap.get i).ppn

theorem SameMapping.refl (s : DftlParent n τ) : SameMapping s s := ⟨fun _ => rfl, fun _ => rfl⟩

theorem SameMapping.trans (h : SameMapping s t) (h' : SameMapping t u) : SameMapping s u :=
  ⟨fun i => (h'.vpn i).trans (h.vpn i), fun i => (h'.ppn i).trans (h.ppn i)⟩

theorem SameMapping.numbered (h : SameMapping s t) (hs : Numbered s) : Numbered t :=
  fun i => (h.vpn i).trans (hs i)

/-! ## Entries -/

theorem entry_spec (hout : ok .outOfArray) (s : DftlParent n τ) (i : ℕ) :
    Yields ok (s.entry i) fun mpage => ∃ h : i < n, mpage = s.transMap.get ⟨i, h⟩ := by
  rw [entry]
  split_ifs with h
  · exact ⟨h, rfl⟩
  · exact hout

/-- An entry is replaced. -/
structure Replaced (s : DftlParent n τ) (i : ℕ) (mpage : MPage τ) (t : DftlParent n τ) : Prop where
  get : ∃ h : i < n, t.transMap.get = Function.update s.transMap.get ⟨i, h⟩ mpage
  cmt : t.cmt = s.cmt

theorem replace_spec (hout : ok .outOfArray) (s : DftlParent n τ) (i : ℕ) (mpage : MPage τ) :
    Yields ok (s.replace i mpage) (Replaced s i mpage) := by
  rw [replace]
  split_ifs with h
  · exact ⟨⟨h, Indexed.get_replace _ _ _⟩, rfl⟩
  · exact hout

section Replaced

variable {j : Fin n}

theorem Replaced.get_self (h : Replaced s i mpage t) (hj : (j : ℕ) = i) :
    t.transMap.get j = mpage := by
  obtain ⟨⟨hi, hget⟩, -⟩ := h
  obtain rfl : j = ⟨i, hi⟩ := Fin.ext hj
  rw [hget, Function.update_self]

theorem Replaced.get_of_ne (h : Replaced s i mpage t) (hj : (j : ℕ) ≠ i) :
    t.transMap.get j = s.transMap.get j := by
  obtain ⟨⟨hi, hget⟩, -⟩ := h
  rw [hget]
  exact Function.update_of_ne (fun heq => hj (congrArg Fin.val heq)) _ _

theorem Replaced.numbered (h : Replaced s i mpage t) (hs : Numbered s) (hvpn : mpage.vpn = i) :
    Numbered t := by
  intro k
  by_cases hk : (k : ℕ) = i
  · rw [h.get_self hk, hvpn, hk]
  · rw [h.get_of_ne hk]
    exact hs k

theorem Replaced.same (h : Replaced s i mpage t) (hj : (j : ℕ) = i)
    (hvpn : mpage.vpn = (s.transMap.get j).vpn) (hppn : mpage.ppn = (s.transMap.get j).ppn) :
    SameMapping s t := by
  have hkeep : ∀ k, (t.transMap.get k).vpn = (s.transMap.get k).vpn ∧
      (t.transMap.get k).ppn = (s.transMap.get k).ppn := by
    intro k
    by_cases hk : (k : ℕ) = i
    · obtain rfl : k = j := Fin.ext (hk.trans hj.symm)
      rw [h.get_self hj]
      exact ⟨hvpn, hppn⟩
    · rw [h.get_of_ne hk]
      exact ⟨rfl, rfl⟩
  exact ⟨fun k => (hkeep k).1, fun k => (hkeep k).2⟩

theorem Replaced.mem (h : Replaced s i mpage t) (hj : (j : ℕ) = i) (k : Fin n) :
    k ∈ t.cachedEntries ↔ k = j ∧ mpage.cached = true ∨ k ≠ j ∧ k ∈ s.cachedEntries := by
  rw [mem_cachedEntries, mem_cachedEntries]
  by_cases hk : k = j
  · rw [hk, h.get_self hj]
    simp
  · rw [h.get_of_ne fun heq => hk (Fin.ext (heq.trans hj.symm))]
    simp [hk]

theorem Replaced.entries_eq (h : Replaced s i mpage t) (hj : (j : ℕ) = i)
    (hcached : mpage.cached = (s.transMap.get j).cached) : t.cachedEntries = s.cachedEntries := by
  ext k
  rw [h.mem hj, hcached]
  by_cases hk : k = j
  · simp [hk]
  · simp [hk]

theorem Replaced.entries_insert (h : Replaced s i mpage t) (hj : (j : ℕ) = i)
    (hcached : mpage.cached = true) : t.cachedEntries = insert j s.cachedEntries := by
  ext k
  rw [h.mem hj, Finset.mem_insert, hcached]
  by_cases hk : k = j
  · simp [hk]
  · simp [hk]

theorem Replaced.entries_erase (h : Replaced s i mpage t) (hj : (j : ℕ) = i)
    (hcached : mpage.cached = false) : t.cachedEntries = s.cachedEntries.erase j := by
  ext k
  rw [h.mem hj, Finset.mem_erase, hcached]
  by_cases hk : k = j
  · simp [hk]
  · simp [hk]

end Replaced

/-! ## Evictions -/

/-- What a write of a translation page leaves alone. -/
structure WrittenBack (s t : DftlParent n τ) : Prop where
  same : SameMapping s t
  entries : t.cachedEntries = s.cachedEntries
  cmt : t.cmt = s.cmt

theorem writeBackEntry_spec (hout : ok .outOfArray) (s : DftlParent n τ) (i : ℕ) :
    Yields ok (s.writeBackEntry i) (WrittenBack s) := by
  refine (entry_spec hout s i).bind ?_
  rintro cur ⟨hi, rfl⟩
  split_ifs
  · refine (replace_spec hout s i _).mono fun t ht => ?_
    have hj : ((⟨i, hi⟩ : Fin n) : ℕ) = i := rfl
    exact ⟨ht.same hj rfl rfl, ht.entries_eq hj rfl, ht.cmt⟩
  · exact ⟨.refl s, rfl, rfl⟩

theorem writeBack_spec (hout : ok .outOfArray) (s : DftlParent n τ) (evictPage : MPage τ) :
    Yields ok (s.writeBack cfg evictPage) (WrittenBack s) := by
  rw [writeBack]
  split_ifs
  · refine Yields.foldlM_range (fun _ (t : DftlParent n τ) => WrittenBack s t)
      ⟨.refl s, rfl, rfl⟩ fun k t _ ht => ?_
    refine (writeBackEntry_spec hout t _).mono fun u hu => ?_
    exact ⟨ht.same.trans hu.same, hu.entries.trans ht.entries, hu.cmt.trans ht.cmt⟩
  · exact ⟨.refl s, rfl, rfl⟩

/-- **An entry is evicted.** -/
structure Evicted (s : DftlParent n τ) (j : Fin n) (t : DftlParent n τ) : Prop where
  same : SameMapping s t
  cached : j ∈ s.cachedEntries
  entries : t.cachedEntries = s.cachedEntries.erase j
  cmt : t.cmt + 1 = s.cmt

theorem evict_spec (hout : ok .outOfArray) (htime : ok .noTimestamp) (hs : Numbered s) {j : Fin n}
    (hnot : (s.transMap.get j).cached = false → ok .notCached) :
    Yields ok (s.evict cfg (s.transMap.get j)) (Evicted s j) := by
  rw [evict]
  split_ifs with hcached
  · exact hnot hcached
  · exact htime
  · refine (writeBack_spec hout s _).bind fun t ht => ?_
    refine (replace_spec hout _ _ _).mono fun u hu => ?_
    have hj : (j : ℕ) = (s.transMap.get j).vpn := (hs j).symm
    have hmem : j ∈ s.cachedEntries := by
      rw [mem_cachedEntries, ← Bool.not_eq_false]
      exact hcached
    have herase : u.cachedEntries = t.cachedEntries.erase j := hu.entries_erase hj rfl
    rw [ht.entries] at herase
    have hsame : SameMapping { t with cmt := t.cmt - 1 } u :=
      hu.same hj (ht.same.vpn j).symm (ht.same.ppn j).symm
    refine ⟨ht.same.trans ⟨hsame.vpn, hsame.ppn⟩, hmem, herase, ?_⟩
    have hcmt : u.cmt = t.cmt - 1 := hu.cmt
    have hcmt' := ht.cmt
    omega

/-- **The first entry is a cached one**, if there are any. -/
theorem cached_of_head (hcard : s.cachedEntries.Nonempty) {j : Fin n}
    (hj : s.transMap.first = some j) : (s.transMap.get j).cached = true := by
  obtain ⟨k, hk⟩ := hcard
  have hle := s.transMap.first_le hj k
  rw [mem_cachedEntries] at hk
  rw [MPage.lastVisitedTimeCompare, MPage.lastVisitedTimeCompare, if_pos hk] at hle
  by_contra hno
  rw [if_neg hno, top_le_iff] at hle
  exact WithTop.coe_ne_top hle

theorem evictFirst_spec (hout : ok .outOfArray) (htime : ok .noTimestamp) (hs : Numbered s)
    (hnot : s.cachedEntries.Nonempty ∨ ok .notCached) :
    Yields ok (s.evictFirst cfg) fun t => ∃ j, Evicted s j t := by
  rw [evictFirst]
  cases hj : s.transMap.first with
  | none => exact hout
  | some j =>
    refine (evict_spec hout htime hs fun hcached => ?_).mono fun t ht => ⟨j, ht⟩
    refine hnot.resolve_left fun hcard => ?_
    rw [cached_of_head hcard hj] at hcached
    cases hcached

/-- **The loop of `evict_page_from_cache`**, with an invariant. -/
theorem evictWhile_spec (cfg : DftlConfig) (hout : ok .outOfArray) (htime : ok .noTimestamp)
    (Inv : DftlParent n τ → Prop)
    (hinv : ∀ u, Inv u → Numbered u ∧
      ((cfg.totalCMTentries : ℤ) ≤ u.cmt → u.cachedEntries.Nonempty ∨ ok .notCached))
    (hstep : ∀ u v j, Inv u → Evicted u j v → Inv v) (rounds : ℕ) (hs : Inv s)
    (hrounds : s.cmt < cfg.totalCMTentries + rounds) :
    Yields ok (evictWhile cfg rounds s) fun t => Inv t ∧ t.cmt < cfg.totalCMTentries := by
  induction rounds generalizing s with
  | zero => exact ⟨hs, by simpa using hrounds⟩
  | succ rounds ih =>
    obtain ⟨hnumbered, hnot⟩ := hinv s hs
    rw [evictWhile]
    split_ifs with hfull
    · refine (evictFirst_spec hout htime hnumbered (hnot hfull)).bind ?_
      rintro t ⟨j, ht⟩
      have hcmt := ht.cmt
      exact ih (hstep s t j hs ht) (by push_cast at hrounds; omega)
    · exact ⟨hs, not_le.mp hfull⟩

theorem resolveMapping_same (hall : ∀ e, ok e) (hs : Numbered s) (dlpn : ℕ) (startTime : τ)
    (isWrite : Bool) : Yields ok (s.resolveMapping cfg dlpn startTime isWrite) (SameMapping s) := by
  refine (entry_spec (hall _) s dlpn).bind ?_
  rintro found ⟨hlt, rfl⟩
  have hj : ((⟨dlpn, hlt⟩ : Fin n) : ℕ) = dlpn := rfl
  by_cases hfound : (s.transMap.get ⟨dlpn, hlt⟩).cached = true
  · rw [if_pos hfound]
    exact (replace_spec (hall _) s dlpn _).mono fun t ht => ht.same hj rfl rfl
  · rw [if_neg hfound]
    have hevict : Yields ok (s.evictPageFromCache cfg) fun t =>
        SameMapping s t ∧ t.cmt < cfg.totalCMTentries :=
      evictWhile_spec cfg (hall _) (hall _) (SameMapping s)
        (fun u hu => ⟨hu.numbered hs, fun _ => Or.inr (hall _)⟩)
        (fun u v j hu hv => hu.trans hv.same) _ (.refl s) (by omega)
    refine hevict.bind fun t ht => ?_
    refine (entry_spec (hall _) t dlpn).bind ?_
    rintro current ⟨-, rfl⟩
    refine (replace_spec (hall _) t dlpn _).bind fun u hu => ?_
    have hsame : SameMapping t u := hu.same hj rfl rfl
    exact ht.1.trans ⟨hsame.vpn, hsame.ppn⟩

theorem evictSpecificPageFromCache_same (hall : ∀ e, ok e) (hs : Numbered s) (lba : ℕ) :
    Yields ok (s.evictSpecificPageFromCache cfg lba) (SameMapping s) := by
  refine (entry_spec (hall _) s lba).bind ?_
  rintro evictPage ⟨hlt, rfl⟩
  split_ifs
  · exact .refl s
  · exact (evict_spec (hall _) (hall _) hs fun _ => hall _).mono fun t ht => ht.same

end DftlParent

end ZnsFlash
