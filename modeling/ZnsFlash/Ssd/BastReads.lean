import ZnsFlash.Ssd.BastMerges

/-!
# BAST keeps the newest version of every page

* `evict_spec`, `allocateNewLogblock_spec`: a new log block, with room made for it;
* `write_spec`, `trim_spec`, `step_spec`, `run_spec`: the requests keep the invariant;
* **`bast_reads_latest`**: along every run, reads find the latest writes.
-/

namespace ZnsFlash

open Holdings

namespace Bast

variable {size : ℕ} {π : Type}

/-! ## New log blocks -/

section Allocate

variable {limit b : ℕ} {s : Bast size π} {latest : ℕ → Option π} {ok : Halt → Prop}

theorem evict_spec (hsize : 0 < size) (hworn : ok .worn) (hnone : ok .noFreeBlock)
    (hbad : ok .badAlloc) (cfg : BastConfig) (hlimit : 1 ≤ cfg.logBlockLimit) (random : ℕ)
    (h : Inv cfg.logBlockLimit s latest) (hb : s.logMap.lookup b = none) :
    Yields ok (s.evict cfg random) fun s' =>
      Inv cfg.logBlockLimit s' latest ∧ s'.logMap.lookup b = none ∧
        s'.logMap.keys.length < cfg.logBlockLimit := by
  rw [evict]
  split_ifs with hfull
  · have hlen : (s.logMap.keys.insertionSort (· ≤ ·)).length = s.logMap.keys.length :=
      List.length_insertionSort _ _
    have hmod := Nat.mod_lt random (hlimit.trans hfull)
    have hindex : random % s.logMap.keys.length - 1 <
        (s.logMap.keys.insertionSort (· ≤ ·)).length := by omega
    rw [List.getElem?_eq_getElem hindex]
    generalize hex : (s.logMap.keys.insertionSort (· ≤ ·))[random % s.logMap.keys.length - 1] = ex
    have hmem : ex ∈ s.logMap.keys := by
      rw [← hex]
      exact (List.mem_insertionSort _).mp (List.getElem_mem hindex)
    obtain ⟨log, hlog⟩ := Option.isSome_iff_exists.mp (AList.lookup_isSome.mpr (AList.mem_keys.mpr hmem))
    dsimp only
    rw [hlog]
    refine (mergeLogBlock_spec hsize hworn hnone hbad cfg.toSsdConfig h hlog).mono fun s' hs' => ?_
    obtain ⟨hinv, hmap⟩ := hs'
    refine ⟨hinv, ?_, ?_⟩
    · have hne : b ≠ ex := by
        rintro rfl
        rw [hb] at hlog
        cases hlog
      rw [hmap]
      exact (AList.lookup_erase_ne hne).trans hb
    · rw [hmap, AList.keys_erase, List.length_erase_of_mem hmem]
      exact lt_of_lt_of_le (Nat.sub_one_lt_of_lt (List.length_pos_of_mem hmem)) h.limit
  · exact ⟨h, hb, not_le.mp hfull⟩

theorem Inv.allocated (hsize : 0 < size) (h : Inv limit s latest) (hb : s.logMap.lookup b = none)
    (hroom : s.logMap.keys.length < limit) {address : ℕ} {media : Media size π}
    (hnew : Allocated s.media (held s.own) address media) :
    Inv limit { s with media, logMap := s.logMap.insert b (.new address) } latest := by
  obtain ⟨haligned, hfree, herased, hpool, hkeeps⟩ := hnew
  let t : Bast size π := { s with media, logMap := s.logMap.insert b (.new address) }
  have hself : t.logMap.lookup b = some (.new address) := AList.lookup_insert _
  have hother : ∀ b' ≠ b, t.logMap.lookup b' = s.logMap.lookup b' := fun b' hne =>
    AList.lookup_insert_ne hne
  have hown : t.own = Function.update s.own (.log b) (some (address / size)) :=
    own_insertLog s b (.new address)
  have hlogNone : s.own (.log b) = none := by
    rw [own, hb, Option.map_none]
  -- the new log block has no entries, so pages are found where they were
  have hpage : t.logPage = s.logPage := by
    funext la
    by_cases hla : logicalBlock size la = b
    · rw [logPage, logPage, hla, hself, hb]
      rfl
    · rw [logPage, logPage, hother _ hla]
  have hholds : ∀ x p, x / size ∈ held s.own → s.media.flash.Holds x p → media.flash.Holds x p :=
    fun x p hx hold => hold.congr (hkeeps.block _ hx) (congrFun hkeeps.pageData x)
  refine ⟨?_, ?_, h.data, fun b' log hlog => ?_, fun la a ha => ?_, fun la p hp hla => ?_, ?_⟩
  · rw [hown, held_claim hlogNone]
    exact hpool
  · rw [hown]
    exact h.exclusive.claim hfree
  · by_cases hne : b' = b
    · rw [hne, hself] at hlog
      rw [← Option.some.inj hlog]
      exact .of_erased haligned herased
    · rw [hother b' hne] at hlog
      exact (h.log b' log hlog).congr (hkeeps.block _ (mem_held (own_log hlog)))
  · rw [hpage] at ha
    obtain ⟨p, hp, hold⟩ := h.mapped la a ha
    obtain ⟨log, j, hlog, hj, rfl⟩ := exists_of_logPage ha
    refine ⟨p, hp, hholds _ p ?_ hold⟩
    rw [(h.log _ log hlog).page_div hj]
    exact mem_held (own_log hlog)
  · rw [hpage] at hla
    obtain ⟨a, ha, hold⟩ := h.stored la p hp hla
    refine ⟨a, ha, hholds _ p ?_ hold⟩
    rw [Flash.page_div (h.data _ a ha) (Nat.mod_lt la hsize)]
    exact mem_held (own_data ha)
  · change (s.logMap.insert b _).keys.length ≤ _
    have hnotMem : b ∉ s.logMap.keys := AList.lookup_eq_none.mp hb
    rw [AList.keys_insert, List.length_cons, List.erase_of_not_mem hnotMem]
    exact hroom

theorem allocateNewLogblock_spec (hsize : 0 < size) (hworn : ok .worn) (hnone : ok .noFreeBlock)
    (hbad : ok .badAlloc) (cfg : BastConfig) (hlimit : 1 ≤ cfg.logBlockLimit) (random : ℕ)
    (h : Inv cfg.logBlockLimit s latest) (hb : s.logMap.lookup b = none) :
    Yields ok (s.allocateNewLogblock cfg random b) fun r =>
      Inv cfg.logBlockLimit r.1 latest ∧ r.1.logMap.lookup b = some r.2 ∧
        (r.1.media.flash.block (r.2.address / size)).pagesValid = 0 := by
  refine (evict_spec hsize hworn hnone hbad cfg hlimit random h hb).bind fun s₁ hs₁ => ?_
  obtain ⟨hinv, hb₁, hroom⟩ := hs₁
  refine (getFreeBlock_spec hsize hworn hnone hbad cfg.toSsdConfig .log hinv.pool).bind fun r hr => ?_
  exact ⟨hinv.allocated hsize hb₁ hroom hr, AList.lookup_insert _, hr.erased.unused⟩

end Allocate

/-! ## Requests -/

section Requests

variable {s : Bast size π} {latest : ℕ → Option π} {ok : Halt → Prop} {cfg : BastConfig} {la : ℕ}

theorem logBlock_spec (hsize : 0 < size) (hworn : ok .worn) (hnone : ok .noFreeBlock)
    (hbad : ok .badAlloc) (hlimit : 1 ≤ cfg.logBlockLimit) (random b : ℕ)
    (h : Inv cfg.logBlockLimit s latest) :
    Yields ok (s.logBlock cfg random b) fun r =>
      Inv cfg.logBlockLimit r.1 latest ∧ r.1.logMap.lookup b = some r.2 := by
  rw [logBlock]
  cases hlog : s.logMap.lookup b with
  | none =>
    refine (allocateNewLogblock_spec hsize hworn hnone hbad cfg hlimit random h hlog).mono ?_
    exact fun r hr => ⟨hr.1, hr.2.1⟩
  | some log => exact ⟨h, hlog⟩

/-- **A write** is the latest one, also when it merges or evicts log blocks. -/
theorem write_spec (hsize : 0 < size) (hworn : ok .worn) (hnone : ok .noFreeBlock)
    (hbad : ok .badAlloc) (harray : ok .outOfArray) (hlimit : 1 ≤ cfg.logBlockLimit)
    (payload : π) (random : ℕ) (h : Inv cfg.logBlockLimit s latest) :
    Yields ok (s.write cfg la payload random) fun s' =>
      Inv cfg.logBlockLimit s' (Function.update latest la (some payload)) := by
  rw [write]
  split_ifs
  · exact harray
  · refine (logBlock_spec hsize hworn hnone hbad hlimit random _ h).bind fun r hr => ?_
    obtain ⟨s₁, log⟩ := r
    obtain ⟨hinv, hlog⟩ := hr
    dsimp only at hinv hlog ⊢
    split_ifs with hroom
    · refine hinv.issueWrite hsize hlog rfl hroom fun x hx => ?_
      obtain ⟨j, hj, rfl⟩ := Option.map_eq_some_iff.mp hx
      exact ⟨j, hj, rfl⟩
    · refine (mergeLogBlock_spec hsize hworn hnone hbad cfg.toSsdConfig hinv hlog).bind ?_
      rintro s₂ ⟨hinv₂, hmap⟩
      have hb : s₂.logMap.lookup (logicalBlock size la) = none := by
        rw [hmap]
        exact AList.lookup_erase _ _
      refine (allocateNewLogblock_spec hsize hworn hnone hbad cfg hlimit random hinv₂ hb).bind ?_
      rintro ⟨s₃, log₃⟩ ⟨hinv₃, hlog₃, hempty⟩
      exact hinv₃.issueWrite hsize hlog₃ hempty.symm hsize nofun

/-- **A block is given up** that no page of the latest writes is in. -/
theorem Inv.released {limit : ℕ} {t : Bast size π} {o : Owner} (hsize : 0 < size)
    (h : Inv limit s latest) (hown : t.own = Function.update s.own o none)
    (hpool : Pool t.media (held s.own \ {c | s.own o = some c}))
    (hkeeps : Keeps s.media t.media (held s.own \ {c | s.own o = some c}))
    (hdata : ∀ b a, t.dataList b = some a → s.dataList b = some a)
    (hlog : ∀ b log, t.logMap.lookup b = some log → s.logMap.lookup b = some log)
    (hpage : t.logPage = s.logPage)
    (hstored : ∀ la p, latest la = some p → s.logPage la = none →
      t.dataList (logicalBlock size la) = s.dataList (logicalBlock size la))
    (hlen : t.logMap.keys.length ≤ s.logMap.keys.length) : Inv limit t latest := by
  have hheld : held t.own = held s.own \ {c | s.own o = some c} := by
    rw [hown, held_release h.exclusive]
  have hkept : ∀ o' c, t.own o' = some c → t.media.flash.block c = s.media.flash.block c := by
    intro o' c ho'
    refine hkeeps.block c ?_
    rw [← hheld]
    exact mem_held ho'
  refine ⟨?_, ?_, fun b a ha => h.data b a (hdata b a ha), fun b log hb => ?_, fun la a ha => ?_,
    fun la p hp hla => ?_, hlen.trans h.limit⟩
  · rw [hheld]
    exact hpool
  · rw [hown]
    exact h.exclusive.release
  · exact (h.log b log (hlog b log hb)).congr (hkept (.log b) _ (own_log hb))
  · obtain ⟨log, j, hb, hj, rfl⟩ := exists_of_logPage ha
    rw [hpage] at ha
    obtain ⟨p, hp, hold⟩ := h.mapped la _ ha
    refine ⟨p, hp, hold.congr ?_ (congrFun hkeeps.pageData _)⟩
    rw [(h.log _ log (hlog _ log hb)).page_div hj]
    exact hkept (.log _) _ (own_log hb)
  · rw [hpage] at hla
    obtain ⟨a, ha, hold⟩ := h.stored la p hp hla
    have ha' : t.dataList (logicalBlock size la) = some a := (hstored la p hp hla).trans ha
    refine ⟨a, ha', hold.congr ?_ (congrFun hkeeps.pageData _)⟩
    rw [Flash.page_div (h.data _ a ha) (Nat.mod_lt la hsize)]
    exact hkept (.data _) _ (own_data ha')

theorem Inv.not_inactive {limit : ℕ} (hsize : 0 < size) (h : Inv limit s latest) {x y : ℕ} {p : π}
    (hx : s.media.flash.Holds x p) (hblock : x / size = y / size) :
    (s.media.flash.block (y / size)).state ≠ .inactive := by
  intro hstate
  have hinvalid := (h.pool.sound _).invalid_of_inactive hstate (Nat.mod_lt x hsize)
  rw [← hblock] at hinvalid
  have hvalid := hx.valid
  rw [Flash.stateAt, hinvalid] at hvalid
  cases hvalid

theorem trimLog_spec {limit : ℕ} (hsize : 0 < size) (hworn : ok .worn) (h : Inv limit s latest) :
    Yields ok (s.trimLog la) fun s' => Inv limit s' (Function.update latest la none) := by
  rw [trimLog]
  cases hlog : s.logMap.lookup (logicalBlock size la) with
  | none =>
    -- no log block, or no entry in it: the page is not in the log
    refine h.forget ?_
    rw [logPage, hlog, Option.bind_none]
  | some log =>
    dsimp only
    cases hj : log.pages (la % size) with
    | none =>
      refine h.forget ?_
      rw [logPage, hlog, Option.bind_some, hj, Option.map_none]
    | some j =>
      dsimp only
      have hsound := h.log _ log hlog
      -- the entry goes first: the page is dead when it is invalidated
      have hunmap := h.unmap hsize hlog
      have hdead := hunmap.dead_log hsize lookup_setPage_self (hsound.used _ j hj)
        (hsound.pages_set_ne hj (Option.some_ne_none j).symm)
      have hinv := hunmap.invalidate hsize hdead
      have hdiv := hsound.page_div hj
      generalize ht : (s.invalidated (log.address + j)).setPage la log none = t
      have hinv' : Inv limit t (Function.update latest la none) := by
        rw [← ht]
        exact hinv
      have hlog' : t.logMap.lookup (logicalBlock size la) = some (log.set (la % size) none) := by
        rw [← ht]
        exact lookup_setPage_self
      -- an inactive log block is erased and leaves the map
      split_ifs with hstate
      · have hown := own_log hlog'
        rw [BastLog.address_set, ← hdiv] at hown
        refine (eraseAndInvalidate_spec hworn .log hinv'.pool (mem_held hown)).bind fun m hm => ?_
        rw [← holding_of_some hown] at hm
        have hself : (t.logMap.erase (logicalBlock size la)).lookup (logicalBlock size la) = none :=
          AList.lookup_erase _ _
        have hother : ∀ b ≠ logicalBlock size la,
            (t.logMap.erase (logicalBlock size la)).lookup b = t.logMap.lookup b := fun b hb =>
          AList.lookup_erase_ne hb
        refine hinv'.released hsize ?_ hm.1 hm.2 (fun _ _ ha => ha) (fun b log' hb => ?_) ?_
          (fun _ _ _ _ => rfl) ?_
        · exact own_eraseLog t (logicalBlock size la)
        · by_cases hne : b = logicalBlock size la
          · rw [hne, hself] at hb
            cases hb
          · rwa [hother b hne] at hb
        · funext la'
          by_cases hb : logicalBlock size la' = logicalBlock size la
          · cases hpage : t.logPage la' with
            | none => rw [logPage, hb, hself, Option.bind_none]
            | some a =>
              -- a page with an entry holds a payload, so its block would not be inactive
              obtain ⟨p, hp, hholds⟩ := hinv'.mapped la' a hpage
              obtain ⟨log', j', hlook, hj', rfl⟩ := exists_of_logPage hpage
              have hpdiv := (hinv'.log _ log' hlook).page_div hj'
              rw [hb, hlog'] at hlook
              obtain rfl := Option.some.inj hlook
              exact absurd hstate (hinv'.not_inactive hsize hholds (hpdiv.trans hdiv.symm))
          · rw [logPage, logPage, hother _ hb]
        · rw [AList.keys_erase]
          exact List.length_erase_le
      · exact hinv'

theorem trimData_spec {limit : ℕ} (hsize : 0 < size) (hworn : ok .worn) (h : Inv limit s latest)
    (hla : latest la = none) :
    Yields ok (s.trimData la) fun s' => Inv limit s' latest := by
  rw [trimData]
  cases hd : s.dataList (logicalBlock size la) with
  | none => exact h
  | some a =>
    dsimp only
    have hinv := h.invalidate hsize (h.dead_data hsize hd fun _ => hla)
    have hdiv : (a + la % size) / size = a / size :=
      Flash.page_div (h.data _ a hd) (Nat.mod_lt la hsize)
    generalize ht : s.invalidated (a + la % size) = t
    rw [ht] at hinv
    have hd' : t.dataList (logicalBlock size la) = some a := by
      rw [← ht]
      exact hd
    split_ifs with hstate
    · have hown := own_data hd'
      rw [← hdiv] at hown
      refine (eraseAndInvalidate_spec hworn .data hinv.pool (mem_held hown)).bind fun m hm => ?_
      rw [← holding_of_some hown] at hm
      have hself : Function.update t.dataList (logicalBlock size la) none (logicalBlock size la) =
          none := Function.update_self _ _ _
      have hother : ∀ b ≠ logicalBlock size la,
          Function.update t.dataList (logicalBlock size la) none b = t.dataList b := fun b hb =>
        Function.update_of_ne hb _ _
      refine hinv.released hsize ?_ hm.1 hm.2 (fun b a' ha => ?_) (fun _ _ hb => hb) rfl
        (fun la' p hp hnone => ?_) le_rfl
      · exact own_setData t (logicalBlock size la) none
      · by_cases hb : b = logicalBlock size la
        · rw [hb] at ha
          cases hself.symm.trans ha
        · exact (hother b hb).symm.trans ha
      · by_cases hb : logicalBlock size la' = logicalBlock size la
        · obtain ⟨a', ha', hholds⟩ := hinv.stored la' p hp hnone
          have hpdiv := Flash.page_div (hinv.data _ a' ha') (Nat.mod_lt la' hsize)
          rw [hb, hd'] at ha'
          obtain rfl := Option.some.inj ha'
          exact absurd hstate (hinv.not_inactive hsize hholds (hpdiv.trans hdiv.symm))
        · exact Function.update_of_ne hb _ _
    · exact hinv

theorem trim_spec {limit : ℕ} (hsize : 0 < size) (hworn : ok .worn) (harray : ok .outOfArray)
    (h : Inv limit s latest) :
    Yields ok (s.trim cfg la) fun s' => Inv limit s' (Function.update latest la none) := by
  rw [trim]
  split_ifs
  · exact harray
  · exact (trimLog_spec hsize hworn h).bind fun s' hs' =>
      trimData_spec hsize hworn hs' (Function.update_self _ _ _)

end Requests

/-! ## Runs -/

section Runs

variable {s : Bast size π} {latest : ℕ → Option π} {ok : Halt → Prop} {cfg : BastConfig}

theorem step_spec (hsize : 0 < size) (hok : ∀ e, e ≠ .notEmpty → ok e)
    (hlimit : 1 ≤ cfg.logBlockLimit) (e : BastEvent π) (h : Inv cfg.logBlockLimit s latest) :
    Yields ok (s.step cfg e) fun s' => Inv cfg.logBlockLimit s' (remember latest e) := by
  cases e with
  | read la =>
    rw [step]
    split_ifs
    · exact hok _ nofun
    · exact h
  | write la payload random =>
    exact write_spec hsize (hok _ nofun) (hok _ nofun) (hok _ nofun) (hok _ nofun) hlimit payload
      random h
  | trim la => exact trim_spec hsize (hok _ nofun) (hok _ nofun) h

theorem run_spec (hsize : 0 < size) (hok : ∀ e, e ≠ .notEmpty → ok e)
    (hlimit : 1 ≤ cfg.logBlockLimit) (es : List (BastEvent π)) (h : Inv cfg.logBlockLimit s latest) :
    Yields ok (s.run cfg es) fun s' => Inv cfg.logBlockLimit s' (es.foldl remember latest) := by
  induction es generalizing s latest with
  | nil => exact h
  | cons e es ih =>
    rw [run, List.foldlM_cons]
    exact (step_spec hsize hok hlimit e h).bind fun s' hs' => ih hs'

/-- **At start-up** nothing was written and all blocks are fresh. -/
theorem inv_new (limit erases : ℕ) (junk : ℕ → π) :
    Inv limit (new erases junk : Bast size π) fun _ => none := by
  have hown : ∀ o, (new erases junk : Bast size π).own o = none := by
    rintro (b | b) <;> rfl
  have hheld : held (new erases junk : Bast size π).own = ∅ := by
    ext b
    simp [held, hown]
  refine ⟨?_, fun o o' b ho => ?_, nofun, nofun, nofun, nofun, Nat.zero_le _⟩
  · rw [hheld]
    exact pool_new erases junk
  · rw [hown] at ho
    cases ho

end Runs

end Bast

/-- **Reads find the latest writes**, and the log stays within its limit. -/
theorem bast_reads_latest {π : Type} (cfg : BastConfig) (hlimit : 1 ≤ cfg.logBlockLimit) (erases : ℕ)
    (junk : ℕ → π) (es : List (BastEvent π)) :
    Yields (· ≠ .notEmpty) (Bast.run cfg (Bast.new erases junk : Bast cfg.blockSize π) es) fun s =>
      (∀ la p, latestWrite es la = some p → s.media.flash.Holds (s.readAddress la) p) ∧
        s.logMap.keys.length ≤ cfg.logBlockLimit := by
  have hinv := @Bast.inv_new cfg.blockSize π cfg.logBlockLimit erases junk
  refine (Bast.run_spec cfg.blockSize_pos (fun _ he => he) hlimit es hinv).mono fun s hs => ?_
  exact ⟨fun la p hp => hs.read hp, hs.limit⟩

/-- One log block for three logical blocks of two pages. -/
def smallBast : BastConfig := ⟨⟨2, 8, 8, fun _ => true, Nat.two_pos⟩, 1⟩

/-- Writes that evict, merge and switch log blocks, and a trim. -/
def smallRequests : List (BastEvent ℕ) :=
  [.write 0 10 0, .write 2 12 0, .write 2 22 1, .write 3 13 0, .write 0 30 5, .write 1 31 0,
    .write 0 40 0, .trim 3, .write 4 14 2]

theorem bast_reads_latest_smallRequests :
    ∃ s, Bast.run smallBast (Bast.new 5 id : Bast 2 ℕ) smallRequests = .ok s ∧
      s.media.flash.Holds (s.readAddress 1) 31 ∧ s.logMap.keys.length ≤ 1 := by
  have hlatest := bast_reads_latest smallBast (le_refl 1) 5 id smallRequests
  have hrun : ∃ s, Bast.run smallBast (Bast.new 5 id : Bast 2 ℕ) smallRequests = .ok s := ⟨_, rfl⟩
  obtain ⟨s, hs⟩ := hrun
  have h := hlatest.of_ok hs
  exact ⟨s, hs, h.1 1 31 rfl, h.2⟩

end ZnsFlash
