import ZnsFlash.Ssd.FastRandomMerge
import ZnsFlash.Ssd.FastTrim
import ZnsFlash.Ssd.FastWrites

/-!
# When FAST finds the newest version

* `appendLogBlock_spec`, `replaceVictim_spec`, `appendPage_eq`: the RW log;
* `Ready`: the page of a write is chosen, and whatever garbage collection does before it is issued,
  the write leads back to the invariant; `place_spec`, `write_spec`, `read_spec`;
* **`fast_reads_latest`**: along every run of safe writes, reads find the latest ones;
* `fast_stale_read`: a page that is written twice to the RW log.
-/

namespace ZnsFlash

open Holdings

variable {size : ℕ} {π : Type} {ok : Halt → Prop}

namespace Fast

variable {s : Fast size π} {latest : ℕ → Option π} {cfg : FastConfig} {la : ℕ}

/-! ## The random-write log -/

/-- What a new log block leaves alone. -/
structure SameMaps (s t : Fast size π) : Prop where
  dataList : t.dataList = s.dataList
  sequentialOffset : t.sequentialOffset = s.sequentialOffset
  sequentialAddress : t.sequentialAddress = s.sequentialAddress
  sequentialLogicalblockAddress : t.sequentialLogicalblockAddress = s.sequentialLogicalblockAddress
  logPageNext : t.logPageNext = s.logPageNext
  block : ∀ b a, s.dataList b = some a →
    t.media.flash.block (a / size) = s.media.flash.block (a / size)

theorem SameMaps.refl (s : Fast size π) : SameMaps s s := ⟨rfl, rfl, rfl, rfl, rfl, fun _ _ _ => rfl⟩

theorem SameMaps.trans {t u : Fast size π} (h : SameMaps s t) (h' : SameMaps t u) : SameMaps s u := by
  refine ⟨h'.dataList.trans h.dataList, h'.sequentialOffset.trans h.sequentialOffset,
    h'.sequentialAddress.trans h.sequentialAddress,
    h'.sequentialLogicalblockAddress.trans h.sequentialLogicalblockAddress,
    h'.logPageNext.trans h.logPageNext, fun b a ha => ?_⟩
  refine (h'.block b a ?_).trans (h.block b a ha)
  rw [h.dataList]
  exact ha

theorem SameMaps.stateAt (hsize : 0 < size) {t : Fast size π} (hcore : Core s latest)
    (h : SameMaps s t) {b a : ℕ} (ha : s.dataList b = some a) (la : ℕ) :
    t.media.flash.stateAt (a + la % size) = s.media.flash.stateAt (a + la % size) :=
  stateAt_page_congr (hcore.data b a ha).aligned (h.block b a ha) (Nat.mod_lt la hsize)

theorem SameMaps.placed (hsize : 0 < size) {t : Fast size π} (hcore : Core s latest)
    (h : SameMaps s t) (hla : s.Placed la) : t.Placed la := by
  obtain ⟨a, ha, hvalid⟩ := hla
  refine ⟨a, ?_, (h.stateAt hsize hcore ha la).trans hvalid⟩
  rw [h.dataList]
  exact ha

theorem appendLogBlock_spec (hsize : 0 < size) (hworn : ok .worn) (hnone : ok .noFreeBlock)
    (hbad : ok .badAlloc) (cfg : FastConfig) (h : Core s latest) (hpool : Pool s.media (held s.own)) :
    Yields ok (s.appendLogBlock cfg) fun t =>
      Core t latest ∧ Pool t.media (held t.own) ∧ SameMaps s t ∧
        t.logPages.length = s.logPages.length + 1 := by
  refine (getFreeBlock_spec hsize hworn hnone hbad cfg.toSsdConfig .log hpool).bind fun r hr => ?_
  obtain ⟨haligned, hnew, herased, hpool', hkeeps⟩ := hr
  have hcore := (h.of_keeps hsize hkeeps).appendLog haligned herased hnew
  refine ⟨hcore, ?_, ⟨rfl, rfl, rfl, rfl, rfl, fun b a ha => ?_⟩, ?_⟩
  · have hown := own_appendLog s r.1
    have hfree : s.own (.log s.logPages.length) = none := by
      rw [own, List.getElem?_eq_none le_rfl, Option.map_none]
    have hheld := held_claim (b := r.1 / size) hfree
    rw [← hown] at hheld
    rw [← hheld] at hpool'
    exact hpool'
  · exact hkeeps.block _ (mem_held (own_data ha))
  · dsimp only
    rw [List.length_append]
    rfl

theorem initializeLogPages_spec (hsize : 0 < size) (hworn : ok .worn) (hnone : ok .noFreeBlock)
    (hbad : ok .badAlloc) (cfg : FastConfig) (h : Inv cfg s latest) :
    Yields ok (s.initializeLogPages cfg) fun t =>
      Inv cfg t latest ∧ SameMaps s t ∧ t.logPages.length = cfg.logBlockLimit ∧
        (s.logPages = [] ∨ t = s) := by
  rw [initializeLogPages]
  split_ifs with hnil
  · have hloop : Yields ok ((List.range cfg.logBlockLimit).foldlM (fun s _ => s.appendLogBlock cfg) s)
        fun t => Core t latest ∧ Pool t.media (held t.own) ∧ SameMaps s t ∧
          t.logPages.length = cfg.logBlockLimit := by
      refine Yields.foldlM_range (fun k t => Core t latest ∧ Pool t.media (held t.own) ∧
        SameMaps s t ∧ t.logPages.length = k) ?_ ?_
      · refine ⟨h.toCore, h.pool, .refl s, ?_⟩
        rw [hnil]
        rfl
      · rintro k t - ⟨hcore, hpool, hsame, hlength⟩
        refine (appendLogBlock_spec hsize hworn hnone hbad cfg hcore hpool).mono ?_
        rintro u ⟨hcore', hpool', hsame', hlength'⟩
        exact ⟨hcore', hpool', hsame.trans hsame', hlength'.trans (congrArg (· + 1) hlength)⟩
    refine hloop.mono ?_
    rintro t ⟨hcore, hpool, hsame, hlength⟩
    refine ⟨⟨hcore, hpool, Or.inr hlength, fun hb => ?_⟩, hsame, hlength, Or.inl hnil⟩
    rw [hsame.sequentialLogicalblockAddress] at hb
    rw [hsame.sequentialOffset]
    exact h.unowned hb
  · exact ⟨h, .refl s, h.length.resolve_left hnil, Or.inr rfl⟩

/-- **The oldest log block is replaced**, and its first page forgotten. -/
theorem replaceVictim_spec (hsize : 0 < size) (hworn : ok .worn) (hnone : ok .noFreeBlock)
    (hbad : ok .badAlloc) (h : Core s latest) (hpool : Pool s.media (held s.own))
    (hlimit : s.logPages.length = cfg.logBlockLimit)
    (hfull : s.logPageNext = cfg.logBlockLimit * size) (htwo : 1 < cfg.logBlockLimit)
    (hzero : (s.logPages.head?.bind fun log => log.aPages 0) = some la) :
    Yields ok (s.replaceVictim cfg) fun t =>
      Core t (Function.update latest la none) ∧ Pool t.media (held t.own) ∧
        t.logPages.length = cfg.logBlockLimit ∧
        t.logPageNext = (cfg.logBlockLimit - 1) * size ∧
        t.sequentialLogicalblockAddress = s.sequentialLogicalblockAddress ∧
        t.sequentialOffset = s.sequentialOffset ∧ (s.Placed la → t.Placed la) := by
  rw [replaceVictim]
  cases hlogs : s.logPages with
  | nil =>
    rw [hlogs] at hlimit
    exact absurd hlimit (by have := cfg.logBlockLimit_pos; simp; omega)
  | cons victim rest =>
    have hhead : s.logPages[0]? = some victim := by
      rw [hlogs, List.getElem?_cons_zero]
    rw [hlogs] at hzero
    -- first the logical blocks of the victim are merged, its slot 0 apart
    refine (randomMerge_spec hsize hworn hnone hbad cfg h hpool hlimit hhead).bind ?_
    rintro t ⟨hcore, hpool', hmerged, hsettled⟩
    have hlogs' : t.logPages = victim :: rest := hmerged.logPages.trans hlogs
    have hfull' : t.logPageNext = t.logPages.length * size := by
      rw [hmerged.logPageNext, hmerged.logPages, hlimit]
      exact hfull
    -- then it leaves the list, and the page in slot 0 is forgotten with it
    have hdropped := hcore.dropVictim hsize hlogs' hfull' hzero fun i la p a hi he hp ha =>
      hsettled _ (mem_mergeBlocks.mpr ⟨i, he.lt, la, he.page, rfl⟩) 0 i victim la p a hi he rfl hp ha
    have hown : t.own (.log 0) = some (victim.address / size) := by
      refine own_log ?_
      rw [hlogs', List.getElem?_cons_zero]
    obtain ⟨hpool₂, -⟩ := invalidateBlock_spec .log hpool' (mem_held hown)
    have hheld : held t.own \ {victim.address / size} = held ({ t with
        logPages := rest
        logPageNext := t.logPageNext - size } : Fast size π).own := by
      rw [own_dropVictim hlogs', held_comp hcore.exclusive FastOwner.later_ne
        fun _ => FastOwner.exists_later, holding_of_some hown]
    rw [hheld] at hpool₂
    have hrest := hdropped.of_flash hsize (m := t.media.invalidateBlock victim.address .log)
      (fun _ _ => rfl) fun _ _ => rfl
    have htail : t.logPages.tail = rest := by
      rw [hlogs']
      rfl
    rw [htail]
    -- a new block takes its place at the end
    refine (appendLogBlock_spec hsize hworn hnone hbad cfg hrest hpool₂).bind ?_
    rintro u ⟨hcore', hpool'', hsame, hlength⟩
    have hlength' : u.logPages.length = cfg.logBlockLimit := by
      rw [hlogs, List.length_cons] at hlimit
      exact hlength.trans hlimit
    rw [if_neg (by omega)]
    refine ⟨hcore', hpool'', hlength', ?_, ?_, ?_, fun hla => ?_⟩
    · rw [hsame.logPageNext, Nat.sub_mul, Nat.one_mul]
      exact congrArg (· - size) (hmerged.logPageNext.trans hfull)
    · exact hsame.sequentialLogicalblockAddress.trans hmerged.sequentialLogicalblockAddress
    · exact hsame.sequentialOffset.trans hmerged.sequentialOffset
    · exact hsame.placed hsize hrest (hmerged.placed la hla)

/-- **A page is appended** to the first block that has room. -/
theorem appendPage_eq (la : ℕ) {logs : List FastLog} {next n : ℕ}
    (hshape : ∀ (k : ℕ) log, logs[k]? = some log → log.numPages = min size (n - k * size))
    (hroom : n < logs.length * size) (hnext : next % size = n % size) :
    ∃ (k : ℕ) (log : FastLog), logs[k]? = some log ∧ log.numPages < size ∧
      n = k * size + log.numPages ∧
      appendPage size next la logs =
        some (logs.set k (log.push log.numPages la), log.address + log.numPages) := by
  induction logs generalizing n with
  | nil =>
    rw [List.length_nil, Nat.zero_mul] at hroom
    cases hroom
  | cons log rest ih =>
    have hhead := hshape 0 log rfl
    rw [Nat.zero_mul, Nat.sub_zero] at hhead
    rw [appendPage]
    split_ifs with hfull
    · have hge : size ≤ n := by omega
      have hmod : next % size = (n - size) % size := by
        rw [hnext, Nat.mod_eq_sub_mod hge]
      have hroom' : n - size < rest.length * size := by
        rw [List.length_cons, Nat.succ_mul] at hroom
        omega
      have hrest : ∀ (k : ℕ) log, rest[k]? = some log → log.numPages = min size (n - size - k * size) := by
        intro k log' hk
        rw [hshape (k + 1) log' hk, Nat.succ_mul, Nat.sub_sub, Nat.add_comm]
      obtain ⟨k, log', hk, hlt, hn, happ⟩ := ih hrest hroom' hmod
      refine ⟨k + 1, log', hk, hlt, ?_, ?_⟩
      · rw [Nat.succ_mul]
        omega
      · rw [happ]
        rfl
    · have hlt : n < size := by omega
      have hn : log.numPages = n := by omega
      refine ⟨0, log, rfl, hn ▸ hlt, ?_, ?_⟩
      · rw [Nat.zero_mul, Nat.zero_add, hn]
      · rw [hnext, Nat.mod_eq_of_lt hlt, hn]
        rfl

/-! ## Writes -/

variable {payload : π}

/-- The page `x` is chosen for a write: whatever blocks are erased before the write is issued, it
leads to the invariant. -/
structure Ready (ok : Halt → Prop) (cfg : FastConfig) (t : Fast size π) (x : ℕ) (payload : π)
    (latest : ℕ → Option π) : Prop where
  pool : Pool t.media (held t.own)
  issue : ∀ m, Pool m (held t.own) → Keeps t.media m (held t.own) →
    Yields ok (m.flash.write x payload) fun g => Inv cfg { t with media := ⟨g, m.bm⟩ } latest

theorem Ready.of_core (hsize : 0 < size) {t : Fast size π} {x : ℕ} (hpool : Pool t.media (held t.own))
    (hlength : t.logPages.length = cfg.logBlockLimit)
    (hunowned : t.sequentialLogicalblockAddress = none → t.sequentialOffset < size)
    (hx : x / size ∈ held t.own) (hempty : t.media.flash.stateAt x = .empty)
    (hcore : ∀ m g, Keeps t.media m (held t.own) → Written m.flash g x payload →
      Core { t with media := { m with flash := g } } latest) :
    Ready ok cfg t x payload latest := by
  refine ⟨hpool, fun m hm hkeeps => ?_⟩
  have hempty' : m.flash.stateAt x = .empty :=
    (Flash.stateAt_congr (hkeeps.block _ hx)).trans hempty
  refine (Written.of_write hsize hm.sound hempty').mono fun g hg => ?_
  refine ⟨hcore m g hkeeps hg, ?_, Or.inr hlength, hunowned⟩
  exact hm.of_flash hg.sound fun c hc => hg.other c fun heq => hc (heq ▸ hx)

theorem Placed.of_keeps (hsize : 0 < size) (h : Core s latest) {m : Media size π}
    (hkeeps : Keeps s.media m (held s.own)) (hla : s.Placed la) :
    ∃ a, s.dataList (logicalBlock size la) = some a ∧ m.flash.stateAt (a + la % size) = .valid := by
  obtain ⟨a, ha, hvalid⟩ := hla
  refine ⟨a, ha, ?_⟩
  rw [← hvalid]
  exact stateAt_page_congr (h.data _ a ha).aligned (hkeeps.block _ (mem_held (own_data ha)))
    (Nat.mod_lt la hsize)

theorem ready_data (hsize : 0 < size) (h : Core s latest) (hpool : Pool s.media (held s.own))
    (hlength : s.logPages.length = cfg.logBlockLimit)
    (hunowned : s.sequentialLogicalblockAddress = none → s.sequentialOffset < size) {a : ℕ}
    (ha : s.dataList (logicalBlock size la) = some a)
    (hempty : s.media.flash.stateAt (a + la % size) = .empty) :
    Ready ok cfg s (a + la % size) payload (Function.update latest la (some payload)) := by
  refine .of_core hsize hpool hlength hunowned ?_ hempty fun m g hkeeps hw => ?_
  · rw [Flash.page_div (h.data _ a ha).aligned (Nat.mod_lt la hsize)]
    exact mem_held (own_data ha)
  · exact (h.of_keeps hsize hkeeps).writeData hsize ha hw

theorem newSequential_spec (hsize : 0 < size) (hworn : ok .worn) (hnone : ok .noFreeBlock)
    (hbad : ok .badAlloc) (h : Core s.unowned latest) (hpool : Pool s.media (held s.unowned.own))
    (hlength : s.logPages.length = cfg.logBlockLimit) (hzero : la % size = 0) (hplaced : s.Placed la) :
    Yields ok (s.newSequential cfg (logicalBlock size la)) fun r =>
      Ready ok cfg r.1 r.2 payload (Function.update latest la (some payload)) := by
  refine (getFreeBlock_spec hsize hworn hnone hbad cfg.toSsdConfig .data hpool).bind fun r hr => ?_
  obtain ⟨address, m₁⟩ := r
  obtain ⟨haligned, hnew, herased, hpool₁, hkeeps₁⟩ := hr
  dsimp only at haligned hnew herased hpool₁ hkeeps₁
  have hcore₁ := h.of_keeps hsize hkeeps₁
  have hcore := hcore₁.newSequential (b := logicalBlock size la) rfl haligned herased hnew
  have hplaced₁ := Placed.of_keeps hsize h hkeeps₁ hplaced
  have hfree : s.unowned.own .sequential = none := rfl
  have hheld := held_claim (b := address / size) hfree
  have hown := own_newSequential ({ s.unowned with media := m₁ } : Fast size π)
    (logicalBlock size la) address
  have hpool₂ : Pool m₁ (held ({ s.unowned with
      media := m₁
      sequentialOffset := 0
      sequentialAddress := address
      sequentialLogicalblockAddress := some (logicalBlock size la) } : Fast size π).own) := by
    rw [hown]
    exact hheld.symm ▸ hpool₁
  refine .of_core hsize hpool₂ hlength nofun ?_ herased.stateAt fun m g hkeeps hw => ?_
  · exact mem_held (own_sequential rfl)
  · have hsecond := hcore.of_keeps hsize hkeeps
    have hlogged : ¬ s.Logged la := by
      intro hl
      obtain ⟨k, i, log, he⟩ := logged_iff.mp hl
      exact (h.entry he).1 hzero
    have hplaced₂ := Placed.of_keeps hsize hcore hkeeps hplaced₁
    have hw' : Written m.flash g (address + la % size) payload := by
      rw [hzero]
      exact hw
    exact hsecond.writeSequential hsize rfl hzero hlogged hplaced₂ hw'

theorem ready_log (hsize : 0 < size) (h : Core s latest) (hpool : Pool s.media (held s.own))
    (hlength : s.logPages.length = cfg.logBlockLimit)
    (hunowned : s.sequentialLogicalblockAddress = none → s.sequentialOffset < size)
    (hroom : s.logPageNext < cfg.logBlockLimit * size) (hlogged : ¬ s.Logged la)
    (howner : s.sequentialLogicalblockAddress ≠ some (logicalBlock size la)) (hoffset : la % size ≠ 0)
    (hplaced : s.Placed la) :
    Yields ok (match appendPage size s.logPageNext la s.logPages with
      | none => .error .nullNext
      | some (logPages, address) =>
        .ok (({ s with logPages, logPageNext := s.logPageNext + 1 } : Fast size π), address)) fun r =>
      Ready ok cfg r.1 r.2 payload (Function.update latest la (some payload)) := by
  obtain ⟨k, log, hk, hlt, hnext, happ⟩ :=
    appendPage_eq la h.shape (hlength.symm ▸ hroom) rfl
  rw [happ]
  have hsound := h.log k log hk
  have hdiv : (log.address + log.numPages) / size = log.address / size :=
    Flash.page_div hsound.aligned hlt
  have hklt : k < s.logPages.length := (List.getElem?_eq_some_iff.mp hk).1
  have hown : ({ s with
      logPages := s.logPages.set k (log.push log.numPages la)
      logPageNext := s.logPageNext + 1 } : Fast size π).own = s.own := own_push s hk
  refine .of_core hsize (hown.symm ▸ hpool) ?_ hunowned ?_ (hsound.unused _ le_rfl hlt)
    fun m g hkeeps hw => ?_
  · exact (List.length_set).trans hlength
  · rw [hown, hdiv]
    exact mem_held (own_log hk)
  · rw [hown] at hkeeps
    exact (h.of_keeps hsize hkeeps).writeLog hk hlt hnext hlogged howner hoffset
      (Placed.of_keeps hsize h hkeeps hplaced) hw

theorem ready_sequential (hsize : 0 < size) (h : Inv cfg s latest)
    (hlength : s.logPages.length = cfg.logBlockLimit)
    (howner : s.sequentialLogicalblockAddress = some (logicalBlock size la))
    (hoffset : la % size = s.sequentialOffset) (hlogged : ¬ s.Logged la) (hplaced : s.Placed la) :
    Ready ok cfg { s with sequentialOffset := s.sequentialOffset + 1 }
      (s.sequentialAddress + s.sequentialOffset) payload (Function.update latest la (some payload)) := by
  have hseq := h.sequential _ howner
  have haddress : s.sequentialAddress + s.sequentialOffset = s.sequentialAddress + la % size :=
    congrArg _ hoffset.symm
  rw [haddress]
  have hlt : la % size < size := Nat.mod_lt la hsize
  refine .of_core hsize h.pool hlength (fun hb => ?_) ?_ ?_ fun m g hkeeps hw => ?_
  · rw [howner] at hb
    cases hb
  · rw [Flash.page_div hseq.aligned hlt]
    exact mem_held (own_sequential howner)
  · exact hseq.unused _ hoffset.ge hlt
  · exact (h.toCore.of_keeps hsize hkeeps).writeSequential hsize howner hoffset hlogged
      (Placed.of_keeps hsize h.toCore hkeeps hplaced) hw

theorem finishSequential_spec (hsize : 0 < size) (hworn : ok .worn) (hnone : ok .noFreeBlock)
    (hbad : ok .badAlloc) (h : Inv cfg s latest) :
    Yields ok (s.finishSequential cfg) fun t => Given s t latest := by
  rw [finishSequential]
  split_ifs with hfull
  · cases hb : s.sequentialLogicalblockAddress with
    | none => exact absurd (h.unowned hb) (by omega)
    | some b => exact switchSequential_spec hsize h.toCore h.pool hb hfull
  · exact mergeSequential_spec hsize hworn hnone hbad cfg h.toCore h.pool

theorem writeToLogBlock_spec (hsize : 0 < size) (hworn : ok .worn) (hnone : ok .noFreeBlock)
    (hbad : ok .badAlloc) (h : Inv cfg s latest) (hlength : s.logPages.length = cfg.logBlockLimit)
    (hplaced : s.Placed la) (hsafe : s.LogSafe cfg la) :
    Yields ok (s.writeToLogBlock cfg la) fun r =>
      Ready ok cfg r.1 r.2 payload (Function.update latest la (some payload)) := by
  rw [writeToLogBlock]
  -- the three ways of `write_to_log_block`: a new SW block, the SW block, the RW log
  by_cases hzero : la % size = 0
  · rw [if_pos hzero]
    refine (finishSequential_spec hsize hworn hnone hbad h).bind fun t ht => ?_
    have hlength' : t.logPages.length = cfg.logBlockLimit := by
      rw [ht.merged.logPages]
      exact hlength
    exact newSequential_spec hsize hworn hnone hbad ht.core ht.pool hlength' hzero
      (ht.merged.placed la hplaced)
  · rw [if_neg hzero]
    have hsafe' := hsafe.resolve_left hzero
    by_cases howner : s.sequentialLogicalblockAddress = some (logicalBlock size la)
    · rw [if_pos howner] at hsafe' ⊢
      obtain ⟨hoffset, hlogged⟩ := hsafe'
      rw [if_pos hoffset]
      have hlt : s.sequentialOffset < size := hoffset ▸ Nat.mod_lt la hsize
      dsimp only
      rw [(h.sequential _ howner).counted, if_pos hlt]
      exact ready_sequential hsize h hlength howner hoffset hlogged hplaced
    · rw [if_neg howner] at hsafe' ⊢
      rw [makeRoom]
      by_cases hfull : s.logPageNext = cfg.logBlockLimit * size
      · rw [if_pos hfull] at hsafe' ⊢
        obtain ⟨htwo, hslot⟩ := hsafe'
        refine (replaceVictim_spec hsize hworn hnone hbad h.toCore h.pool hlength hfull htwo
          hslot).bind ?_
        rintro t ⟨hcore, hpool, hlength', hnext, howner', hoffset', hplaced'⟩
        -- the one entry of the page was in slot 0 of the victim
        have hlogged : ¬ t.Logged la := by
          intro hl
          obtain ⟨k, i, log, he⟩ := logged_iff.mp hl
          obtain ⟨-, p, hp, -⟩ := hcore.entry he
          exact (of_update_none hp).1 rfl
        have hroom : t.logPageNext < cfg.logBlockLimit * size := by
          rw [hnext]
          exact Nat.mul_lt_mul_of_pos_right (Nat.sub_lt (by omega) Nat.one_pos) hsize
        have hunowned : t.sequentialLogicalblockAddress = none → t.sequentialOffset < size := by
          rw [howner', hoffset']
          exact h.unowned
        have hlatest : Function.update (Function.update latest la none) la (some payload) =
            Function.update latest la (some payload) := Function.update_idem _ _ _
        rw [← hlatest]
        exact ready_log hsize hcore hpool hlength' hunowned hroom hlogged (howner'.symm ▸ howner)
          hzero (hplaced' hplaced)
      · rw [if_neg hfull] at hsafe' ⊢
        refine ready_log hsize h.toCore h.pool hlength h.unowned ?_ hsafe' howner hzero hplaced
        exact lt_of_le_of_ne (hlength ▸ h.room) hfull

theorem place_spec (hsize : 0 < size) (hworn : ok .worn) (hnone : ok .noFreeBlock)
    (hbad : ok .badAlloc) (h : Inv cfg s latest) (hlength : s.logPages.length = cfg.logBlockLimit)
    (hsafe : s.WriteSafe cfg la) :
    Yields ok (s.place cfg la) fun r =>
      Ready ok cfg r.1 r.2 payload (Function.update latest la (some payload)) := by
  rw [place]
  cases ha : s.dataList (logicalBlock size la) with
  | none =>
    refine (getFreeBlock_spec hsize hworn hnone hbad cfg.toSsdConfig .data h.pool).bind fun r hr => ?_
    obtain ⟨address, m₁⟩ := r
    obtain ⟨haligned, hnew, herased, hpool₁, hkeeps₁⟩ := hr
    dsimp only at haligned hnew herased hpool₁ hkeeps₁
    have hcore₁ := h.toCore.of_keeps hsize hkeeps₁
    have hfree : s.own (.data (logicalBlock size la)) = none := by
      rw [own, ha, Option.map_none]
    have hno : ∀ la' p, logicalBlock size la' = logicalBlock size la → latest la' ≠ some p := by
      intro la' p hb hp
      obtain ⟨a, ha', -⟩ := h.placed la' p hp
      rw [hb, ha] at ha'
      cases ha'
    have hclean := (Appended.of_erased haligned herased).clean
    have hnew' : address / size ∉ held (Function.update ({ s with media := m₁ } : Fast size π).own
        (.data (logicalBlock size la)) none) := by
      rw [held_release hcore₁.exclusive]
      exact fun hmem => hnew hmem.1
    have hcore := hcore₁.setData (fun _ _ hp => hp) (fun _ _ => rfl) hclean hnew'
      (fun la' p hb hp => absurd hp (hno la' p hb)) (fun la' p hb hp _ _ => absurd hp (hno la' p hb))
    have hown := own_setData s (logicalBlock size la) address
    have hpool₂ := hpool₁
    rw [← held_claim hfree, ← hown] at hpool₂
    refine ready_data hsize hcore hpool₂ hlength h.unowned (Function.update_self _ _ _) ?_
    rw [Flash.stateAt_page _ haligned (Nat.mod_lt la hsize)]
    exact herased.empty _
  | some a =>
    dsimp only
    split_ifs with hempty
    · exact ready_data hsize h.toCore h.pool hlength h.unowned ha hempty
    · have hplaced : s.Placed la := by
        refine ⟨a, ha, ?_⟩
        have hclean := (h.data _ a ha).clean _ (Nat.mod_lt la hsize)
        cases hstate : s.media.flash.stateAt (a + la % size) with
        | empty => exact absurd hstate hempty
        | valid => rfl
        | invalid => exact absurd hstate hclean
      refine writeToLogBlock_spec hsize hworn hnone hbad h hlength hplaced ?_
      exact hsafe.resolve_left fun hunplaced => hempty (hunplaced a ha)

theorem SameMaps.writeSafe (hsize : 0 < size) {t : Fast size π} (h : Inv cfg s latest)
    (ht : Inv cfg t latest) (hsame : SameMaps s t) (hnil : s.logPages = []) (hsafe : s.WriteSafe cfg la) :
    t.WriteSafe cfg la := by
  have hnext : s.logPageNext = 0 := by
    have hroom := h.room
    rw [hnil, List.length_nil, Nat.zero_mul] at hroom
    exact Nat.le_zero.mp hroom
  have hlogged : ¬ t.Logged la := by
    intro hl
    obtain ⟨k, i, log, he⟩ := logged_iff.mp hl
    have hshape := ht.shape k log he.block
    rw [hsame.logPageNext, hnext, Nat.zero_sub, Nat.min_zero] at hshape
    have hlt := he.lt
    omega
  have hroom : ¬ s.logPageNext = cfg.logBlockLimit * size := by
    rw [hnext]
    exact (Nat.mul_pos cfg.logBlockLimit_pos hsize).ne
  rcases hsafe with hunplaced | hzero | hlog
  · refine Or.inl fun a ha => ?_
    rw [hsame.dataList] at ha
    rw [hsame.stateAt hsize h.toCore ha la]
    exact hunplaced a ha
  · exact Or.inr (Or.inl hzero)
  · refine Or.inr (Or.inr ?_)
    rw [hsame.sequentialLogicalblockAddress, hsame.sequentialOffset, hsame.logPageNext]
    by_cases howner : s.sequentialLogicalblockAddress = some (logicalBlock size la)
    · rw [if_pos howner] at hlog ⊢
      exact ⟨hlog.1, hlogged⟩
    · rw [if_neg howner, if_neg hroom]
      exact hlogged

theorem write_spec (hsize : 0 < size) (hworn : ok .worn) (hnone : ok .noFreeBlock)
    (hbad : ok .badAlloc) (harray : ok .outOfArray) (h : Inv cfg s latest)
    (hsafe : s.WriteSafe cfg la) :
    Yields ok (s.write cfg la payload) fun t =>
      Inv cfg t (Function.update latest la (some payload)) := by
  rw [write]
  split_ifs
  · exact harray
  · refine (initializeLogPages_spec hsize hworn hnone hbad cfg h).bind ?_
    rintro t ⟨hinv, hsame, hlength, hcases⟩
    have hsafe' : t.WriteSafe cfg la := by
      rcases hcases with hnil | rfl
      · exact hsame.writeSafe hsize h hinv hnil hsafe
      · exact hsafe
    have hplace : Yields ok (t.place cfg la) fun r =>
        Ready ok cfg r.1 r.2 payload (Function.update latest la (some payload)) :=
      place_spec hsize hworn hnone hbad hinv hlength hsafe'
    refine hplace.bind fun r hr => ?_
    refine (insertEvents_spec hworn cfg.toSsdConfig hr.pool).bind fun m hm => ?_
    exact (hr.issue m hm.1 hm.2).bind fun g hg => hg

theorem read_spec (hsize : 0 < size) (hworn : ok .worn) (hnone : ok .noFreeBlock)
    (hbad : ok .badAlloc) (harray : ok .outOfArray) (h : Inv cfg s latest) :
    Yields ok (s.read cfg la) fun t => Inv cfg t latest := by
  rw [read]
  split_ifs
  · exact harray
  · exact (initializeLogPages_spec hsize hworn hnone hbad cfg h).mono fun _ ht => ht.1

/-! ## Runs -/

/-- **At start-up** nothing was written and all blocks are fresh. -/
theorem inv_new (hsize : 0 < size) (cfg : FastConfig) (erases : ℕ) (junk : ℕ → π) :
    Inv cfg (new erases junk : Fast size π) fun _ => none := by
  have hown : ∀ o, (new erases junk : Fast size π).own o = none := by
    rintro (b | - | k) <;> rfl
  have hheld : held (new erases junk : Fast size π).own = ∅ := by
    ext b
    simp [held, hown]
  refine ⟨⟨fun o o' b ho => ?_, nofun, nofun, nofun, nofun, Nat.zero_le _, fun k k' i i' log log' la he =>
    ?_, nofun, fun la hla => ?_, nofun, nofun⟩, ?_, Or.inl rfl, fun _ => hsize⟩
  · rw [hown] at ho
    cases ho
  · cases he.block
  · cases hla.1
  · rw [hheld]
    exact pool_new erases junk

theorem serveAll_spec (hsize : 0 < size) (hworn : ok .worn) (hnone : ok .noFreeBlock)
    (hbad : ok .badAlloc) (harray : ok .outOfArray) (rs : List (FastRequest π)) (h : Inv cfg s latest)
    (hsafe : RunSafe cfg s rs) :
    Yields ok (s.serveAll cfg rs) fun t => Inv cfg t (rs.foldl remember latest) := by
  refine Yields.foldlM_along_record (fun latest t => Inv cfg t latest) ?_ h hsafe
  rintro latest s r hs hr
  cases r with
  | read la => exact read_spec hsize hworn hnone hbad harray hs
  | write la payload => exact write_spec hsize hworn hnone hbad harray hs hr
  | trim la => exact hr.elim

end Fast

/-- **Reads find the latest writes** along every run of safe writes, and no page is written twice. -/
theorem fast_reads_latest {π : Type} (cfg : FastConfig) (erases : ℕ) (junk : ℕ → π)
    (rs : List (FastRequest π))
    (hsafe : Fast.RunSafe cfg (Fast.new erases junk : Fast cfg.blockSize π) rs) :
    Yields (fun e => e ≠ .notEmpty ∧ e ≠ .badAddress ∧ e ≠ .wildAccess ∧ e ≠ .nullNext)
      (Fast.serveAll cfg (Fast.new erases junk : Fast cfg.blockSize π) rs) fun s =>
      ∀ la p, Fast.latestWrite rs la = some p → s.media.flash.Holds (s.readAddress la) p := by
  have hinv := Fast.inv_new cfg.blockSize_pos cfg erases junk
  refine (Fast.serveAll_spec cfg.blockSize_pos ⟨nofun, nofun, nofun, nofun⟩
    ⟨nofun, nofun, nofun, nofun⟩ ⟨nofun, nofun, nofun, nofun⟩ ⟨nofun, nofun, nofun, nofun⟩ rs hinv
    hsafe).mono fun s hs la p hp => hs.read hp

/-- Two RW log blocks of two pages each, and a device with twelve blocks. -/
def smallFast : FastConfig := ⟨⟨2, 12, 12, fun _ => true, Nat.two_pos⟩, 2, Nat.two_pos⟩

/-- Writes that fill the RW log, merge its oldest block, and switch and merge SW blocks. -/
def safeRequests : List (FastRequest ℕ) :=
  [.write 1 10, .write 3 11, .write 5 12, .write 7 13, .write 1 14, .write 3 15, .write 5 16,
    .write 7 17, .read 7, .write 1 18, .write 8 19, .write 9 20, .write 8 21, .write 9 22,
    .write 10 23, .write 10 24, .write 8 25]

theorem fast_reads_latest_safeRequests :
    ∃ s, Fast.serveAll smallFast (Fast.new 9 id : Fast 2 ℕ) safeRequests = .ok s ∧
      s.media.flash.Holds (s.readAddress 1) 18 ∧ s.media.flash.Holds (s.readAddress 8) 25 := by
  have hlatest := fast_reads_latest smallFast 9 id safeRequests (by decide)
  have hrun : ∃ s, Fast.serveAll smallFast (Fast.new 9 id : Fast 2 ℕ) safeRequests = .ok s := ⟨_, rfl⟩
  obtain ⟨s, hs⟩ := hrun
  have h := hlatest.of_ok hs
  exact ⟨s, hs, h 1 18 rfl, h 8 25 rfl⟩

/-- **A stale read**: the RW log is searched from its oldest page. -/
theorem fast_stale_read :
    ∃ s, Fast.serveAll smallFast (Fast.new 9 id : Fast 2 ℕ)
        [.write 1 10, .write 1 11, .write 1 12] = .ok s ∧
      Fast.latestWrite [.write 1 10, .write 1 11, .write 1 12] 1 = some 12 ∧
      s.media.flash.Holds (s.readAddress 1) 11 ∧ ¬ s.media.flash.Holds (s.readAddress 1) 12 := by
  refine ⟨_, rfl, rfl, ⟨rfl, rfl⟩, fun h => ?_⟩
  have hdata : (11 : ℕ) = 12 := h.data
  cases hdata

end ZnsFlash
