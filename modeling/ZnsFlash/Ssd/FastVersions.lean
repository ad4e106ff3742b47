import ZnsFlash.Ssd.FastHoldings
import ZnsFlash.Ssd.FastRandomMerge

/-!
# What random merges keep

`FtlImpl_Fast::random_merge` for any contents of the RW log: a page may be there several times.

* `Thinned.entry`, `Thinned.kept`, `Thinned.trans`: the log that a merge leaves;
* `Fast.Round`, **`mergeVictim_round`**: a logical block is merged;
* `Fast.Rounds`, **`randomMerge_rounds`**: all logical blocks of a log block are.
-/

namespace ZnsFlash

open Holdings

variable {size : ℕ} {π : Type} {ok : Halt → Prop}

namespace Fast

/-! ## The log that a merge leaves -/

section Thinned

variable {logs logs' logs'' : List FastLog} {B B' : Set ℕ} {k i la : ℕ} {log log' : FastLog}

theorem Thinned.entry (h : Thinned size logs logs' B) (he : Entry logs' k i log' la) :
    ∃ log, Entry logs k i log la ∧ log'.address = log.address := by
  obtain ⟨log, hk, haddress, hpages, hrest⟩ := h.block k log' he.block
  refine ⟨log, ⟨hk, hpages ▸ he.lt, ?_⟩, haddress⟩
  rcases hrest i with hsame | ⟨hnone, -⟩
  · rw [← hsame]
    exact he.page
  · rw [he.page] at hnone
    cases hnone

theorem Thinned.kept (h : Thinned size logs logs' B) (he : Entry logs k i log la)
    (hlast : logicalBlock size la ∈ B → ¬ Superseded logs (k, i)) :
    ∃ log', Entry logs' k i log' la ∧ log'.address = log.address := by
  have hklt : k < logs'.length := by
    rw [h.length]
    exact (List.getElem?_eq_some_iff.mp he.block).1
  have hk' : logs'[k]? = some logs'[k] := List.getElem?_eq_getElem hklt
  obtain ⟨log₀, h₀, haddress, hpages, hrest⟩ := h.block k _ hk'
  obtain rfl := Option.some.inj (he.block.symm.trans h₀)
  refine ⟨_, ⟨hk', hpages ▸ he.lt, ?_⟩, haddress⟩
  rcases hrest i with hsame | ⟨-, ⟨la', hla', hb⟩, hnewer⟩
  · rw [hsame]
    exact he.page
  · obtain rfl := Option.some.inj (he.page.symm.trans hla')
    exact absurd hnewer (hlast hb)

theorem Superseded.of_thinned (h : Thinned size logs logs' B) {slot : ℕ × ℕ}
    (hslot : Superseded logs' slot) : Superseded logs slot := by
  obtain ⟨la, hla, k, i, log', he, hnewer⟩ := hslot
  obtain ⟨log, he', -⟩ := h.entry he
  obtain ⟨log₁, h₁, hpage₁⟩ := Option.bind_eq_some_iff.mp hla
  obtain ⟨log₀, h₀, -, -, hrest⟩ := h.block slot.1 log₁ h₁
  refine ⟨la, ?_, k, i, log, he', hnewer⟩
  rw [slotPage, h₀, Option.bind_some]
  rcases hrest slot.2 with hsame | ⟨hnone, -⟩
  · rw [← hsame]
    exact hpage₁
  · rw [hpage₁] at hnone
    cases hnone

theorem Thinned.trans (h : Thinned size logs logs' B) (h' : Thinned size logs' logs'' B') :
    Thinned size logs logs'' (B ∪ B') := by
  refine ⟨h'.length.trans h.length, fun k log'' hk'' => ?_⟩
  obtain ⟨log', hk', haddress', hpages', hrest'⟩ := h'.block k log'' hk''
  obtain ⟨log, hk, haddress, hpages, hrest⟩ := h.block k log' hk'
  refine ⟨log, hk, haddress'.trans haddress, hpages'.trans hpages, fun i => ?_⟩
  rcases hrest' i with hsame' | ⟨hnone', ⟨la, hla, hb⟩, hnewer⟩
  · rw [hsame']
    exact (hrest i).imp_right fun ⟨hnone, ⟨la, hla, hb⟩, hnewer⟩ =>
      ⟨hnone, ⟨la, hla, Or.inl hb⟩, hnewer⟩
  · refine Or.inr ⟨hnone', ⟨la, ?_, Or.inr hb⟩, hnewer.of_thinned h⟩
    rcases hrest i with hsame | ⟨hnone, -⟩
    · rw [← hsame]
      exact hla
    · rw [hla] at hnone
      cases hnone

theorem Thinned.mono (h : Thinned size logs logs' B) (hsub : B ⊆ B') : Thinned size logs logs' B' := by
  refine ⟨h.length, fun k log' hk' => ?_⟩
  obtain ⟨log, hk, haddress, hpages, hrest⟩ := h.block k log' hk'
  exact ⟨log, hk, haddress, hpages, fun i => (hrest i).imp_right fun ⟨hnone, ⟨la, hla, hb⟩, hnewer⟩ =>
    ⟨hnone, ⟨la, hla, hsub hb⟩, hnewer⟩⟩

theorem Thinned.getElem?_eq_none (h : Thinned size logs logs' B) {k : ℕ} (hk' : logs'[k]? = none) :
    logs[k]? = none := by
  have hle := List.getElem?_eq_none_iff.mp hk'
  rw [h.length] at hle
  exact List.getElem?_eq_none hle

theorem Thinned.map_eq {β : Type} (h : Thinned size logs logs' B) (f : FastLog → β)
    (hf : ∀ log log' : FastLog, log'.address = log.address → log'.numPages = log.numPages →
      f log' = f log) (k : ℕ) : logs'[k]?.map f = logs[k]?.map f := by
  cases hk' : logs'[k]? with
  | none => rw [h.getElem?_eq_none hk']
  | some log' =>
    obtain ⟨log, hk, haddress, hpages, -⟩ := h.block k log' hk'
    rw [hk, Option.map_some, Option.map_some, hf log log' haddress hpages]

theorem Thinned.addresses (h : Thinned size logs logs' B) :
    logs'.map FastLog.address = logs.map FastLog.address := by
  refine List.ext_getElem? fun k => ?_
  rw [List.getElem?_map, List.getElem?_map]
  exact h.map_eq _ (fun _ _ haddress _ => haddress) k

theorem Thinned.visits (h : Thinned size logs logs' B) (limit : ℕ) :
    visits limit logs' = visits limit logs := by
  have hpages : ∀ k : ℕ, logs'[k]?.map FastLog.numPages = logs[k]?.map FastLog.numPages :=
    h.map_eq _ fun _ _ _ hpages => hpages
  simp only [Fast.visits, hpages]

theorem Thinned.slotAddress (h : Thinned size logs logs' B) (slot : ℕ × ℕ) :
    slotAddress logs' slot = slotAddress logs slot := by
  rw [Fast.slotAddress, Fast.slotAddress, h.map_eq _ fun _ _ haddress _ => haddress]

theorem Thinned.isFor (h : Thinned size logs logs' B) {b : ℕ} (hb : b ∉ B) (o : ℕ) :
    isFor size logs' b o = isFor size logs b o := by
  funext slot
  have hiff : (∃ la, slotPage logs' slot = some la ∧ logicalBlock size la = b ∧ la % size = o) ↔
      ∃ la, slotPage logs slot = some la ∧ logicalBlock size la = b ∧ la % size = o := by
    refine exists_congr fun la => and_congr_left fun hla => ?_
    rw [slotPage, slotPage]
    cases hk' : logs'[slot.1]? with
    | none => rw [h.getElem?_eq_none hk']
    | some log' =>
      obtain ⟨log, hk, -, -, hrest⟩ := h.block slot.1 log' hk'
      rw [hk, Option.bind_some, Option.bind_some]
      rcases hrest slot.2 with hsame | ⟨hnone, ⟨la', hla', hb'⟩, -⟩
      · rw [hsame]
      · rw [hnone, hla']
        refine iff_of_false (fun heq => ?_) fun heq => hb ?_
        · cases heq
        · rw [Option.some.inj heq, hla.1] at hb'
          exact hb'
  exact Bool.eq_iff_iff.mpr (isFor_iff.trans (hiff.trans isFor_iff.symm))

theorem Thinned.slotSource (h : Thinned size logs logs' B) {b : ℕ} (hb : b ∉ B) (limit : ℕ) :
    slotSource size logs' b (Fast.visits limit logs') = slotSource size logs b (Fast.visits limit logs) := by
  funext o
  rw [Fast.slotSource, Fast.slotSource, firstSlot, firstSlot, h.visits, h.isFor hb]
  exact congrArg (fun f => Option.map f _) (funext h.slotAddress)

end Thinned

/-! ## One logical block -/

section Round

variable {s t u : Fast size π} {limit b a address : ℕ}

/-- **A logical block was merged** from its data block at `a` and the log. -/
structure Round (s t : Fast size π) (limit b a : ℕ) : Prop where
  housed : Housed t
  thinned : Thinned size s.logPages t.logPages {b}
  same : SameSequential s t
  block : ∀ c ∈ held s.own, t.media.flash.block c = s.media.flash.block c
  pageData : ∀ x, x / size ∈ held s.own → t.media.flash.pageData x = s.media.flash.pageData x
  merged : ∃ address, t.dataList = Function.update s.dataList b (some address) ∧
    Filled s.media.flash t.media.flash address (mergedSource s limit b a)

theorem Housed.setLogs (h : Housed s) {logs : List FastLog}
    (haddresses : logs.map FastLog.address = s.logPages.map FastLog.address)
    (hmem : ∀ log' ∈ logs, ∃ log ∈ s.logPages, log'.address = log.address ∧
      log'.numPages = log.numPages ∧ ∀ i, log'.aPages i = log.aPages i ∨ log'.aPages i = none) :
    Housed { s with logPages := logs } := by
  have hown : ({ s with logPages := logs } : Fast size π).own = s.own :=
    own_congr rfl rfl rfl haddresses
  refine ⟨hown.symm ▸ h.exclusive, hown.symm ▸ h.pool, h.data, h.sequential, fun log' hlog' => ?_,
    fun log' hlog' i la hpage => ?_⟩
  · obtain ⟨log, hlog, haddress, hpages, -⟩ := hmem log' hlog'
    rw [haddress, hpages]
    exact h.log log hlog
  · obtain ⟨log, hlog, -, -, hrest⟩ := hmem log' hlog'
    refine h.placed log hlog i la ?_
    rcases hrest i with hsame | hnone
    · rw [← hsame]
      exact hpage
    · rw [hpage] at hnone
      cases hnone

theorem Thinned.mem {logs logs' : List FastLog} {B : Set ℕ} (h : Thinned size logs logs' B) :
    ∀ log' ∈ logs', ∃ log ∈ logs, log'.address = log.address ∧ log'.numPages = log.numPages ∧
      ∀ i, log'.aPages i = log.aPages i ∨ log'.aPages i = none := by
  intro log' hlog'
  obtain ⟨k, hk'⟩ := List.getElem?_of_mem hlog'
  obtain ⟨log, hk, haddress, hpages, hrest⟩ := h.block k log' hk'
  exact ⟨log, List.mem_of_getElem? hk, haddress, hpages, fun i => (hrest i).imp_right And.left⟩

theorem Housed.located (h : Housed s) : Located s := by
  refine ⟨fun {b a i} ha hi => ?_, fun {k i log} hk hi => ?_⟩
  · rw [Flash.page_div (h.data b a ha) hi]
    exact own_data ha
  · obtain ⟨haligned, hfull⟩ := h.log log (List.mem_of_getElem? hk)
    rw [Flash.page_div haligned (hi.trans_le hfull)]
    exact own_log hk

/-- **A round of `random_merge`** with the maps that it leaves. -/
theorem mergeVictim_round (hsize : 0 < size) (hworn : ok .worn) (hnone : ok .noFreeBlock)
    (hbad : ok .badAlloc) (cfg : FastConfig) (h : Housed s)
    (hlimit : s.logPages.length = cfg.logBlockLimit) (ha : s.dataList b = some a) :
    Yields ok (s.mergeVictim cfg b) fun t => Round s t cfg.logBlockLimit b a := by
  refine (mergeVictim_rebuilt hsize hworn hnone hbad cfg h.located h.pool hlimit ha).mono ?_
  rintro t ⟨address, hr⟩
  have hnew : address / size ∉ held (Function.update s.own (.data b) none) := by
    rw [held_release h.exclusive]
    exact fun hmem => hr.fresh hmem.1
  have hhoused : Housed t := by
    rw [hr.eq]
    exact (h.setData hr.aligned hnew hr.pool).setLogs hr.thinned.addresses hr.thinned.mem
  have hsame : SameSequential s t := by
    rw [hr.eq]
    exact ⟨rfl, rfl, rfl, rfl⟩
  have hdata : t.dataList = Function.update s.dataList b (some address) := by rw [hr.eq]
  exact ⟨hhoused, hr.thinned, hsame, hr.block, hr.pageData, address, hdata, hr.filled⟩

end Round

/-! ## All logical blocks of a log block -/

section Rounds

variable {s t u : Fast size π} {limit b a o x : ℕ} {pre : List ℕ}

/-- **The logical blocks `pre` were merged**, starting from `s`. -/
structure Rounds (s t : Fast size π) (limit : ℕ) (pre : List ℕ) : Prop where
  housed : Housed t
  thinned : Thinned size s.logPages t.logPages {b | b ∈ pre}
  same : SameSequential s t
  rest : ∀ b ∉ pre, t.dataList b = s.dataList b
  block : ∀ o c, s.own o = some c → (∀ b ∈ pre, o ≠ .data b) →
    t.media.flash.block c = s.media.flash.block c
  pageData : ∀ o x, s.own o = some (x / size) → (∀ b ∈ pre, o ≠ .data b) →
    t.media.flash.pageData x = s.media.flash.pageData x
  merged : ∀ b ∈ pre, ∀ a, s.dataList b = some a → ∃ address, t.dataList b = some address ∧
    Filled s.media.flash t.media.flash address (mergedSource s limit b a)

theorem Rounds.refl (h : Housed s) (limit : ℕ) : Rounds s s limit [] :=
  ⟨h, .refl size s.logPages _, ⟨rfl, rfl, rfl, rfl⟩, fun _ _ => rfl, fun _ _ _ _ => rfl,
    fun _ _ _ _ => rfl, nofun⟩

theorem Rounds.own_eq (h : Rounds s t limit pre) {owner : FastOwner}
    (hpre : ∀ b ∈ pre, owner ≠ .data b) : t.own owner = s.own owner := by
  cases owner with
  | data b =>
    have hb : b ∉ pre := fun hb => hpre b hb rfl
    rw [own, own, h.rest b hb]
  | sequential => rw [own, own, h.same.owner, h.same.address]
  | log k =>
    exact h.thinned.map_eq _ (fun log log' haddress _ => congrArg (· / size) haddress) k

theorem own_of_mergedSource (hs : Housed s) (ha : s.dataList b = some a) (ho : o < size)
    (hx : mergedSource s limit b a o = some x) : ∃ owner, s.own owner = some (x / size) ∧
      (owner = .data b ∨ ∃ k, owner = .log k) := by
  cases hslot : slotSource size s.logPages b (visits limit s.logPages) o with
  | none =>
    rw [mergedSource, dataSource_of_none hslot] at hx
    split_ifs at hx
    obtain rfl := Option.some.inj hx
    exact ⟨_, hs.located.data ha ho, Or.inl rfl⟩
  | some y =>
    rw [mergedSource, dataSource_of_some hslot] at hx
    obtain rfl := Option.some.inj hx
    obtain ⟨slot, hfirst, rfl⟩ := Option.map_eq_some_iff.mp hslot
    have hvisit : (slot.1, slot.2) ∈ visits limit s.logPages := List.mem_of_find?_eq_some hfirst
    obtain ⟨la, hla, -, -⟩ := isFor_iff.mp (List.find?_some hfirst)
    obtain ⟨log, hk, -⟩ := Option.bind_eq_some_iff.mp hla
    have hlt := (mem_visits.mp hvisit).2.2
    rw [hk] at hlt
    refine ⟨.log slot.1, ?_, Or.inr ⟨slot.1, rfl⟩⟩
    rw [← Prod.mk.eta (p := slot), slotAddress_eq hk]
    exact hs.located.log hk hlt

/-- **The sources are the same** as before the other merges. -/
theorem Rounds.mergedSource_eq (hs : Housed s) (h : Rounds s t limit pre) (hb : b ∉ pre)
    (ha : s.dataList b = some a) (ho : o < size) :
    mergedSource t limit b a o = mergedSource s limit b a o := by
  have hdata : ∀ b' ∈ pre, FastOwner.data b ≠ .data b' := fun b' hb' heq =>
    hb (FastOwner.data.inj heq ▸ hb')
  have hstate : t.media.flash.stateAt (a + o) = s.media.flash.stateAt (a + o) :=
    Flash.stateAt_congr (h.block _ _ (hs.located.data ha ho) hdata)
  have hslot := congrFun (h.thinned.slotSource hb limit) o
  rw [mergedSource, mergedSource, dataSource, dataSource, hslot, hstate]

theorem Rounds.next (hs : Housed s) (h : Rounds s t limit pre) (hb : b ∉ pre)
    (ha : s.dataList b = some a) (hround : Round t u limit b a) : Rounds s u limit (pre ++ [b]) := by
  obtain ⟨address, hlist, hfilled⟩ := hround.merged
  have hself : u.dataList b = some address := by rw [hlist, Function.update_self]
  have hne : ∀ b' ≠ b, u.dataList b' = t.dataList b' := fun b' hb' => by
    rw [hlist, Function.update_of_ne hb']
  have hpre : ∀ owner : FastOwner, (∀ b' ∈ pre ++ [b], owner ≠ .data b') → ∀ b' ∈ pre, owner ≠ .data b' :=
    fun owner hall b' hb' => hall b' (List.mem_append_left _ hb')
  -- owners that no round touches have kept their blocks, so the last round sees what the first saw
  have hheld : ∀ owner c, s.own owner = some c → (∀ b' ∈ pre, owner ≠ .data b') → c ∈ held t.own :=
    fun owner c hown hall => mem_held ((h.own_eq hall).trans hown)
  refine ⟨hround.housed, ?_, ?_, fun b' hb' => ?_, fun owner c hown hall => ?_,
    fun owner y hown hall => ?_, fun b' hb' a' ha' => ?_⟩
  · refine (h.thinned.trans hround.thinned).mono ?_
    rintro b' (hb' | rfl)
    · exact List.mem_append_left _ hb'
    · exact List.mem_append_right _ (List.mem_singleton_self _)
  · obtain ⟨hoffset, haddress, howner, hnext⟩ := hround.same
    exact ⟨hoffset.trans h.same.offset, haddress.trans h.same.address, howner.trans h.same.owner,
      hnext.trans h.same.next⟩
  · have hb'' : b' ≠ b := by
      rintro rfl
      exact hb' (List.mem_append_right _ (List.mem_singleton_self _))
    exact (hne b' hb'').trans (h.rest b' fun hmem => hb' (List.mem_append_left _ hmem))
  · exact (hround.block c (hheld owner c hown (hpre owner hall))).trans
      (h.block owner c hown (hpre owner hall))
  · exact (hround.pageData y (hheld owner _ hown (hpre owner hall))).trans
      (h.pageData owner y hown (hpre owner hall))
  -- the block merged last, and those merged before it
  · by_cases hbb : b' = b
    · subst hbb
      obtain rfl := Option.some.inj (ha.symm.trans ha')
      refine ⟨address, hself, fun o ho hnone => hfilled.empty o ho ?_, fun o ho x hx => ?_⟩
      · exact (h.mergedSource_eq hs hb ha ho).trans hnone
      · have hholds := hfilled.holds o ho x ((h.mergedSource_eq hs hb ha ho).trans hx)
        obtain ⟨owner, hown, hcases⟩ := own_of_mergedSource hs ha ho hx
        have hall : ∀ b₁ ∈ pre, owner ≠ .data b₁ := by
          rcases hcases with rfl | ⟨k, rfl⟩
          · exact fun b₁ hb₁ heq => hb (FastOwner.data.inj heq ▸ hb₁)
          · exact fun _ _ => nofun
        rw [← h.pageData owner x hown hall]
        exact hholds
    · have hmem := (List.mem_append.mp hb').resolve_right fun hb' => hbb (List.mem_singleton.mp hb')
      obtain ⟨address', hlist', hfilled'⟩ := h.merged b' hmem a' ha'
      have hpage : ∀ o < size, (address' + o) / size ∈ held t.own := fun o ho =>
        mem_held (h.housed.located.data hlist' ho)
      refine ⟨address', (hne b' hbb).trans hlist', fun o ho hnone => ?_, fun o ho x hx => ?_⟩
      · rw [Flash.stateAt_congr (hround.block _ (hpage o ho))]
        exact hfilled'.empty o ho hnone
      · exact (hfilled'.holds o ho x hx).congr (hround.block _ (hpage o ho))
          (hround.pageData _ (hpage o ho))

/-- **`random_merge`** merges each logical block that the log block has pages of. -/
theorem randomMerge_rounds (hsize : 0 < size) (hworn : ok .worn) (hnone : ok .noFreeBlock)
    (hbad : ok .badAlloc) (cfg : FastConfig) (h : Housed s)
    (hlimit : s.logPages.length = cfg.logBlockLimit) {victim : FastLog}
    (hvictim : victim ∈ s.logPages) :
    Yields ok (s.randomMerge cfg victim) fun t =>
      Rounds s t cfg.logBlockLimit (mergeBlocks size victim) := by
  refine Yields.foldlM_list (fun pre t => Rounds s t cfg.logBlockLimit pre) (.refl h _) ?_
  intro pre b post t hsplit ht
  have hnodup : (mergeBlocks size victim).Nodup :=
    (List.perm_insertionSort _ _).nodup_iff.mpr (List.nodup_dedup _)
  have hmem : b ∈ mergeBlocks size victim := by
    rw [hsplit]
    exact List.mem_append_right _ List.mem_cons_self
  rw [hsplit, List.nodup_append] at hnodup
  have hb : b ∉ pre := fun hpre => hnodup.2.2 b hpre b List.mem_cons_self rfl
  obtain ⟨i, -, la, hpage, rfl⟩ := mem_mergeBlocks.mp hmem
  obtain ⟨a, ha⟩ := h.placed victim hvictim i la hpage
  have hlimit' : t.logPages.length = cfg.logBlockLimit := ht.thinned.length.trans hlimit
  exact (mergeVictim_round hsize hworn hnone hbad cfg ht.housed hlimit'
    ((ht.rest _ hb).trans ha)).mono fun u hu => ht.next h hb ha hu

end Rounds

end Fast

end ZnsFlash
