import ZnsFlash.Ssd.BastState

/-!
# The merges of BAST

* `Copied`, `mergePages_spec`: the loop that copies the valid pages of a logical block;
* **`Inv.remapped`**: a new data block takes the place of the log block and the old data block;
* `switchMerge_spec`, `randomMerge_spec`, **`mergeLogBlock_spec`**: a merge or a switch keeps the
  invariant, and the log block is gone.
-/

namespace ZnsFlash

open Holdings

namespace Bast

variable {size : ℕ} {π : Type}

/-! ## The loop of a merge -/

section Merge

variable {f f₀ : Flash size π} {source : ℕ → Option ℕ} {new k : ℕ} {ok : Halt → Prop}

/-- The pages before `k` are copied, the others wait. -/
structure Copied (f₀ : Flash size π) (source : ℕ → Option ℕ) (new k : ℕ) (f : Flash size π) :
    Prop where
  sound : f.Sound
  other : ∀ c, c ≠ new / size → (∀ i < size, ∀ a, source i = some a → a / size ≠ c) →
    f.block c = f₀.block c
  data : ∀ x, x / size ≠ new / size → f.pageData x = f₀.pageData x
  copied : ∀ i < k, ∀ a p, source i = some a → f₀.Holds a p → f.Holds (new + i) p
  fresh : ∀ i, k ≤ i → i < size → f.stateAt (new + i) = .empty
  waiting : ∀ i, k ≤ i → i < size → ∀ a, source i = some a → f.stateAt a = f₀.stateAt a

/-- Every page has its own source, outside the new block. -/
structure Sources (size : ℕ) (source : ℕ → Option ℕ) (new : ℕ) : Prop where
  aligned : new = new / size * size
  apart : ∀ i < size, ∀ a, source i = some a → a / size ≠ new / size
  injective : ∀ i < size, ∀ i' < size, ∀ a, source i = some a → source i' = some a → i = i'

theorem Copied.skip (h : Copied f₀ source new k f)
    (hno : ∀ a p, source k = some a → ¬ f₀.Holds a p) : Copied f₀ source new (k + 1) f := by
  refine ⟨h.sound, h.other, h.data, fun i hi a p ha hp => ?_, fun i hi => h.fresh i (by omega),
    fun i hi => h.waiting i (by omega)⟩
  by_cases hik : i = k
  · subst hik
    exact absurd hp (hno a p ha)
  · exact h.copied i (by omega) a p ha hp

theorem Copied.copy (hsize : 0 < size) (hsource : Sources size source new) (hk : k < size)
    (h : Copied f₀ source new k f) {a : ℕ} (hsrc : source k = some a) :
    Yields ok (f.write (new + k) (f.pageData a)) fun g =>
      Copied f₀ source new (k + 1) (g.invalidate a) := by
  have hdiv : (new + k) / size = new / size := Flash.page_div hsource.aligned hk
  have haway : a / size ≠ new / size := hsource.apart k hk a hsrc
  refine (Written.of_write hsize h.sound (h.fresh k le_rfl hk)).mono fun g hg => ?_
  obtain ⟨hsound', hstate', hdata', -, hother'⟩ := Flash.invalidate_spec hsize hg.sound a
  have hpage : ∀ i < size, new + i ≠ a := fun i hi heq =>
    haway (heq ▸ Flash.page_div hsource.aligned hi)
  have hkeep : ∀ i < size, ∀ p, g.Holds (new + i) p → (g.invalidate a).Holds (new + i) p := by
    intro i hi p hp
    refine ⟨?_, (congrFun hdata' _).trans hp.data⟩
    rw [hstate', Function.update_of_ne (hpage i hi)]
    exact hp.valid
  refine ⟨hsound', fun c hc hcs => ?_, fun x hx => ?_, fun i hi a' p ha' hp => ?_,
    fun i hi hlt => ?_, fun i hi hlt a' ha' => ?_⟩
  · rw [hother' c fun heq => hcs k hk a hsrc heq.symm, hg.other c (hdiv.symm ▸ hc)]
    exact h.other c hc hcs
  · have hne : x ≠ new + k := fun heq => hx (heq ▸ hdiv)
    rw [hdata', hg.data, Function.update_of_ne hne]
    exact h.data x hx
  · have hi' : i < size := by omega
    by_cases hik : i = k
    · subst hik
      rw [hsrc] at ha'
      obtain rfl := Option.some.inj ha'
      rw [← hp.data, ← h.data a haway]
      exact hkeep i hi' _ hg.holds_self
    · exact hkeep i hi' p (hg.holds (h.copied i (by omega) a' p ha' hp))
  · have hne : new + i ≠ new + k := by omega
    rw [hstate', Function.update_of_ne (hpage i hlt), hg.state, Function.update_of_ne hne]
    exact h.fresh i (by omega) hlt
  · have hne : a' ≠ a := by
      rintro rfl
      have hik := hsource.injective i hlt k hk a' ha' hsrc
      omega
    have hne' : a' ≠ new + k := fun heq => hsource.apart i hlt a' ha' (heq ▸ hdiv)
    rw [hstate', Function.update_of_ne hne, hg.state, Function.update_of_ne hne']
    exact h.waiting i (by omega) hlt a' ha'

theorem mergePage_spec (hsize : 0 < size) (hsource : Sources size source new) (hk : k < size)
    (h : Copied f₀ source new k f) :
    Yields ok (mergePage source new f k) (Copied f₀ source new (k + 1)) := by
  rw [mergePage]
  cases hsrc : source k with
  | none =>
    refine h.skip fun a p ha => ?_
    rw [hsrc] at ha
    cases ha
  | some a =>
    dsimp only
    split_ifs with hstate
    · refine h.skip fun a' p ha' hp => ?_
      rw [hsrc] at ha'
      obtain rfl := Option.some.inj ha'
      rw [h.waiting k le_rfl hk a hsrc, hp.valid] at hstate
      rcases hstate with hstate | hstate <;> cases hstate
    · exact (h.copy hsize hsource hk hsrc).bind fun g hg => hg

/-- **The merge loop** copies every valid source page into an erased block. -/
theorem mergePages_spec (hsize : 0 < size) (hsource : Sources size source new) (hsound : f₀.Sound)
    (hnew : f₀.Erased (new / size)) :
    Yields ok ((List.range size).foldlM (mergePage source new) f₀) (Copied f₀ source new size) := by
  refine Yields.foldlM_range (Copied f₀ source new) ?_ fun k f hk h => mergePage_spec hsize hsource hk h
  refine ⟨hsound, fun _ _ _ => rfl, fun _ _ => rfl, fun i hi => absurd hi (Nat.not_lt_zero i),
    fun i _ hi => ?_, fun _ _ _ _ _ => rfl⟩
  rw [Flash.stateAt_page _ hsource.aligned hi]
  exact hnew.empty i

end Merge

/-! ## Merges -/

section Remap

variable {limit : ℕ} {s : Bast size π} {latest : ℕ → Option π} {b address : ℕ} {log : BastLog}
  {media : Media size π} {ok : Halt → Prop}

/-- The blocks of the other logical blocks. -/
def others (s : Bast size π) (b : ℕ) : Set ℕ :=
  held (Function.update (Function.update s.own (.log b) none) (.data b) none)

theorem log_mem_others {b' : ℕ} {log' : BastLog} (hlog : s.logMap.lookup b' = some log')
    (hb : b' ≠ b) : log'.address / size ∈ s.others b := by
  have hne : Owner.log b' ≠ .log b := fun heq => hb (Owner.log.inj heq)
  refine ⟨.log b', ?_⟩
  rw [Function.update_of_ne (Owner.log_ne_data b' b), Function.update_of_ne hne]
  exact own_log hlog

theorem data_mem_others {b' a : ℕ} (ha : s.dataList b' = some a) (hb : b' ≠ b) :
    a / size ∈ s.others b := by
  have hne : Owner.data b' ≠ .data b := fun heq => hb (Owner.data.inj heq)
  refine ⟨.data b', ?_⟩
  rw [Function.update_of_ne hne, Function.update_of_ne (Owner.log_ne_data b b').symm]
  exact own_data ha

theorem Inv.others_eq (h : Inv limit s latest) (b : ℕ) :
    s.others b = (held s.own \ {c | s.own (.log b) = some c}) \ {c | s.own (.data b) = some c} := by
  rw [others, held_release h.exclusive.release, held_release h.exclusive,
    Function.update_of_ne (Owner.log_ne_data b b).symm]

theorem lookup_remapped_self : (s.remapped b address media).logMap.lookup b = none :=
  AList.lookup_erase b s.logMap

theorem lookup_remapped_of_ne {b' : ℕ} (hb : b' ≠ b) :
    (s.remapped b address media).logMap.lookup b' = s.logMap.lookup b' := AList.lookup_erase_ne hb

theorem logPage_remapped_of_ne {la : ℕ} (hb : logicalBlock size la ≠ b) :
    (s.remapped b address media).logPage la = s.logPage la := by
  rw [logPage, logPage, lookup_remapped_of_ne hb]

theorem own_remapped (s : Bast size π) (b address : ℕ) (media : Media size π) :
    (s.remapped b address media).own =
      Function.update (Function.update s.own (.log b) none) (.data b) (some (address / size)) := by
  rw [← own_eraseLog]
  exact own_setData { s with logMap := s.logMap.erase b } b (some address)

/-- **After a merge** the data block holds what the log and the old data block held. -/
theorem Inv.remapped (h : Inv limit s latest) (haligned : address = address / size * size)
    (hnew : address / size ∉ held (Function.update s.own (.log b) none))
    (hpool : Pool media (insert (address / size) (s.others b)))
    (hblock : ∀ c ∈ s.others b, media.flash.block c = s.media.flash.block c)
    (hdata : ∀ x, x / size ∈ s.others b → media.flash.pageData x = s.media.flash.pageData x)
    (hcontents : ∀ la p, logicalBlock size la = b → latest la = some p →
      media.flash.Holds (address + la % size) p) (hsize : 0 < size) :
    Inv limit (s.remapped b address media) latest := by
  have hown := own_remapped s b address media
  have hheld : held (s.remapped b address media).own = insert (address / size) (s.others b) := by
    have hnone : Function.update (Function.update s.own (.log b) none) (.data b) none (.data b) =
      none := Function.update_self _ _ _
    have hclaim := held_claim (b := address / size) hnone
    rw [Function.update_idem] at hclaim
    rw [hown, hclaim, others]
  have hholds : ∀ x p, x / size ∈ s.others b → s.media.flash.Holds x p → media.flash.Holds x p :=
    fun x p hx hholds => hholds.congr (hblock _ hx) (hdata x hx)
  refine ⟨?_, ?_, fun b' a ha => ?_, fun b' log' hlog' => ?_, fun la a ha => ?_,
    fun la p hp hnone => ?_, ?_⟩
  · rw [hheld]
    exact hpool
  · rw [hown]
    exact h.exclusive.release.claim hnew
  -- data blocks: the new one, and those that were there
  · by_cases hb : b' = b
    · have hnew : (s.remapped b address media).dataList b = some address :=
        Function.update_self _ _ _
      rw [hb, hnew] at ha
      rw [← Option.some.inj ha]
      exact haligned
    · have hold : (s.remapped b address media).dataList b' = s.dataList b' :=
        Function.update_of_ne hb _ _
      rw [hold] at ha
      exact h.data b' a ha
  -- log blocks: that of `b` is gone
  · have hb : b' ≠ b := by
      rintro rfl
      rw [lookup_remapped_self] at hlog'
      cases hlog'
    rw [lookup_remapped_of_ne hb] at hlog'
    have hmem : log'.address / size ∈ s.others b := log_mem_others hlog' hb
    exact (h.log b' log' hlog').congr (hblock _ hmem)
  · have hb : logicalBlock size la ≠ b := by
      rintro rfl
      rw [logPage, lookup_remapped_self] at ha
      cases ha
    rw [logPage_remapped_of_ne hb] at ha
    obtain ⟨log', j, hlog', hj, rfl⟩ := exists_of_logPage ha
    obtain ⟨p, hp, hold⟩ := h.mapped la _ ha
    have hmem : (log'.address + j) / size ∈ s.others b := by
      rw [(h.log _ log' hlog').page_div hj]
      exact log_mem_others hlog' hb
    exact ⟨p, hp, hholds _ p hmem hold⟩
  -- pages without an entry: the new block holds those of `b`
  · by_cases hb : logicalBlock size la = b
    · refine ⟨address, ?_, hcontents la p hb hp⟩
      rw [hb]
      exact Function.update_self _ _ _
    · rw [logPage_remapped_of_ne hb] at hnone
      obtain ⟨a, ha, hold⟩ := h.stored la p hp hnone
      have hmem : (a + la % size) / size ∈ s.others b := by
        rw [Flash.page_div (h.data _ a ha) (Nat.mod_lt la hsize)]
        exact data_mem_others ha hb
      exact ⟨a, (Function.update_of_ne hb _ _).trans ha, hholds _ p hmem hold⟩
  · refine le_trans ?_ h.limit
    change (s.logMap.erase b).keys.length ≤ _
    rw [AList.keys_erase]
    exact List.length_erase_le

theorem eraseData_spec (hworn : ok .worn) {H : Set ℕ} (hpool : Pool media H)
    (hmem : ∀ a, s.dataList b = some a → a / size ∈ H) :
    Yields ok (s.eraseData b media) fun m' =>
      Pool m' (H \ {c | s.own (.data b) = some c}) ∧
        Keeps media m' (H \ {c | s.own (.data b) = some c}) := by
  rw [eraseData]
  cases ha : s.dataList b with
  | none =>
    have hnone : s.own (.data b) = none := by
      rw [own, ha, Option.map_none]
    rw [holding_of_none hnone, Set.sdiff_empty]
    exact ⟨hpool, .refl _ _⟩
  | some a =>
    rw [holding_of_some (own_data ha)]
    exact eraseAndInvalidate_spec hworn .data hpool (hmem a ha)

theorem Inv.source (h : Inv limit s latest) (hlog : s.logMap.lookup b = some log)
    {la : ℕ} {p : π} (hb : logicalBlock size la = b) (hp : latest la = some p) :
    ∃ a, s.mergeSource b log (la % size) = some a ∧ s.media.flash.Holds a p := by
  subst hb
  rw [mergeSource]
  cases hj : log.pages (la % size) with
  | some j =>
    obtain ⟨q, hq, hholds⟩ := h.mapped la _ (logPage_of_lookup hlog hj)
    rw [hp] at hq
    rw [Option.some.inj hq]
    exact ⟨_, rfl, hholds⟩
  | none =>
    have hnone : s.logPage la = none := by
      rw [logPage, hlog, Option.bind_some, hj, Option.map_none]
    obtain ⟨a, ha, hholds⟩ := h.stored la p hp hnone
    rw [ha]
    exact ⟨_, rfl, hholds⟩

/-- **A switch** turns the log block into the data block. -/
theorem switchMerge_spec (hsize : 0 < size) (hworn : ok .worn) (h : Inv limit s latest)
    (hlog : s.logMap.lookup b = some log) (hseq : Sequential size log) :
    Yields ok (s.switchMerge b log) fun s' =>
      Inv limit s' latest ∧ s'.logMap = s.logMap.erase b := by
  have hsound := h.log b log hlog
  have hl : s.own (.log b) = some (log.address / size) := own_log hlog
  have hpool : Pool ({ s.media with bm := s.media.bm.promoteBlock .data }) (held s.own) :=
    h.pool.of_bm rfl rfl rfl
  have herase := eraseData_spec (s := s) (b := b) hworn hpool fun a ha => mem_held (own_data ha)
  refine herase.bind fun m' hm' => ⟨?_, rfl⟩
  have hset : held s.own \ {c | s.own (.data b) = some c} =
      insert (log.address / size) (s.others b) := by
    rw [h.others_eq, h.exclusive.insert_diff hl (Owner.log_ne_data b b)]
  rw [hset] at hm'
  obtain ⟨hpool', hkeep⟩ := hm'
  refine h.remapped hsound.aligned ?_ hpool' (fun c hc => hkeep.block c (Set.mem_insert_of_mem _ hc))
    (fun x _ => congrFun hkeep.pageData x) (fun la p hb hp => ?_) hsize
  · rw [held_release h.exclusive]
    exact fun hmem => hmem.2 hl
  · obtain ⟨a, ha, hholds⟩ := h.source hlog hb hp
    have hi : la % size < size := Nat.mod_lt la hsize
    rw [mergeSource, hseq _ hi] at ha
    rw [← Option.some.inj ha] at hholds
    refine hholds.congr ?_ (congrFun hkeep.pageData _)
    rw [Flash.page_div hsound.aligned hi]
    exact hkeep.block _ (Set.mem_insert _ _)

theorem Inv.sources (h : Inv limit s latest) (hlog : s.logMap.lookup b = some log) {i a : ℕ}
    (hi : i < size) (ha : s.mergeSource b log i = some a) :
    (∃ j, log.pages i = some j ∧ a = log.address + j ∧ s.own (.log b) = some (a / size)) ∨
      ∃ d, s.dataList b = some d ∧ a = d + i ∧ s.own (.data b) = some (a / size) := by
  rw [mergeSource] at ha
  cases hj : log.pages i with
  | some j =>
    rw [hj] at ha
    obtain rfl := Option.some.inj ha
    refine Or.inl ⟨j, rfl, rfl, ?_⟩
    rw [(h.log b log hlog).page_div hj, own_log hlog]
  | none =>
    rw [hj] at ha
    obtain ⟨d, hd, rfl⟩ := Option.map_eq_some_iff.mp ha
    refine Or.inr ⟨d, hd, rfl, ?_⟩
    rw [Flash.page_div (h.data b d hd) hi, own_data hd]

theorem Inv.source_held (h : Inv limit s latest) (hlog : s.logMap.lookup b = some log) {i a : ℕ}
    (hi : i < size) (ha : s.mergeSource b log i = some a) :
    a / size ∈ held s.own ∧ a / size ∉ s.others b := by
  rw [h.others_eq]
  rcases h.sources hlog hi ha with ⟨_, _, _, hown⟩ | ⟨_, _, _, hown⟩
  · exact ⟨mem_held hown, fun hmem => hmem.1.2 hown⟩
  · exact ⟨mem_held hown, fun hmem => hmem.2 hown⟩

theorem Inv.held_merged (h : Inv limit s latest) (hlog : s.logMap.lookup b = some log)
    (hnew : address / size ∉ held s.own) :
    (insert (address / size) (held s.own) \ {log.address / size}) \
      {c | s.own (.data b) = some c} = insert (address / size) (s.others b) := by
  rw [h.others_eq, ← holding_of_some (own_log hlog), insert_diff_holding hnew,
    insert_diff_holding hnew]

theorem Inv.mergeSources (h : Inv limit s latest) (hlog : s.logMap.lookup b = some log)
    (haligned : address = address / size * size) (hnew : address / size ∉ held s.own) :
    Sources size (s.mergeSource b log) address := by
  refine ⟨haligned, fun i hi a ha heq => hnew ?_, fun i hi i' hi' a ha ha' => ?_⟩
  · rw [← heq]
    exact (h.source_held hlog hi ha).1
  · rcases h.sources hlog hi ha with ⟨j, hj, hlast, hown⟩ | ⟨d, hd, hlast, hown⟩ <;>
      rcases h.sources hlog hi' ha' with ⟨j', hj', hlast', hown'⟩ | ⟨d', hd', hlast', hown'⟩
    · have hsame : j = j' := by omega
      subst hsame
      exact (h.log b log hlog).injective i i' j hj hj'
    · cases h.exclusive _ _ _ hown hown'
    · cases h.exclusive _ _ _ hown hown'
    · rw [hd] at hd'
      have hsame := Option.some.inj hd'
      omega

/-- **A full merge** copies what the logical block holds into a new data block. -/
theorem randomMerge_spec (hsize : 0 < size) (hworn : ok .worn) (hnone : ok .noFreeBlock)
    (hbad : ok .badAlloc) (cfg : SsdConfig) (h : Inv limit s latest)
    (hlog : s.logMap.lookup b = some log) :
    Yields ok (s.randomMerge cfg b log) fun s' =>
      Inv limit s' latest ∧ s'.logMap = s.logMap.erase b := by
  refine (getFreeBlock_spec hsize hworn hnone hbad cfg .data h.pool).bind fun r hr => ?_
  obtain ⟨address, m₁⟩ := r
  obtain ⟨haligned, hnew, herased, hpool₁, hkeep₁⟩ := hr
  dsimp only at haligned hnew herased hpool₁ hkeep₁
  have hsources := h.mergeSources hlog haligned hnew
  have hl : s.own (.log b) = some (log.address / size) := own_log hlog
  -- the pages are copied, then the log block and the old data block are erased
  refine (mergePages_spec hsize hsources hpool₁.sound herased).bind fun f hf => ?_
  have hpool₂ : Pool (⟨f, m₁.bm⟩ : Media size π) (insert (address / size) (held s.own)) := by
    refine hpool₁.of_flash hf.sound fun c hc => hf.other c ?_ fun i hi a ha heq => hc ?_
    · exact fun heq => hc (Or.inl heq)
    · rw [← heq]
      exact Or.inr (h.source_held hlog hi ha).1
  refine (eraseAndInvalidate_spec hworn .log hpool₂ (Or.inr (mem_held hl))).bind fun m₃ hm₃ => ?_
  obtain ⟨hpool₃, hkeep₃⟩ := hm₃
  have hdata : ∀ a, s.dataList b = some a → a / size ∈
      (insert (address / size) (held s.own)) \ {log.address / size} := by
    intro a ha
    refine ⟨Or.inr (mem_held (own_data ha)), fun heq => ?_⟩
    cases h.exclusive _ _ _ (own_data ha) (hl.trans (congrArg some (Set.mem_singleton_iff.mp heq).symm))
  refine (eraseData_spec hworn hpool₃ hdata).bind fun m₄ hm₄ => ⟨?_, rfl⟩
  have hset := h.held_merged hlog hnew
  rw [hset] at hm₄
  obtain ⟨hpool₄, hkeep₄⟩ := hm₄
  have hsub : ∀ c ∈ insert (address / size) (s.others b),
      c ∈ insert (address / size) (held s.own) \ {log.address / size} := by
    rw [← hset]
    exact fun c hc => hc.1
  -- neither erase touches the blocks that stay in use
  have hlast : ∀ c ∈ insert (address / size) (s.others b), m₄.flash.block c = f.block c :=
    fun c hc => (hkeep₄.block c hc).trans (hkeep₃.block c (hsub c hc))
  have hlastData : m₄.flash.pageData = f.pageData := hkeep₄.pageData.trans hkeep₃.pageData
  have hother : ∀ c ∈ s.others b, c ∈ held s.own := by
    rw [h.others_eq]
    exact fun c hc => hc.1.1
  have hne : ∀ c ∈ s.others b, c ≠ address / size := fun c hc heq => hnew (heq ▸ hother c hc)
  refine h.remapped haligned ?_ hpool₄ (fun c hc => ?_) (fun x hx => ?_) (fun la p hb hp => ?_) hsize
  · rw [held_release h.exclusive]
    exact fun hmem => hnew hmem.1
  · rw [hlast c (Set.mem_insert_of_mem _ hc), ← hkeep₁.block c (hother c hc)]
    refine hf.other c (hne c hc) fun i hi a ha heq => ?_
    rw [← heq] at hc
    exact (h.source_held hlog hi ha).2 hc
  · rw [hlastData, ← hkeep₁.pageData]
    exact hf.data x (hne _ hx)
  · obtain ⟨a, ha, hholds⟩ := h.source hlog hb hp
    have hi : la % size < size := Nat.mod_lt la hsize
    have hsame : m₁.flash.Holds a p :=
      hholds.congr (hkeep₁.block _ (h.source_held hlog hi ha).1) (congrFun hkeep₁.pageData a)
    refine (hf.copied _ hi a p ha hsame).congr ?_ (congrFun hlastData _)
    rw [Flash.page_div haligned hi]
    exact hlast _ (Set.mem_insert _ _)

/-- **A merge or a switch** keeps what can be read, and the log block is gone. -/
theorem mergeLogBlock_spec (hsize : 0 < size) (hworn : ok .worn) (hnone : ok .noFreeBlock)
    (hbad : ok .badAlloc) (cfg : SsdConfig) (h : Inv limit s latest)
    (hlog : s.logMap.lookup b = some log) :
    Yields ok (s.mergeLogBlock cfg b log) fun s' =>
      Inv limit s' latest ∧ s'.logMap = s.logMap.erase b := by
  rw [mergeLogBlock]
  split_ifs with hseq
  · exact switchMerge_spec hsize hworn h hlog hseq
  · exact randomMerge_spec hsize hworn hnone hbad cfg h hlog

end Remap

end Bast

end ZnsFlash
