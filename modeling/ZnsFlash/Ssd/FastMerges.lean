import ZnsFlash.Ssd.FastState

/-!
# The merges of FAST

* `Image`: a new block that is filled from other blocks; `Image.copy`: one more page;
* `copyPages_spec`, `copyPages_halts`: the loop of `merge_sequential`;
* `invalidateSequential_spec`: the SW block and a data block go back to the pool;
* **`Fast.mergeSequential_spec`**, `Fast.switchSequential_spec`: the SW block is given up.
-/

namespace ZnsFlash

open Holdings

variable {size : ℕ} {π : Type} {ok : Halt → Prop}

/-- The block at `new` is filled from other blocks, page by page. -/
structure Image (f₀ : Flash size π) (new : ℕ) (source : ℕ → Option ℕ) (f : Flash size π) : Prop where
  sound : f.Sound
  other : ∀ c ≠ new / size, f.block c = f₀.block c
  data : ∀ x, x / size ≠ new / size → f.pageData x = f₀.pageData x
  empty : ∀ i < size, source i = none → f.stateAt (new + i) = .empty
  valid : ∀ i < size, ∀ a, source i = some a → f.stateAt (new + i) = .valid
  copied : ∀ i < size, ∀ a, source i = some a → f.pageData (new + i) = f₀.pageData a

section Image

variable {f₀ f : Flash size π} {new : ℕ} {source : ℕ → Option ℕ}

theorem Image.of_erased (hsound : f₀.Sound) (haligned : new = new / size * size)
    (herased : f₀.Erased (new / size)) : Image f₀ new (fun _ => none) f₀ := by
  refine ⟨hsound, fun _ _ => rfl, fun _ _ => rfl, fun i hi _ => ?_, nofun, nofun⟩
  rw [Flash.stateAt_page f₀ haligned hi]
  exact herased.empty i

theorem Image.congr (h : Image f₀ new source f) {source' : ℕ → Option ℕ}
    (hsource : ∀ i < size, source' i = source i) : Image f₀ new source' f :=
  ⟨h.sound, h.other, h.data, fun i hi hnone => h.empty i hi ((hsource i hi).symm.trans hnone),
    fun i hi a ha => h.valid i hi a ((hsource i hi).symm.trans ha),
    fun i hi a ha => h.copied i hi a ((hsource i hi).symm.trans ha)⟩

theorem Image.stateAt (h : Image f₀ new source f) {a : ℕ} (ha : a / size ≠ new / size) :
    f.stateAt a = f₀.stateAt a := Flash.stateAt_congr (h.other _ ha)

theorem Image.clean (h : Image f₀ new source f) (haligned : new = new / size * size) : Clean f new := by
  refine ⟨haligned, fun i hi => ?_⟩
  cases hsource : source i with
  | none =>
    rw [h.empty i hi hsource]
    decide
  | some a =>
    rw [h.valid i hi a hsource]
    decide

theorem Image.copy (hsize : 0 < size) (haligned : new = new / size * size) (h : Image f₀ new source f)
    {i a : ℕ} (hi : i < size) (hnone : source i = none) (ha : a / size ≠ new / size) :
    Yields ok (f.write (new + i) (f.pageData a)) (Image f₀ new (Function.update source i (some a))) := by
  have hdiv : (new + i) / size = new / size := Flash.page_div haligned hi
  refine (Written.of_write hsize h.sound (h.empty i hi hnone)).mono fun g hg => ?_
  have hne : ∀ j, j ≠ i → new + j ≠ new + i := fun j hj heq => hj (Nat.add_left_cancel heq)
  refine ⟨hg.sound, fun c hc => ?_, fun x hx => ?_, fun j hj hj' => ?_, fun j hj a' ha' => ?_,
    fun j hj a' ha' => ?_⟩
  · rw [hg.other c (hdiv.symm ▸ hc)]
    exact h.other c hc
  · have hxne : x ≠ new + i := fun heq => hx (heq ▸ hdiv)
    rw [hg.data, Function.update_of_ne hxne]
    exact h.data x hx
  · have hji : j ≠ i := by
      rintro rfl
      rw [Function.update_self] at hj'
      cases hj'
    rw [Function.update_of_ne hji] at hj'
    rw [hg.state, Function.update_of_ne (hne j hji)]
    exact h.empty j hj hj'
  · by_cases hji : j = i
    · rw [hji]
      exact hg.holds_self.valid
    · rw [Function.update_of_ne hji] at ha'
      exact hg.valid (h.valid j hj a' ha')
  · by_cases hji : j = i
    · rw [hji, Function.update_self] at ha'
      rw [hji, hg.holds_self.data, ← Option.some.inj ha']
      exact h.data a ha
    · rw [Function.update_of_ne hji] at ha'
      rw [hg.data, Function.update_of_ne (hne j hji)]
      exact h.copied j hj a' ha'

/-- The sources of a loop, after `k` rounds. -/
def firstPages (source : ℕ → Option ℕ) (k i : ℕ) : Option ℕ := if i < k then source i else none

theorem firstPages_succ (source : ℕ → Option ℕ) (k : ℕ) :
    firstPages source (k + 1) = Function.update (firstPages source k) k (source k) := by
  funext i
  rcases lt_trichotomy i k with hlt | rfl | hgt
  · rw [Function.update_of_ne hlt.ne, firstPages, firstPages, if_pos hlt,
      if_pos (Nat.lt_succ_of_lt hlt)]
  · rw [Function.update_self, firstPages, if_pos (Nat.lt_succ_self _)]
  · rw [Function.update_of_ne hgt.ne', firstPages, firstPages, if_neg (by omega), if_neg (by omega)]

theorem firstPages_self (source : ℕ → Option ℕ) (k : ℕ) : firstPages source k k = none :=
  if_neg (Nat.lt_irrefl k)

theorem copyPages_halts (hnot : ok .notEmpty) (source : Flash size π → ℕ → Option ℕ) (new : ℕ)
    (f : Flash size π) :
    Yields ok ((List.range size).foldlM (Fast.copyPage source new) f) fun _ => True := by
  refine Yields.foldlM_range (fun _ _ => True) trivial fun k g _ _ => ?_
  rw [Fast.copyPage]
  cases source g k with
  | none => trivial
  | some a => exact Flash.write_halts hnot _ _

/-- **The loop of `merge_sequential`**: its sources are looked up while the block fills. -/
theorem copyPages_spec (hsize : 0 < size) (haligned : new = new / size * size)
    {source : Flash size π → ℕ → Option ℕ}
    (hsame : ∀ f : Flash size π, (∀ c ≠ new / size, f.block c = f₀.block c) → ∀ i < size,
      source f i = source f₀ i)
    (hapart : ∀ i < size, ∀ a, source f₀ i = some a → a / size ≠ new / size)
    (hsound : f₀.Sound) (herased : f₀.Erased (new / size)) :
    Yields ok ((List.range size).foldlM (Fast.copyPage source new) f₀) (Image f₀ new (source f₀)) := by
  have hloop : Yields ok ((List.range size).foldlM (Fast.copyPage source new) f₀)
      (Image f₀ new (firstPages (source f₀) size)) := by
    refine Yields.foldlM_range (fun k => Image f₀ new (firstPages (source f₀) k)) ?_ fun k f hk h => ?_
    · exact (Image.of_erased hsound haligned herased).congr fun i _ => if_neg (Nat.not_lt_zero i)
    · rw [Fast.copyPage, hsame f h.other k hk, firstPages_succ]
      cases ha : source f₀ k with
      | none =>
        have hfirst : Function.update (firstPages (source f₀) k) k none = firstPages (source f₀) k := by
          conv_lhs => rw [← firstPages_self (source f₀) k, Function.update_eq_self]
        rw [hfirst]
        exact h
      | some a => exact h.copy hsize haligned hk (firstPages_self _ _) (hapart k hk a ha)
  exact hloop.mono fun f h => h.congr fun i hi => (if_pos hi).symm

end Image

namespace Fast

/-- The page has a place in its data block. -/
def Placed (s : Fast size π) (la : ℕ) : Prop :=
  ∃ a, s.dataList (logicalBlock size la) = some a ∧ s.media.flash.stateAt (a + la % size) = .valid

/-- What merges leave alone. -/
structure Merged (s t : Fast size π) : Prop where
  sequentialOffset : t.sequentialOffset = s.sequentialOffset
  sequentialAddress : t.sequentialAddress = s.sequentialAddress
  sequentialLogicalblockAddress : t.sequentialLogicalblockAddress = s.sequentialLogicalblockAddress
  logPages : t.logPages = s.logPages
  logPageNext : t.logPageNext = s.logPageNext
  placed : ∀ la, s.Placed la → t.Placed la

theorem Merged.refl (s : Fast size π) : Merged s s := ⟨rfl, rfl, rfl, rfl, rfl, fun _ h => h⟩

theorem Merged.trans {s t u : Fast size π} (h : Merged s t) (h' : Merged t u) : Merged s u :=
  ⟨h'.sequentialOffset.trans h.sequentialOffset, h'.sequentialAddress.trans h.sequentialAddress,
    h'.sequentialLogicalblockAddress.trans h.sequentialLogicalblockAddress,
    h'.logPages.trans h.logPages, h'.logPageNext.trans h.logPageNext,
    fun la hla => h'.placed la (h.placed la hla)⟩

/-- The SW block does not count any more. -/
def unowned (s : Fast size π) : Fast size π := { s with sequentialLogicalblockAddress := none }

section Frame

variable {m : Media size π} {H : Set ℕ}

theorem Keeps.mono {m' : Media size π} {H' : Set ℕ} (h : Keeps m m' H) (hsub : H' ⊆ H) :
    Keeps m m' H' := ⟨fun c hc => h.block c (hsub hc), h.pageData⟩

theorem collect_of {Q : Media size π → Prop} (cfg : FastConfig)
    (hinsert : Yields ok (m.insertEvents cfg.toSsdConfig) Q) (hm : Q m) : Yields ok (collect cfg m) Q := by
  rw [collect]
  split_ifs
  · exact hinsert
  · exact hm

theorem collect_spec (hworn : ok .worn) (cfg : FastConfig) (h : Pool m H) :
    Yields ok (collect cfg m) fun m' => Pool m' H ∧ Keeps m m' H :=
  collect_of cfg (insertEvents_spec hworn _ h) ⟨h, .refl _ _⟩

theorem invalidateData_spec (s : Fast size π) (b : ℕ) (h : Pool m H)
    (hmem : ∀ a, s.dataList b = some a → a / size ∈ H) :
    Pool (match s.dataList b with
      | none => m
      | some a => m.invalidateBlock a .data) (H \ {c | s.own (.data b) = some c}) ∧
    (match s.dataList b with
      | none => m
      | some a => m.invalidateBlock a .data).flash = m.flash := by
  cases ha : s.dataList b with
  | none =>
    have hnone : s.own (.data b) = none := by
      rw [own, ha, Option.map_none]
    rw [holding_of_none hnone, Set.sdiff_empty]
    exact ⟨h, rfl⟩
  | some a =>
    rw [holding_of_some (own_data ha)]
    exact invalidateBlock_spec .data h (hmem a ha)

/-- The SW block and the data block of its logical block are given back, when a new block is in use. -/
theorem invalidateSequential_spec {s : Fast size π} {b address : ℕ} (hexclusive : Exclusive s.own)
    (hb : s.sequentialLogicalblockAddress = some b) (hnew : address / size ∉ held s.own)
    (h : Pool m (insert (address / size) (held s.own))) :
    Pool (match s.dataList b with
      | none => m.invalidateBlock s.sequentialAddress .data
      | some a => (m.invalidateBlock s.sequentialAddress .data).invalidateBlock a .data)
      (insert (address / size)
        ((held s.own \ {c | s.own .sequential = some c}) \ {c | s.own (.data b) = some c})) ∧
    (match s.dataList b with
      | none => m.invalidateBlock s.sequentialAddress .data
      | some a => (m.invalidateBlock s.sequentialAddress .data).invalidateBlock a .data).flash =
        m.flash := by
  have hown : s.own .sequential = some (s.sequentialAddress / size) := own_sequential hb
  obtain ⟨hpool, hflash⟩ := invalidateBlock_spec .data h (Or.inr (mem_held hown))
  have hmem : ∀ d, s.dataList b = some d →
      d / size ∈ insert (address / size) (held s.own) \ {s.sequentialAddress / size} := by
    intro d hd
    refine ⟨Or.inr (mem_held (own_data hd)), fun heq => ?_⟩
    cases hexclusive _ _ _ (own_data hd)
      (hown.trans (congrArg some (Set.mem_singleton_iff.mp heq).symm))
  obtain ⟨hpool', hflash'⟩ := invalidateData_spec s b hpool hmem
  have hset : (insert (address / size) (held s.own) \ {s.sequentialAddress / size}) \
      {c | s.own (.data b) = some c} = insert (address / size)
        ((held s.own \ {c | s.own .sequential = some c}) \ {c | s.own (.data b) = some c}) := by
    rw [← holding_of_some hown, insert_diff_holding hnew, insert_diff_holding hnew]
  rw [hset] at hpool'
  exact ⟨hpool', hflash'.trans hflash⟩

end Frame

section Sequential

variable {s : Fast size π} {latest : ℕ → Option π} {b : ℕ}

/-- After the SW block was given up. -/
structure Given (s t : Fast size π) (latest : ℕ → Option π) : Prop where
  core : Core t.unowned latest
  pool : Pool t.media (held t.unowned.own)
  merged : Merged s t

theorem own_unowned_setData (s : Fast size π) (b address : ℕ) :
    ({ s.unowned with dataList := Function.update s.dataList b (some address) } : Fast size π).own =
      Function.update (Function.update s.own .sequential none) (.data b) (some (address / size)) := by
  rw [← own_dropSequential]
  exact own_setData s.unowned b address

theorem Core.held_unowned_setData (h : Core s latest) (b address : ℕ) :
    held ({ s.unowned with dataList := Function.update s.dataList b (some address) } :
      Fast size π).own = insert (address / size)
        ((held s.own \ {c | s.own .sequential = some c}) \ {c | s.own (.data b) = some c}) := by
  rw [own_unowned_setData, held_exchange h.exclusive.release, held_release h.exclusive,
    Function.update_of_ne (FastOwner.sequential_ne_data b).symm]

theorem withoutSequential_of_ne (hb : s.sequentialLogicalblockAddress = some b) {la : ℕ}
    (hla : logicalBlock size la ≠ b) : latest la = s.withoutSequential latest la := by
  refine (if_neg fun hin : s.InSequential la => hla ?_).symm
  exact Option.some.inj (hin.1.symm.trans hb)

theorem Core.placed_setData (hsize : 0 < size) (h : Core s latest) {t : Fast size π} {address : ℕ}
    (hlist : t.dataList = Function.update s.dataList b (some address))
    (hnew : ∀ la, logicalBlock size la = b → s.Placed la →
      t.media.flash.stateAt (address + la % size) = .valid)
    (hold : ∀ b' a, b' ≠ b → s.dataList b' = some a →
      t.media.flash.block (a / size) = s.media.flash.block (a / size))
    {la : ℕ} (hla : s.Placed la) : t.Placed la := by
  by_cases hb : logicalBlock size la = b
  · refine ⟨address, ?_, hnew la hb hla⟩
    rw [hlist, hb, Function.update_self]
  · obtain ⟨a, ha, hvalid⟩ := hla
    refine ⟨a, ?_, ?_⟩
    · rw [hlist, Function.update_of_ne hb]
      exact ha
    · rw [← hvalid]
      exact stateAt_page_congr (h.data _ a ha).aligned (hold _ a hb ha) (Nat.mod_lt la hsize)

theorem switchSequential_spec (hsize : 0 < size) (h : Core s latest) (hpool : Pool s.media (held s.own))
    (hb : s.sequentialLogicalblockAddress = some b) (hfull : s.sequentialOffset = size) :
    Yields ok s.switchSequential fun t => Given s t latest := by
  rw [switchSequential, hb]
  have hseq := h.sequential b hb
  have hown : s.own .sequential = some (s.sequentialAddress / size) := own_sequential hb
  have hlt : ∀ la, la % size < s.sequentialOffset := fun la => by
    rw [hfull]
    exact Nat.mod_lt la hsize
  obtain ⟨hpool', hflash⟩ := invalidateData_spec s b hpool fun a ha => mem_held (own_data ha)
  have hnew : s.sequentialAddress / size ∉ held (Function.update s.unowned.own (.data b) none) := by
    rw [unowned, own_dropSequential, held_release h.exclusive.release, held_release h.exclusive]
    exact fun hmem => hmem.1.2 hown
  have hstored : ∀ la p, logicalBlock size la = b → latest la = some p → ¬ s.unowned.Logged la →
      ¬ s.unowned.InSequential la → s.media.flash.pageData (s.sequentialAddress + la % size) = p := by
    rintro la p rfl hp - -
    obtain ⟨-, q, hq, hholds⟩ := h.inSequential la ⟨hb, hlt la⟩
    rw [hp] at hq
    rw [Option.some.inj hq]
    exact hholds.data
  have hcore := h.dropSequential.setData (fun la p hp => (eq_of_withoutSequential hp).1)
    (fun la hla => withoutSequential_of_ne hb hla) hseq.clean hnew
    (fun la p _ _ => hseq.used _ (hlt la)) hstored
  refine ⟨hcore.of_flash hsize (fun c _ => ?_) (fun x _ => ?_), ?_, ⟨rfl, rfl, hb.symm, rfl, rfl,
    fun la hla => ?_⟩⟩
  · exact congrFun (congrArg Flash.block hflash) c
  · exact congrFun (congrArg Flash.pageData hflash) x
  · have hset : held s.own \ {c | s.own (.data b) = some c} = insert (s.sequentialAddress / size)
        ((held s.own \ {c | s.own .sequential = some c}) \ {c | s.own (.data b) = some c}) :=
      (h.exclusive.insert_diff hown (FastOwner.sequential_ne_data b)).symm
    rw [hset, ← h.held_unowned_setData] at hpool'
    exact hpool'
  · refine h.placed_setData hsize rfl (fun la' _ _ => ?_) (fun b' a _ ha => ?_) hla
    · rw [← hseq.used _ (hlt la')]
      exact Flash.stateAt_congr (congrFun (congrArg Flash.block hflash) _)
    · exact congrFun (congrArg Flash.block hflash) _

theorem Core.sequentialSource_eq (hsize : 0 < size) (h : Core s latest)
    (hb : s.sequentialLogicalblockAddress = some b) {la : ℕ} (hla : logicalBlock size la = b)
    {a : ℕ} (ha : s.dataList b = some a) (hvalid : s.media.flash.stateAt (a + la % size) = .valid) :
    sequentialSource s.media.flash s.sequentialAddress (s.dataList b) (la % size) =
      some (if s.InSequential la then s.sequentialAddress + la % size else a + la % size) := by
  have hseq := h.sequential b hb
  rw [sequentialSource, ha]
  by_cases hin : s.InSequential la
  · rw [if_pos (hseq.used _ hin.2), if_pos hin]
  · have hge : s.sequentialOffset ≤ la % size := by
      refine not_lt.mp fun hlt => hin ⟨?_, hlt⟩
      rw [hla]
      exact hb
    have hempty := hseq.unused _ hge (Nat.mod_lt la hsize)
    have hne : s.media.flash.stateAt (s.sequentialAddress + la % size) ≠ .valid := by
      rw [hempty]
      decide
    rw [if_neg hne, if_neg hin, Option.bind_some, if_pos hvalid]

theorem exists_of_sequentialSource {f : Flash size π} {address : ℕ} {data : Option ℕ} {i a : ℕ}
    (h : sequentialSource f address data i = some a) :
    a = address + i ∨ ∃ d, data = some d ∧ a = d + i := by
  rw [sequentialSource] at h
  split_ifs at h
  · exact Or.inl (Option.some.inj h).symm
  · obtain ⟨d, hd, h⟩ := Option.bind_eq_some_iff.mp h
    split_ifs at h
    exact Or.inr ⟨d, hd, (Option.some.inj h).symm⟩

/-- The pages of the SW block and of the data block are not in a block that is free. -/
theorem Core.sequential_apart (h : Core s latest) (hb : s.sequentialLogicalblockAddress = some b)
    {new : ℕ} (hnew : new / size ∉ held s.own) {i : ℕ} (hi : i < size) :
    (s.sequentialAddress + i) / size ≠ new / size ∧
      ∀ d, s.dataList b = some d → (d + i) / size ≠ new / size := by
  refine ⟨fun heq => hnew ?_, fun d hd heq => hnew ?_⟩
  · rw [← heq, Flash.page_div (h.sequential b hb).aligned hi]
    exact mem_held (own_sequential hb)
  · rw [← heq, Flash.page_div (h.data b d hd).aligned hi]
    exact mem_held (own_data hd)

theorem Core.sequentialSource_congr (h : Core s latest)
    (hb : s.sequentialLogicalblockAddress = some b) {new : ℕ} (hnew : new / size ∉ held s.own)
    {f g : Flash size π} (hf : ∀ c ≠ new / size, g.block c = f.block c) {i : ℕ} (hi : i < size) :
    sequentialSource g s.sequentialAddress (s.dataList b) i =
      sequentialSource f s.sequentialAddress (s.dataList b) i := by
  obtain ⟨hseq, hdata⟩ := h.sequential_apart hb hnew hi
  rw [sequentialSource, sequentialSource, Flash.stateAt_congr (hf _ hseq)]
  cases hd : s.dataList b with
  | none => rfl
  | some d => rw [Option.bind_some, Option.bind_some, Flash.stateAt_congr (hf _ (hdata d hd))]

theorem Core.sequentialSource_apart (h : Core s latest)
    (hb : s.sequentialLogicalblockAddress = some b) {new : ℕ} (hnew : new / size ∉ held s.own)
    {f : Flash size π} {i a : ℕ} (hi : i < size)
    (ha : sequentialSource f s.sequentialAddress (s.dataList b) i = some a) :
    a / size ≠ new / size := by
  obtain ⟨hseq, hdata⟩ := h.sequential_apart hb hnew hi
  rcases exists_of_sequentialSource ha with rfl | ⟨d, hd, rfl⟩
  · exact hseq
  · exact hdata d hd

theorem Core.of_image (hsize : 0 < size) (h : Core s latest) {address : ℕ}
    (hnew : address / size ∉ held s.own) {source : ℕ → Option ℕ} {f : Flash size π}
    (hf : Image s.media.flash address source f) (bm : BlockManager) :
    Core { s with media := ⟨f, bm⟩ } latest :=
  h.of_flash hsize (fun c hc => hf.other c fun heq => hnew (heq ▸ hc))
    fun x hx => hf.data x fun heq => hnew (heq ▸ hx)

theorem Core.sequentialMerged (hsize : 0 < size) (h : Core s latest)
    (hb : s.sequentialLogicalblockAddress = some b) {address : ℕ}
    (haligned : address = address / size * size) (hnew : address / size ∉ held s.own)
    {f : Flash size π}
    (hf : Image s.media.flash address
      (sequentialSource s.media.flash s.sequentialAddress (s.dataList b)) f) (bm : BlockManager) :
    Core { s.unowned with
        media := ⟨f, bm⟩
        dataList := Function.update s.dataList b (some address) } latest ∧
      ∀ la, logicalBlock size la = b → s.Placed la → f.stateAt (address + la % size) = .valid := by
  have hplaced : ∀ la, logicalBlock size la = b → s.Placed la →
      f.stateAt (address + la % size) = .valid := by
    rintro la rfl ⟨a, ha, hvalid⟩
    exact hf.valid _ (Nat.mod_lt la hsize) _ (h.sequentialSource_eq hsize hb rfl ha hvalid)
  refine ⟨?_, hplaced⟩
  have himage := h.of_image hsize hnew hf bm
  refine himage.dropSequential.setData (fun la p hp => (eq_of_withoutSequential hp).1)
    (fun la hla => withoutSequential_of_ne hb hla) (hf.clean haligned) ?_
    (fun la p hla hp => hplaced la hla (h.placed la p hp)) (fun la p hla hp hlogged _ => ?_)
  · rw [own_dropSequential, held_release himage.exclusive.release, held_release himage.exclusive]
    exact fun hmem => hnew hmem.1.1
  · subst hla
    obtain ⟨a, ha, hvalid⟩ := h.placed la p hp
    have hcopied := hf.copied _ (Nat.mod_lt la hsize) _ (h.sequentialSource_eq hsize hb rfl ha hvalid)
    refine hcopied.trans ?_
    split_ifs with hin
    · obtain ⟨-, q, hq, hholds⟩ := h.inSequential la hin
      rw [hp] at hq
      rw [Option.some.inj hq]
      exact hholds.data
    · exact h.stored la p a hp hlogged hin ha

/-- **A merge of the SW block** moves its pages to a new data block. -/
theorem mergeSequential_spec (hsize : 0 < size) (hworn : ok .worn) (hnone : ok .noFreeBlock)
    (hbad : ok .badAlloc) (cfg : FastConfig) (h : Core s latest) (hpool : Pool s.media (held s.own)) :
    Yields ok (s.mergeSequential cfg) fun t => Given s t latest := by
  rw [mergeSequential]
  cases hb : s.sequentialLogicalblockAddress with
  | none =>
    have hsame : s.unowned = s := by
      rw [unowned, ← hb]
    refine ⟨?_, ?_, .refl s⟩
    · rw [hsame]
      exact h
    · rw [hsame]
      exact hpool
  | some b =>
    refine (getFreeBlock_spec hsize hworn hnone hbad cfg.toSsdConfig .data hpool).bind fun r hr => ?_
    obtain ⟨address, m₁⟩ := r
    obtain ⟨haligned, hnew, herased, hpool₁, hkeeps₁⟩ := hr
    dsimp only at haligned hnew herased hpool₁ hkeeps₁
    -- a collection of invalid blocks comes between the allocation and the copies
    refine (collect_spec hworn cfg hpool₁).bind fun m₂ hm₂ => ?_
    obtain ⟨hpool₂, hkeeps₂⟩ := hm₂
    have hkeeps : Keeps s.media m₂ (held s.own) :=
      hkeeps₁.trans (Keeps.mono hkeeps₂ (Set.subset_insert _ _))
    have hcore₂ := h.of_keeps hsize hkeeps
    have herased₂ := herased.congr (hkeeps₂.block _ (Set.mem_insert _ _))
    -- the sources are looked up page by page: what was copied must not change the next lookup
    have hsame : ∀ f : Flash size π, (∀ c ≠ address / size, f.block c = m₂.flash.block c) →
        ∀ i < size, sequentialSource f s.sequentialAddress (s.dataList b) i =
          sequentialSource m₂.flash s.sequentialAddress (s.dataList b) i :=
      fun f hf i hi => h.sequentialSource_congr hb hnew hf hi
    have hapart : ∀ i < size, ∀ a, sequentialSource m₂.flash s.sequentialAddress (s.dataList b) i =
        some a → a / size ≠ address / size :=
      fun i hi a ha => h.sequentialSource_apart hb hnew hi ha
    refine (copyPages_spec hsize haligned hsame hapart hpool₂.sound herased₂).bind fun f hf => ?_
    obtain ⟨hcore, hplaced⟩ := hcore₂.sequentialMerged hsize hb haligned hnew hf m₂.bm
    have hpool₃ : Pool (⟨f, m₂.bm⟩ : Media size π) (insert (address / size) (held s.own)) :=
      hpool₂.of_flash hf.sound fun c hc => hf.other c fun heq => hc (Or.inl heq)
    obtain ⟨hpool₅, hflash⟩ := invalidateSequential_spec h.exclusive hb hnew hpool₃
    refine ⟨hcore.of_flash hsize (fun c _ => ?_) (fun x _ => ?_), ?_, ⟨rfl, rfl, hb.symm, rfl, rfl,
      fun la hla => ?_⟩⟩
    · exact congrFun (congrArg Flash.block hflash) c
    · exact congrFun (congrArg Flash.pageData hflash) x
    · rw [← h.held_unowned_setData] at hpool₅
      exact hpool₅
    · refine h.placed_setData hsize rfl (fun la' hla' hp => ?_) (fun b' a hb' ha => ?_) hla
      · obtain ⟨a, ha, hvalid⟩ := hp
        have hmem' : (a + la' % size) / size ∈ held s.own := by
          rw [Flash.page_div (h.data _ a ha).aligned (Nat.mod_lt la' hsize)]
          exact mem_held (own_data ha)
        have hplaced' := hplaced la' hla' ⟨a, ha, (Flash.stateAt_congr (hkeeps.block _ hmem')).trans hvalid⟩
        rw [← hplaced']
        exact Flash.stateAt_congr (congrFun (congrArg Flash.block hflash) _)
      · have hheld := mem_held (own_data ha)
        refine (congrFun (congrArg Flash.block hflash) _).trans ?_
        exact (hf.other _ fun heq => hnew (heq ▸ hheld)).trans (hkeeps.block _ hheld)

end Sequential

end Fast

end ZnsFlash
