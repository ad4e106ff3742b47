import ZnsFlash.Ssd.Flash
import Mathlib.Data.List.Nodup
import Mathlib.Data.Set.Insert

/-!
# The block manager

`ssd_bm.cpp` for the translation layers that keep their own lists: the sweep over fresh blocks, the
free list, the list of invalid blocks that wait for an erase, and the counters.

* `Media`: the flash and the block manager; `Media.getFreeBlock`, `Media.eraseAndInvalidate`,
  `Media.invalidateBlock`, `Media.insertEvents`;
* `Pool`: the blocks outside a set are free or wait for an erase; `Pool.release`: one more block is;
* **`getFreeBlock_spec`**, **`eraseAndInvalidate_spec`**, **`invalidateBlock_spec`**,
  **`insertEvents_spec`**: what the operations do to the pool.
-/

namespace ZnsFlash

/-- `enum block_type` -/
inductive BlockType
  | log
  | data
  | logSeq
  deriving DecidableEq

/-- The lists hold pointers to blocks, which are the numbers of the blocks here. -/
structure BlockManager where
  simpleCurrentFree : ℕ
  freeList : List ℕ
  invalidList : List ℕ
  dataActive : BitVec 64
  logActive : BitVec 64
  outOfBlocks : Bool

namespace BlockManager

def new : BlockManager := ⟨0, [], [], 0, 0, false⟩

/-- `promote_block` -/
def promoteBlock (bm : BlockManager) : BlockType → BlockManager
  | .data => { bm with dataActive := bm.dataActive + 1, logActive := bm.logActive - 1 }
  | .log => { bm with dataActive := bm.dataActive - 1, logActive := bm.logActive + 1 }
  | .logSeq => bm

/-- The counters when a block of a type is given back. -/
def released (bm : BlockManager) : BlockType → BlockManager
  | .data => { bm with dataActive := bm.dataActive - 1 }
  | .log => { bm with logActive := bm.logActive - 1 }
  | .logSeq => bm

end BlockManager

/-- `BLOCK_SIZE`, `NUMBER_OF_ADDRESSABLE_BLOCKS`, `max_log_blocks`, and the test on the share of used
blocks in `insert_events`, which is made in floating point. -/
structure SsdConfig where
  blockSize : ℕ
  addressableBlocks : ℕ
  maxLogBlocks : ℕ
  gcDue : BlockManager → Bool
  blockSize_pos : 0 < blockSize

structure Media (size : ℕ) (π : Type) where
  flash : Flash size π
  bm : BlockManager

namespace Media

variable {size : ℕ} {π : Type}

/-- The first step of `insert_events`: blocks of the invalid list are erased, the last ones first. -/
def cleanInvalid : ℕ → Media size π → Except Halt (Media size π)
  | 0, m => .ok m
  | n + 1, m =>
    match m.bm.invalidList.getLast? with
    | none => .ok m
    | some b => do
      let flash ← m.flash.erase b
      cleanInvalid n ⟨flash, { m.bm with
        freeList := m.bm.freeList ++ [b]
        invalidList := m.bm.invalidList.dropLast }⟩

/-- `insert_events` -/
def insertEvents (cfg : SsdConfig) (m : Media size π) : Except Halt (Media size π) :=
  if cfg.gcDue m.bm then cleanInvalid 5 m else .ok m

/-- `get_page_block` collects garbage before it takes the last free block. -/
def refill (cfg : SsdConfig) (m : Media size π) : Except Halt (Media size π) :=
  if m.bm.freeList.length ≤ 1 ∧ m.bm.outOfBlocks = false then
    insertEvents cfg { m with bm := { m.bm with outOfBlocks := true } }
  else .ok m

/-- `get_page_block`; an address is the number of its block times the block size. -/
def getPageBlock (cfg : SsdConfig) (m : Media size π) : Except Halt (ℕ × Media size π) :=
  if m.bm.simpleCurrentFree < cfg.addressableBlocks * size then
    .ok (m.bm.simpleCurrentFree,
      { m with bm := { m.bm with simpleCurrentFree := m.bm.simpleCurrentFree + size } })
  else do
    let m ← m.refill cfg
    match m.bm.freeList with
    | [] => .error .noFreeBlock
    | b :: rest =>
      .ok (b * size, { m with bm := { m.bm with freeList := rest, outOfBlocks := false } })

/-- `get_num_free_blocks` -/
def getNumFreeBlocks (cfg : SsdConfig) (m : Media size π) : ℕ :=
  if m.bm.simpleCurrentFree < cfg.addressableBlocks * size then
    m.bm.simpleCurrentFree / size + m.bm.freeList.length
  else m.bm.freeList.length

/-- `get_free_block` -/
def getFreeBlock (cfg : SsdConfig) (type : BlockType) (m : Media size π) :
    Except Halt (ℕ × Media size π) := do
  let (address, m) ← getPageBlock cfg m
  match type with
  | .data => .ok (address, { m with bm := { m.bm with dataActive := m.bm.dataActive + 1 } })
  | .log =>
    if cfg.maxLogBlocks < m.bm.logActive.toNat then .error .badAlloc
    else .ok (address, { m with bm := { m.bm with logActive := m.bm.logActive + 1 } })
  | .logSeq => .ok (address, m)

/-- `Block_manager::invalidate` -/
def invalidateBlock (m : Media size π) (address : ℕ) (type : BlockType) : Media size π :=
  let bm := { m.bm with invalidList := m.bm.invalidList ++ [address / size] }
  { m with bm := bm.released type }

/-- `erase_and_invalidate` -/
def eraseAndInvalidate (m : Media size π) (address : ℕ) (type : BlockType) :
    Except Halt (Media size π) := do
  let flash ← m.flash.erase (address / size)
  let bm := { m.bm with freeList := m.bm.freeList ++ [address / size] }
  .ok ⟨flash, bm.released type⟩

end Media

/-! ## The pool of blocks -/

section Pool

variable {size : ℕ} {π : Type}

/-- **The blocks that are not held** are fresh, free or wait for an erase, each once. -/
structure Pool (m : Media size π) (held : Set ℕ) : Prop where
  sound : m.flash.Sound
  fresh : ∃ n, m.bm.simpleCurrentFree = n * size ∧ (∀ b, n ≤ b → m.flash.Erased b) ∧
    ∀ b, b ∈ held ∨ b ∈ m.bm.freeList ++ m.bm.invalidList → b < n
  free : ∀ b ∈ m.bm.freeList, m.flash.Erased b
  nodup : (m.bm.freeList ++ m.bm.invalidList).Nodup
  apart : ∀ b ∈ held, b ∉ m.bm.freeList ++ m.bm.invalidList

/-- Blocks of the set keep their pages and counters, and all data stay. -/
structure Keeps (m m' : Media size π) (held : Set ℕ) : Prop where
  block : ∀ b ∈ held, m'.flash.block b = m.flash.block b
  pageData : m'.flash.pageData = m.flash.pageData

theorem Keeps.refl (m : Media size π) (held : Set ℕ) : Keeps m m held := ⟨fun _ _ => rfl, rfl⟩

theorem Keeps.trans {m m' m'' : Media size π} {held : Set ℕ} (h : Keeps m m' held)
    (h' : Keeps m' m'' held) : Keeps m m'' held :=
  ⟨fun b hb => (h'.block b hb).trans (h.block b hb), h'.pageData.trans h.pageData⟩

variable {m : Media size π} {held : Set ℕ} {ok : Halt → Prop}

theorem pool_new (erases : ℕ) (junk : ℕ → π) :
    Pool (⟨⟨fun _ => .new erases, junk⟩, .new⟩ : Media size π) ∅ := by
  refine ⟨fun _ => Block.sound_new erases, ⟨0, (Nat.zero_mul size).symm, fun _ _ => ⟨fun _ => rfl, rfl⟩,
    fun b hb => ?_⟩, ?_, List.nodup_nil, ?_⟩
  · rcases hb with hb | hb
    · exact absurd hb (Set.notMem_empty b)
    · exact absurd hb List.not_mem_nil
  · intro b hb
    exact absurd hb List.not_mem_nil
  · intro b hb
    exact absurd hb (Set.notMem_empty b)

theorem Pool.of_flash (h : Pool m held) {g : Flash size π} (hsound : g.Sound)
    (hframe : ∀ b ∉ held, g.block b = m.flash.block b) : Pool ⟨g, m.bm⟩ held := by
  have hin : ∀ b ∈ m.bm.freeList ++ m.bm.invalidList, b ∉ held := fun b hb hheld =>
    h.apart b hheld hb
  obtain ⟨n, hn, herased, hlt⟩ := h.fresh
  refine ⟨hsound, ⟨n, hn, fun b hb => (herased b hb).congr (hframe b ?_), hlt⟩, fun b hb => ?_,
    h.nodup, h.apart⟩
  · intro hheld
    exact absurd (hlt b (Or.inl hheld)) (not_lt.mpr hb)
  · exact (h.free b hb).congr (hframe b (hin b (List.mem_append_left _ hb)))

theorem Pool.of_bm (h : Pool m held) {b : BlockManager}
    (hfree : b.simpleCurrentFree = m.bm.simpleCurrentFree) (hlist : b.freeList = m.bm.freeList)
    (hinvalid : b.invalidList = m.bm.invalidList) : Pool ⟨m.flash, b⟩ held := by
  obtain ⟨hsound, hfresh, hfr, hnodup, hapart⟩ := h
  rw [← hfree, ← hlist, ← hinvalid] at hfresh
  rw [← hlist] at hfr
  rw [← hlist, ← hinvalid] at hnodup hapart
  exact ⟨hsound, hfresh, hfr, hnodup, hapart⟩

theorem cleanInvalid_spec (hworn : ok .worn) (n : ℕ) (h : Pool m held) :
    Yields ok (m.cleanInvalid n) fun m' => Pool m' held ∧ Keeps m m' held := by
  induction n generalizing m with
  | zero => exact ⟨h, .refl _ _⟩
  | succ n ih =>
    rw [Media.cleanInvalid]
    cases hlast : m.bm.invalidList.getLast? with
    | none => exact ⟨h, .refl _ _⟩
    | some b =>
      have hlist : m.bm.invalidList.dropLast ++ [b] = m.bm.invalidList :=
        List.dropLast_append_getLast? b hlast
      have hb : b ∈ m.bm.invalidList := List.mem_of_getLast? hlast
      have hnot : b ∉ held := fun hheld => h.apart b hheld (List.mem_append_right _ hb)
      -- the block goes from the one list to the other, and to no owner
      have hmoved : (m.bm.freeList ++ [b] ++ m.bm.invalidList.dropLast).Perm
          (m.bm.freeList ++ m.bm.invalidList) := by
        rw [List.append_assoc]
        refine List.Perm.append_left _ (List.perm_append_comm.trans ?_)
        rw [hlist]
      refine (Flash.erase_spec hworn h.sound b).bind fun g hg => ?_
      obtain ⟨hsound, herased, hdata, hother⟩ := hg
      have hpool : Pool (⟨g, { m.bm with
          freeList := m.bm.freeList ++ [b]
          invalidList := m.bm.invalidList.dropLast }⟩ : Media size π) held := by
        obtain ⟨k, hk, hfresh, hlt⟩ := h.fresh
        have hbk : b < k := hlt b (Or.inr (List.mem_append_right _ hb))
        refine ⟨hsound, ⟨k, hk, fun c hc => ?_, fun c hc => hlt c ?_⟩, fun c hc => ?_, ?_, ?_⟩
        · exact (hfresh c hc).congr (hother c (by omega))
        · exact hc.imp_right fun hc => hmoved.mem_iff.mp hc
        · by_cases hcb : c = b
          · rw [hcb]
            exact herased
          · have hold : c ∈ m.bm.freeList :=
              (List.mem_append.mp hc).resolve_right fun h => hcb (List.mem_singleton.mp h)
            exact (h.free c hold).congr (hother c hcb)
        · exact hmoved.nodup_iff.mpr h.nodup
        · exact fun c hc hmem => h.apart c hc (hmoved.mem_iff.mp hmem)
      refine (ih hpool).mono fun m' hm' => ⟨hm'.1, ?_⟩
      refine Keeps.trans ⟨fun c hc => ?_, hdata⟩ hm'.2
      exact hother c fun hcb => hnot (hcb ▸ hc)

/-- **Garbage collection** moves blocks from the invalid list to the free list. -/
theorem insertEvents_spec (hworn : ok .worn) (cfg : SsdConfig) (h : Pool m held) :
    Yields ok (m.insertEvents cfg) fun m' => Pool m' held ∧ Keeps m m' held := by
  rw [Media.insertEvents]
  split_ifs
  · exact cleanInvalid_spec hworn 5 h
  · exact ⟨h, .refl _ _⟩

/-- What an allocation gives: an erased block that was not held. -/
structure Allocated (m : Media size π) (held : Set ℕ) (address : ℕ) (m' : Media size π) : Prop where
  aligned : address = address / size * size
  new : address / size ∉ held
  erased : m'.flash.Erased (address / size)
  pool : Pool m' (insert (address / size) held)
  keeps : Keeps m m' held

theorem Pool.sweep (hsize : 0 < size) (h : Pool m held) :
    Allocated m held m.bm.simpleCurrentFree
      { m with bm := { m.bm with simpleCurrentFree := m.bm.simpleCurrentFree + size } } := by
  obtain ⟨n, hn, hfresh, hlt⟩ := h.fresh
  have hdiv : m.bm.simpleCurrentFree / size = n := by
    rw [hn, Nat.mul_div_cancel n hsize]
  have hnot : ∀ b, b ∈ held ∨ b ∈ m.bm.freeList ++ m.bm.invalidList → b ≠ n := fun b hb heq =>
    absurd (hlt b hb) (by omega)
  refine ⟨?_, ?_, ?_, ⟨h.sound, ⟨n + 1, ?_, ?_, ?_⟩, h.free, h.nodup, ?_⟩, ⟨fun _ _ => rfl, rfl⟩⟩
  · rw [hdiv, hn]
  · rw [hdiv]
    exact fun hheld => hnot n (Or.inl hheld) rfl
  · rw [hdiv]
    exact hfresh n le_rfl
  · rw [hn, Nat.succ_mul]
  · exact fun b hb => hfresh b (by omega)
  · rintro b ((rfl | hb) | hb)
    · exact lt_of_eq_of_lt hdiv (Nat.lt_succ_self n)
    · exact Nat.lt_succ_of_lt (hlt b (Or.inl hb))
    · exact Nat.lt_succ_of_lt (hlt b (Or.inr hb))
  · rintro b (rfl | hb) hmem
    · exact hnot _ (Or.inr hmem) hdiv
    · exact h.apart b hb hmem

theorem Pool.pop (hsize : 0 < size) (h : Pool m held) {b : ℕ} {rest : List ℕ}
    (hlist : m.bm.freeList = b :: rest) :
    Allocated m held (b * size)
      { m with bm := { m.bm with freeList := rest, outOfBlocks := false } } := by
  have hdiv : b * size / size = b := Nat.mul_div_cancel b hsize
  have hb : b ∈ m.bm.freeList := by
    rw [hlist]
    exact List.mem_cons_self
  have hnodup := h.nodup
  rw [hlist, List.cons_append, List.nodup_cons] at hnodup
  obtain ⟨n, hn, hfresh, hlt⟩ := h.fresh
  have hsub : ∀ c ∈ rest ++ m.bm.invalidList, c ∈ m.bm.freeList ++ m.bm.invalidList := by
    intro c hc
    rw [hlist, List.cons_append]
    exact List.mem_cons_of_mem _ hc
  refine ⟨by rw [hdiv], ?_, ?_, ⟨h.sound, ⟨n, hn, hfresh, ?_⟩, ?_, hnodup.2, ?_⟩,
    ⟨fun _ _ => rfl, rfl⟩⟩
  · rw [hdiv]
    exact fun hheld => h.apart b hheld (List.mem_append_left _ hb)
  · rw [hdiv]
    exact h.free b hb
  · rw [hdiv]
    rintro c ((rfl | hc) | hc)
    · exact hlt _ (Or.inr (List.mem_append_left _ hb))
    · exact hlt c (Or.inl hc)
    · exact hlt c (Or.inr (hsub c hc))
  · intro c hc
    refine h.free c ?_
    rw [hlist]
    exact List.mem_cons_of_mem _ hc
  · rw [hdiv]
    rintro c (rfl | hc) hmem
    · exact hnodup.1 hmem
    · exact h.apart c hc (hsub c hmem)

theorem refill_spec (hworn : ok .worn) (cfg : SsdConfig) (h : Pool m held) :
    Yields ok (m.refill cfg) fun m' => Pool m' held ∧ Keeps m m' held := by
  rw [Media.refill]
  split_ifs
  · have hpool := h.of_bm (b := { m.bm with outOfBlocks := true }) rfl rfl rfl
    exact (insertEvents_spec hworn cfg hpool).mono fun m' hm' =>
      ⟨hm'.1, ⟨hm'.2.block, hm'.2.pageData⟩⟩
  · exact ⟨h, .refl _ _⟩

theorem getPageBlock_spec (hsize : 0 < size) (hworn : ok .worn) (hnone : ok .noFreeBlock)
    (cfg : SsdConfig) (h : Pool m held) :
    Yields ok (m.getPageBlock cfg) fun r => Allocated m held r.1 r.2 := by
  rw [Media.getPageBlock]
  split_ifs with hsweep
  · exact h.sweep hsize
  · refine (refill_spec hworn cfg h).bind fun m' hm' => ?_
    obtain ⟨hpool, hkeeps⟩ := hm'
    cases hlist : m'.bm.freeList with
    | nil => exact hnone
    | cons b rest =>
      obtain ⟨haligned, hnew, herased, hpool', hkeeps'⟩ := hpool.pop hsize hlist
      exact ⟨haligned, hnew, herased, hpool', hkeeps.trans hkeeps'⟩

/-- **An allocation** gives an erased block that was not held. -/
theorem getFreeBlock_spec (hsize : 0 < size) (hworn : ok .worn) (hnone : ok .noFreeBlock)
    (hbad : ok .badAlloc) (cfg : SsdConfig) (type : BlockType) (h : Pool m held) :
    Yields ok (m.getFreeBlock cfg type) fun r => Allocated m held r.1 r.2 := by
  refine (getPageBlock_spec hsize hworn hnone cfg h).bind fun r hr => ?_
  obtain ⟨address, m'⟩ := r
  obtain ⟨haligned, hnew, herased, hpool, hkeeps⟩ := hr
  have hcounted : ∀ bm : BlockManager, bm.simpleCurrentFree = m'.bm.simpleCurrentFree →
      bm.freeList = m'.bm.freeList → bm.invalidList = m'.bm.invalidList →
        Allocated m held address ⟨m'.flash, bm⟩ := fun bm hf hl hi =>
    ⟨haligned, hnew, herased, hpool.of_bm hf hl hi, ⟨hkeeps.block, hkeeps.pageData⟩⟩
  cases type with
  | data => exact hcounted _ rfl rfl rfl
  | log =>
    dsimp only
    split_ifs
    · exact hbad
    · exact hcounted _ rfl rfl rfl
  | logSeq => exact hcounted _ rfl rfl rfl

theorem released_lists (bm : BlockManager) (type : BlockType) :
    (bm.released type).simpleCurrentFree = bm.simpleCurrentFree ∧
      (bm.released type).freeList = bm.freeList ∧
      (bm.released type).invalidList = bm.invalidList := by
  cases type <;> exact ⟨rfl, rfl, rfl⟩

/-- **A held block goes to one of the lists**; other blocks stay as they are. -/
theorem Pool.release (h : Pool m held) {b : ℕ} (hheld : b ∈ held) {g : Flash size π} {bm : BlockManager}
    (hsound : g.Sound) (hother : ∀ c ≠ b, g.block c = m.flash.block c)
    (hcurrent : bm.simpleCurrentFree = m.bm.simpleCurrentFree)
    (hmoved : (bm.freeList ++ bm.invalidList).Perm (b :: (m.bm.freeList ++ m.bm.invalidList)))
    (hfree : ∀ c ∈ bm.freeList, g.Erased c) : Pool ⟨g, bm⟩ (held \ {b}) := by
  obtain ⟨n, hn, hfresh, hlt⟩ := h.fresh
  have hlast : b < n := hlt b (Or.inl hheld)
  refine ⟨hsound, ⟨n, hcurrent.trans hn, fun c hc => ?_, fun c hc => ?_⟩, hfree, ?_, fun c hc hmem => ?_⟩
  · exact (hfresh c hc).congr (hother c (by omega))
  · rcases hc with hc | hc
    · exact hlt c (Or.inl hc.1)
    · rcases List.mem_cons.mp (hmoved.mem_iff.mp hc) with rfl | hc
      · exact hlast
      · exact hlt c (Or.inr hc)
  · exact hmoved.nodup_iff.mpr (List.nodup_cons.mpr ⟨h.apart b hheld, h.nodup⟩)
  · rcases List.mem_cons.mp (hmoved.mem_iff.mp hmem) with hcb | hmem
    · exact hc.2 hcb
    · exact h.apart c hc.1 hmem

theorem eraseAndInvalidate_spec (hworn : ok .worn) {address : ℕ} (type : BlockType) (h : Pool m held)
    (hheld : address / size ∈ held) :
    Yields ok (m.eraseAndInvalidate address type) fun m' =>
      Pool m' (held \ {address / size}) ∧ Keeps m m' (held \ {address / size}) := by
  refine (Flash.erase_spec hworn h.sound (address / size)).bind fun g hg => ?_
  obtain ⟨hsound, herased, hdata, hother⟩ := hg
  refine ⟨?_, ⟨fun c hc => hother c hc.2, hdata⟩⟩
  obtain ⟨hf, hl, hi⟩ := released_lists
    { m.bm with freeList := m.bm.freeList ++ [address / size] } type
  have hmoved : (m.bm.freeList ++ [address / size] ++ m.bm.invalidList).Perm
      (address / size :: (m.bm.freeList ++ m.bm.invalidList)) := by
    rw [List.append_assoc]
    exact List.perm_middle
  have hpool : Pool (⟨g, { m.bm with freeList := m.bm.freeList ++ [address / size] }⟩ : Media size π)
      (held \ {address / size}) := by
    refine h.release hheld hsound hother rfl hmoved fun c hc => ?_
    by_cases hcb : c = address / size
    · rw [hcb]
      exact herased
    · have hold : c ∈ m.bm.freeList :=
        (List.mem_append.mp hc).resolve_right fun h => hcb (List.mem_singleton.mp h)
      exact (h.free c hold).congr (hother c hcb)
  exact hpool.of_bm hf hl hi

/-- **A held block that is given back** waits for an erase. -/
theorem invalidateBlock_spec {address : ℕ} (type : BlockType) (h : Pool m held)
    (hheld : address / size ∈ held) :
    Pool (m.invalidateBlock address type) (held \ {address / size}) ∧
      (m.invalidateBlock address type).flash = m.flash := by
  refine ⟨?_, rfl⟩
  obtain ⟨hf, hl, hi⟩ := released_lists
    { m.bm with invalidList := m.bm.invalidList ++ [address / size] } type
  have hmoved : (m.bm.freeList ++ (m.bm.invalidList ++ [address / size])).Perm
      (address / size :: (m.bm.freeList ++ m.bm.invalidList)) := by
    rw [← List.append_assoc]
    exact List.perm_append_singleton _ _
  have hpool : Pool (⟨m.flash, { m.bm with invalidList := m.bm.invalidList ++ [address / size] }⟩ :
      Media size π) (held \ {address / size}) :=
    h.release hheld h.sound (fun _ _ => rfl) rfl hmoved h.free
  exact hpool.of_bm hf hl hi

end Pool

end ZnsFlash
