import ZnsFlash.Ssd.BlockManager
import Mathlib.Data.Finset.Insert
import Mathlib.Data.Finset.Card
import Mathlib.Data.Set.Finite.Basic

/-!
# The blocks of the block manager, counted

Sequences of calls on the block manager by the translation layers that release only what they hold.

* `BmCall`, `BmRun.call`, `BmRun.Reach`: the calls, with the blocks that their callers hold;
* `Media.Balanced`: every block that was handed out is held, free or waits for an erase;
* `getFreeBlock_balanced`, `insertEvents_balanced`: what the operations do to the numbers;
* **`free_blocks_counted_iff`**: no block is handed out twice, and when the free blocks are counted
  right.
-/

namespace ZnsFlash

variable {size : ℕ} {π : Type}

/-! ## Numbers of blocks -/

namespace Media

/-- The blocks that were handed out once, `n` of them, with `k` of them held now. -/
structure Balanced (m : Media size π) (n k : ℕ) : Prop where
  swept : m.bm.simpleCurrentFree = n * size
  total : k + m.bm.freeList.length + m.bm.invalidList.length = n

end Media

section Balance

variable {m : Media size π} {n k : ℕ} {ok : Halt → Prop}

theorem cleanInvalid_balanced (hworn : ok .worn) (count : ℕ) (h : m.Balanced n k) :
    Yields ok (m.cleanInvalid count) fun m' => m'.Balanced n k := by
  induction count generalizing m with
  | zero => exact h
  | succ count ih =>
    rw [Media.cleanInvalid]
    cases hlast : m.bm.invalidList.getLast? with
    | none => exact h
    | some b =>
      have hlength : m.bm.invalidList.dropLast.length + 1 = m.bm.invalidList.length := by
        rw [← List.dropLast_append_getLast? b hlast, List.length_append, List.dropLast_concat]
        rfl
      refine (Flash.erase_halts hworn b).bind fun g _ => ih ⟨h.swept, ?_⟩
      have htotal := h.total
      dsimp only
      rw [List.length_append, List.length_singleton]
      omega

theorem insertEvents_balanced (hworn : ok .worn) (cfg : SsdConfig) (h : m.Balanced n k) :
    Yields ok (m.insertEvents cfg) fun m' => m'.Balanced n k := by
  rw [Media.insertEvents]
  split_ifs
  · exact cleanInvalid_balanced hworn 5 h
  · exact h

/-- **An allocation** takes the next block of the sweep, and after the sweep a free block. -/
theorem getPageBlock_balanced (hsize : 0 < size) (hworn : ok .worn) (hnone : ok .noFreeBlock)
    (cfg : SsdConfig) (hn : n ≤ cfg.addressableBlocks) (h : m.Balanced n k) :
    Yields ok (m.getPageBlock cfg) fun r =>
      r.2.Balanced (min (n + 1) cfg.addressableBlocks) (k + 1) := by
  have hsweep : m.bm.simpleCurrentFree < cfg.addressableBlocks * size ↔ n < cfg.addressableBlocks := by
    rw [h.swept]
    exact Nat.mul_lt_mul_right hsize
  rw [Media.getPageBlock]
  by_cases hleft : n < cfg.addressableBlocks
  · rw [if_pos (hsweep.mpr hleft), Nat.min_eq_left hleft]
    have htotal := h.total
    refine ⟨?_, ?_⟩
    · dsimp only
      rw [h.swept, Nat.succ_mul]
    · dsimp only
      omega
  · have hall : min (n + 1) cfg.addressableBlocks = n := by omega
    rw [if_neg fun hlt => hleft (hsweep.mp hlt), hall]
    have hrefill : Yields ok (m.refill cfg) fun m' => m'.Balanced n k := by
      rw [Media.refill]
      split_ifs
      · exact insertEvents_balanced hworn cfg ⟨h.swept, h.total⟩
      · exact h
    refine hrefill.bind fun m' hm' => ?_
    have htotal := hm'.total
    cases hlist : m'.bm.freeList with
    | nil => exact hnone
    | cons b rest =>
      rw [hlist, List.length_cons] at htotal
      refine ⟨hm'.swept, ?_⟩
      dsimp only
      omega

theorem getFreeBlock_balanced (hsize : 0 < size) (hworn : ok .worn) (hnone : ok .noFreeBlock)
    (hbad : ok .badAlloc) (cfg : SsdConfig) (type : BlockType) (hn : n ≤ cfg.addressableBlocks)
    (h : m.Balanced n k) :
    Yields ok (m.getFreeBlock cfg type) fun r =>
      r.2.Balanced (min (n + 1) cfg.addressableBlocks) (k + 1) := by
  refine (getPageBlock_balanced hsize hworn hnone cfg hn h).bind fun r hr => ?_
  cases type with
  | data => exact ⟨hr.swept, hr.total⟩
  | log =>
    dsimp only
    split_ifs
    · exact hbad
    · exact ⟨hr.swept, hr.total⟩
  | logSeq => exact hr

theorem Media.Balanced.released (h : m.Balanced n k) (type : BlockType) :
    (⟨m.flash, m.bm.released type⟩ : Media size π).Balanced n k := by
  obtain ⟨hf, hl, hi⟩ := released_lists m.bm type
  refine ⟨hf.trans h.swept, ?_⟩
  rw [hl, hi]
  exact h.total

theorem eraseAndInvalidate_balanced (hworn : ok .worn) (address : ℕ) (type : BlockType)
    (h : m.Balanced n (k + 1)) :
    Yields ok (m.eraseAndInvalidate address type) fun m' => m'.Balanced n k := by
  have htotal := h.total
  refine (Flash.erase_halts hworn (address / size)).bind fun g _ => ?_
  refine Media.Balanced.released (m := ⟨g, { m.bm with
    freeList := m.bm.freeList ++ [address / size] }⟩) ⟨h.swept, ?_⟩ type
  dsimp only
  rw [List.length_append, List.length_singleton]
  omega

theorem invalidateBlock_balanced (address : ℕ) (type : BlockType) (h : m.Balanced n (k + 1)) :
    (m.invalidateBlock address type).Balanced n k := by
  have htotal := h.total
  refine Media.Balanced.released (m := ⟨m.flash, { m.bm with
    invalidList := m.bm.invalidList ++ [address / size] }⟩) ⟨h.swept, ?_⟩ type
  dsimp only
  rw [List.length_append, List.length_singleton]
  omega

/-- **The count of free blocks** is the number of swept blocks during the sweep. -/
theorem getNumFreeBlocks_eq (hsize : 0 < size) (cfg : SsdConfig) (h : m.Balanced n k) :
    m.getNumFreeBlocks cfg =
      (if n < cfg.addressableBlocks then n else 0) + m.bm.freeList.length := by
  have hsweep : m.bm.simpleCurrentFree < cfg.addressableBlocks * size ↔ n < cfg.addressableBlocks := by
    rw [h.swept]
    exact Nat.mul_lt_mul_right hsize
  rw [Media.getNumFreeBlocks]
  simp only [hsweep]
  split_ifs
  · rw [h.swept, Nat.mul_div_cancel n hsize]
  · exact (Nat.zero_add _).symm

end Balance

/-! ## Runs -/

/-- The calls on the block manager. -/
inductive BmCall
  | getFreeBlock (type : BlockType)
  | eraseAndInvalidate (address : ℕ) (type : BlockType)
  | invalidate (address : ℕ) (type : BlockType)
  | insertEvents

/-- The blocks that the callers hold, and how many allocations they have made. -/
structure BmRun (size : ℕ) (π : Type) where
  media : Media size π
  held : Finset ℕ
  allocations : ℕ

namespace BmRun

/-- At start-up; `junk` is what `page_data` holds. -/
def start (erases : ℕ) (junk : ℕ → π) : BmRun size π := ⟨⟨⟨fun _ => .new erases, junk⟩, .new⟩, ∅, 0⟩

def call (cfg : SsdConfig) (s : BmRun size π) : BmCall → Except Halt (BmRun size π)
  | .getFreeBlock type => do
    let (address, media) ← s.media.getFreeBlock cfg type
    .ok ⟨media, insert (address / size) s.held, s.allocations + 1⟩
  | .eraseAndInvalidate address type => do
    let media ← s.media.eraseAndInvalidate address type
    .ok { s with media, held := s.held.erase (address / size) }
  | .invalidate address type =>
    .ok { s with
      media := s.media.invalidateBlock address type
      held := s.held.erase (address / size) }
  | .insertEvents => do
    let media ← s.media.insertEvents cfg
    .ok { s with media }

/-- Only held blocks are released. -/
def Legal (s : BmRun size π) : BmCall → Prop
  | .eraseAndInvalidate address _ | .invalidate address _ => address / size ∈ s.held
  | _ => True

/-- The runs of legal calls that succeed. -/
inductive Reach (cfg : SsdConfig) (erases : ℕ) (junk : ℕ → π) : BmRun size π → Prop
  | start : Reach cfg erases junk (start erases junk)
  | call {s s' : BmRun size π} {c : BmCall} (h : Reach cfg erases junk s) (hlegal : s.Legal c)
    (hcall : s.call cfg c = .ok s') : Reach cfg erases junk s'

/-- What holds between the calls. -/
structure Inv (cfg : SsdConfig) (s : BmRun size π) : Prop where
  pool : Pool s.media s.held
  balanced : s.media.Balanced (min s.allocations cfg.addressableBlocks) s.held.card

theorem inv_start (cfg : SsdConfig) (erases : ℕ) (junk : ℕ → π) :
    Inv cfg (start erases junk : BmRun size π) where
  pool := by
    show Pool _ ((∅ : Finset ℕ) : Set ℕ)
    rw [Finset.coe_empty]
    exact pool_new erases junk
  balanced := by
    have hzero : min 0 cfg.addressableBlocks = 0 := Nat.zero_min _
    refine ⟨?_, hzero.symm⟩
    show 0 = min 0 cfg.addressableBlocks * size
    rw [hzero, Nat.zero_mul]

theorem inv_call (cfg : SsdConfig) (hsize : 0 < size) {s : BmRun size π} {c : BmCall} (h : Inv cfg s)
    (hlegal : s.Legal c) : Yields (fun _ => True) (s.call cfg c) (Inv cfg) := by
  obtain ⟨hpool, hbalanced⟩ := h
  have hreleased : ∀ b ∈ s.held, (s.held : Set ℕ) \ {b} = (s.held.erase b : Finset ℕ) ∧
      s.media.Balanced (min s.allocations cfg.addressableBlocks) ((s.held.erase b).card + 1) := by
    intro b hb
    rw [Finset.card_erase_add_one hb, Finset.coe_erase]
    exact ⟨rfl, hbalanced⟩
  cases c with
  | getFreeBlock type =>
    have halloc : Yields (fun _ => True) (s.media.getFreeBlock cfg type) fun r =>
        Allocated s.media s.held r.1 r.2 :=
      getFreeBlock_spec hsize trivial trivial trivial cfg type hpool
    refine (halloc.and (getFreeBlock_balanced hsize trivial trivial trivial cfg type
      (Nat.min_le_right _ _) hbalanced)).bind fun r hr => ?_
    obtain ⟨halloc, hcount⟩ := hr
    have hnew : r.1 / size ∉ s.held := halloc.new
    -- the high-water mark moves until all addressable blocks were handed out
    have hsucc : min (min s.allocations cfg.addressableBlocks + 1) cfg.addressableBlocks =
        min (s.allocations + 1) cfg.addressableBlocks := by omega
    refine ⟨?_, ?_⟩
    · dsimp only
      rw [Finset.coe_insert]
      exact halloc.pool
    · dsimp only
      rw [Finset.card_insert_of_notMem hnew, ← hsucc]
      exact hcount
  | eraseAndInvalidate address type =>
    obtain ⟨hset, hcard⟩ := hreleased _ hlegal
    have herased : Yields (fun _ => True) (s.media.eraseAndInvalidate address type) fun m =>
        Pool m (s.held \ {address / size}) ∧ Keeps s.media m (s.held \ {address / size}) :=
      eraseAndInvalidate_spec trivial type hpool hlegal
    refine (herased.and (eraseAndInvalidate_balanced trivial address type hcard)).bind fun m hm => ?_
    obtain ⟨⟨hpool', -⟩, hcount⟩ := hm
    exact ⟨hset ▸ hpool', hcount⟩
  | invalidate address type =>
    obtain ⟨hset, hcard⟩ := hreleased _ hlegal
    obtain ⟨hpool', -⟩ := invalidateBlock_spec type hpool hlegal
    exact ⟨hset ▸ hpool', invalidateBlock_balanced address type hcard⟩
  | insertEvents =>
    have hinserted : Yields (fun _ => True) (s.media.insertEvents cfg) fun m =>
        Pool m s.held ∧ Keeps s.media m s.held := insertEvents_spec trivial cfg hpool
    exact (hinserted.and (insertEvents_balanced trivial cfg hbalanced)).bind fun m hm =>
      ⟨hm.1.1, hm.2⟩

theorem Reach.inv {cfg : SsdConfig} (hsize : 0 < size) {erases : ℕ} {junk : ℕ → π}
    {s : BmRun size π} (h : Reach cfg erases junk s) : Inv cfg s := by
  induction h with
  | start => exact inv_start cfg erases junk
  | call _ hlegal hcall ih => exact (inv_call cfg hsize ih hlegal).of_ok hcall

end BmRun

/-- **Allocations and the count of free blocks.** In every run an allocation gives a block that is not
held and does not wait for an erase. The count is right exactly when all blocks have been handed out
once, or exactly half of them. -/
theorem free_blocks_counted_iff {π : Type} (cfg : SsdConfig) (erases : ℕ) (junk : ℕ → π)
    (s : BmRun cfg.blockSize π) (h : BmRun.Reach cfg erases junk s) :
    (∀ type address m, s.media.getFreeBlock cfg type = .ok (address, m) →
        address / cfg.blockSize ∉ s.held ∧ address / cfg.blockSize ∉ m.bm.invalidList) ∧
      (s.media.getNumFreeBlocks cfg + s.held.card + s.media.bm.invalidList.length =
          cfg.addressableBlocks ↔
        cfg.addressableBlocks ≤ s.allocations ∨ 2 * s.allocations = cfg.addressableBlocks) := by
  obtain ⟨hpool, hbalanced⟩ := h.inv cfg.blockSize_pos
  refine ⟨fun type address m hm => ?_, ?_⟩
  · have hspec : Yields (fun _ => True) (s.media.getFreeBlock cfg type) fun r =>
        Allocated s.media s.held r.1 r.2 :=
      getFreeBlock_spec cfg.blockSize_pos trivial trivial trivial cfg type hpool
    have halloc := hspec.of_ok hm
    refine ⟨halloc.new, fun hmem => ?_⟩
    exact halloc.pool.apart _ (Set.mem_insert _ _) (List.mem_append_right _ hmem)
  · have htotal := hbalanced.total
    rw [getNumFreeBlocks_eq cfg.blockSize_pos cfg hbalanced]
    split_ifs <;> omega

/-- A device with two blocks. -/
def twoBlockSsd : SsdConfig := ⟨2, 2, 2, fun _ => false, Nat.two_pos⟩

/-- After one allocation. -/
def oneHeld : BmRun 2 ℕ := ⟨⟨⟨fun _ => .new 9, id⟩, ⟨2, [], [], 1, 0, false⟩⟩, {0}, 1⟩

theorem oneHeld_reach : BmRun.Reach twoBlockSsd 9 id oneHeld :=
  .call (c := .getFreeBlock .data) .start trivial rfl

theorem free_blocks_counted_iff_oneHeld :
    oneHeld.media.getNumFreeBlocks twoBlockSsd + oneHeld.held.card +
      oneHeld.media.bm.invalidList.length = 2 :=
  (free_blocks_counted_iff twoBlockSsd 9 id oneHeld oneHeld_reach).2.mpr (Or.inr rfl)

/-- **A fresh device has no free blocks**, says the count. -/
theorem fresh_device_counts_none :
    BmRun.Reach twoBlockSsd 9 id (BmRun.start 9 id : BmRun 2 ℕ) ∧
      (BmRun.start 9 id : BmRun 2 ℕ).media.getNumFreeBlocks twoBlockSsd ≠
        twoBlockSsd.addressableBlocks - (BmRun.start 9 id : BmRun 2 ℕ).held.card -
          (BmRun.start 9 id : BmRun 2 ℕ).media.bm.invalidList.length :=
  ⟨.start, by decide⟩

end ZnsFlash
