import ZnsFlash.Ssd.Geometry
import Mathlib.Data.List.Infix

/-!
# Planes

`ssd_plane.cpp`: erases with the wear statistics, and merges of two blocks. Times are left out.

* `Plane.updateWearStats`, `Plane.erase`, `Plane.eraseAll`: erases;
* `Plane.NamesLeastWorn`: what the statistics should say; **`least_worn_iff`**: when they do;
* `Plane.merge`: a merge, with or without the assertions; `Moved`: what it should do;
* **`merge_moves_iff`**: when it does.
-/

namespace ZnsFlash

/-! ## Erases -/

structure EraseEvent where
  address : Address
  noop : Bool

namespace Plane

variable {n : ℕ}

/-- A change of one block. -/
def setBlock (p : Plane n) (j : ℕ) (b : Block n) : Plane n :=
  { p with data := Function.update p.data j { p.data j with toBlock := b } }

theorem toBlock_setBlock_self (p : Plane n) (j : ℕ) (b : Block n) :
    ((p.setBlock j b).data j).toBlock = b := by
  rw [setBlock]
  dsimp only
  rw [Function.update_self]

theorem toBlock_setBlock_of_ne (p : Plane n) {i j : ℕ} (b : Block n) (h : i ≠ j) :
    ((p.setBlock j b).data i).toBlock = (p.data i).toBlock := by
  rw [setBlock]
  dsimp only
  rw [Function.update_of_ne h]

/-- `update_wear_stats` -/
def updateWearStats (p : Plane n) : Plane n :=
  let max := (p.data 0).erasesRemaining
  -- the loop does not change `max`
  let maxIndex := (List.range' 1 (p.size.toNat - 1)).foldl
    (fun maxIndex i => if max < (p.data i).erasesRemaining then i else maxIndex) 0
  { p with leastWorn := maxIndex, erasesRemaining := max }

/-- `erase`; `none` is `FAILURE`, or the assertion on the address. -/
def erase (p : Plane n) (event : EraseEvent) : Option (Plane n) :=
  if event.address.block.toNat < p.size.toNat ∧
      AddressValid.plane.level < event.address.valid.level then
    if event.noop then some p.updateWearStats
    else (p.data event.address.block.toNat).erase.map fun b =>
      (p.setBlock event.address.block.toNat b).updateWearStats
  else none

def eraseAll (p : Plane n) (events : List EraseEvent) : Option (Plane n) := events.foldlM erase p

/-- The statistics name a block with the most erases remaining, and its number of them. -/
structure NamesLeastWorn (p : Plane n) : Prop where
  inPlane : p.leastWorn < p.size.toNat
  most : ∀ j < p.size.toNat, (p.data j).erasesRemaining ≤ (p.data p.leastWorn).erasesRemaining
  count : p.erasesRemaining = (p.data p.leastWorn).erasesRemaining

end Plane

/-- How often a block was erased. -/
def wear (events : List EraseEvent) (j : ℕ) : ℕ :=
  events.countP fun e => !e.noop && e.address.block.toNat == j

namespace Plane

section Wear

variable {n : ℕ} {p q : Plane n} {event : EraseEvent}

/-- **The statistics are right** exactly when block 0 is least worn. -/
theorem namesLeastWorn_updateWearStats (hsize : 0 < p.size.toNat) :
    p.updateWearStats.NamesLeastWorn ↔
      ∀ j < p.size.toNat, (p.data j).erasesRemaining ≤ (p.data 0).erasesRemaining := by
  constructor
  · intro h j hj
    exact (h.most j hj).trans h.count.ge
  · intro h
    have hkeep : ∀ l : List ℕ, (∀ i ∈ l, i < p.size.toNat) →
        l.foldl (fun maxIndex i =>
          if (p.data 0).erasesRemaining < (p.data i).erasesRemaining then i else maxIndex) 0 = 0 := by
      intro l hl
      induction l with
      | nil => rfl
      | cons i l ih =>
        rw [List.foldl_cons, if_neg (not_lt.mpr (h i (hl i List.mem_cons_self)))]
        exact ih fun k hk => hl k (List.mem_cons_of_mem i hk)
    have hzero : p.updateWearStats.leastWorn = 0 := by
      refine hkeep _ fun i hi => ?_
      obtain ⟨-, hlt⟩ := List.mem_range'_1.mp hi
      omega
    refine ⟨?_, ?_, ?_⟩
    · rw [hzero]
      exact hsize
    · rw [hzero]
      exact h
    · rw [hzero]
      rfl

theorem wear_noop (j : ℕ) (h : event.noop = true) : wear [event] j = 0 := by
  rw [wear, List.countP_singleton, h]
  rfl

theorem wear_erased (j : ℕ) (h : ¬ event.noop = true) :
    wear [event] j = if event.address.block.toNat = j then 1 else 0 := by
  rw [wear, List.countP_singleton, Bool.eq_false_iff.mpr h]
  simp

/-- **One erase** wears one block, and computes the statistics anew. -/
theorem erase_spec (h : p.erase event = some q) :
    0 < p.size.toNat ∧ q.size = p.size ∧
      (∀ j, (q.data j).erasesRemaining + wear [event] j = (p.data j).erasesRemaining) ∧
      (q.NamesLeastWorn ↔
        ∀ j < q.size.toNat, (q.data j).erasesRemaining ≤ (q.data 0).erasesRemaining) := by
  rw [erase] at h
  split_ifs at h with haddress hnoop
  · have hpos := Nat.zero_lt_of_lt haddress.1
    rw [← Option.some.inj h]
    refine ⟨hpos, rfl, fun j => ?_, namesLeastWorn_updateWearStats hpos⟩
    rw [wear_noop j hnoop]
    rfl
  · have hpos := Nat.zero_lt_of_lt haddress.1
    obtain ⟨b, hb, rfl⟩ := Option.map_eq_some_iff.mp h
    refine ⟨hpos, rfl, fun j => ?_, namesLeastWorn_updateWearStats hpos⟩
    rw [Block.erase] at hb
    split_ifs at hb with hworn
    rw [wear_erased j hnoop, ← Option.some.inj hb]
    by_cases hj : event.address.block.toNat = j
    · subst hj
      rw [if_pos rfl]
      simp only [updateWearStats, setBlock, Function.update_self]
      omega
    · rw [if_neg hj]
      simp only [updateWearStats, setBlock, Function.update_of_ne (Ne.symm hj), Nat.add_zero]

theorem wear_append (events events' : List EraseEvent) (j : ℕ) :
    wear (events ++ events') j = wear events j + wear events' j := List.countP_append ..

theorem eraseAll_concat {events : List EraseEvent} :
    p.eraseAll (events ++ [event]) = (p.eraseAll events).bind fun q => q.erase event := by
  rw [eraseAll, List.foldlM_append]
  simp only [List.foldlM_cons, List.foldlM_nil, bind_pure]
  rfl

/-- **A sequence of erases** wears each block as often as it is erased. -/
theorem eraseAll_spec {events : List EraseEvent} (h : p.eraseAll events = some q) :
    q.size = p.size ∧
      (∀ j, (q.data j).erasesRemaining + wear events j = (p.data j).erasesRemaining) ∧
      (events ≠ [] → (q.NamesLeastWorn ↔
        ∀ j < p.size.toNat, (q.data j).erasesRemaining ≤ (q.data 0).erasesRemaining)) := by
  induction events using List.reverseRecOn generalizing q with
  | nil =>
    obtain rfl := Option.some.inj h
    exact ⟨rfl, fun _ => rfl, fun hne => absurd rfl hne⟩
  | append_singleton events event ih =>
    rw [eraseAll_concat] at h
    obtain ⟨r, hr, hq⟩ := Option.bind_eq_some_iff.mp h
    obtain ⟨hsize, hworn, -⟩ := ih hr
    obtain ⟨-, hsize', hone, hright⟩ := erase_spec hq
    refine ⟨hsize'.trans hsize, fun j => ?_, fun _ => ?_⟩
    · rw [wear_append, ← hworn j, ← hone j]
      omega
    · rw [← hsize, ← hsize']
      exact hright

theorem exists_eraseAll_of_prefix {events pre : List EraseEvent} (h : pre <+: events)
    (hq : p.eraseAll events = some q) : ∃ r, p.eraseAll pre = some r := by
  obtain ⟨post, rfl⟩ := h
  rw [eraseAll, List.foldlM_append] at hq
  obtain ⟨r, hr, -⟩ := Option.bind_eq_some_iff.mp hq
  exact ⟨r, hr⟩

end Wear

end Plane

/-- **The wear statistics** name the least worn block after every erase of a sequence exactly when
block 0 is never worn more than another block. -/
theorem least_worn_iff (g : DeviceSizes) (erases : ℕ) (planeSize : BitVec 32)
    (physicalAddress : BitVec 64) (events : List EraseEvent)
    (h : ∃ q, (Plane.new g erases planeSize physicalAddress).eraseAll events = some q) :
    (∀ pre, pre <+: events → pre ≠ [] → ∀ q,
        (Plane.new g erases planeSize physicalAddress).eraseAll pre = some q → q.NamesLeastWorn) ↔
      ∀ pre, pre <+: events → ∀ j < planeSize.toNat, wear pre 0 ≤ wear pre j := by
  obtain ⟨last, hlast⟩ := h
  refine forall_congr' fun pre => forall_congr' fun hpre => ?_
  obtain ⟨q, hq⟩ := Plane.exists_eraseAll_of_prefix hpre hlast
  obtain ⟨-, hworn, hright⟩ := Plane.eraseAll_spec hq
  have hcompare : ∀ j, (q.data j).erasesRemaining ≤ (q.data 0).erasesRemaining ↔
      wear pre 0 ≤ wear pre j := by
    intro j
    have hj : (q.data j).erasesRemaining + wear pre j = erases := hworn j
    have hzero : (q.data 0).erasesRemaining + wear pre 0 = erases := hworn 0
    omega
  have hiff : pre ≠ [] → (q.NamesLeastWorn ↔ ∀ j < planeSize.toNat, wear pre 0 ≤ wear pre j) := by
    intro hne
    rw [hright hne]
    exact forall_congr' fun j => forall_congr' fun _ => hcompare j
  constructor
  · intro hall
    by_cases hne : pre = []
    · subst hne
      exact fun _ _ => le_rfl
    · exact (hiff hne).mp (hall hne q hq)
  · intro hall hne q' hq'
    obtain rfl := Option.some.inj (hq.symm.trans hq')
    exact (hiff hne).mpr hall

/-- An erase of a block. -/
def eraseOf (block : BitVec 32) : EraseEvent := ⟨⟨0, 0, 0, block, 0, 0, .block⟩, false⟩

theorem least_worn_iff_two_blocks :
    ∃ q, (Plane.new smallDevice 9 2 0).eraseAll [eraseOf 1, eraseOf 0] = some q ∧
      q.NamesLeastWorn := by
  have hwear : ∀ pre ∈ [eraseOf 1, eraseOf 0].inits, ∀ j < (2 : BitVec 32).toNat,
      wear pre 0 ≤ wear pre j := by decide
  exact ⟨_, rfl, (least_worn_iff smallDevice 9 2 0 [eraseOf 1, eraseOf 0] ⟨_, rfl⟩).mpr
    (fun pre hpre => hwear pre ((List.mem_inits pre _).mpr hpre)) _ (List.prefix_refl _) (by simp) _
      rfl⟩

/-- **Stale statistics**: when block 0 is erased, the statistics keep its number of erases. -/
theorem least_worn_stale :
    ∃ q, (Plane.new smallDevice 9 2 0).eraseAll [eraseOf 0] = some q ∧ ¬ q.NamesLeastWorn := by
  refine ⟨_, rfl, fun h => ?_⟩
  exact absurd h.count (by decide)

/-! ## Merges -/

structure MergeEvent where
  address : Address
  mergeAddress : Address

namespace Plane

variable {n : ℕ}

/-- How many pages of a block are in a state. -/
def countPages (b : Block n) (st : PageState) : ℕ :=
  ((Finset.range n).filter fun i => b.pages i = st).card

/-- What the loops of `_merge` change; `page` is `write.page`. -/
structure MergeState (n : ℕ) where
  source : Block n
  target : Block n
  page : ℕ
  numMerged : ℕ

/-- The inner loop: the next empty page of the target. -/
def nextEmpty (b : Block n) (page : ℕ) : Option ℕ :=
  (List.range' page (n - page)).find? fun i => b.pages i = .empty

/-- One round of the outer loop, on page `i` of the source. The two events have copies of the addresses
from before the loops, so that every write goes to page 0 of the target. -/
def mergePage (asserts : Bool) (mergeCount : ℕ) (m : MergeState n) (i : ℕ) :
    Except Halt (MergeState n) :=
  if m.numMerged < mergeCount ∧ m.source.pages i = .valid then
    let source := m.source.invalidatePage i
    match nextEmpty m.target m.page with
    | none => .ok { m with source, page := n }
    | some page =>
      if asserts ∧ m.target.pages 0 ≠ .empty then .error .notEmpty
      else .ok ⟨source, m.target.write 0, page, m.numMerged + 1⟩
  else .ok m

/-- `_merge` of two blocks. `asserts` says whether assertions are compiled: `ssd.h` turns them off, but
only after the header that it means to change has been read. -/
def merge (asserts : Bool) (p : Plane n) (event : MergeEvent) : Except Halt (Status × Plane n) :=
  let source := event.address.block.toNat
  let target := event.mergeAddress.block.toNat
  if asserts ∧ ¬ (source < p.size.toNat ∧
      AddressValid.plane.level < event.address.valid.level ∧
      AddressValid.block.level ≤ (event.address.compare event.mergeAddress).level ∧
      target < p.size.toNat) then .error .badAddress
  else
    let mergeCount := countPages (p.data source).toBlock .valid
    let mergeAvail := countPages (p.data target).toBlock .empty
    if mergeAvail < mergeCount then .ok (.failure, p)
    else do
      let m ← (List.range n).foldlM (mergePage asserts mergeCount)
        ⟨(p.data source).toBlock, (p.data target).toBlock, 0, 0⟩
      .ok (.success, (p.setBlock source m.source).setBlock target m.target)

/-- What a merge should do: the target has gained as many valid pages as the source had, in pages that
were empty, and the source has none left. -/
structure Moved (source target source' target' : Block n) : Prop where
  gained : ∃ pages ⊆ Finset.range n, pages.card = countPages source .valid ∧
    (∀ i ∈ pages, target.pages i = .empty ∧ target'.pages i = .valid) ∧
    ∀ i < n, i ∉ pages → target'.pages i = target.pages i
  emptied : ∀ i < n, source'.pages i ≠ .valid

/-- **What the merge should return.** -/
def MergeMoves (asserts : Bool) (p : Plane n) (event : MergeEvent) : Prop :=
  ∀ status q, p.merge asserts event = .ok (status, q) →
    match status with
    | .success => Moved (p.data event.address.block.toNat).toBlock
        (p.data event.mergeAddress.block.toNat).toBlock (q.data event.address.block.toNat).toBlock
        (q.data event.mergeAddress.block.toNat).toBlock
    | .failure => ∀ j i, (q.data j).pages i = (p.data j).pages i

section Merge

variable {s₀ t₀ : Block n}

/-- The pages that were valid among the first `k`. -/
def validBefore (s₀ : Block n) (k : ℕ) : ℕ := ((Finset.range k).filter fun i => s₀.pages i = .valid).card

theorem validBefore_succ (s₀ : Block n) (k : ℕ) :
    validBefore s₀ (k + 1) = validBefore s₀ k + if s₀.pages k = .valid then 1 else 0 := by
  rw [validBefore, Finset.range_add_one, Finset.filter_insert]
  split_ifs with h
  · rw [Finset.card_insert_of_notMem (by simp), validBefore]
  · rfl

theorem validBefore_mono (s₀ : Block n) {k l : ℕ} (h : k ≤ l) : validBefore s₀ k ≤ validBefore s₀ l :=
  Finset.card_le_card (Finset.filter_subset_filter _ (Finset.range_subset_range.mpr h))

/-- The target after some writes to its page 0. -/
def writtenPages (t₀ : Block n) (count : ℕ) : ℕ → PageState :=
  if count = 0 then t₀.pages else Function.update t₀.pages 0 .valid

/-- The blocks after `k` rounds of the outer loop. -/
structure Merging (s₀ t₀ : Block n) (k : ℕ) (m : MergeState n) : Prop where
  source : ∀ i, m.source.pages i = if i < k ∧ s₀.pages i = .valid then .invalid else s₀.pages i
  merged : m.numMerged = validBefore s₀ k
  target : m.target.pages = writtenPages t₀ m.numMerged
  page : ∀ i < n, i ≠ 0 → t₀.pages i = .empty → m.page ≤ i
  start : m.numMerged = 0 → m.page = 0

theorem writtenPages_zero {count : ℕ} (h : count ≠ 0) : writtenPages t₀ count 0 = .valid := by
  rw [writtenPages, if_neg h, Function.update_self]

theorem writtenPages_of_ne {i : ℕ} (hi : i ≠ 0) (count : ℕ) : writtenPages t₀ count i = t₀.pages i := by
  rw [writtenPages]
  split_ifs
  · rfl
  · exact Function.update_of_ne hi _ _

theorem exists_nextEmpty {k : ℕ} {m : MergeState n} (h : Merging s₀ t₀ k m)
    (hroom : m.numMerged < countPages t₀ .empty) : ∃ page, nextEmpty m.target m.page = some page ∧
      ∀ i < n, i ≠ 0 → t₀.pages i = .empty → page ≤ i := by
  have hempty : ∃ i < n, m.target.pages i = .empty ∧ m.page ≤ i := by
    by_cases hstart : m.numMerged = 0
    · obtain ⟨i, hi⟩ := Finset.card_pos.mp (Nat.zero_lt_of_lt hroom)
      obtain ⟨hmem, hi⟩ := Finset.mem_filter.mp hi
      refine ⟨i, Finset.mem_range.mp hmem, ?_, ?_⟩
      · rw [h.target, writtenPages, if_pos hstart]
        exact hi
      · rw [h.start hstart]
        exact Nat.zero_le i
    · obtain ⟨i, hi, hne⟩ := Finset.exists_mem_ne (s := (Finset.range n).filter fun i =>
        t₀.pages i = .empty) (by rw [countPages] at hroom; omega) 0
      obtain ⟨hmem, hi⟩ := Finset.mem_filter.mp hi
      have hlt := Finset.mem_range.mp hmem
      refine ⟨i, hlt, ?_, h.page i hlt hne hi⟩
      rw [h.target, writtenPages_of_ne hne]
      exact hi
  have hmem : ∀ i, i ∈ List.range' m.page (n - m.page) ↔ m.page ≤ i ∧ i < n := by
    intro i
    rw [List.mem_range'_1]
    omega
  obtain ⟨i, hi, hstate, hle⟩ := hempty
  have hsome : (nextEmpty m.target m.page).isSome := by
    rw [nextEmpty, List.find?_isSome]
    exact ⟨i, (hmem i).mpr ⟨hle, hi⟩, decide_eq_true hstate⟩
  obtain ⟨page, hpage⟩ := Option.isSome_iff_exists.mp hsome
  refine ⟨page, hpage, fun j hj hne hempty => ?_⟩
  by_contra hlt
  have hskip := (List.find?_range'_eq_some.mp hpage).2.2 j (h.page j hj hne hempty) (by omega)
  rw [h.target, writtenPages_of_ne hne, hempty] at hskip
  exact absurd hskip (by decide)

theorem mergePage_spec {ok : Halt → Prop} {k : ℕ} {m : MergeState n} (hk : k < n)
    (hroom : countPages s₀ .valid ≤ countPages t₀ .empty) (h : Merging s₀ t₀ k m) :
    Yields ok (mergePage false (countPages s₀ .valid) m k) (Merging s₀ t₀ (k + 1)) := by
  have hstate : m.source.pages k = s₀.pages k := by
    rw [h.source, if_neg fun hlt => Nat.lt_irrefl k hlt.1]
  have hsucc := validBefore_succ s₀ k
  rw [mergePage, hstate]
  by_cases hvalid : s₀.pages k = .valid
  · rw [if_pos hvalid] at hsucc
    have hleft : m.numMerged < countPages s₀ .valid := by
      have hmono := validBefore_mono s₀ (Nat.succ_le_of_lt hk)
      rw [Nat.succ_eq_add_one, hsucc] at hmono
      rw [h.merged]
      exact Nat.lt_of_succ_le hmono
    -- an empty page is found, but `write_event` still names page 0
    obtain ⟨page, hpage, hnext⟩ := exists_nextEmpty h (hleft.trans_le hroom)
    rw [if_pos ⟨hleft, hvalid⟩, hpage]
    dsimp only
    rw [if_neg fun hassert => Bool.false_ne_true hassert.1]
    refine ⟨fun i => ?_, ?_, ?_, hnext, fun hzero => absurd hzero (Nat.succ_ne_zero _)⟩
    · dsimp only
      rw [Block.pages_invalidatePage]
      by_cases hi : i = k
      · rw [hi, Function.update_self, if_pos ⟨Nat.lt_succ_self k, hvalid⟩]
      · have hlt : i < k + 1 ↔ i < k := by omega
        rw [Function.update_of_ne hi, h.source]
        simp only [hlt]
    · dsimp only
      rw [h.merged, hsucc]
    -- so page 0 of the target becomes valid, in every round
    · funext i
      show Function.update m.target.pages 0 .valid i = writtenPages t₀ (m.numMerged + 1) i
      by_cases hi : i = 0
      · rw [hi, Function.update_self, writtenPages_zero (Nat.succ_ne_zero _)]
      · rw [Function.update_of_ne hi, h.target, writtenPages_of_ne hi, writtenPages_of_ne hi]
  · rw [if_neg hvalid, Nat.add_zero] at hsucc
    rw [if_neg fun hleft => hvalid hleft.2]
    refine ⟨fun i => ?_, h.merged.trans hsucc.symm, h.target, h.page, h.start⟩
    rw [h.source]
    by_cases hi : i = k
    · rw [hi, if_neg fun hlt => hvalid hlt.2, if_neg fun hlt => hvalid hlt.2]
    · have hlt : i < k + 1 ↔ i < k := by omega
      simp only [hlt]

/-- **A merge without assertions** empties the source, and writes page 0 of the target only. -/
theorem mergePages_spec {ok : Halt → Prop} (hroom : countPages s₀ .valid ≤ countPages t₀ .empty) :
    Yields ok ((List.range n).foldlM (mergePage false (countPages s₀ .valid)) ⟨s₀, t₀, 0, 0⟩)
      fun m => (∀ i < n, m.source.pages i ≠ .valid) ∧
        m.target.pages = writtenPages t₀ (countPages s₀ .valid) := by
  have hloop : Yields ok
      ((List.range n).foldlM (mergePage false (countPages s₀ .valid)) ⟨s₀, t₀, 0, 0⟩)
      (Merging s₀ t₀ n) := by
    refine Yields.foldlM_range (Merging s₀ t₀) ⟨fun i => ?_, ?_, rfl, fun _ _ _ _ => Nat.zero_le _,
      fun _ => rfl⟩ fun k m hk h => mergePage_spec hk hroom h
    · rw [if_neg fun hlt => Nat.not_lt_zero i hlt.1]
    · rfl
  refine hloop.mono fun m hm => ⟨fun i hi => ?_, ?_⟩
  · rw [hm.source]
    by_cases hvalid : s₀.pages i = .valid
    · rw [if_pos ⟨hi, hvalid⟩]
      exact PageState.noConfusion
    · rw [if_neg fun hlt => hvalid hlt.2]
      exact hvalid
  · rw [hm.target, hm.merged]
    rfl

/-- **What page 0 alone can take**: no page, or one page when it was empty. -/
theorem moved_iff {s₁ t₁ : Block n} (hsource : ∀ i < n, s₁.pages i ≠ .valid)
    (htarget : t₁.pages = writtenPages t₀ (countPages s₀ .valid)) :
    Moved s₀ t₀ s₁ t₁ ↔ countPages s₀ .valid = 0 ∨
      countPages s₀ .valid = 1 ∧ t₀.pages 0 = .empty := by
  constructor
  · rintro ⟨⟨pages, hsub, hcard, hgained, -⟩, -⟩
    by_cases hzero : countPages s₀ .valid = 0
    · exact Or.inl hzero
    · right
      have hall : ∀ i ∈ pages, i = 0 := by
        intro i hi
        by_contra hne
        obtain ⟨hempty, hvalid⟩ := hgained i hi
        rw [htarget, writtenPages_of_ne hne, hempty] at hvalid
        exact PageState.noConfusion hvalid
      obtain ⟨i, hi⟩ := Finset.card_pos.mp (hcard.symm ▸ Nat.pos_of_ne_zero hzero)
      have hsingle : pages = {0} := Finset.eq_singleton_iff_unique_mem.mpr ⟨hall i hi ▸ hi, hall⟩
      refine ⟨?_, (hgained 0 (hall i hi ▸ hi)).1⟩
      rw [← hcard, hsingle, Finset.card_singleton]
  · rintro (hzero | ⟨hone, hempty⟩)
    · refine ⟨⟨∅, Finset.empty_subset _, hzero.symm, fun i hi => absurd hi (Finset.notMem_empty i),
        fun i _ _ => ?_⟩, hsource⟩
      rw [htarget, writtenPages, if_pos hzero]
    · have hpos : 0 < n := by
        obtain ⟨i, hi⟩ := Finset.card_pos.mp (hone.symm ▸ Nat.one_pos : 0 < countPages s₀ .valid)
        exact Nat.zero_lt_of_lt (Finset.mem_range.mp (Finset.mem_filter.mp hi).1)
      refine ⟨⟨{0}, Finset.singleton_subset_iff.mpr (Finset.mem_range.mpr hpos), hone.symm,
        fun i hi => ?_, fun i _ hi => ?_⟩, hsource⟩
      · obtain rfl := Finset.mem_singleton.mp hi
        refine ⟨hempty, ?_⟩
        rw [htarget, writtenPages_zero (by omega)]
      · rw [htarget, writtenPages_of_ne fun h => hi (Finset.mem_singleton.mpr h)]

end Merge

theorem compare_level_lt {a a' : Address} (h : a.block ≠ a'.block) :
    (a.compare a').level < AddressValid.block.level := by
  rw [Address.compare]
  dsimp only
  rw [if_neg (show ¬ (a.block = a'.block ∧ _) from fun hblock => h hblock.1)]
  split_ifs <;> decide

end Plane

/-- **Merges of two blocks.** With assertions compiled, every one fails the assertion on its addresses.
Without them, a merge for which the target has room moves the pages of the source exactly when the
source has no valid page, or has one and page 0 of the target is empty. -/
theorem merge_moves_iff {n : ℕ} (asserts : Bool) (p : Plane n) (event : MergeEvent)
    (hne : event.address.block ≠ event.mergeAddress.block) :
    (asserts = true → p.merge asserts event = .error .badAddress) ∧
      (p.MergeMoves asserts event ↔ asserts = true ∨
        let source := (p.data event.address.block.toNat).toBlock
        let target := (p.data event.mergeAddress.block.toNat).toBlock
        Plane.countPages target .empty < Plane.countPages source .valid ∨
          Plane.countPages source .valid = 0 ∨
            Plane.countPages source .valid = 1 ∧ target.pages 0 = .empty) := by
  have hlow := Plane.compare_level_lt hne
  have hnat : event.address.block.toNat ≠ event.mergeAddress.block.toNat := fun h =>
    hne (BitVec.eq_of_toNat_eq h)
  -- with assertions every merge of two blocks is aborted, whatever their pages
  have habort : p.merge true event = .error .badAddress := by
    rw [Plane.merge]
    dsimp only
    rw [if_pos ⟨rfl, fun h => absurd h.2.2.1 (not_le.mpr hlow)⟩]
  cases asserts with
  | true =>
    refine ⟨fun _ => habort, iff_of_true (fun status q h => ?_) (Or.inl rfl)⟩
    rw [habort] at h
    cases h
  | false =>
    refine ⟨nofun, ?_⟩
    rw [or_iff_right Bool.false_ne_true, Plane.MergeMoves, Plane.merge]
    dsimp only
    rw [if_neg fun h => Bool.false_ne_true h.1]
    by_cases hfull : Plane.countPages (p.data event.mergeAddress.block.toNat).toBlock .empty <
        Plane.countPages (p.data event.address.block.toNat).toBlock .valid
    -- too few empty pages: the merge fails, so nothing is asked of it
    · rw [if_pos hfull]
      refine iff_of_true (fun status q h => ?_) (Or.inl hfull)
      obtain ⟨rfl, rfl⟩ := Prod.mk.inj (Except.ok.inj h)
      exact fun _ _ => rfl
    · rw [if_neg hfull, or_iff_right hfull]
      obtain ⟨m, hm, hsource, htarget⟩ := (Plane.mergePages_spec (not_lt.mp hfull)).exists_ok
      rw [hm, ← Plane.moved_iff hsource htarget]
      have hlast := Plane.toBlock_setBlock_self (p.setBlock event.address.block.toNat m.source)
        event.mergeAddress.block.toNat m.target
      -- both blocks are written back; they are different ones
      have hfirst := (Plane.toBlock_setBlock_of_ne (p.setBlock event.address.block.toNat m.source)
        m.target hnat).trans (Plane.toBlock_setBlock_self p event.address.block.toNat m.source)
      constructor
      · intro h
        have hmoved := h .success _ rfl
        rw [hfirst, hlast] at hmoved
        exact hmoved
      · intro hmoved status q h
        obtain ⟨rfl, rfl⟩ := Prod.mk.inj (Except.ok.inj h)
        rw [hfirst, hlast]
        exact hmoved

/-- A plane of two blocks of two pages; the first has the given pages. -/
def twoBlocks (source : Block 2) : Plane 2 :=
  (Plane.new ⟨1, 1, 1, 2, 2⟩ 9 2 0).setBlock 0 source

/-- The merge of the first block into the second. -/
def mergeFirst : MergeEvent := ⟨⟨0, 0, 0, 0, 0, 0, .block⟩, ⟨0, 0, 0, 1, 0, 2, .block⟩⟩

theorem merge_moves_iff_one_page :
    (twoBlocks ((Block.new 9).write 1)).MergeMoves false mergeFirst :=
  (merge_moves_iff false (twoBlocks ((Block.new 9).write 1)) mergeFirst (by decide)).2.mpr
    (Or.inr (Or.inr (Or.inr ⟨by decide, rfl⟩)))

/-- **A lost page**: of two valid pages, one is written over the other. -/
theorem merge_loses_page :
    ¬ (twoBlocks (((Block.new 9).write 0).write 1)).MergeMoves false mergeFirst := by
  intro h
  obtain ⟨⟨pages, hsub, hcard, hgained, -⟩, -⟩ := h .success _ rfl
  have htwo : pages.card = 2 := hcard
  have hlast : 1 ∈ pages := by
    rw [Finset.eq_of_subset_of_card_le hsub (by rw [htwo]; decide)]
    decide
  exact absurd (hgained 1 hlast).2 (by decide)

end ZnsFlash
