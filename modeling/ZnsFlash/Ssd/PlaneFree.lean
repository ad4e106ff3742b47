import ZnsFlash.Ssd.Hardware

/-!
# The free blocks of a plane

`free_blocks` of `ssd_plane.cpp`, which writes and erases keep up to date.

* `PlaneCall`, `CountedPlane.perform`: the operations of a plane, with the counter;
* `Plane.freeCount`: the blocks that are free; `freeAmong_update`: one block has changed;
* `Block.Clean`: a free block is empty; `Block.perform_write`, `Block.perform_replace`,
  `Block.perform_erase`, `Plane.merge_blocks`: which blocks are free after a call;
* `PlaneCall.Drifts`: the calls that the counter misses; `PlaneLedger`, `CountedPlane.perform_ledger`:
  the counter and the free blocks after one call;
* `CountedPlane.drifts`, **`free_blocks_ledger`**: and after every run.
-/

namespace ZnsFlash

open Lockstep

variable {n : ℕ}

/-! ## The operations -/

/-- A plane with its counter. -/
structure CountedPlane (n : ℕ) extends Plane n where
  freeBlocks : BitVec 32

/-- What reaches a plane; `invalidatePage` goes through the pointer that `get_block_pointer` gives. -/
inductive PlaneCall
  | write (event : DeviceEvent)
  | replace (event : DeviceEvent)
  | erase (event : DeviceEvent)
  | merge (event : MergeEvent)
  | invalidatePage (address : Address)

/-- `get_block_pointer(address)->invalidate_page(address.page)` -/
def Plane.invalidatePage (p : Plane n) (a : Address) : Except Halt (Status × Plane n) :=
  if AddressValid.plane.level ≤ a.valid.level then
    if a.block.toNat < p.size.toNat then p.onBlock a.block (.invalidatePage a.page.toNat)
    else .error .outOfArray
  else .error .badAddress

/-- The call, and what it does to `free_blocks`. -/
def CountedPlane.perform (asserts : Bool) (p : CountedPlane n) :
    PlaneCall → Except Halt (Status × CountedPlane n)
  | .write e => do
    let prev := (p.data e.address.block.toNat).state
    let (status, q) ← p.toPlane.write e
    let next := (q.data e.address.block.toNat).state
    .ok (status, ⟨q, if prev = .free ∧ next ≠ .free then p.freeBlocks - 1 else p.freeBlocks⟩)
  | .replace e => do
    let (status, q) ← p.toPlane.replace e
    .ok (status, ⟨q, p.freeBlocks⟩)
  | .erase e => do
    let (status, q) ← p.toPlane.eraseEvent e
    .ok (status, ⟨q, if status = .success then p.freeBlocks + 1 else p.freeBlocks⟩)
  | .merge e => do
    let (status, q) ← p.toPlane.merge asserts e
    .ok (status, ⟨q, p.freeBlocks⟩)
  | .invalidatePage a => do
    let (status, q) ← p.toPlane.invalidatePage a
    .ok (status, ⟨q, p.freeBlocks⟩)

/-! ## Free blocks -/

/-- How many of the first blocks are free. -/
def freeAmong (size : ℕ) (blocks : ℕ → Block n) : ℕ :=
  (Finset.univ.filter fun j : Fin size => (blocks j).state = .free).card

/-- **The number of free blocks.** -/
def Plane.freeCount (p : Plane n) : ℕ := freeAmong p.size.toNat p.blocks

/-- One for a free block. -/
def Block.freeUnit (b : Block n) : ℕ := if b.state = .free then 1 else 0

/-- A free block is empty. -/
def Block.Clean (b : Block n) : Prop := b.state = .free → ∀ i < n, b.pages i = .empty

theorem freeAmong_update (size : ℕ) (blocks : ℕ → Block n) {j : ℕ} (hj : j < size) (b : Block n) :
    freeAmong size (Function.update blocks j b) + (blocks j).freeUnit =
      freeAmong size blocks + b.freeUnit := by
  have hfin : (fun i : Fin size => Function.update blocks j b i) =
      Function.update (fun i : Fin size => blocks i) ⟨j, hj⟩ b :=
    Function.update_comp_eq_of_injective blocks Fin.val_injective ⟨j, hj⟩ b
  have hcount := Zoned.card_filter_update (fun c : Block n => c.state = .free)
    (fun i : Fin size => blocks i) ⟨j, hj⟩ b
  rw [← hfin] at hcount
  exact hcount

namespace Block

variable {b c : Block n} {status : Status}

theorem freeUnit_of_ne (h : b.state ≠ .free) : b.freeUnit = 0 := if_neg h

theorem freeUnit_of_free (h : b.state = .free) : b.freeUnit = 1 := if_pos h

theorem clean_new (erases : ℕ) : (new erases : Block n).Clean := fun _ _ _ => rfl

theorem clean_of_ne (h : b.state ≠ .free) : b.Clean := fun hfree => absurd hfree h

theorem state_invalidatePage {page : ℕ} (h : b.pages page ≠ .invalid) :
    (b.invalidatePage page).state ≠ .free := by
  rw [invalidatePage, if_neg h]
  dsimp only
  split_ifs with hfull hpos
  · decide
  · decide
  · exact absurd (Or.inr (Nat.succ_pos _)) hpos

theorem perform_write {page : ℕ} {noop : Bool} (h : b.perform (.write page noop) = .ok (status, c)) :
    c = b ∨ c.state = .active := by
  rw [perform] at h
  split_ifs at h
  · exact .inl (Prod.mk.inj (Except.ok.inj h)).2.symm
  · rw [← (Prod.mk.inj (Except.ok.inj h)).2]
    exact .inr rfl

theorem perform_replace {call : BlockCall} {page : ℕ}
    (hcall : call = .replace page ∨ call = .invalidatePage page)
    (hb : b.Clean) (h : b.perform call = .ok (status, c)) : c.state ≠ .free := by
  have hinvalidated : page < n ∧ c = b.invalidatePage page := by
    rcases hcall with rfl | rfl
    · rw [perform] at h
      split_ifs at h with hpage
      exact ⟨hpage, (Prod.mk.inj (Except.ok.inj h)).2.symm⟩
    · rw [perform] at h
      split_ifs at h with hpage
      exact ⟨hpage, (Prod.mk.inj (Except.ok.inj h)).2.symm⟩
  obtain ⟨hpage, rfl⟩ := hinvalidated
  by_cases hinvalid : b.pages page = .invalid
  · have hsame : b.invalidatePage page = b := by rw [invalidatePage, if_pos hinvalid]
    rw [hsame]
    intro hfree
    have hempty := hb hfree page hpage
    rw [hinvalid] at hempty
    cases hempty
  · exact state_invalidatePage hinvalid

/-- An erase that is not carried out, one that fails, and one that frees the block. -/
theorem perform_erase {noop : Bool} (h : b.perform (.erase noop) = .ok (status, c)) :
    (noop = true ∧ status = .success ∧ c = b) ∨
      (noop = false ∧ ¬ 0 < b.erasesRemaining ∧ status = .failure ∧ c = b) ∨
      noop = false ∧ 0 < b.erasesRemaining ∧ status = .success ∧ c.state = .free ∧ c.Clean := by
  rw [perform] at h
  cases noop with
  | true =>
    obtain ⟨rfl, rfl⟩ := Prod.mk.inj (Except.ok.inj h)
    exact .inl ⟨rfl, rfl, rfl⟩
  | false =>
    rw [if_neg Bool.false_ne_true, erase] at h
    split_ifs at h with hworn
    · obtain ⟨rfl, rfl⟩ := Prod.mk.inj (Except.ok.inj h)
      exact .inr (.inl ⟨rfl, by omega, rfl, rfl⟩)
    · obtain ⟨rfl, rfl⟩ := Prod.mk.inj (Except.ok.inj h)
      exact .inr (.inr ⟨rfl, by omega, rfl, rfl, fun _ _ _ => rfl⟩)

end Block

/-! ## Merges -/

namespace Plane

section Merge

variable {s₀ t₀ : Block n}

/-- Nothing has been merged yet, or neither block is free. -/
structure MergedStates (s₀ t₀ : Block n) (m : MergeState n) : Prop where
  zero : m.numMerged = 0 → m.source = s₀ ∧ m.target = t₀
  pos : m.numMerged ≠ 0 → m.source.state ≠ .free ∧ m.target.state ≠ .free

theorem mergePage_states {ok : Halt → Prop} {k : ℕ} {m : MergeState n}
    (hroom : countPages s₀ .valid ≤ countPages t₀ .empty) (h : Merging s₀ t₀ k m)
    (hstates : MergedStates s₀ t₀ m) :
    Yields ok (mergePage false (countPages s₀ .valid) m k) (MergedStates s₀ t₀) := by
  rw [mergePage]
  by_cases hmove : m.numMerged < countPages s₀ .valid ∧ m.source.pages k = .valid
  · obtain ⟨page, hpage, -⟩ := exists_nextEmpty h (hmove.1.trans_le hroom)
    rw [if_pos hmove, hpage]
    dsimp only
    rw [if_neg fun hassert => Bool.false_ne_true hassert.1]
    refine ⟨fun hzero => absurd hzero (Nat.succ_ne_zero _), fun _ => ⟨?_, ?_⟩⟩
    · apply Block.state_invalidatePage
      rw [hmove.2]
      decide
    · show BlockState.active ≠ .free
      decide
  · rw [if_neg hmove]
    exact hstates

/-- **A merge without assertions**: nothing is moved, or neither block is free afterwards. -/
theorem mergePages_states {ok : Halt → Prop} (hroom : countPages s₀ .valid ≤ countPages t₀ .empty) :
    Yields ok ((List.range n).foldlM (mergePage false (countPages s₀ .valid)) ⟨s₀, t₀, 0, 0⟩) fun m =>
      (countPages s₀ .valid = 0 → m.source = s₀ ∧ m.target = t₀) ∧
        (countPages s₀ .valid ≠ 0 → m.source.state ≠ .free ∧ m.target.state ≠ .free) := by
  have hstart : Merging s₀ t₀ 0 ⟨s₀, t₀, 0, 0⟩ :=
    ⟨fun i => by simp, rfl, rfl, fun _ _ _ _ => Nat.zero_le _, fun _ => rfl⟩
  have hloop : Yields ok
      ((List.range n).foldlM (mergePage false (countPages s₀ .valid)) ⟨s₀, t₀, 0, 0⟩) fun m =>
        Merging s₀ t₀ n m ∧ MergedStates s₀ t₀ m := by
    refine Yields.foldlM_range (fun k m => Merging s₀ t₀ k m ∧ MergedStates s₀ t₀ m)
      ⟨hstart, fun _ => ⟨rfl, rfl⟩, fun hpos => absurd rfl hpos⟩ fun k m hk h => ?_
    exact (mergePage_spec hk hroom h.1).and (mergePage_states hroom h.1 h.2)
  apply hloop.mono
  intro m hm
  have hcount : m.numMerged = countPages s₀ .valid := hm.1.merged
  rw [← hcount]
  exact ⟨hm.2.zero, hm.2.pos⟩

end Merge

theorem blocks_setBlock (p : Plane n) (j : ℕ) (b : Block n) :
    (p.setBlock j b).blocks = Function.update p.blocks j b := by
  funext i
  by_cases hi : i = j
  · rw [hi, Function.update_self]
    exact toBlock_setBlock_self _ _ _
  · rw [Function.update_of_ne hi]
    exact toBlock_setBlock_of_ne _ _ hi

theorem merge_blocks {asserts : Bool} {p q : Plane n} {e : MergeEvent} {status : Status}
    (hne : e.address.block ≠ e.mergeAddress.block) (h : p.merge asserts e = .ok (status, q)) :
    q.size = p.size ∧
      (q.blocks = p.blocks ∧ ¬ (0 < countPages (p.blocks e.address.block.toNat) .valid ∧
          countPages (p.blocks e.address.block.toNat) .valid ≤
            countPages (p.blocks e.mergeAddress.block.toNat) .empty) ∨
        (0 < countPages (p.blocks e.address.block.toNat) .valid ∧
          countPages (p.blocks e.address.block.toNat) .valid ≤
            countPages (p.blocks e.mergeAddress.block.toNat) .empty) ∧
          ∃ s t : Block n, s.state ≠ .free ∧ t.state ≠ .free ∧
            q.blocks = Function.update (Function.update p.blocks e.address.block.toNat s)
              e.mergeAddress.block.toNat t) := by
  have hlow := compare_level_lt hne
  cases asserts with
  | true =>
    rw [merge] at h
    dsimp only at h
    rw [if_pos ⟨rfl, fun h => absurd h.2.2.1 (not_le.mpr hlow)⟩] at h
    cases h
  | false =>
    rw [merge] at h
    dsimp only at h
    rw [if_neg fun h => Bool.false_ne_true h.1] at h
    split_ifs at h with hfull
    -- too few empty pages: a failure, and the plane is as it was
    · obtain ⟨-, rfl⟩ := Prod.mk.inj (Except.ok.inj h)
      exact ⟨rfl, .inl ⟨rfl, fun hroom => absurd hroom.2 (not_le.mpr hfull)⟩⟩
    · obtain ⟨m, hm, hzero, hpos⟩ := (mergePages_states (not_lt.mp hfull)).exists_ok
      rw [hm] at h
      obtain ⟨-, rfl⟩ := Prod.mk.inj (Except.ok.inj h)
      refine ⟨rfl, ?_⟩
      rw [blocks_setBlock, blocks_setBlock]
      by_cases hcount : countPages (p.blocks e.address.block.toNat) .valid = 0
      -- no valid page: the blocks are written back as they were
      · obtain ⟨hsource, htarget⟩ := hzero hcount
        refine .inl ⟨?_, fun hroom => absurd hcount hroom.1.ne'⟩
        have hsame : Function.update p.blocks e.address.block.toNat m.source = p.blocks := by
          rw [hsource]
          exact Function.update_eq_self _ _
        rw [hsame, htarget]
        exact Function.update_eq_self _ _
      · obtain ⟨hsource, htarget⟩ := hpos hcount
        exact .inr ⟨⟨Nat.pos_of_ne_zero hcount, not_lt.mp hfull⟩, m.source, m.target, hsource, htarget,
          rfl⟩

end Plane

/-! ## The ledger -/

namespace PlaneCall

/-- What the assertions on a merge ask for, and that it is a merge of two blocks. -/
def Legal (size : BitVec 32) : PlaneCall → Prop
  | .merge e => e.address.block ≠ e.mergeAddress.block ∧ e.address.block.toNat < size.toNat ∧
      e.mergeAddress.block.toNat < size.toNat
  | _ => True

/-- **The calls that the counter misses**: an erase of a free block, or one that is not carried out,
and what takes a block from the free ones otherwise than by a write. -/
def Drifts (p : Plane n) : PlaneCall → Prop
  | .write _ => False
  | .replace e => (p.blocks e.replaceAddress.block.toNat).state = .free
  | .erase e => e.noop ∨ (p.blocks e.address.block.toNat).state = .free ∧
      0 < (p.blocks e.address.block.toNat).erasesRemaining
  | .merge e => (p.blocks e.mergeAddress.block.toNat).state = .free ∧
      0 < Plane.countPages (p.blocks e.address.block.toNat) .valid ∧
        Plane.countPages (p.blocks e.address.block.toNat) .valid ≤
          Plane.countPages (p.blocks e.mergeAddress.block.toNat) .empty
  | .invalidatePage a => (p.blocks a.block.toNat).state = .free

instance (p : Plane n) (call : PlaneCall) : Decidable (call.Drifts p) :=
  match call with
  | .write _ => isFalse id
  | .replace _ | .invalidatePage _ => inferInstanceAs (Decidable (_ = _))
  | .erase _ => inferInstanceAs (Decidable (_ ∨ _ ∧ _))
  | .merge _ => inferInstanceAs (Decidable (_ ∧ _ ∧ _))

/-- One for a call that drifts. -/
def drift (p : Plane n) (call : PlaneCall) : ℕ := if call.Drifts p then 1 else 0

end PlaneCall

section Ledger

variable {asserts : Bool} {p q : CountedPlane n} {status : Status}

/-- **What a call does**: to the counter, to the number of free blocks, and to the blocks. -/
structure PlaneLedger (p : CountedPlane n) (call : PlaneCall) (q : CountedPlane n) : Prop where
  size : q.size = p.size
  clean : ∀ j, (q.blocks j).Clean
  counted : q.freeBlocks = p.freeBlocks ∧ q.freeCount + call.drift p.toPlane = p.freeCount ∨
    q.freeBlocks = p.freeBlocks - 1 ∧ q.freeCount + 1 = p.freeCount ∧ call.drift p.toPlane = 0 ∨
    q.freeBlocks = p.freeBlocks + 1 ∧ q.freeCount + call.drift p.toPlane = p.freeCount + 1

theorem clean_update {blocks : ℕ → Block n} (h : ∀ j, (blocks j).Clean) {j : ℕ} {b : Block n}
    (hb : b.Clean) (k : ℕ) : (Function.update blocks j b k).Clean := by
  by_cases hk : k = j
  · rw [hk, Function.update_self]
    exact hb
  · rw [Function.update_of_ne hk]
    exact h k

/-- A block of a plane has made a call. -/
structure Called (p : Plane n) (j : ℕ) (call : BlockCall) (status : Status) (q : Plane n)
    (b : Block n) :
    Prop where
  inPlane : j < p.size.toNat
  perform : (p.blocks j).perform call = .ok (status, b)
  size : q.size = p.size
  blocks : q.blocks = Function.update p.blocks j b

theorem Plane.onBlock_called {p q : Plane n} {i : BitVec 32} {call : BlockCall}
    (hi : i.toNat < p.size.toNat)
    (h : p.onBlock i call = .ok (status, q)) : ∃ b, Called p i.toNat call status q b := by
  obtain ⟨⟨s, b⟩, hperform, hstep⟩ := (p.onBlock_stepped i call).of_left h
  obtain rfl : status = s := hstep.status
  exact ⟨b, hi, hperform, hstep.sizes, hstep.blocks⟩

section Called

variable {p q : Plane n} {j : ℕ} {call : BlockCall} {b : Block n} (h : Called p j call status q b)

include h

theorem Called.freeCount : q.freeCount + (p.blocks j).freeUnit = p.freeCount + b.freeUnit := by
  rw [Plane.freeCount, Plane.freeCount, h.size, h.blocks]
  exact freeAmong_update _ _ h.inPlane b

theorem Called.block : q.blocks j = b := by
  rw [h.blocks, Function.update_self]

theorem Called.clean (hclean : ∀ k, (p.blocks k).Clean) (hb : b.Clean) (k : ℕ) :
    (q.blocks k).Clean := by
  rw [h.blocks]
  exact clean_update hclean hb k

end Called

theorem PlaneLedger.write (hclean : ∀ j, (p.blocks j).Clean) {e : DeviceEvent}
    (h : p.perform asserts (.write e) = .ok (status, q)) : PlaneLedger p (.write e) q := by
  rw [CountedPlane.perform] at h
  obtain ⟨⟨s, q'⟩, hwrite, hq⟩ := Yields.bind_eq_ok.mp h
  obtain ⟨-, rfl⟩ := Prod.mk.inj (Except.ok.inj hq)
  rw [Plane.write] at hwrite
  split_ifs at hwrite with haddress
  obtain ⟨b, hcalled⟩ := Plane.onBlock_called haddress.1 hwrite
  have hcount := hcalled.freeCount
  have hdrift : (PlaneCall.write e).drift p.toPlane = 0 := rfl
  have hprev : (p.data e.address.block.toNat).state = (p.blocks e.address.block.toNat).state := rfl
  have hnext : (q'.data e.address.block.toNat).state = b.state := congrArg Block.state hcalled.block
  have hb : b = p.blocks e.address.block.toNat ∨ b.state = .active :=
    Block.perform_write hcalled.perform
  refine ⟨hcalled.size, hcalled.clean hclean ?_, ?_⟩
  · rcases hb with rfl | hactive
    · exact hclean _
    · exact Block.clean_of_ne (by rw [hactive]; decide)
  · dsimp only
    rw [hprev, hnext, hdrift]
    by_cases htaken : (p.blocks e.address.block.toNat).state = .free ∧ b.state ≠ .free
    · rw [if_pos htaken]
      rw [Block.freeUnit_of_free htaken.1, Block.freeUnit_of_ne htaken.2] at hcount
      exact .inr (.inl ⟨rfl, hcount, rfl⟩)
    · rw [if_neg htaken]
      have hsame : b.freeUnit = (p.blocks e.address.block.toNat).freeUnit := by
        rcases hb with rfl | hactive
        · rfl
        · have hne : b.state ≠ .free := by
            rw [hactive]
            decide
          rw [Block.freeUnit_of_ne hne, Block.freeUnit_of_ne fun hfree => htaken ⟨hfree, hne⟩]
      rw [hsame] at hcount
      exact .inl ⟨rfl, Nat.add_right_cancel hcount⟩

/-- **A page that is invalidated**, as the page that a write replaces or through the block pointer. -/
theorem PlaneLedger.invalidated (hclean : ∀ j, (p.blocks j).Clean) {j page : ℕ} {call : BlockCall}
    (hcall : call = .replace page ∨ call = .invalidatePage page) {r : Plane n} {b : Block n}
    (h : Called p.toPlane j call status r b) {c : PlaneCall}
    (hdrift : c.Drifts p.toPlane ↔ (p.blocks j).state = .free) : PlaneLedger p c
    ⟨r, p.freeBlocks⟩ := by
  have hne := Block.perform_replace hcall (hclean j) h.perform
  have hcount := h.freeCount
  rw [Block.freeUnit_of_ne hne, Block.freeUnit] at hcount
  refine ⟨h.size, h.clean hclean (Block.clean_of_ne hne), .inl ⟨rfl, ?_⟩⟩
  rw [PlaneCall.drift, if_congr hdrift rfl rfl]
  exact hcount

theorem PlaneLedger.erase (hclean : ∀ j, (p.blocks j).Clean) {e : DeviceEvent}
    (h : p.perform asserts (.erase e) = .ok (status, q)) : PlaneLedger p (.erase e) q := by
  rw [CountedPlane.perform] at h
  obtain ⟨⟨s, q'⟩, herase, hq⟩ := Yields.bind_eq_ok.mp h
  obtain ⟨-, rfl⟩ := Prod.mk.inj (Except.ok.inj hq)
  have haddress : e.address.block.toNat < p.size.toNat ∧
      AddressValid.plane.level < e.address.valid.level := by
    by_contra hnot
    rw [Plane.eraseEvent, if_neg hnot] at herase
    cases herase
  obtain ⟨⟨s', b⟩, hperform, hstep⟩ := (p.toPlane.eraseEvent_stepped haddress).of_left herase
  obtain rfl : s = s' := hstep.status
  have hcalled : Called p.toPlane e.address.block.toNat (.erase e.noop) s q' b :=
    ⟨haddress.1, hperform, hstep.sizes, hstep.blocks⟩
  have hcount := hcalled.freeCount
  have hdrifts : (PlaneCall.erase e).Drifts p.toPlane ↔ e.noop = true ∨
      (p.blocks e.address.block.toNat).state = .free ∧
        0 < (p.blocks e.address.block.toNat).erasesRemaining := Iff.rfl
  rcases Block.perform_erase hperform with ⟨hnoop, rfl, rfl⟩ | ⟨hnoop, hworn, rfl, rfl⟩ |
    ⟨hnoop, hleft, rfl, hfree, hclean'⟩
  · refine ⟨hcalled.size, hcalled.clean hclean (hclean _), .inr (.inr ⟨rfl, ?_⟩)⟩
    rw [PlaneCall.drift, if_pos (hdrifts.mpr (.inl hnoop))]
    exact congrArg (· + 1) (Nat.add_right_cancel hcount)
  · refine ⟨hcalled.size, hcalled.clean hclean (hclean _), .inl ⟨rfl, ?_⟩⟩
    have hnot : ¬ (PlaneCall.erase e).Drifts p.toPlane := by
      rw [hdrifts, hnoop]
      exact fun h => h.elim Bool.false_ne_true fun h => hworn h.2
    rw [PlaneCall.drift, if_neg hnot]
    exact Nat.add_right_cancel hcount
  · refine ⟨hcalled.size, hcalled.clean hclean hclean', .inr (.inr ⟨rfl, ?_⟩)⟩
    rw [Block.freeUnit_of_free hfree, Block.freeUnit] at hcount
    have hdrift : (PlaneCall.erase e).Drifts p.toPlane ↔
        (p.blocks e.address.block.toNat).state = .free := by
      rw [hdrifts, hnoop]
      simp [hleft]
    rw [PlaneCall.drift, if_congr hdrift rfl rfl]
    exact hcount

theorem PlaneLedger.merge (hclean : ∀ j, (p.blocks j).Clean) {e : MergeEvent}
    (hlegal : (PlaneCall.merge e).Legal p.size) (h : p.perform asserts (.merge e) = .ok (status, q)) :
    PlaneLedger p (.merge e) q := by
  obtain ⟨hne, hsource, htarget⟩ := hlegal
  rw [CountedPlane.perform] at h
  obtain ⟨⟨s, r⟩, hmerge, hq⟩ := Yields.bind_eq_ok.mp h
  obtain ⟨-, rfl⟩ := Prod.mk.inj (Except.ok.inj hq)
  have hdrifts : (PlaneCall.merge e).Drifts p.toPlane ↔
      (p.blocks e.mergeAddress.block.toNat).state = .free ∧
      0 < Plane.countPages (p.blocks e.address.block.toNat) .valid ∧
        Plane.countPages (p.blocks e.address.block.toNat) .valid ≤
          Plane.countPages (p.blocks e.mergeAddress.block.toNat) .empty := Iff.rfl
  obtain ⟨hsize, hblocks⟩ := Plane.merge_blocks hne hmerge
  -- nothing was moved, or pages were: then neither block is free afterwards
  rcases hblocks with ⟨hsame, hnone⟩ | ⟨hmoves, s, t, hs, ht, hboth⟩
  · refine ⟨hsize, fun j => ?_, .inl ⟨rfl, ?_⟩⟩
    · dsimp only
      rw [hsame]
      exact hclean j
    · rw [PlaneCall.drift, if_neg fun h => hnone (hdrifts.mp h).2, Plane.freeCount, hsize, hsame]
      rfl
  · refine ⟨hsize, fun j => ?_, .inl ⟨rfl, ?_⟩⟩
    · dsimp only
      rw [hboth]
      exact clean_update (clean_update hclean (Block.clean_of_ne hs)) (Block.clean_of_ne ht) j
    · -- the source has a valid page, so that it was not free before
      have hused : (p.blocks e.address.block.toNat).state ≠ .free := by
        intro hfree
        obtain ⟨i, hi⟩ := Finset.card_pos.mp hmoves.1
        obtain ⟨hlt, hvalid⟩ := Finset.mem_filter.mp hi
        have hempty := hclean _ hfree i (Finset.mem_range.mp hlt)
        rw [hvalid] at hempty
        cases hempty
      have hnat : e.mergeAddress.block.toNat ≠ e.address.block.toNat := fun hnat =>
        hne (BitVec.eq_of_toNat_eq hnat).symm
      have hfirst := freeAmong_update p.size.toNat p.blocks hsource s
      have hsecond := freeAmong_update p.size.toNat
        (Function.update p.blocks e.address.block.toNat s) htarget t
      rw [Function.update_of_ne hnat, Block.freeUnit_of_ne ht] at hsecond
      rw [Block.freeUnit_of_ne hs, Block.freeUnit_of_ne hused] at hfirst
      have hdrift : (PlaneCall.merge e).drift p.toPlane =
          (p.blocks e.mergeAddress.block.toNat).freeUnit :=
        if_congr (hdrifts.trans (and_iff_left hmoves)) rfl rfl
      rw [hdrift, Plane.freeCount, Plane.freeCount, hsize, hboth]
      omega

theorem CountedPlane.perform_ledger (hclean : ∀ j, (p.blocks j).Clean) {call : PlaneCall}
    (hlegal : call.Legal p.size)
    (h : p.perform asserts call = .ok (status, q)) : PlaneLedger p call q := by
  cases call with
  | write e => exact PlaneLedger.write hclean h
  | erase e => exact PlaneLedger.erase hclean h
  | merge e => exact PlaneLedger.merge hclean hlegal h
  | replace e =>
    rw [CountedPlane.perform] at h
    obtain ⟨⟨s, r⟩, hreplace, hq⟩ := Yields.bind_eq_ok.mp h
    obtain ⟨-, rfl⟩ := Prod.mk.inj (Except.ok.inj hq)
    rw [Plane.replace] at hreplace
    split_ifs at hreplace with haddress hblock
    obtain ⟨b, hcalled⟩ := Plane.onBlock_called hblock hreplace
    exact PlaneLedger.invalidated hclean (.inl rfl) hcalled Iff.rfl
  | invalidatePage a =>
    rw [CountedPlane.perform] at h
    obtain ⟨⟨s, r⟩, hinvalidate, hq⟩ := Yields.bind_eq_ok.mp h
    obtain ⟨-, rfl⟩ := Prod.mk.inj (Except.ok.inj hq)
    rw [Plane.invalidatePage] at hinvalidate
    split_ifs at hinvalidate with hvalid hblock
    obtain ⟨b, hcalled⟩ := Plane.onBlock_called hblock hinvalidate
    exact PlaneLedger.invalidated hclean (.inr rfl) hcalled Iff.rfl

end Ledger

/-! ## Runs -/

namespace CountedPlane

/-- A plane that was constructed. -/
def new (g : DeviceSizes) (erases : ℕ) (planeSize : BitVec 32) (physicalAddress : BitVec 64) :
    CountedPlane g.blockSize.toNat :=
  ⟨.new g erases planeSize physicalAddress, planeSize⟩

def step (asserts : Bool) (p : CountedPlane n) (call : PlaneCall) : Except Halt (CountedPlane n) :=
  (p.perform asserts call).map Prod.snd

def performAll (asserts : Bool) (p : CountedPlane n) (calls : List PlaneCall) :
    Except Halt (CountedPlane n) :=
  calls.foldlM (step asserts) p

/-- **How many calls of a run drift.** -/
def drifts (asserts : Bool) : CountedPlane n → List PlaneCall → ℕ
  | _, [] => 0
  | p, call :: calls => call.drift p.toPlane +
    match p.step asserts call with
    | .ok q => drifts asserts q calls
    | .error _ => 0

theorem freeCount_new (g : DeviceSizes) (erases : ℕ) (planeSize : BitVec 32)
    (physicalAddress : BitVec 64) :
    (new g erases planeSize physicalAddress).freeCount = planeSize.toNat := by
  have hall : (Finset.univ.filter fun j : Fin planeSize.toNat =>
      ((new g erases planeSize physicalAddress).blocks j).state = .free) = Finset.univ :=
    Finset.filter_true_of_mem fun _ _ => rfl
  exact (congrArg Finset.card hall).trans (Finset.card_fin _)

section Run

variable {asserts : Bool} {p q : CountedPlane n}

theorem step_counted {call : PlaneCall} (hclean : ∀ j, (p.blocks j).Clean)
    (hlegal : call.Legal p.size)
    (h : p.step asserts call = .ok q) {k : ℕ}
    (hk : p.freeBlocks = BitVec.ofNat 32 (p.freeCount + k)) :
    q.size = p.size ∧ (∀ j, (q.blocks j).Clean) ∧
      q.freeBlocks = BitVec.ofNat 32 (q.freeCount + (k + call.drift p.toPlane)) := by
  obtain ⟨⟨s, q'⟩, hq', rfl⟩ := Yields.map_eq_ok.mp h
  have hledger := perform_ledger hclean hlegal hq'
  refine ⟨hledger.size, hledger.clean, ?_⟩
  dsimp only
  rcases hledger.counted with ⟨hfree, hcount⟩ | ⟨hfree, hcount, hnone⟩ | ⟨hfree, hcount⟩
  · rw [hfree, hk, ← hcount]
    congr 1
    omega
  · rw [hfree, hk, ← hcount, hnone]
    have hsucc : q'.freeCount + 1 + k = q'.freeCount + (k + 0) + 1 := by omega
    rw [hsucc, BitVec.ofNat_add]
    exact BitVec.add_sub_cancel _ _
  · rw [hfree, hk]
    have hsucc : q'.freeCount + (k + call.drift p.toPlane) = p.freeCount + k + 1 := by omega
    rw [hsucc, BitVec.ofNat_add (p.freeCount + k) 1]
    rfl

theorem performAll_counted {calls : List PlaneCall} (hclean : ∀ j, (p.blocks j).Clean)
    (hlegal : ∀ call ∈ calls, call.Legal p.size) (h : p.performAll asserts calls = .ok q) {k : ℕ}
    (hk : p.freeBlocks = BitVec.ofNat 32 (p.freeCount + k)) :
    q.freeBlocks = BitVec.ofNat 32 (q.freeCount + (k + drifts asserts p calls)) := by
  induction calls generalizing p k with
  | nil =>
    obtain rfl := Except.ok.inj h
    exact hk
  | cons call calls ih =>
    rw [performAll, List.foldlM_cons] at h
    obtain ⟨r, hr, hrest⟩ := Yields.bind_eq_ok.mp h
    obtain ⟨hsize, hclean', hcounted⟩ := step_counted hclean (hlegal call List.mem_cons_self) hr hk
    have hlegal' : ∀ c ∈ calls, c.Legal r.size := fun c hc => by
      rw [hsize]
      exact hlegal c (List.mem_cons_of_mem call hc)
    have hlast := ih hclean' hlegal' hrest hcounted
    rw [Nat.add_assoc k] at hlast
    rw [drifts, hr]
    exact hlast

end Run

end CountedPlane

/-- **The counter of free blocks.** After every run of calls that return, `free_blocks` is the number
of free blocks and one more for each call that drifts, up to a wrap-around; it is right exactly when
these are a multiple of 2 ^ 32, and so when there are none. -/
theorem free_blocks_ledger (g : DeviceSizes) (erases : ℕ) (planeSize : BitVec 32)
    (physicalAddress : BitVec 64) (asserts : Bool) (calls : List PlaneCall)
    (hlegal : ∀ call ∈ calls, call.Legal planeSize) :
    let p := CountedPlane.new g erases planeSize physicalAddress
    ∀ q, p.performAll asserts calls = .ok q →
      q.freeBlocks = BitVec.ofNat 32 (q.freeCount + p.drifts asserts calls) ∧
        (q.freeBlocks = BitVec.ofNat 32 q.freeCount ↔ 2 ^ 32 ∣ p.drifts asserts calls) := by
  intro p q hq
  have hstart : p.freeBlocks = BitVec.ofNat 32 (p.freeCount + 0) := by
    rw [Nat.add_zero, CountedPlane.freeCount_new]
    exact (BitVec.ofNat_toNat 32 planeSize).symm ▸ (BitVec.setWidth_eq _).symm
  have hclean : ∀ j, (p.blocks j).Clean := fun _ => Block.clean_new erases
  have hlast := CountedPlane.performAll_counted hclean hlegal hq hstart
  rw [Nat.zero_add] at hlast
  refine ⟨hlast, ?_⟩
  rw [hlast, BitVec.toNat_eq, BitVec.toNat_ofNat, BitVec.toNat_ofNat]
  omega

/-- Block 0 is written, erased twice, and then a page is invalidated in it: the second erase and the
invalidation drift. -/
def planeCalls : List PlaneCall :=
  [.write ⟨⟨0, 0, 0, 0, 0, 0, .page⟩, .new 0, false⟩,
    .erase ⟨⟨0, 0, 0, 0, 0, 0, .block⟩, .new 0, false⟩,
    .erase ⟨⟨0, 0, 0, 0, 0, 0, .block⟩, .new 0, false⟩, .invalidatePage ⟨0, 0, 0, 0, 1, 0, .page⟩]

theorem free_blocks_ledger_planeCalls :
    ∃ q, (CountedPlane.new smallDevice 9 5 0).performAll true planeCalls = .ok q ∧
      q.freeBlocks = BitVec.ofNat 32 (q.freeCount + 2) := by
  have hlegal : ∀ call ∈ planeCalls, call.Legal 5 := by
    intro call hcall
    simp only [planeCalls, List.mem_cons, List.not_mem_nil, or_false] at hcall
    rcases hcall with rfl | rfl | rfl | rfl <;> exact trivial
  have hdrifts : (CountedPlane.new smallDevice 9 5 0).drifts true planeCalls = 2 := by decide +kernel
  obtain ⟨q, hq⟩ : ∃ q, (CountedPlane.new smallDevice 9 5 0).performAll true planeCalls = .ok q :=
    ⟨_, rfl⟩
  have hledger := (free_blocks_ledger smallDevice 9 5 0 true planeCalls hlegal q hq).1
  rw [hdrifts] at hledger
  exact ⟨q, hq, hledger⟩

end ZnsFlash
