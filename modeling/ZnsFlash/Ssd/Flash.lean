import ZnsFlash.Library.Yields
import ZnsFlash.Library.Zoned

/-!
# Blocks of flash pages

`ssd_block.cpp` and `ssd_page.cpp`, and the page store `page_data`. Times, delays and the wear
statistics of the planes are left out.

* `Block`: page states with the counters of the block; `Block.write`, `Block.invalidatePage`,
  `Block.erase`;
* `Block.Sound`: the counter of invalid pages is right (`sound_write`, `sound_invalidatePage`,
  `sound_erase`);
* `Flash`: blocks and page data by linear address, `Flash.write`, `Flash.invalidate`, `Flash.erase`;
* `Written`: what a write of an empty page does;
* `Halt`: why a run of a translation layer stops.
-/

namespace ZnsFlash

/-- `enum status` of the simulator. -/
inductive Status
  | failure
  | success
  deriving DecidableEq

/-- `enum page_state` -/
inductive PageState
  | empty
  | valid
  | invalid
  deriving DecidableEq

/-- `enum block_state` -/
inductive BlockState
  | free
  | active
  | inactive
  deriving DecidableEq

/-- A block of `size` pages. -/
structure Block (size : ℕ) where
  pages : ℕ → PageState
  pagesValid : ℕ
  pagesInvalid : ℕ
  state : BlockState
  erasesRemaining : ℕ

namespace Block

variable {size : ℕ}

/-- The constructor. -/
def new (erases : ℕ) : Block size := ⟨fun _ => .empty, 0, 0, .free, erases⟩

/-- `Block::write` and `Page::_write`; the caller asserts that the page is empty. -/
def write (b : Block size) (page : ℕ) : Block size :=
  { b with
    pages := Function.update b.pages page .valid
    pagesValid := b.pagesValid + 1
    state := .active }

/-- `invalidate_page` -/
def invalidatePage (b : Block size) (page : ℕ) : Block size :=
  if b.pages page = .invalid then b
  else
    { b with
      pages := Function.update b.pages page .invalid
      pagesInvalid := b.pagesInvalid + 1
      state := if size ≤ b.pagesInvalid + 1 then .inactive
        else if 0 < b.pagesValid ∨ 0 < b.pagesInvalid + 1 then .active
        else .free }

theorem pages_invalidatePage (b : Block size) (page : ℕ) :
    (b.invalidatePage page).pages = Function.update b.pages page .invalid := by
  by_cases h : b.pages page = .invalid
  · rw [invalidatePage, if_pos h, ← h, Function.update_eq_self]
  · rw [invalidatePage, if_neg h]

theorem pagesValid_invalidatePage (b : Block size) (page : ℕ) :
    (b.invalidatePage page).pagesValid = b.pagesValid := by
  rw [invalidatePage]
  split_ifs <;> rfl

/-- `_erase`; `none` is `FAILURE`. -/
def erase (b : Block size) : Option (Block size) :=
  if b.erasesRemaining < 1 then none
  else some ⟨fun _ => .empty, 0, 0, .free, b.erasesRemaining - 1⟩

/-- The number of invalid pages. -/
def invalidCount (b : Block size) : ℕ :=
  (Finset.univ.filter fun i : Fin size => b.pages i = .invalid).card

/-- The counter of invalid pages is right, and an inactive block has only such pages. -/
structure Sound (b : Block size) : Prop where
  counted : b.pagesInvalid = b.invalidCount
  inactive : b.state = .inactive → size ≤ b.pagesInvalid

theorem size_le_invalidCount_iff (b : Block size) :
    size ≤ b.invalidCount ↔ ∀ i < size, b.pages i = .invalid := by
  have hle : b.invalidCount ≤ size :=
    (Finset.card_filter_le _ _).trans_eq (Finset.card_fin size)
  have hcard : b.invalidCount = size ↔ ∀ i : Fin size, b.pages i = .invalid := by
    have hfull := Finset.card_filter_eq_iff (s := (Finset.univ : Finset (Fin size)))
      (p := fun i : Fin size => b.pages i = .invalid)
    rw [Finset.card_fin] at hfull
    rw [invalidCount, hfull]
    simp
  rw [← Fin.forall_iff (p := fun i : Fin size => b.pages i = .invalid), ← hcard]
  exact ⟨fun h => le_antisymm hle h, fun h => h.ge⟩

theorem Sound.invalid_of_inactive {b : Block size} (h : b.Sound) (hs : b.state = .inactive) {page : ℕ}
    (hp : page < size) : b.pages page = .invalid :=
  b.size_le_invalidCount_iff.mp (h.counted ▸ h.inactive hs) page hp

theorem sound_new (erases : ℕ) : (new erases : Block size).Sound where
  counted := by simp [new, invalidCount]
  inactive := nofun

theorem invalidCount_update {b c : Block size} {page : ℕ} {st : PageState} (hp : page < size)
    (h : c.pages = Function.update b.pages page st) :
    c.invalidCount + (if b.pages page = .invalid then 1 else 0) =
      b.invalidCount + if st = .invalid then 1 else 0 := by
  have hfin : (fun i : Fin size => c.pages i) =
      Function.update (fun i : Fin size => b.pages i) ⟨page, hp⟩ st := by
    rw [h]
    exact Function.update_comp_eq_of_injective b.pages Fin.val_injective ⟨page, hp⟩ st
  have hcount := Zoned.card_filter_update (· = .invalid) (fun i : Fin size => b.pages i) ⟨page, hp⟩ st
  rw [← hfin] at hcount
  exact hcount

theorem sound_write {b : Block size} (h : b.Sound) {page : ℕ} (hp : page < size)
    (hempty : b.pages page = .empty) : (b.write page).Sound where
  counted := by
    have hcount := invalidCount_update (c := b.write page) hp rfl
    rw [hempty] at hcount
    exact h.counted.trans hcount.symm
  inactive := nofun

theorem sound_invalidatePage {b : Block size} (h : b.Sound) {page : ℕ} (hp : page < size) :
    (b.invalidatePage page).Sound := by
  by_cases hinvalid : b.pages page = .invalid
  · rw [invalidatePage, if_pos hinvalid]
    exact h
  · have hstep : b.invalidatePage page = _ := if_neg hinvalid
    have hcount := invalidCount_update (c := b.invalidatePage page) hp (congrArg pages hstep)
    rw [if_neg hinvalid, if_pos rfl, ← h.counted] at hcount
    refine ⟨(congrArg pagesInvalid hstep).trans hcount.symm, fun hs => ?_⟩
    have hst := (congrArg state hstep).symm.trans hs
    dsimp only at hst
    rw [congrArg pagesInvalid hstep]
    by_contra hlt
    rw [if_neg hlt] at hst
    split_ifs at hst

theorem sound_erase {b c : Block size} (h : b.erase = some c) : c.Sound := by
  rw [erase] at h
  split_ifs at h
  rw [← Option.some.inj h]
  exact sound_new _

end Block

/-! ## The flash -/

/-- Why a run stops: no block is free, the block manager has no room for a log block, a block is
worn out, a page is written twice, an address is past the tables or fails an assertion, an unset
entry of a table is followed, or the null pointer at the end of a list is, an entry that is evicted is
not in the cache, or has no time stamps. -/
inductive Halt
  | noFreeBlock
  | badAlloc
  | worn
  | notEmpty
  | outOfArray
  | badAddress
  | wildAccess
  | nullNext
  | notCached
  | noTimestamp
  deriving DecidableEq

/-- Blocks by their number, and `page_data` by linear address. -/
structure Flash (size : ℕ) (π : Type) where
  block : ℕ → Block size
  pageData : ℕ → π

namespace Flash

variable {size : ℕ} {π : Type} (f : Flash size π)

/-- `get_state` of a page. -/
def stateAt (a : ℕ) : PageState := (f.block (a / size)).pages (a % size)

/-- `issue` of a write; `Page::_write` asserts that the page is empty. -/
def write (a : ℕ) (payload : π) : Except Halt (Flash size π) :=
  if f.stateAt a = .empty then
    .ok ⟨Function.update f.block (a / size) ((f.block (a / size)).write (a % size)),
      Function.update f.pageData a payload⟩
  else .error .notEmpty

/-- `invalidate_page` of the block at an address. -/
def invalidate (a : ℕ) : Flash size π :=
  { f with
    block := Function.update f.block (a / size) ((f.block (a / size)).invalidatePage (a % size)) }

/-- `issue` of an erase; the callers assert that it succeeds. -/
def erase (b : ℕ) : Except Halt (Flash size π) :=
  match (f.block b).erase with
  | none => .error .worn
  | some c => .ok { f with block := Function.update f.block b c }

/-- Every page of the block can be written. -/
structure Erased (b : ℕ) : Prop where
  empty : ∀ i, (f.block b).pages i = .empty
  unused : (f.block b).pagesValid = 0

/-- All counters are right. -/
def Sound : Prop := ∀ b, (f.block b).Sound

variable {f}

theorem stateAt_update {g : Flash size π} {c : Block size} {a : ℕ} {st : PageState}
    (hblock : g.block = Function.update f.block (a / size) c)
    (hc : c.pages = Function.update (f.block (a / size)).pages (a % size) st) :
    g.stateAt = Function.update f.stateAt a st := by
  funext x
  rw [stateAt, hblock]
  by_cases hb : x / size = a / size
  · rw [hb, Function.update_self, hc]
    by_cases hp : x % size = a % size
    · have hx : x = a := by rw [← Nat.div_add_mod x size, hb, hp, Nat.div_add_mod]
      rw [hx, Function.update_self, Function.update_self]
    · have hx : x ≠ a := fun h => hp (congrArg (· % size) h)
      rw [Function.update_of_ne hp, Function.update_of_ne hx, stateAt, hb]
  · have hx : x ≠ a := fun h => hb (congrArg (· / size) h)
    rw [Function.update_of_ne hb, Function.update_of_ne hx, stateAt]

theorem stateAt_congr {g : Flash size π} {x : ℕ} (h : g.block (x / size) = f.block (x / size)) :
    g.stateAt x = f.stateAt x := by
  rw [stateAt, stateAt, h]

theorem sound_update {g : Flash size π} {c : Block size} {b : ℕ} (h : f.Sound)
    (hblock : g.block = Function.update f.block b c) (hc : c.Sound) : g.Sound := by
  intro x
  rw [hblock]
  by_cases hx : x = b
  · rw [hx, Function.update_self]
    exact hc
  · rw [Function.update_of_ne hx]
    exact h x

/-- **Invalidating** a page changes that page and the counters of its block. -/
theorem invalidate_spec (hsize : 0 < size) (hsound : f.Sound) (a : ℕ) :
    (f.invalidate a).Sound ∧ (f.invalidate a).stateAt = Function.update f.stateAt a .invalid ∧
      (f.invalidate a).pageData = f.pageData ∧
      (∀ b, ((f.invalidate a).block b).pagesValid = (f.block b).pagesValid) ∧
      ∀ b ≠ a / size, (f.invalidate a).block b = f.block b := by
  have hpages := Block.pages_invalidatePage (f.block (a / size)) (a % size)
  have hvalid := Block.pagesValid_invalidatePage (f.block (a / size)) (a % size)
  refine ⟨?_, stateAt_update rfl hpages, rfl, fun b => ?_, fun b hb => Function.update_of_ne hb _ _⟩
  · exact sound_update hsound rfl (Block.sound_invalidatePage (hsound _) (Nat.mod_lt a hsize))
  · by_cases hb : b = a / size
    · rw [hb, invalidate]
      dsimp only
      rw [Function.update_self, hvalid]
    · rw [invalidate]
      dsimp only
      rw [Function.update_of_ne hb]

theorem erase_halts {ok : Halt → Prop} (hworn : ok .worn) (b : ℕ) :
    Yields ok (f.erase b) fun _ => True := by
  rw [erase]
  cases (f.block b).erase with
  | none => exact hworn
  | some c => trivial

theorem write_halts {ok : Halt → Prop} (hnot : ok .notEmpty) (a : ℕ) (payload : π) :
    Yields ok (f.write a payload) fun _ => True := by
  rw [write]
  split_ifs
  · trivial
  · exact hnot

/-- **An erase** changes one block, which can be written again. -/
theorem erase_spec {ok : Halt → Prop} (hworn : ok .worn) (hsound : f.Sound) (b : ℕ) :
    Yields ok (f.erase b) fun g =>
      g.Sound ∧ g.Erased b ∧ g.pageData = f.pageData ∧ ∀ c ≠ b, g.block c = f.block c := by
  rw [erase]
  cases h : (f.block b).erase with
  | none => exact hworn
  | some c =>
    have hc : c = ⟨fun _ => .empty, 0, 0, .free, (f.block b).erasesRemaining - 1⟩ := by
      rw [Block.erase] at h
      split_ifs at h
      exact (Option.some.inj h).symm
    refine ⟨sound_update hsound rfl (Block.sound_erase h), ⟨fun i => ?_, ?_⟩, rfl,
      fun x hx => Function.update_of_ne hx _ _⟩
    · dsimp only
      rw [Function.update_self, hc]
    · dsimp only
      rw [Function.update_self, hc]

/-- A page holds a payload. -/
structure Holds (f : Flash size π) (a : ℕ) (payload : π) : Prop where
  valid : f.stateAt a = .valid
  data : f.pageData a = payload

theorem Holds.congr {g : Flash size π} {a : ℕ} {payload : π} (h : f.Holds a payload)
    (hb : g.block (a / size) = f.block (a / size)) (hd : g.pageData a = f.pageData a) :
    g.Holds a payload :=
  ⟨(stateAt_congr hb).trans h.valid, hd.trans h.data⟩

theorem Erased.stateAt {a : ℕ} (h : f.Erased (a / size)) : f.stateAt a = .empty := h.empty _

theorem Erased.congr {g : Flash size π} {b : ℕ} (h : f.Erased b) (hb : g.block b = f.block b) :
    g.Erased b := by
  constructor
  · rw [hb]
    exact h.empty
  · rw [hb]
    exact h.unused

/-! ## Pages of aligned blocks -/

section Aligned

variable {a i : ℕ}

theorem page_div (ha : a = a / size * size) (hi : i < size) : (a + i) / size = a / size := by
  conv_lhs => rw [ha, Nat.mul_comm, Nat.mul_add_div (Nat.zero_lt_of_lt hi), Nat.div_eq_of_lt hi]
  rfl

theorem page_mod (ha : a = a / size * size) (hi : i < size) : (a + i) % size = i := by
  rw [ha, Nat.mul_comm, Nat.mul_add_mod, Nat.mod_eq_of_lt hi]

theorem stateAt_page (f : Flash size π) (ha : a = a / size * size) (hi : i < size) :
    f.stateAt (a + i) = (f.block (a / size)).pages i := by
  rw [Flash.stateAt, page_div ha hi, page_mod ha hi]

end Aligned

end Flash

/-! ## Writes of empty pages -/

section Written

variable {size : ℕ} {π : Type} {f g : Flash size π} {x y : ℕ} {payload : π}

/-- An empty page was written. -/
structure Written (f g : Flash size π) (x : ℕ) (payload : π) : Prop where
  empty : f.stateAt x = .empty
  sound : g.Sound
  state : g.stateAt = Function.update f.stateAt x .valid
  data : g.pageData = Function.update f.pageData x payload
  counted : (g.block (x / size)).pagesValid = (f.block (x / size)).pagesValid + 1
  other : ∀ c ≠ x / size, g.block c = f.block c

/-- **A write** of an empty page changes that page and the counters of its block. -/
theorem Written.of_write {ok : Halt → Prop} (hsize : 0 < size) (hsound : f.Sound)
    (hempty : f.stateAt x = .empty) :
    Yields ok (f.write x payload) fun g => Written f g x payload := by
  rw [Flash.write, if_pos hempty]
  refine ⟨hempty, ?_, Flash.stateAt_update rfl rfl, rfl, ?_, fun b hb => Function.update_of_ne hb _ _⟩
  · exact Flash.sound_update hsound rfl (Block.sound_write (hsound _) (Nat.mod_lt x hsize) hempty)
  · dsimp only
    rw [Function.update_self]
    rfl

theorem Written.ne_of_valid (h : Written f g x payload) (hy : f.stateAt y = .valid) : y ≠ x := by
  rintro rfl
  rw [h.empty] at hy
  cases hy

theorem Written.valid (h : Written f g x payload) (hy : f.stateAt y = .valid) :
    g.stateAt y = .valid := by
  rw [h.state, Function.update_of_ne (h.ne_of_valid hy)]
  exact hy

theorem Written.holds (h : Written f g x payload) {p : π} (hy : f.Holds y p) : g.Holds y p := by
  refine ⟨h.valid hy.valid, ?_⟩
  rw [h.data, Function.update_of_ne (h.ne_of_valid hy.valid)]
  exact hy.data

theorem Written.holds_self (h : Written f g x payload) : g.Holds x payload := by
  refine ⟨?_, ?_⟩
  · rw [h.state, Function.update_self]
  · rw [h.data, Function.update_self]

end Written

end ZnsFlash
