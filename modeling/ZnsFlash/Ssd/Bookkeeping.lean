import ZnsFlash.Ssd.Flash

/-!
# The bookkeeping of blocks

* `BlockCall`, `Block.perform`: the operations of a block, each with its assertions;
  `Flash.write_eq_perform`, `Flash.invalidate_eq_perform`, `Flash.erase_eq_perform`: the flash makes them;
* `BlockRun`, `BlockRun.record`: a block with the log of the calls that have returned;
* `pagesWritten`: the pages written since the last erase, read off the log;
* `BlockRun.Inv`: the summary of a block agrees with its pages and with the log; `Inv.write`,
  `Inv.invalidatePage`, `Inv.erase`, **`Inv.record`**: every legal call returns and keeps it;
* **`block_bookkeeping`**: so it does after all legal calls.
-/

namespace ZnsFlash

/-- A call of `Block`: `page` is the page of the address of the event, or of its replace address. -/
inductive BlockCall
  | write (page : ℕ) (noop : Bool)
  | invalidatePage (page : ℕ)
  | replace (page : ℕ)
  | erase (noop : Bool)
  deriving DecidableEq

variable {size : ℕ}

namespace Block

/-- The call: the status that it returns, and the block after it. -/
def perform (b : Block size) : BlockCall → Except Halt (Status × Block size)
  | .write page noop =>
    if size ≤ page then .error .outOfArray
    else if noop then .ok (.success, b)
    else if b.pages page = .empty then .ok (.success, b.write page)
    else .error .notEmpty
  -- `invalidate_page` returns no status, `replace` always this one
  | .invalidatePage page | .replace page =>
    if page < size then .ok (.success, b.invalidatePage page) else .error .badAddress
  | .erase noop =>
    if noop then .ok (.success, b)
    else
      match b.erase with
      | none => .ok (.failure, b)
      | some c => .ok (.success, c)

/-- **An erase fails** when no erases remain, and then nothing changes. -/
theorem perform_eq_failure (b : Block size) (noop : Bool) (c : Block size) :
    b.perform (.erase noop) = .ok (.failure, c) ↔ noop = false ∧ b.erasesRemaining = 0 ∧ c = b := by
  cases noop with
  | true => simp [perform]
  | false =>
    by_cases hworn : b.erasesRemaining < 1
    · have hfail : b.perform (.erase false) = .ok (.failure, b) := by
        simp [perform, erase, hworn]
      rw [hfail]
      simp [Nat.lt_one_iff.mp hworn, eq_comm]
    · have hzero : b.erasesRemaining ≠ 0 := fun h => hworn (h ▸ Nat.one_pos)
      simp [perform, erase, hzero]

end Block

/-! The operations of the flash are calls of one of its blocks. -/

section Calls

variable {π : Type} (f : Flash size π) (a : ℕ)

theorem Flash.write_eq_perform (hsize : 0 < size) (payload : π) :
    (f.write a payload).map (fun g => (Status.success, g.block (a / size))) =
      (f.block (a / size)).perform (.write (a % size) false) := by
  have hp : ¬ size ≤ a % size := not_le.mpr (Nat.mod_lt a hsize)
  rw [Flash.write, Flash.stateAt, Block.perform, if_neg hp, if_neg Bool.false_ne_true]
  split_ifs
  · simp [Except.map]
  · rfl

theorem Flash.invalidate_eq_perform (hsize : 0 < size) :
    .ok (.success, (f.invalidate a).block (a / size)) =
      (f.block (a / size)).perform (.invalidatePage (a % size)) := by
  rw [Block.perform, if_pos (Nat.mod_lt a hsize), Flash.invalidate]
  simp

theorem Flash.erase_eq_perform (b : ℕ) :
    (f.block b).perform (.erase false) =
      match f.erase b with
      | .ok g => .ok (.success, g.block b)
      | .error _ => .ok (.failure, f.block b) := by
  rw [Block.perform, if_neg Bool.false_ne_true, Flash.erase]
  cases (f.block b).erase with
  | none => rfl
  | some c => simp

end Calls

/-- What a caller has to see to: the page is one of the block, and it is empty when it is written. -/
def BlockCall.Legal (b : Block size) : BlockCall → Prop
  | .write page noop => page < size ∧ (noop = false → b.pages page = .empty)
  | .invalidatePage page | .replace page => page < size
  | .erase _ => True

instance (b : Block size) (call : BlockCall) : Decidable (call.Legal b) :=
  match call with
  | .write _ _ => inferInstanceAs (Decidable (_ ∧ (_ → _)))
  | .invalidatePage _ | .replace _ => inferInstanceAs (Decidable (_ < _))
  | .erase _ => isTrue trivial

/-! ## The log of the calls -/

/-- The call has erased the block. -/
def erased : BlockCall × Status → Bool
  | (.erase false, .success) => true
  | _ => false

/-- The page that the call has written. -/
def pageWritten : BlockCall × Status → Option ℕ
  | (.write page false, _) => some page
  | _ => none

/-- **The pages written since the last erase.** -/
def pagesWritten (log : List (BlockCall × Status)) : Finset ℕ :=
  ((log.reverse.takeWhile fun entry => !erased entry).filterMap pageWritten).toFinset

section Log

variable (log : List (BlockCall × Status)) {entry : BlockCall × Status}

theorem pagesWritten_erased (h : erased entry = true) : pagesWritten (log ++ [entry]) = ∅ := by
  simp [pagesWritten, h]

theorem pagesWritten_write (page : ℕ) (status : Status) :
    pagesWritten (log ++ [(.write page false, status)]) = insert page (pagesWritten log) := by
  simp [pagesWritten, erased, pageWritten]

theorem pagesWritten_other (h : erased entry = false) (hpage : pageWritten entry = none) :
    pagesWritten (log ++ [entry]) = pagesWritten log := by
  simp [pagesWritten, h, hpage]

end Log

/-! ## Runs -/

/-- A block, with the calls that have returned and their statuses. -/
structure BlockRun (size : ℕ) where
  block : Block size
  log : List (BlockCall × Status)

namespace BlockRun

/-- A block that was constructed. -/
def start (erases : ℕ) : BlockRun size := ⟨.new erases, []⟩

/-- One more call. -/
def record (r : BlockRun size) (call : BlockCall) : Except Halt (BlockRun size) := do
  let (status, block) ← r.block.perform call
  .ok ⟨block, r.log ++ [(call, status)]⟩

/-- **The summary of a block is right**: the counters, which stay within the block, and the state. -/
structure Booked (r : BlockRun size) : Prop where
  counters : r.block.pagesValid ≤ size ∧ r.block.pagesInvalid ≤ size
  pagesInvalid : r.block.pagesInvalid = r.block.invalidCount
  pagesValid : r.block.pagesValid = (pagesWritten r.log).card
  free : r.block.state = .free ↔ ∀ i < size, r.block.pages i = .empty
  inactive : r.block.state = .inactive ↔ ∀ i < size, r.block.pages i = .invalid
  active : r.block.state = .active ↔
    ¬ (∀ i < size, r.block.pages i = .empty) ∧ ¬ ∀ i < size, r.block.pages i = .invalid

/-- What calls keep: pages that were written have not become empty. -/
structure Inv (r : BlockRun size) : Prop where
  sound : r.block.Sound
  counted : r.block.pagesValid = (pagesWritten r.log).card
  written : ∀ i ∈ pagesWritten r.log, i < size ∧ r.block.pages i ≠ .empty
  free : r.block.state = .free ↔ ∀ i < size, r.block.pages i = .empty
  inactive : r.block.state = .inactive ↔ ∀ i < size, r.block.pages i = .invalid

theorem Inv.counters_le {r : BlockRun size} (h : r.Inv) :
    r.block.pagesValid ≤ size ∧ r.block.pagesInvalid ≤ size := by
  constructor
  · have hsub : pagesWritten r.log ⊆ Finset.range size := fun i hi =>
      Finset.mem_range.mpr (h.written i hi).1
    calc r.block.pagesValid = (pagesWritten r.log).card := h.counted
      _ ≤ (Finset.range size).card := Finset.card_le_card hsub
      _ = size := Finset.card_range size
  · rw [h.sound.counted, Block.invalidCount]
    exact (Finset.card_filter_le _ _).trans_eq (Finset.card_fin size)

theorem Inv.booked {r : BlockRun size} (h : r.Inv) : r.Booked := by
  refine ⟨h.counters_le, h.sound.counted, h.counted, h.free, h.inactive, ?_⟩
  rw [← h.free, ← h.inactive]
  cases r.block.state <;> decide

theorem inv_start (hsize : 0 < size) (erases : ℕ) : (start erases : BlockRun size).Inv where
  sound := Block.sound_new erases
  counted := rfl
  written := by simp [start, pagesWritten]
  free := by simp [start, Block.new]
  inactive := by
    refine iff_of_false ?_ fun h => ?_
    · simp [start, Block.new]
    · have hzero : PageState.empty = .invalid := h 0 hsize
      cases hzero

section Calls

variable {b : Block size} {log : List (BlockCall × Status)} {entry : BlockCall × Status} {page : ℕ}

theorem Inv.idle (h : Inv ⟨b, log⟩) (herased : erased entry = false)
    (hpage : pageWritten entry = none) : Inv ⟨b, log ++ [entry]⟩ := by
  have hlog := pagesWritten_other log herased hpage
  refine ⟨h.sound, ?_, ?_, h.free, h.inactive⟩
  · dsimp only
    rw [hlog]
    exact h.counted
  · dsimp only
    rw [hlog]
    exact h.written

theorem Inv.write (h : Inv ⟨b, log⟩) (hp : page < size) (hempty : b.pages page = .empty)
    (status : Status) : Inv ⟨b.write page, log ++ [(.write page false, status)]⟩ := by
  have hlog := pagesWritten_write log page status
  have hself : (b.write page).pages page = .valid := Function.update_self _ _ _
  have hnot : ∀ st, st ≠ .valid → ¬ ∀ i < size, (b.write page).pages i = st :=
    fun st hst hall => hst ((hall page hp).symm.trans hself)
  have hnew : page ∉ pagesWritten log := fun hmem => (h.written page hmem).2 hempty
  refine ⟨Block.sound_write h.sound hp hempty, ?_, fun i hi => ?_, ?_, ?_⟩
  · dsimp only
    rw [hlog, Finset.card_insert_of_notMem hnew]
    exact congrArg (· + 1) h.counted
  · dsimp only at hi
    rw [hlog] at hi
    by_cases hip : i = page
    · subst hip
      refine ⟨hp, ?_⟩
      rw [hself]
      decide
    · obtain ⟨hlt, hne⟩ := h.written i (Finset.mem_of_mem_insert_of_ne hi hip)
      have hother : (b.write page).pages i = b.pages i := Function.update_of_ne hip _ _
      rw [hother]
      exact ⟨hlt, hne⟩
  · exact iff_of_false (fun hst => by cases hst) (hnot _ (by decide))
  · exact iff_of_false (fun hst => by cases hst) (hnot _ (by decide))

theorem pages_ne_empty_invalidatePage {i : ℕ} (h : b.pages i ≠ .empty) :
    (b.invalidatePage page).pages i ≠ .empty := by
  rw [Block.pages_invalidatePage]
  by_cases hip : i = page
  · rw [hip, Function.update_self]
    decide
  · rw [Function.update_of_ne hip]
    exact h

theorem Inv.invalidatePage (h : Inv ⟨b, log⟩) (hp : page < size) (herased : erased entry = false)
    (hpage : pageWritten entry = none) : Inv ⟨b.invalidatePage page, log ++ [entry]⟩ := by
  by_cases hinvalid : b.pages page = .invalid
  · rw [Block.invalidatePage, if_pos hinvalid]
    exact h.idle herased hpage
  · have hlog := pagesWritten_other log herased hpage
    have hstep : b.invalidatePage page = _ := if_neg hinvalid
    have hsound := Block.sound_invalidatePage h.sound hp
    have hself : (b.invalidatePage page).pages page = .invalid := by
      rw [Block.pages_invalidatePage, Function.update_self]
    refine ⟨hsound, ?_, fun i hi => ?_, ?_, ?_⟩
    · dsimp only
      rw [hlog, Block.pagesValid_invalidatePage]
      exact h.counted
    · dsimp only at hi
      rw [hlog] at hi
      obtain ⟨hlt, hne⟩ := h.written i hi
      exact ⟨hlt, pages_ne_empty_invalidatePage hne⟩
    · refine iff_of_false (fun hst => ?_) fun hall => ?_
      · rw [hstep] at hst
        dsimp only at hst
        split_ifs at hst with _ hpos
        exact hpos (Or.inr (Nat.succ_pos _))
      · have hempty := hself.symm.trans (hall page hp)
        cases hempty
    · dsimp only
      rw [← Block.size_le_invalidCount_iff, ← hsound.counted, hstep]
      dsimp only
      split_ifs with hfull hpos <;> simp [hfull]

theorem Inv.erase (hsize : 0 < size) {c : Block size} (hc : b.erase = some c)
    (herased : erased entry = true) : Inv ⟨c, log ++ [entry]⟩ := by
  have hlog := pagesWritten_erased log herased
  have hnew := inv_start hsize (b.erasesRemaining - 1)
  rw [Block.erase] at hc
  split_ifs at hc
  obtain rfl := Option.some.inj hc
  refine ⟨hnew.sound, ?_, fun i hi => ?_, hnew.free, hnew.inactive⟩
  · dsimp only
    rw [hlog]
    rfl
  · dsimp only at hi
    rw [hlog] at hi
    exact absurd hi (Finset.notMem_empty i)

end Calls

/-- **Every legal call returns**, and keeps the summary right. -/
theorem Inv.record (hsize : 0 < size) {r : BlockRun size} (h : r.Inv) {call : BlockCall}
    (hlegal : call.Legal r.block) : Yields (fun _ => False) (r.record call) Inv := by
  obtain ⟨b, log⟩ := r
  rw [BlockRun.record, Block.perform.eq_def]
  cases call with
  | write page noop =>
    obtain ⟨hp, hempty⟩ := hlegal
    dsimp only
    rw [if_neg (not_le.mpr hp)]
    cases noop with
    | true => exact h.idle rfl rfl
    | false =>
      rw [if_neg Bool.false_ne_true, if_pos (hempty rfl)]
      exact h.write hp (hempty rfl) .success
  | invalidatePage page =>
    have hp : page < size := hlegal
    dsimp only
    rw [if_pos hp]
    exact h.invalidatePage hp rfl rfl
  | replace page =>
    have hp : page < size := hlegal
    dsimp only
    rw [if_pos hp]
    exact h.invalidatePage hp rfl rfl
  | erase noop =>
    dsimp only
    cases noop with
    | true => exact h.idle rfl rfl
    | false =>
      rw [if_neg Bool.false_ne_true]
      cases hc : b.erase with
      | none => exact h.idle rfl rfl
      | some c => exact Inv.erase hsize hc rfl

end BlockRun

/-- **The bookkeeping of a block.** Every sequence of legal calls returns, the counters and the state
are right after it, and an erase that fails then, as no erases remain, changes nothing. -/
theorem block_bookkeeping (hsize : 0 < size) (erases : ℕ) (calls : List BlockCall)
    (hlegal : Yields.Along BlockRun.record (fun r call => call.Legal r.block)
      (.start erases : BlockRun size) calls) :
    ∃ r, calls.foldlM BlockRun.record (.start erases : BlockRun size) = .ok r ∧ r.Booked ∧
      ∀ noop c, r.block.perform (.erase noop) = .ok (.failure, c) ↔
        noop = false ∧ r.block.erasesRemaining = 0 ∧ c = r.block := by
  have hrun : Yields (fun _ => False)
      (calls.foldlM BlockRun.record (.start erases : BlockRun size)) BlockRun.Inv :=
    Yields.foldlM_along BlockRun.Inv (fun r call hr hcall => hr.record hsize hcall)
      (BlockRun.inv_start hsize erases) hlegal
  obtain ⟨r, hr, hinv⟩ := hrun.exists_ok
  exact ⟨r, hr, hinv.booked, r.block.perform_eq_failure⟩

/-- Both pages are made invalid, one of them unwritten; then two erases, of which the second fails. -/
def blockCalls : List BlockCall :=
  [.write 0 false, .invalidatePage 0, .replace 1, .erase false, .write 1 false, .write 1 true,
    .erase false]

theorem block_bookkeeping_blockCalls :
    ∃ r, blockCalls.foldlM BlockRun.record (.start 1 : BlockRun 2) = .ok r ∧ r.Booked := by
  obtain ⟨r, hr, hbooked, -⟩ := block_bookkeeping Nat.two_pos 1 blockCalls (by decide)
  exact ⟨r, hr, hbooked⟩

end ZnsFlash
