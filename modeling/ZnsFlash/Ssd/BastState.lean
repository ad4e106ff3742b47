import ZnsFlash.Library.Holdings
import ZnsFlash.Ssd.Bast

/-!
# The state of BAST between its steps

* `Owner`, `Bast.own`: who holds which block;
* `LogSound`, **`Bast.Inv`**: the invariant between requests; `Inv.read`: reads find the latest writes;
* `Dead`, `Inv.invalidate`: a page that nobody reads is invalidated;
* `Inv.unmap`, `Inv.forget`, **`Inv.program`**, `Inv.issueWrite`: a mapping is forgotten, or the next
  page of a log block written.
-/

namespace ZnsFlash

open Holdings

/-- A logical block holds a data block and a log block. -/
inductive Owner
  | data (lba : ℕ)
  | log (lba : ℕ)
  deriving DecidableEq

theorem Owner.log_ne_data (b b' : ℕ) : Owner.log b ≠ .data b' := by
  intro h
  cases h

/-- The map of a log block: pages that were written, each for one offset, and the rest is empty. -/
structure LogSound {size : ℕ} {π : Type} (f : Flash size π) (log : BastLog) : Prop where
  aligned : log.address = log.address / size * size
  full : (f.block (log.address / size)).pagesValid ≤ size
  used : ∀ i j, log.pages i = some j → j < (f.block (log.address / size)).pagesValid
  injective : ∀ i i' j, log.pages i = some j → log.pages i' = some j → i = i'
  unused : ∀ j, (f.block (log.address / size)).pagesValid ≤ j → j < size →
    (f.block (log.address / size)).pages j = .empty

section LogSound

variable {size : ℕ} {π : Type} {f g : Flash size π} {log : BastLog}

theorem LogSound.congr (h : LogSound f log)
    (hb : g.block (log.address / size) = f.block (log.address / size)) : LogSound g log := by
  obtain ⟨haligned, hfull, hused, hinj, hunused⟩ := h
  rw [← hb] at hfull hused hunused
  exact ⟨haligned, hfull, hused, hinj, hunused⟩

theorem LogSound.lt (h : LogSound f log) {i j : ℕ} (hj : log.pages i = some j) : j < size :=
  (h.used i j hj).trans_le h.full

theorem LogSound.page_div (h : LogSound f log) {i j : ℕ} (hj : log.pages i = some j) :
    (log.address + j) / size = log.address / size := Flash.page_div h.aligned (h.lt hj)

theorem LogSound.of_erased {address : ℕ} (haligned : address = address / size * size)
    (h : f.Erased (address / size)) : LogSound f (.new address) := by
  refine ⟨haligned, h.unused.trans_le (Nat.zero_le _), fun i j hj => ?_, fun i i' j hj _ => ?_,
    fun j _ _ => h.empty j⟩
  · cases hj
  · cases hj

theorem LogSound.unset (h : LogSound f log) (offset : ℕ) : LogSound f (log.set offset none) := by
  have hold : ∀ i j, (log.set offset none).pages i = some j → log.pages i = some j := by
    intro i j hj
    by_cases hi : i = offset
    · rw [hi, BastLog.pages_set_self] at hj
      cases hj
    · rwa [BastLog.pages_set_of_ne _ _ hi] at hj
  exact ⟨h.aligned, h.full, fun i j hj => h.used i j (hold i j hj),
    fun i i' j hj hj' => h.injective i i' j (hold i j hj) (hold i' j hj'), h.unused⟩

theorem LogSound.next (h : LogSound f log) (offset : ℕ) {page : ℕ}
    (hpage : page = (f.block (log.address / size)).pagesValid) (hlt : page < size)
    (hvalid : (g.block (log.address / size)).pagesValid = page + 1)
    (hstate : g.stateAt = Function.update f.stateAt (log.address + page) .valid) :
    LogSound g (log.set offset (some page)) := by
  have hcases : ∀ i j, (log.set offset (some page)).pages i = some j →
      i = offset ∧ j = page ∨ log.pages i = some j ∧ j < page := by
    intro i j hj
    by_cases hi : i = offset
    · rw [hi, BastLog.pages_set_self] at hj
      exact Or.inl ⟨hi, (Option.some.inj hj).symm⟩
    · rw [BastLog.pages_set_of_ne _ _ hi] at hj
      exact Or.inr ⟨hj, (h.used i j hj).trans_eq hpage.symm⟩
  refine ⟨h.aligned, ?_, fun i j hj => ?_, fun i i' j hj hj' => ?_, fun j hj hjlt => ?_⟩
  · rw [BastLog.address_set, hvalid]
    exact hlt
  · rw [BastLog.address_set, hvalid]
    rcases hcases i j hj with ⟨-, rfl⟩ | ⟨-, hold⟩
    · exact Nat.lt_succ_self _
    · exact Nat.lt_succ_of_lt hold
  · rcases hcases i j hj with ⟨hi, hp⟩ | ⟨hi, hp⟩ <;>
      rcases hcases i' j hj' with ⟨hi', hp'⟩ | ⟨hi', hp'⟩
    · exact hi.trans hi'.symm
    · omega
    · omega
    · exact h.injective i i' j hi hi'
  · rw [BastLog.address_set, hvalid] at hj
    have hne : log.address + j ≠ log.address + page := by omega
    have hold := h.unused j (by omega) hjlt
    rw [BastLog.address_set, ← Flash.stateAt_page g h.aligned hjlt, hstate,
      Function.update_of_ne hne, Flash.stateAt_page f h.aligned hjlt]
    exact hold

theorem LogSound.pages_set_ne (h : LogSound f log) {offset j : ℕ}
    (hj : log.pages offset = some j) {page : Option ℕ} (hpage : page ≠ some j) (i : ℕ) :
    (log.set offset page).pages i ≠ some j := by
  by_cases hi : i = offset
  · rw [hi, BastLog.pages_set_self]
    exact hpage
  · rw [BastLog.pages_set_of_ne _ _ hi]
    exact fun hij => hi (h.injective i offset j hij hj)

end LogSound

namespace Bast

variable {size : ℕ} {π : Type}

/-- The blocks that the maps refer to. -/
def own (s : Bast size π) : Owner → Option ℕ
  | .data b => (s.dataList b).map (· / size)
  | .log b => (s.logMap.lookup b).map fun log => log.address / size

/-- The page of a logical address in the log, if it has one. -/
def logPage (s : Bast size π) (la : ℕ) : Option ℕ :=
  (s.logMap.lookup (logicalBlock size la)).bind fun log =>
    (log.pages (la % size)).map (log.address + ·)

/-- **The invariant.** Logical pages that are mapped in a log are there, the others in their data
block, and no block has two uses. -/
structure Inv (limit : ℕ) (s : Bast size π) (latest : ℕ → Option π) : Prop where
  pool : Pool s.media (held s.own)
  exclusive : Exclusive s.own
  data : ∀ b a, s.dataList b = some a → a = a / size * size
  log : ∀ b log, s.logMap.lookup b = some log → LogSound s.media.flash log
  mapped : ∀ la a, s.logPage la = some a → ∃ p, latest la = some p ∧ s.media.flash.Holds a p
  stored : ∀ la p, latest la = some p → s.logPage la = none →
    ∃ a, s.dataList (logicalBlock size la) = some a ∧ s.media.flash.Holds (a + la % size) p
  limit : s.logMap.keys.length ≤ limit

section Facts

variable {s : Bast size π} {b la a j : ℕ} {log : BastLog}

theorem own_data (h : s.dataList b = some a) : s.own (.data b) = some (a / size) := by
  rw [own, h, Option.map_some]

theorem own_log (h : s.logMap.lookup b = some log) : s.own (.log b) = some (log.address / size) := by
  rw [own, h, Option.map_some]

theorem own_setData (s : Bast size π) (b : ℕ) (a : Option ℕ) :
    ({ s with dataList := Function.update s.dataList b a } : Bast size π).own =
      Function.update s.own (.data b) (a.map (· / size)) := by
  funext o
  cases o with
  | data b' =>
    by_cases hb : b' = b
    · rw [hb, Function.update_self]
      exact congrArg (Option.map (· / size)) (Function.update_self _ _ _)
    · have hne : Owner.data b' ≠ .data b := fun heq => hb (Owner.data.inj heq)
      rw [Function.update_of_ne hne]
      exact congrArg (Option.map (· / size)) (Function.update_of_ne hb _ _)
  | log b' => rfl

theorem own_insertLog (s : Bast size π) (b : ℕ) (log : BastLog) :
    ({ s with logMap := s.logMap.insert b log } : Bast size π).own =
      Function.update s.own (.log b) (some (log.address / size)) := by
  funext o
  cases o with
  | data b' => rfl
  | log b' =>
    by_cases hb : b' = b
    · rw [hb, Function.update_self]
      exact own_log (AList.lookup_insert _)
    · have hne : Owner.log b' ≠ .log b := fun heq => hb (Owner.log.inj heq)
      rw [Function.update_of_ne hne]
      exact congrArg (Option.map _) (AList.lookup_insert_ne hb)

theorem own_eraseLog (s : Bast size π) (b : ℕ) :
    ({ s with logMap := s.logMap.erase b } : Bast size π).own =
      Function.update s.own (.log b) none := by
  funext o
  cases o with
  | data b' => rfl
  | log b' =>
    by_cases hb : b' = b
    · rw [hb, Function.update_self]
      exact congrArg (Option.map _) (AList.lookup_erase b s.logMap)
    · have hne : Owner.log b' ≠ .log b := fun heq => hb (Owner.log.inj heq)
      rw [Function.update_of_ne hne]
      exact congrArg (Option.map _) (AList.lookup_erase_ne hb)

theorem logPage_of_lookup (h : s.logMap.lookup (logicalBlock size la) = some log)
    (hj : log.pages (la % size) = some j) : s.logPage la = some (log.address + j) := by
  rw [logPage, h, Option.bind_some, hj, Option.map_some]

theorem exists_of_logPage (h : s.logPage la = some a) :
    ∃ log j, s.logMap.lookup (logicalBlock size la) = some log ∧ log.pages (la % size) = some j ∧
      a = log.address + j := by
  obtain ⟨log, hlog, hpage⟩ := Option.bind_eq_some_iff.mp h
  obtain ⟨j, hj, rfl⟩ := Option.map_eq_some_iff.mp hpage
  exact ⟨log, j, hlog, hj, rfl⟩

theorem readAddress_eq (s : Bast size π) (la : ℕ) : s.lookupAddress la =
    match s.logPage la with
    | some a => a
    | none =>
      match s.dataList (logicalBlock size la) with
      | none => 0
      | some a => a + la % size := rfl

theorem Inv.read {limit : ℕ} {latest : ℕ → Option π} {p : π} (h : Inv limit s latest)
    (hp : latest la = some p) : s.media.flash.Holds (s.readAddress la) p := by
  have hholds : s.media.flash.Holds (s.lookupAddress la) p := by
    rw [readAddress_eq]
    cases hpage : s.logPage la with
    | some a =>
      obtain ⟨q, hq, hholds⟩ := h.mapped la a hpage
      rw [hp] at hq
      rwa [← Option.some.inj hq] at hholds
    | none =>
      obtain ⟨a, ha, hholds⟩ := h.stored la p hp hpage
      rw [ha]
      exact hholds
  have hvalid : ¬ s.media.flash.stateAt (s.lookupAddress la) = .invalid := by
    rw [hholds.valid]
    decide
  rw [readAddress, if_neg hvalid]
  exact hholds

end Facts

/-! ## Invalidating a page that nobody reads -/

section Invalidate

variable {limit : ℕ} {s : Bast size π} {latest : ℕ → Option π}

/-- A page of a held block that was written, and is not where a page should be found. -/
structure Dead (s : Bast size π) (latest : ℕ → Option π) (x : ℕ) : Prop where
  held : x / size ∈ held s.own
  unmapped : ∀ la, s.logPage la ≠ some x
  unstored : ∀ la p a, latest la = some p → s.logPage la = none →
    s.dataList (logicalBlock size la) = some a → a + la % size ≠ x
  used : ∀ b log, s.logMap.lookup b = some log → log.address / size = x / size →
    x % size < (s.media.flash.block (x / size)).pagesValid

theorem Inv.invalidate (hsize : 0 < size) (h : Inv limit s latest) {x : ℕ} (hx : Dead s latest x) :
    Inv limit (s.invalidated x) latest := by
  obtain ⟨hsound, hstate, hdata, hvalid, hother⟩ := Flash.invalidate_spec hsize h.pool.sound x
  have hkeep : ∀ y p, y ≠ x → s.media.flash.Holds y p → (s.invalidated x).media.flash.Holds y p := by
    intro y p hy hholds
    refine ⟨?_, ?_⟩
    · change (s.media.flash.invalidate x).stateAt y = _
      rw [hstate, Function.update_of_ne hy]
      exact hholds.valid
    · change (s.media.flash.invalidate x).pageData y = _
      rw [hdata]
      exact hholds.data
  refine ⟨?_, h.exclusive, h.data, fun b log hlog => ?_, fun la a ha => ?_, fun la p hp hla => ?_,
    h.limit⟩
  · exact h.pool.of_flash hsound fun b hb => hother b fun heq => hb (heq ▸ hx.held)
  · obtain ⟨haligned, hfull, hused, hinj, hunused⟩ := h.log b log hlog
    refine ⟨haligned, ?_, fun i j hj => ?_, hinj, fun j hj hlt => ?_⟩
    · exact (hvalid _).trans_le hfull
    · exact (hused i j hj).trans_eq (hvalid _).symm
    · have hj' : (s.media.flash.block (log.address / size)).pagesValid ≤ j := (hvalid _).ge.trans hj
      have hne : log.address + j ≠ x := by
        rintro rfl
        have hlast := hx.used b log hlog (Flash.page_div haligned hlt).symm
        rw [Flash.page_mod haligned hlt, Flash.page_div haligned hlt] at hlast
        omega
      have hempty := hunused j hj' hlt
      rw [← Flash.stateAt_page _ haligned hlt] at hempty ⊢
      change (s.media.flash.invalidate x).stateAt _ = _
      rw [hstate, Function.update_of_ne hne]
      exact hempty
  · obtain ⟨p, hp, hholds⟩ := h.mapped la a ha
    exact ⟨p, hp, hkeep a p (fun heq => hx.unmapped la (heq ▸ ha)) hholds⟩
  · obtain ⟨a, ha, hholds⟩ := h.stored la p hp hla
    exact ⟨a, ha, hkeep _ p (hx.unstored la p a hp hla ha) hholds⟩

theorem Inv.dead_data (hsize : 0 < size) (h : Inv limit s latest) {la d : ℕ}
    (hd : s.dataList (logicalBlock size la) = some d) (hla : s.logPage la = none → latest la = none) :
    Dead s latest (d + la % size) := by
  have hdiv : (d + la % size) / size = d / size :=
    Flash.page_div (h.data _ d hd) (Nat.mod_lt la hsize)
  have hown : s.own (.data (logicalBlock size la)) = some ((d + la % size) / size) := by
    rw [hdiv, own_data hd]
  refine ⟨mem_held hown, fun la' ha => ?_, fun la' p a hp hnone ha heq => ?_, fun b log hlog heq => ?_⟩
  · obtain ⟨log, j, hlog, hj, heq⟩ := exists_of_logPage ha
    have hpage := (h.log _ log hlog).page_div hj
    rw [heq, hpage] at hown
    cases h.exclusive _ _ _ hown (own_log hlog)
  · have hpage : (a + la' % size) / size = a / size :=
      Flash.page_div (h.data _ a ha) (Nat.mod_lt la' hsize)
    rw [← heq, hpage] at hown
    have hblock := Owner.data.inj (h.exclusive _ _ _ hown (own_data ha))
    rw [← hblock, hd] at ha
    obtain rfl := Option.some.inj ha
    have hsame : la' = la := eq_of_offset_eq hsize hblock.symm (Nat.add_left_cancel heq)
    rw [hsame] at hp hnone
    rw [hla hnone] at hp
    cases hp
  · rw [← heq] at hown
    cases h.exclusive _ _ _ hown (own_log hlog)

theorem Inv.dead_log (hsize : 0 < size) (h : Inv limit s latest) {b j : ℕ} {log : BastLog}
    (hlog : s.logMap.lookup b = some log)
    (hj : j < (s.media.flash.block (log.address / size)).pagesValid)
    (hfree : ∀ i, log.pages i ≠ some j) : Dead s latest (log.address + j) := by
  have hsound := h.log b log hlog
  have hlt : j < size := hj.trans_le hsound.full
  have hdiv : (log.address + j) / size = log.address / size := Flash.page_div hsound.aligned hlt
  have hown : s.own (.log b) = some ((log.address + j) / size) := by
    rw [hdiv, own_log hlog]
  have hunique : ∀ b' log', s.logMap.lookup b' = some log' →
      log'.address / size = (log.address + j) / size → log' = log := by
    intro b' log' hlog' heq
    have howner := h.exclusive _ _ _ ((own_log hlog').trans (congrArg some heq)) hown
    rw [Owner.log.inj howner, hlog] at hlog'
    exact (Option.some.inj hlog').symm
  refine ⟨mem_held hown, fun la' ha => ?_, fun la' p a hp hnone ha heq => ?_, fun b' log' hlog' heq => ?_⟩
  · obtain ⟨log', j', hlog', hj', heq⟩ := exists_of_logPage ha
    have hpage := (h.log _ log' hlog').page_div hj'
    rw [← heq] at hpage
    obtain rfl := hunique _ log' hlog' hpage.symm
    rw [Nat.add_left_cancel heq] at hfree
    exact hfree _ hj'
  · have hpage : (a + la' % size) / size = a / size :=
      Flash.page_div (h.data _ a ha) (Nat.mod_lt la' hsize)
    rw [← heq, hpage] at hown
    cases h.exclusive _ _ _ hown (own_data ha)
  · obtain rfl := hunique b' log' hlog' heq
    rw [Flash.page_mod hsound.aligned hlt, hdiv]
    exact hj

end Invalidate

/-! ## Changing one mapping -/

section SetPage

variable {limit : ℕ} {s : Bast size π} {latest : ℕ → Option π} {la la' : ℕ} {log : BastLog}
  {page : Option ℕ}

theorem lookup_setPage_self : (s.setPage la log page).logMap.lookup (logicalBlock size la) =
    some (log.set (la % size) page) := AList.lookup_insert _

theorem lookup_setPage_of_ne {b : ℕ} (hb : b ≠ logicalBlock size la) :
    (s.setPage la log page).logMap.lookup b = s.logMap.lookup b := AList.lookup_insert_ne hb

theorem own_setPage (hlog : s.logMap.lookup (logicalBlock size la) = some log) :
    (s.setPage la log page).own = s.own := by
  refine (own_insertLog s _ (log.set (la % size) page)).trans ?_
  rw [BastLog.address_set, ← own_log hlog, Function.update_eq_self]

theorem logPage_setPage_self :
    (s.setPage la log page).logPage la = page.map (log.address + ·) := by
  rw [logPage, lookup_setPage_self, Option.bind_some, BastLog.pages_set_self]
  rfl

theorem logPage_setPage_of_ne (hsize : 0 < size)
    (hlog : s.logMap.lookup (logicalBlock size la) = some log) (hne : la' ≠ la) :
    (s.setPage la log page).logPage la' = s.logPage la' := by
  by_cases hb : logicalBlock size la' = logicalBlock size la
  · have hoffset : la' % size ≠ la % size := fun h => hne (eq_of_offset_eq hsize hb h)
    rw [logPage, logPage, hb, lookup_setPage_self, hlog, Option.bind_some, Option.bind_some,
      BastLog.pages_set_of_ne _ _ hoffset]
    rfl
  · rw [logPage, logPage, lookup_setPage_of_ne hb]

theorem length_keys_setPage (hlog : s.logMap.lookup (logicalBlock size la) = some log) :
    (s.setPage la log page).logMap.keys.length = s.logMap.keys.length := by
  have hmem : logicalBlock size la ∈ s.logMap.keys := by
    rw [← AList.mem_keys, ← AList.lookup_isSome, hlog]
    rfl
  change (s.logMap.insert _ _).keys.length = _
  rw [AList.keys_insert, List.length_cons, List.length_erase_of_mem hmem]
  have hpos := List.length_pos_of_mem hmem
  omega

/-- **A mapping is forgotten** with the write that it stands for. -/
theorem Inv.unmap (hsize : 0 < size) (h : Inv limit s latest)
    (hlog : s.logMap.lookup (logicalBlock size la) = some log) :
    Inv limit (s.setPage la log none) (Function.update latest la none) := by
  have hown : (s.setPage la log none).own = s.own := own_setPage hlog
  refine ⟨?_, ?_, h.data, fun b log' hlog' => ?_, fun la' a ha => ?_, fun la' p hp hla => ?_, ?_⟩
  · rw [hown]
    exact h.pool
  · rw [hown]
    exact h.exclusive
  · by_cases hb : b = logicalBlock size la
    · rw [hb, lookup_setPage_self] at hlog'
      rw [← Option.some.inj hlog']
      exact (h.log _ log hlog).unset _
    · rw [lookup_setPage_of_ne hb] at hlog'
      exact h.log b log' hlog'
  · by_cases hne : la' = la
    · rw [hne, logPage_setPage_self] at ha
      cases ha
    · rw [logPage_setPage_of_ne hsize hlog hne] at ha
      rw [Function.update_of_ne hne]
      exact h.mapped la' a ha
  · obtain ⟨hne, hp⟩ := of_update_none hp
    rw [logPage_setPage_of_ne hsize hlog hne] at hla
    exact h.stored la' p hp hla
  · rw [length_keys_setPage hlog]
    exact h.limit

theorem Inv.forget (h : Inv limit s latest) (hla : s.logPage la = none) :
    Inv limit s (Function.update latest la none) := by
  refine ⟨h.pool, h.exclusive, h.data, h.log, fun la' a ha => ?_, fun la' p hp hnone => ?_, h.limit⟩
  · have hne : la' ≠ la := by
      rintro rfl
      rw [hla] at ha
      cases ha
    rw [Function.update_of_ne hne]
    exact h.mapped la' a ha
  · exact h.stored la' p (of_update_none hp).2 hnone

end SetPage

/-! ## Writing a page of a log block -/

section Program

variable {limit : ℕ} {s : Bast size π} {latest : ℕ → Option π} {la : ℕ} {log : BastLog} {payload : π}

/-- **The next page of a log block is written**, and mapped. -/
theorem Inv.program {ok : Halt → Prop} (hsize : 0 < size) (h : Inv limit s latest)
    (hlog : s.logMap.lookup (logicalBlock size la) = some log) {page : ℕ}
    (hpage : page = (s.media.flash.block (log.address / size)).pagesValid) (hlt : page < size) :
    Yields ok (s.media.flash.write (log.address + page) payload) fun g =>
      Inv limit ({ s with media := { s.media with flash := g } }.setPage la log (some page))
          (Function.update latest la (some payload)) ∧
        g.stateAt = Function.update s.media.flash.stateAt (log.address + page) .valid ∧
        ∀ b, (s.media.flash.block b).pagesValid ≤ (g.block b).pagesValid := by
  have hsound := h.log _ log hlog
  have hdiv : (log.address + page) / size = log.address / size := Flash.page_div hsound.aligned hlt
  -- the first page behind those that were written
  have hempty : s.media.flash.stateAt (log.address + page) = .empty := by
    rw [Flash.stateAt_page _ hsound.aligned hlt]
    exact hsound.unused page hpage.ge hlt
  refine (Written.of_write hsize h.pool.sound hempty).mono fun g hg => ?_
  have hcounted := hg.counted
  have hother := hg.other
  rw [hdiv] at hcounted hother
  let t : Bast size π := { s with media := { s.media with flash := g } }
  have hlog' : t.logMap.lookup (logicalBlock size la) = some log := hlog
  have hown : (t.setPage la log (some page)).own = s.own := own_setPage hlog'
  refine ⟨⟨?_, ?_, h.data, fun b log' hlook => ?_, fun la' a ha => ?_, fun la' p hp hnone => ?_, ?_⟩,
    hg.state, fun b => ?_⟩
  · rw [hown]
    refine h.pool.of_flash hg.sound fun b hb => hother b fun heq => hb ?_
    rw [heq]
    exact mem_held (own_log hlog)
  · rw [hown]
    exact h.exclusive
  · by_cases hb : b = logicalBlock size la
    · rw [hb, lookup_setPage_self] at hlook
      rw [← Option.some.inj hlook]
      exact hsound.next _ hpage hlt (hcounted.trans (congrArg (· + 1) hpage.symm)) hg.state
    · rw [lookup_setPage_of_ne hb] at hlook
      -- the log block of another logical block is another block
      have hne : log'.address / size ≠ log.address / size := by
        intro heq
        have howner := h.exclusive _ _ _ (own_log hlook) ((own_log hlog).trans (congrArg some heq.symm))
        exact hb (Owner.log.inj howner)
      exact (h.log b log' hlook).congr (hother _ hne)
  · by_cases hne : la' = la
    · rw [hne, logPage_setPage_self] at ha
      rw [hne, Function.update_self, ← Option.some.inj ha]
      exact ⟨payload, rfl, hg.holds_self⟩
    · rw [logPage_setPage_of_ne hsize hlog' hne] at ha
      rw [Function.update_of_ne hne]
      obtain ⟨p, hp, hholds⟩ := h.mapped la' a ha
      exact ⟨p, hp, hg.holds hholds⟩
  · by_cases hne : la' = la
    · rw [hne, logPage_setPage_self] at hnone
      cases hnone
    · rw [logPage_setPage_of_ne hsize hlog' hne] at hnone
      rw [Function.update_of_ne hne] at hp
      obtain ⟨a, ha, hholds⟩ := h.stored la' p hp hnone
      exact ⟨a, ha, hg.holds hholds⟩
  · rw [length_keys_setPage hlog']
    exact h.limit
  · by_cases hb : b = log.address / size
    · rw [hb, hcounted]
      exact Nat.le_succ _
    · rw [hother b hb]

theorem Inv.issueWrite {ok : Halt → Prop} (hsize : 0 < size) (h : Inv limit s latest)
    (hlog : s.logMap.lookup (logicalBlock size la) = some log) {page : ℕ}
    (hpage : page = (s.media.flash.block (log.address / size)).pagesValid) (hlt : page < size)
    {replace : Option ℕ}
    (hreplace : ∀ x, replace = some x → ∃ j, log.pages (la % size) = some j ∧ x = log.address + j) :
    Yields ok (s.issueWrite la payload log page replace) fun s' =>
      Inv limit s' (Function.update latest la (some payload)) := by
  refine (h.program hsize hlog hpage hlt).bind fun g hg => ?_
  obtain ⟨hinv, -, hvalid⟩ := hg
  have hmapped : ({ s with media := { s.media with flash := g } }.setPage la log
      (some page)).logPage la = some (log.address + page) := logPage_setPage_self
  -- the page that is replaced is in the data block, or the one the old entry named; both are dead now
  have hdead : ∀ x, s.replaceAddress la replace = some x →
      Dead ({ s with media := { s.media with flash := g } }.setPage la log (some page))
        (Function.update latest la (some payload)) x := by
    intro x hx
    have hold : replace = some x → Dead ({ s with media := { s.media with flash := g } }.setPage la log
        (some page)) (Function.update latest la (some payload)) x := by
      intro heq
      obtain ⟨j, hj, rfl⟩ := hreplace x heq
      have hused := (h.log _ log hlog).used _ j hj
      have hne : some page ≠ some j := fun heq => by
        rw [Option.some.inj heq] at hpage
        omega
      have hdead := hinv.dead_log (j := j) hsize lookup_setPage_self (hused.trans_le (hvalid _))
        ((h.log _ log hlog).pages_set_ne hj hne)
      exact hdead
    rw [replaceAddress] at hx
    cases hd : s.dataList (logicalBlock size la) with
    | none =>
      rw [hd] at hx
      exact hold hx
    | some d =>
      rw [hd] at hx
      dsimp only at hx
      split_ifs at hx
      · rw [← Option.some.inj hx]
        exact hinv.dead_data hsize hd fun hnone => by
          rw [hmapped] at hnone
          cases hnone
      · exact hold hx
  cases hx : s.replaceAddress la replace with
  | none => exact hinv
  | some x => exact hinv.invalidate hsize (hdead x hx)

end Program

end Bast

end ZnsFlash
