import ZnsFlash.Ssd.Counters
import ZnsFlash.Ssd.FastMerges
import ZnsFlash.Ssd.FastTrim

/-!
# The blocks that FAST holds

* **`Fast.Housed`**: each block in the maps has one place there, and the others are in the pool; nothing
  is said about the pages;
* `Housed.setData`, `Housed.appendLog`, `Housed.dropVictim`, `Housed.newSequential`: the changes of the
  maps;
* `mergeSequential_housed`, `switchSequential_housed`: the SW block is given up.
-/

namespace ZnsFlash

open Holdings

variable {size : ℕ} {π : Type} {ok : Halt → Prop}

namespace Fast

/-- **The maps and the pool.** The blocks that the maps refer to are different and not free, their
addresses are those of first pages, and each page in the RW log has a data block. -/
structure Housed (s : Fast size π) : Prop where
  exclusive : Exclusive s.own
  pool : Pool s.media (held s.own)
  data : ∀ b a, s.dataList b = some a → a = a / size * size
  sequential : ∀ b, s.sequentialLogicalblockAddress = some b →
    s.sequentialAddress = s.sequentialAddress / size * size
  log : ∀ log ∈ s.logPages, log.address = log.address / size * size ∧ log.numPages ≤ size
  placed : ∀ log ∈ s.logPages, ∀ i la, log.aPages i = some la → ∃ a,
    s.dataList (logicalBlock size la) = some a

variable {s t : Fast size π} {cfg : FastConfig} {m : Media size π} {b address : ℕ}

theorem own_congr (hdata : t.dataList = s.dataList)
    (hsequential : t.sequentialAddress = s.sequentialAddress)
    (howner : t.sequentialLogicalblockAddress = s.sequentialLogicalblockAddress)
    (hlogs : t.logPages.map FastLog.address = s.logPages.map FastLog.address) : t.own = s.own := by
  funext o
  cases o with
  | data b => rw [own, own, hdata]
  | sequential => rw [own, own, hsequential, howner]
  | log k =>
    have hget := congrArg (fun l => l[k]?) hlogs
    simp only [List.getElem?_map] at hget
    have hblock := congrArg (Option.map (· / size)) hget
    rw [Option.map_map, Option.map_map] at hblock
    exact hblock

theorem own_mem_log {log : FastLog} (h : log ∈ s.logPages) :
    ∃ k, s.own (.log k) = some (log.address / size) := by
  obtain ⟨k, hk⟩ := List.getElem?_of_mem h
  exact ⟨k, own_log hk⟩

theorem Housed.of_media (h : Housed s) (hpool : Pool m (held s.own)) :
    Housed { s with media := m } := ⟨h.exclusive, hpool, h.data, h.sequential, h.log, h.placed⟩

theorem Housed.setData (h : Housed s) (haligned : address = address / size * size)
    (hnew : address / size ∉ held (Function.update s.own (.data b) none))
    (hpool : Pool m (insert (address / size) (held s.own \ {c | s.own (.data b) = some c}))) :
    Housed { s with media := m, dataList := Function.update s.dataList b (some address) } := by
  have hown : ({ s with media := m, dataList := Function.update s.dataList b (some address) } :
      Fast size π).own = Function.update s.own (.data b) (some (address / size)) := own_setData s b address
  have hself : Function.update s.dataList b (some address) b = some address :=
    Function.update_self _ _ _
  have hother : ∀ b' ≠ b, Function.update s.dataList b (some address) b' = s.dataList b' :=
    fun b' hb => Function.update_of_ne hb _ _
  refine ⟨?_, ?_, fun b' a ha => ?_, h.sequential, h.log, fun log hlog i la hpage => ?_⟩
  · rw [hown]
    exact h.exclusive.exchange hnew
  · rw [hown, held_exchange h.exclusive]
    exact hpool
  · by_cases hb : b' = b
    · rw [hb] at ha
      rw [← Option.some.inj (hself.symm.trans ha)]
      exact haligned
    · exact h.data b' a ((hother b' hb).symm.trans ha)
  · by_cases hb : logicalBlock size la = b
    · exact ⟨address, by rw [hb]; exact hself⟩
    · obtain ⟨a, ha⟩ := h.placed log hlog i la hpage
      exact ⟨a, (hother _ hb).trans ha⟩

theorem Housed.appendLog (h : Housed s) (halloc : Allocated s.media (held s.own) address m) :
    Housed { s with media := m, logPages := s.logPages ++ [.new address] } := by
  have hown : ({ s with media := m, logPages := s.logPages ++ [.new address] } : Fast size π).own =
      Function.update s.own (.log s.logPages.length) (some (address / size)) := own_appendLog s address
  have hnone : s.own (.log s.logPages.length) = none := by
    rw [own, List.getElem?_eq_none le_rfl, Option.map_none]
  refine ⟨?_, ?_, h.data, h.sequential, fun log hlog => ?_, fun log hlog i la hpage => ?_⟩
  · rw [hown]
    exact h.exclusive.claim halloc.new
  · rw [hown, held_claim hnone]
    exact halloc.pool
  · rcases List.mem_append.mp hlog with hlog | hlog
    · exact h.log log hlog
    · rw [List.mem_singleton.mp hlog]
      exact ⟨halloc.aligned, Nat.zero_le size⟩
  · rcases List.mem_append.mp hlog with hlog | hlog
    · exact h.placed log hlog i la hpage
    · rw [List.mem_singleton.mp hlog] at hpage
      cases hpage

theorem Housed.dropVictim (h : Housed s) {victim : FastLog} {rest : List FastLog}
    (hlogs : s.logPages = victim :: rest)
    (hpool : Pool m (held s.own \ {victim.address / size})) :
    Housed { s with media := m, logPages := rest, logPageNext := s.logPageNext - size } := by
  have hown : ({ s with media := m, logPages := rest, logPageNext := s.logPageNext - size } :
      Fast size π).own = s.own ∘ FastOwner.later := own_dropVictim hlogs
  have hhead : s.logPages[0]? = some victim := by rw [hlogs, List.getElem?_cons_zero]
  have hrest : ∀ log ∈ rest, log ∈ s.logPages := fun log hlog => hlogs ▸ List.mem_cons_of_mem _ hlog
  refine ⟨?_, ?_, h.data, h.sequential, fun log hlog => h.log log (hrest log hlog),
    fun log hlog => h.placed log (hrest log hlog)⟩
  · rw [hown]
    exact h.exclusive.comp FastOwner.later_injective
  · rw [hown, held_comp h.exclusive FastOwner.later_ne fun _ => FastOwner.exists_later,
      holding_of_some (own_log hhead)]
    exact hpool

theorem Housed.unowned (h : Housed s) (hpool : Pool m (held s.own \ {c | s.own .sequential = some c})) :
    Housed { s with media := m, sequentialLogicalblockAddress := none } := by
  have hown : ({ s with media := m, sequentialLogicalblockAddress := none } : Fast size π).own =
      Function.update s.own .sequential none := own_dropSequential s
  refine ⟨?_, ?_, h.data, nofun, h.log, h.placed⟩
  · rw [hown]
    exact h.exclusive.release
  · rw [hown, held_release h.exclusive]
    exact hpool

/-- The state in which only the SW block has been given back. -/
def withoutSw (s : Fast size π) : Fast size π :=
  { s with
    media := s.media.invalidateBlock s.sequentialAddress .data
    sequentialLogicalblockAddress := none }

theorem Housed.withoutSw (h : Housed s) (hb : s.sequentialLogicalblockAddress = some b) :
    Housed s.withoutSw ∧ s.withoutSw.own = Function.update s.own .sequential none ∧
      held s.withoutSw.own = held s.own \ {c | s.own .sequential = some c} := by
  have hown : s.withoutSw.own = Function.update s.own .sequential none := own_dropSequential s
  have hseq : s.own .sequential = some (s.sequentialAddress / size) := own_sequential hb
  refine ⟨h.unowned ?_, hown, ?_⟩
  · rw [holding_of_some hseq]
    exact (invalidateBlock_spec .data h.pool (mem_held hseq)).1
  · rw [hown, held_release h.exclusive]

/-- **A new data block takes the place of the SW block** and of the data block before it. -/
theorem Housed.replaceSequential (h : Housed s) (hb : s.sequentialLogicalblockAddress = some b)
    (haligned : address = address / size * size)
    (hnew : address / size ∉ held (Function.update (Function.update s.own .sequential none) (.data b) none))
    (hpool : Pool m (insert (address / size)
      ((held s.own \ {c | s.own .sequential = some c}) \ {c | s.own (.data b) = some c}))) :
    Housed ({ s with media := m, dataList := Function.update s.dataList b (some address) } :
      Fast size π).unowned := by
  obtain ⟨hhoused, hown, hheld⟩ := h.withoutSw hb
  rw [← hown] at hnew
  rw [← hheld] at hpool
  exact hhoused.setData haligned hnew hpool

theorem Housed.newSequential (h : Housed s.unowned) (b offset : ℕ)
    (halloc : Allocated s.media (held s.unowned.own) address m) :
    Housed { s with
      media := m
      sequentialOffset := offset
      sequentialAddress := address
      sequentialLogicalblockAddress := some b } := by
  have hown : ({ s with
      media := m
      sequentialOffset := offset
      sequentialAddress := address
      sequentialLogicalblockAddress := some b } : Fast size π).own =
      Function.update s.unowned.own .sequential (some (address / size)) :=
    own_newSequential s.unowned b address
  refine ⟨?_, ?_, h.data, fun _ _ => halloc.aligned, h.log, h.placed⟩
  · rw [hown]
    exact h.exclusive.claim halloc.new
  · have hnone : s.unowned.own .sequential = none := rfl
    rw [hown, held_claim hnone]
    exact halloc.pool

/-! ## The sequential log block -/

theorem write_frame (hsize : 0 < size) (hnot : ok .notEmpty) {f : Flash size π} (hsound : f.Sound)
    (a : ℕ) (payload : π) :
    Yields ok (f.write a payload) fun g => g.Sound ∧ ∀ c ≠ a / size, g.block c = f.block c := by
  by_cases hempty : f.stateAt a = .empty
  · exact (Written.of_write hsize hsound hempty).mono fun g hg => ⟨hg.sound, hg.other⟩
  · rw [Flash.write, if_neg hempty]
    exact hnot

theorem copyPages_frame (hsize : 0 < size) (hnot : ok .notEmpty)
    (source : Flash size π → ℕ → Option ℕ) {f₀ : Flash size π} (hsound : f₀.Sound)
    (haligned : address = address / size * size) :
    Yields ok ((List.range size).foldlM (copyPage source address) f₀) fun f =>
      f.Sound ∧ ∀ c ≠ address / size, f.block c = f₀.block c := by
  refine Yields.foldlM_range (fun _ (f : Flash size π) => f.Sound ∧
    ∀ c ≠ address / size, f.block c = f₀.block c) ⟨hsound, fun _ _ => rfl⟩ ?_
  rintro k f hk ⟨hf, hframe⟩
  rw [copyPage]
  cases source f k with
  | none => exact ⟨hf, hframe⟩
  | some a =>
    refine (write_frame hsize hnot hf _ _).mono ?_
    rintro g ⟨hg, hother⟩
    rw [Flash.page_div haligned hk] at hother
    exact ⟨hg, fun c hc => (hother c hc).trans (hframe c hc)⟩

/-- **A merge of the SW block** gives it up for a new data block. -/
theorem mergeSequential_housed (hsize : 0 < size) (hworn : ok .worn) (hnone : ok .noFreeBlock)
    (hbad : ok .badAlloc) (hnot : ok .notEmpty) (cfg : FastConfig) (h : Housed s) :
    Yields ok (s.mergeSequential cfg) fun t => Housed t.unowned := by
  rw [mergeSequential]
  cases hb : s.sequentialLogicalblockAddress with
  | none =>
    refine h.unowned ?_
    have hempty : s.own .sequential = none := by rw [own, hb, Option.map_none]
    rw [holding_of_none hempty, Set.sdiff_empty]
    exact h.pool
  | some b =>
    refine (getFreeBlock_spec hsize hworn hnone hbad cfg.toSsdConfig .data h.pool).bind fun r hr => ?_
    obtain ⟨address, m₁⟩ := r
    obtain ⟨haligned, hnew, -, hpool₁, -⟩ := hr
    dsimp only at haligned hnew hpool₁
    refine (collect_spec hworn cfg hpool₁).bind fun m₂ hm₂ => ?_
    refine (copyPages_frame hsize hnot _ hm₂.1.sound haligned).bind fun f hf => ?_
    have hpool₃ : Pool (⟨f, m₂.bm⟩ : Media size π) (insert (address / size) (held s.own)) :=
      hm₂.1.of_flash hf.1 fun c hc => hf.2 c fun heq => hc (Or.inl heq)
    obtain ⟨hpool₅, -⟩ := invalidateSequential_spec h.exclusive hb hnew hpool₃
    refine h.replaceSequential hb haligned ?_ hpool₅
    rw [held_release h.exclusive.release, held_release h.exclusive]
    exact fun hmem => hnew hmem.1.1

theorem switchSequential_housed (hwild : ok .wildAccess) (h : Housed s) :
    Yields ok s.switchSequential fun t => Housed t.unowned := by
  rw [switchSequential]
  cases hb : s.sequentialLogicalblockAddress with
  | none => exact hwild
  | some b =>
    have hown : s.own .sequential = some (s.sequentialAddress / size) := own_sequential hb
    obtain ⟨hpool, -⟩ := invalidateData_spec s b h.pool fun a ha => mem_held (own_data ha)
    have hset : held s.own \ {c | s.own (.data b) = some c} = insert (s.sequentialAddress / size)
        ((held s.own \ {c | s.own .sequential = some c}) \ {c | s.own (.data b) = some c}) :=
      (h.exclusive.insert_diff hown (FastOwner.sequential_ne_data b)).symm
    rw [hset] at hpool
    refine h.replaceSequential hb (h.sequential b hb) ?_ hpool
    rw [held_release h.exclusive.release, held_release h.exclusive]
    exact fun hmem => hmem.1.2 hown

end Fast

end ZnsFlash
