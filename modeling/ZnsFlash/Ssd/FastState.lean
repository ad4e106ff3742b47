import ZnsFlash.Library.Holdings
import ZnsFlash.Ssd.Fast

/-!
# The state of FAST between its steps

* `FastOwner`, `Fast.own`: who holds which block;
* `Appended`, `Clean`: blocks that are written in order, and data blocks;
* **`Fast.Core`**: where the latest versions are; `Core.read`: reads find them;
* `Core.setData`, `Core.dropSequential`, `Core.newSequential`, `Core.appendLog`, `Core.dropVictim`: the
  changes of the maps.
-/

namespace ZnsFlash

open Holdings

/-- The data block of a logical block, the SW block, or a block of the RW log. -/
inductive FastOwner
  | data (lba : ℕ)
  | sequential
  | log (k : ℕ)
  deriving DecidableEq

theorem FastOwner.sequential_ne_data (b : ℕ) : FastOwner.sequential ≠ .data b := by
  intro h
  cases h

/-- The old name of an owner when the first block of the log is gone. -/
def FastOwner.later : FastOwner → FastOwner
  | .data b => .data b
  | .sequential => .sequential
  | .log k => .log (k + 1)

theorem FastOwner.later_injective : Function.Injective FastOwner.later := by
  intro o o' h
  cases o <;> cases o' <;> simp_all [later]

theorem FastOwner.later_ne (o : FastOwner) : o.later ≠ .log 0 := by
  cases o <;> simp [later]

theorem FastOwner.exists_later {o : FastOwner} (h : o ≠ .log 0) : ∃ o' : FastOwner, o'.later = o := by
  cases o with
  | data b => exact ⟨.data b, rfl⟩
  | sequential => exact ⟨.sequential, rfl⟩
  | log k =>
    cases k with
    | zero => exact absurd rfl h
    | succ k => exact ⟨.log k, rfl⟩

/-- A block whose pages are written in order, `count` of them so far. -/
structure Appended {size : ℕ} {π : Type} (f : Flash size π) (address count : ℕ) : Prop where
  aligned : address = address / size * size
  full : count ≤ size
  counted : (f.block (address / size)).pagesValid = count
  used : ∀ i < count, f.stateAt (address + i) = .valid
  unused : ∀ i, count ≤ i → i < size → f.stateAt (address + i) = .empty

/-- A block without invalid pages. -/
structure Clean {size : ℕ} {π : Type} (f : Flash size π) (address : ℕ) : Prop where
  aligned : address = address / size * size
  clean : ∀ i < size, f.stateAt (address + i) ≠ .invalid

section Blocks

variable {size : ℕ} {π : Type} {f g : Flash size π} {address count : ℕ}

theorem stateAt_page_congr (haligned : address = address / size * size)
    (hb : g.block (address / size) = f.block (address / size)) {i : ℕ} (hi : i < size) :
    g.stateAt (address + i) = f.stateAt (address + i) := by
  rw [Flash.stateAt_page g haligned hi, Flash.stateAt_page f haligned hi, hb]

theorem Appended.congr (h : Appended f address count)
    (hb : g.block (address / size) = f.block (address / size)) : Appended g address count := by
  have hstate := fun i (hi : i < size) => stateAt_page_congr h.aligned hb hi
  refine ⟨h.aligned, h.full, ?_, fun i hi => ?_, fun i hi hlt => ?_⟩
  · rw [hb]
    exact h.counted
  · rw [hstate i (hi.trans_le h.full)]
    exact h.used i hi
  · rw [hstate i hlt]
    exact h.unused i hi hlt

theorem Appended.of_erased (haligned : address = address / size * size)
    (h : f.Erased (address / size)) : Appended f address 0 := by
  refine ⟨haligned, Nat.zero_le _, h.unused, nofun, fun i _ hi => ?_⟩
  rw [Flash.stateAt_page f haligned hi]
  exact h.empty i

theorem Appended.next (h : Appended f address count) (hlt : count < size)
    (hcounted : (g.block (address / size)).pagesValid = count + 1)
    (hstate : g.stateAt = Function.update f.stateAt (address + count) .valid) :
    Appended g address (count + 1) := by
  refine ⟨h.aligned, hlt, hcounted, fun i hi => ?_, fun i hi hi' => ?_⟩
  · rw [hstate]
    rcases Nat.lt_succ_iff_lt_or_eq.mp hi with hi | rfl
    · have hne : address + i ≠ address + count := by omega
      rw [Function.update_of_ne hne]
      exact h.used i hi
    · exact Function.update_self _ _ _
  · have hne : address + i ≠ address + count := by omega
    rw [hstate, Function.update_of_ne hne]
    exact h.unused i (Nat.le_of_succ_le hi) hi'

theorem Clean.congr (h : Clean f address) (hb : g.block (address / size) = f.block (address / size)) :
    Clean g address := by
  refine ⟨h.aligned, fun i hi => ?_⟩
  rw [stateAt_page_congr h.aligned hb hi]
  exact h.clean i hi

theorem Appended.clean (h : Appended f address count) : Clean f address := by
  refine ⟨h.aligned, fun i hi => ?_⟩
  rcases lt_or_ge i count with hlt | hge
  · rw [h.used i hlt]
    decide
  · rw [h.unused i hge hi]
    decide

theorem Clean.next (h : Clean f address) {x : ℕ}
    (hstate : g.stateAt = Function.update f.stateAt x .valid) : Clean g address := by
  refine ⟨h.aligned, fun i hi => ?_⟩
  rw [hstate]
  by_cases hx : address + i = x
  · rw [hx, Function.update_self]
    decide
  · rw [Function.update_of_ne hx]
    exact h.clean i hi

end Blocks

namespace Fast

variable {size : ℕ} {π : Type}

/-- The blocks that the maps refer to. -/
def own (s : Fast size π) : FastOwner → Option ℕ
  | .data b => (s.dataList b).map (· / size)
  | .sequential => s.sequentialLogicalblockAddress.map fun _ => s.sequentialAddress / size
  | .log k => s.logPages[k]?.map fun log => log.address / size

/-- Page `i` of block `k` of the RW log is for a logical page. -/
structure Entry (logs : List FastLog) (k i : ℕ) (log : FastLog) (la : ℕ) : Prop where
  block : logs[k]? = some log
  lt : i < log.numPages
  page : log.aPages i = some la

/-- The page is in the SW block. -/
def InSequential (s : Fast size π) (la : ℕ) : Prop :=
  s.sequentialLogicalblockAddress = some (logicalBlock size la) ∧ la % size < s.sequentialOffset

/-- **What the maps and the flash say.** The pages of the RW log and of the SW block are the latest
versions, each page is in one of these at most, and has a place in its data block too. -/
structure Core (s : Fast size π) (latest : ℕ → Option π) : Prop where
  exclusive : Exclusive s.own
  data : ∀ b a, s.dataList b = some a → Clean s.media.flash a
  sequential : ∀ b, s.sequentialLogicalblockAddress = some b →
    Appended s.media.flash s.sequentialAddress s.sequentialOffset
  log : ∀ (k : ℕ) log, s.logPages[k]? = some log → Appended s.media.flash log.address log.numPages
  shape : ∀ (k : ℕ) log, s.logPages[k]? = some log → log.numPages = min size (s.logPageNext - k * size)
  room : s.logPageNext ≤ s.logPages.length * size
  unique : ∀ k k' i i' log log' la, Entry s.logPages k i log la → Entry s.logPages k' i' log' la →
    k = k' ∧ i = i'
  slots : ∀ (k i : ℕ) log, s.logPages[k]? = some log → i < log.numPages → ∃ la p,
    log.aPages i = some la ∧ la % size ≠ 0 ∧ latest la = some p ∧
      s.media.flash.Holds (log.address + i) p
  inSequential : ∀ la, s.InSequential la → ¬ s.Logged la ∧ ∃ p, latest la = some p ∧
    s.media.flash.Holds (s.sequentialAddress + la % size) p
  placed : ∀ la p, latest la = some p → ∃ a, s.dataList (logicalBlock size la) = some a ∧
    s.media.flash.stateAt (a + la % size) = .valid
  stored : ∀ la p a, latest la = some p → ¬ s.Logged la → ¬ s.InSequential la →
    s.dataList (logicalBlock size la) = some a → s.media.flash.pageData (a + la % size) = p

/-- **The invariant** between requests. -/
structure Inv (cfg : FastConfig) (s : Fast size π) (latest : ℕ → Option π) : Prop extends
    Core s latest where
  pool : Pool s.media (held s.own)
  length : s.logPages = [] ∨ s.logPages.length = cfg.logBlockLimit
  unowned : s.sequentialLogicalblockAddress = none → s.sequentialOffset < size

section Facts

variable {s : Fast size π} {latest : ℕ → Option π} {b la a k i : ℕ} {log : FastLog} {p : π}

theorem own_data (h : s.dataList b = some a) : s.own (.data b) = some (a / size) := by
  rw [own, h, Option.map_some]

theorem own_sequential (h : s.sequentialLogicalblockAddress = some b) :
    s.own .sequential = some (s.sequentialAddress / size) := by
  rw [own, h, Option.map_some]

theorem own_log (h : s.logPages[k]? = some log) : s.own (.log k) = some (log.address / size) := by
  rw [own, h, Option.map_some]

theorem logged_iff : s.Logged la ↔ ∃ k i log, Entry s.logPages k i log la := by
  constructor
  · rintro ⟨log, hlog, i, hi, hpage⟩
    obtain ⟨k, hk⟩ := List.getElem?_of_mem hlog
    exact ⟨k, i, log, hk, hi, hpage⟩
  · rintro ⟨k, i, log, hk, hi, hpage⟩
    exact ⟨log, List.mem_of_getElem? hk, i, hi, hpage⟩

theorem Core.entry (h : Core s latest) (he : Entry s.logPages k i log la) :
    la % size ≠ 0 ∧ ∃ p, latest la = some p ∧ s.media.flash.Holds (log.address + i) p := by
  obtain ⟨la', p, hpage, hoffset, hp, hholds⟩ := h.slots k i log he.block he.lt
  rw [he.page] at hpage
  obtain rfl := Option.some.inj hpage
  exact ⟨hoffset, p, hp, hholds⟩

theorem exists_of_findPage {logs : List FastLog} (h : findPage la logs = some a) :
    ∃ k i log, Entry logs k i log la ∧ a = log.address + i := by
  obtain ⟨log, hlog, hfind⟩ := List.exists_of_findSome?_eq_some h
  obtain ⟨i, hi, rfl⟩ := Option.map_eq_some_iff.mp hfind
  obtain ⟨k, hk⟩ := List.getElem?_of_mem hlog
  have hpage := List.find?_some hi
  exact ⟨k, i, log, ⟨hk, List.mem_range.mp (List.mem_of_find?_eq_some hi), of_decide_eq_true hpage⟩,
    rfl⟩

theorem not_logged_of_findPage (h : findPage la s.logPages = none) : ¬ s.Logged la := by
  rintro ⟨log, hlog, i, hi, hpage⟩
  have hnone := Option.map_eq_none_iff.mp (List.findSome?_eq_none_iff.mp h log hlog)
  exact List.find?_eq_none.mp hnone i (List.mem_range.mpr hi) (decide_eq_true hpage)

theorem Core.read (h : Core s latest) (hp : latest la = some p) :
    s.media.flash.Holds (s.readAddress la) p := by
  rw [readAddress]
  cases hfind : findPage la s.logPages with
  | some a =>
    obtain ⟨k, i, log, he, rfl⟩ := exists_of_findPage hfind
    obtain ⟨-, q, hq, hholds⟩ := h.entry he
    rw [hp] at hq
    rwa [← Option.some.inj hq] at hholds
  | none =>
    dsimp only
    split_ifs with hin
    · obtain ⟨-, q, hq, hholds⟩ := h.inSequential la hin
      rw [hp] at hq
      rwa [← Option.some.inj hq] at hholds
    · obtain ⟨a, ha, hvalid⟩ := h.placed la p hp
      rw [ha]
      exact ⟨hvalid, h.stored la p a hp (not_logged_of_findPage hfind) hin ha⟩

theorem Core.of_flash (hsize : 0 < size) (h : Core s latest) {m : Media size π}
    (hblock : ∀ c ∈ held s.own, m.flash.block c = s.media.flash.block c)
    (hdata : ∀ x, x / size ∈ held s.own → m.flash.pageData x = s.media.flash.pageData x) :
    Core { s with media := m } latest := by
  have hsame : ∀ o c, s.own o = some c → m.flash.block c = s.media.flash.block c := fun o c ho =>
    hblock c (mem_held ho)
  have hholds : ∀ o x p, s.own o = some (x / size) → s.media.flash.Holds x p → m.flash.Holds x p :=
    fun o x p ho hold => hold.congr (hsame o _ ho) (hdata x (mem_held ho))
  have hpage : ∀ b a la, s.dataList b = some a → s.own (.data b) = some ((a + la % size) / size) := by
    intro b a la ha
    rw [Flash.page_div (h.data b a ha).aligned (Nat.mod_lt la hsize)]
    exact own_data ha
  refine ⟨h.exclusive, fun b a ha => (h.data b a ha).congr (hsame _ _ (own_data ha)),
    fun b hb => (h.sequential b hb).congr (hsame _ _ (own_sequential hb)),
    fun k log hk => (h.log k log hk).congr (hsame _ _ (own_log hk)), h.shape, h.room, h.unique,
    fun k i log hk hi => ?_, fun la hla => ?_, fun la p hp => ?_, fun la p a hp hlogged hout ha => ?_⟩
  · obtain ⟨la, p, hpage, hoffset, hp, hold⟩ := h.slots k i log hk hi
    refine ⟨la, p, hpage, hoffset, hp, hholds (.log k) _ p ?_ hold⟩
    have happ := h.log k log hk
    rw [Flash.page_div happ.aligned (hi.trans_le happ.full)]
    exact own_log hk
  · obtain ⟨hlogged, p, hp, hold⟩ := h.inSequential la hla
    refine ⟨hlogged, p, hp, hholds .sequential _ p ?_ hold⟩
    rw [Flash.page_div (h.sequential _ hla.1).aligned (Nat.mod_lt la hsize)]
    exact own_sequential hla.1
  · obtain ⟨a, ha, hvalid⟩ := h.placed la p hp
    refine ⟨a, ha, ?_⟩
    rw [← hvalid]
    exact Flash.stateAt_congr (hsame _ _ (hpage _ a la ha))
  · exact (hdata _ (mem_held (hpage _ a la ha))).trans (h.stored la p a hp hlogged hout ha)

theorem Core.of_keeps (hsize : 0 < size) (h : Core s latest) {m : Media size π}
    (hkeeps : Keeps s.media m (held s.own)) : Core { s with media := m } latest :=
  h.of_flash hsize hkeeps.block fun x _ => congrFun hkeeps.pageData x

end Facts

/-! ## Changing the maps -/

section Maps

variable {s : Fast size π} {latest : ℕ → Option π} {b address : ℕ}

instance (s : Fast size π) (la : ℕ) : Decidable (s.InSequential la) :=
  inferInstanceAs (Decidable (_ ∧ _))

theorem own_setData (s : Fast size π) (b address : ℕ) :
    ({ s with dataList := Function.update s.dataList b (some address) } : Fast size π).own =
      Function.update s.own (.data b) (some (address / size)) := by
  funext o
  cases o with
  | data b' =>
    by_cases hb : b' = b
    · rw [hb, Function.update_self]
      exact own_data (Function.update_self _ _ _)
    · have hne : FastOwner.data b' ≠ .data b := fun heq => hb (FastOwner.data.inj heq)
      rw [Function.update_of_ne hne]
      exact congrArg (Option.map (· / size)) (Function.update_of_ne hb _ _)
  | sequential => rfl
  | log k => rfl

/-- **A new data block** for a logical block, with what the old one and dropped blocks had. -/
theorem Core.setData {latest₀ : ℕ → Option π} (h : Core s latest₀)
    (hext : ∀ la p, latest₀ la = some p → latest la = some p)
    (hrest : ∀ la, logicalBlock size la ≠ b → latest la = latest₀ la)
    (hclean : Clean s.media.flash address)
    (hnew : address / size ∉ held (Function.update s.own (.data b) none))
    (hplaced : ∀ la p, logicalBlock size la = b → latest la = some p →
      s.media.flash.stateAt (address + la % size) = .valid)
    (hstored : ∀ la p, logicalBlock size la = b → latest la = some p → ¬ s.Logged la →
      ¬ s.InSequential la → s.media.flash.pageData (address + la % size) = p) :
    Core { s with dataList := Function.update s.dataList b (some address) } latest := by
  have hself : Function.update s.dataList b (some address) b = some address :=
    Function.update_self _ _ _
  have hother : ∀ b' ≠ b, Function.update s.dataList b (some address) b' = s.dataList b' :=
    fun b' hb => Function.update_of_ne hb _ _
  refine ⟨?_, fun b' a ha => ?_, h.sequential, h.log, h.shape, h.room, h.unique,
    fun k i log hk hi => ?_, fun la hla => ?_, fun la p hp => ?_, fun la p a hp hlogged hout ha => ?_⟩
  · rw [own_setData]
    exact h.exclusive.exchange hnew
  · by_cases hb : b' = b
    · rw [hb] at ha
      rw [← Option.some.inj (hself.symm.trans ha)]
      exact hclean
    · exact h.data b' a ((hother b' hb).symm.trans ha)
  · obtain ⟨la, p, hpage, hoffset, hp, hholds⟩ := h.slots k i log hk hi
    exact ⟨la, p, hpage, hoffset, hext la p hp, hholds⟩
  · obtain ⟨hlogged, p, hp, hholds⟩ := h.inSequential la hla
    exact ⟨hlogged, p, hext la p hp, hholds⟩
  · by_cases hb : logicalBlock size la = b
    · exact ⟨address, by rw [hb]; exact hself, hplaced la p hb hp⟩
    · obtain ⟨a, ha, hvalid⟩ := h.placed la p ((hrest la hb).symm.trans hp)
      exact ⟨a, (hother _ hb).trans ha, hvalid⟩
  · by_cases hb : logicalBlock size la = b
    · rw [hb] at ha
      rw [← Option.some.inj (hself.symm.trans ha)]
      exact hstored la p hb hp hlogged hout
    · exact h.stored la p a ((hrest la hb).symm.trans hp) hlogged hout ((hother _ hb).symm.trans ha)

/-- What is known without the SW block. -/
def withoutSequential (s : Fast size π) (latest : ℕ → Option π) (la : ℕ) : Option π :=
  if s.InSequential la then none else latest la

theorem eq_of_withoutSequential {la : ℕ} {p : π} (h : s.withoutSequential latest la = some p) :
    latest la = some p ∧ ¬ s.InSequential la := by
  rw [withoutSequential] at h
  split_ifs at h with hin
  exact ⟨h, hin⟩

theorem own_dropSequential (s : Fast size π) :
    ({ s with sequentialLogicalblockAddress := none } : Fast size π).own =
      Function.update s.own .sequential none := by
  funext o
  cases o with
  | data b => rfl
  | sequential => rw [Function.update_self]; rfl
  | log k => rfl

theorem Core.dropSequential (h : Core s latest) :
    Core { s with sequentialLogicalblockAddress := none } (s.withoutSequential latest) := by
  refine ⟨?_, h.data, nofun, h.log, h.shape, h.room, h.unique, fun k i log hk hi => ?_,
    fun la hla => ?_, fun la p hp => ?_, fun la p a hp hlogged _ ha => ?_⟩
  · rw [own_dropSequential]
    exact h.exclusive.release
  · obtain ⟨la, p, hpage, hoffset, hp, hholds⟩ := h.slots k i log hk hi
    refine ⟨la, p, hpage, hoffset, ?_, hholds⟩
    have hlogged : s.Logged la := logged_iff.mpr ⟨k, i, log, hk, hi, hpage⟩
    rw [withoutSequential, if_neg fun hin => (h.inSequential la hin).1 hlogged]
    exact hp
  · cases hla.1
  · exact h.placed la p (eq_of_withoutSequential hp).1
  · obtain ⟨hp, hout⟩ := eq_of_withoutSequential hp
    exact h.stored la p a hp hlogged hout ha

theorem own_newSequential (s : Fast size π) (b address : ℕ) :
    ({ s with
      sequentialOffset := 0
      sequentialAddress := address
      sequentialLogicalblockAddress := some b } : Fast size π).own =
      Function.update s.own .sequential (some (address / size)) := by
  funext o
  cases o with
  | data b => rfl
  | sequential => rw [Function.update_self]; rfl
  | log k => rfl

theorem Core.newSequential (h : Core s latest) (hnone : s.sequentialLogicalblockAddress = none)
    (haligned : address = address / size * size) (herased : s.media.flash.Erased (address / size))
    (hnew : address / size ∉ held s.own) :
    Core { s with
      sequentialOffset := 0
      sequentialAddress := address
      sequentialLogicalblockAddress := some b } latest := by
  have hout : ∀ la, ¬ s.InSequential la := by
    rintro la ⟨hla, -⟩
    rw [hnone] at hla
    cases hla
  refine ⟨?_, h.data, fun _ _ => .of_erased haligned herased, h.log, h.shape, h.room, h.unique,
    h.slots, fun la hla => absurd hla.2 (Nat.not_lt_zero _), h.placed,
    fun la p a hp hlogged _ ha => h.stored la p a hp hlogged (hout la) ha⟩
  rw [own_newSequential]
  exact h.exclusive.claim hnew

theorem getElem?_appendLog {logs : List FastLog} {k : ℕ} {log : FastLog}
    (h : (logs ++ [FastLog.new address])[k]? = some log) :
    logs[k]? = some log ∨ k = logs.length ∧ log = .new address := by
  rcases lt_trichotomy k logs.length with hlt | rfl | hgt
  · exact Or.inl ((List.getElem?_append_left hlt).symm.trans h)
  · rw [List.getElem?_concat_length] at h
    exact Or.inr ⟨rfl, (Option.some.inj h).symm⟩
  · rw [List.getElem?_append_right hgt.le, List.getElem?_singleton,
      if_neg (Nat.sub_ne_zero_of_lt hgt)] at h
    cases h

theorem own_appendLog (s : Fast size π) (address : ℕ) :
    ({ s with logPages := s.logPages ++ [.new address] } : Fast size π).own =
      Function.update s.own (.log s.logPages.length) (some (address / size)) := by
  funext o
  cases o with
  | data b => rfl
  | sequential => rfl
  | log k =>
    by_cases hk : k = s.logPages.length
    · rw [hk, Function.update_self, own, List.getElem?_concat_length]
      rfl
    · have hne : FastOwner.log k ≠ .log s.logPages.length := fun heq => hk (FastOwner.log.inj heq)
      rw [Function.update_of_ne hne, own, own]
      congr 1
      cases hnew : (s.logPages ++ [FastLog.new address])[k]? with
      | none =>
        have hge := List.getElem?_eq_none_iff.mp hnew
        rw [List.length_append] at hge
        exact (List.getElem?_eq_none (Nat.le_of_add_right_le hge)).symm
      | some log => exact ((getElem?_appendLog hnew).resolve_right fun hlast => hk hlast.1).symm

theorem Core.appendLog (h : Core s latest) (haligned : address = address / size * size)
    (herased : s.media.flash.Erased (address / size)) (hnew : address / size ∉ held s.own) :
    Core { s with logPages := s.logPages ++ [.new address] } latest := by
  have hentry : ∀ k i log la, Entry (s.logPages ++ [.new address]) k i log la →
      Entry s.logPages k i log la := by
    rintro k i log la ⟨hk, hi, hpage⟩
    rcases getElem?_appendLog hk with hold | ⟨-, rfl⟩
    · exact ⟨hold, hi, hpage⟩
    · exact absurd hi (Nat.not_lt_zero i)
  have hlogged : ∀ la, ({ s with logPages := s.logPages ++ [.new address] } : Fast size π).Logged la →
      s.Logged la := by
    intro la hla
    obtain ⟨k, i, log, he⟩ := logged_iff.mp hla
    exact logged_iff.mpr ⟨k, i, log, hentry k i log la he⟩
  have hlogged' : ∀ la, s.Logged la →
      ({ s with logPages := s.logPages ++ [.new address] } : Fast size π).Logged la := by
    rintro la ⟨log, hlog, hrest⟩
    exact ⟨log, List.mem_append_left _ hlog, hrest⟩
  refine ⟨?_, h.data, h.sequential, fun k log hk => ?_, fun k log hk => ?_, ?_,
    fun k k' i i' log log' la he he' => h.unique k k' i i' log log' la (hentry _ _ _ _ he)
      (hentry _ _ _ _ he'), fun k i log hk hi => ?_, fun la hla => ?_, h.placed,
    fun la p a hp hnot hout ha => h.stored la p a hp (fun hla => hnot (hlogged' la hla)) hout ha⟩
  · rw [own_appendLog]
    exact h.exclusive.claim hnew
  · rcases getElem?_appendLog hk with hold | ⟨-, rfl⟩
    · exact h.log k log hold
    · exact .of_erased haligned herased
  · rcases getElem?_appendLog hk with hold | ⟨rfl, rfl⟩
    · exact h.shape k log hold
    · have hzero : s.logPageNext - s.logPages.length * size = 0 := Nat.sub_eq_zero_of_le h.room
      rw [hzero, Nat.min_zero]
      rfl
  · refine h.room.trans (Nat.mul_le_mul_right size ?_)
    rw [List.length_append]
    exact Nat.le_add_right _ _
  · rcases getElem?_appendLog hk with hold | ⟨-, rfl⟩
    · exact h.slots k i log hold hi
    · exact absurd hi (Nat.not_lt_zero i)
  · obtain ⟨hnot, hp⟩ := h.inSequential la hla
    exact ⟨fun hla => hnot (hlogged la hla), hp⟩

theorem own_dropVictim {victim : FastLog} {rest : List FastLog} (hlogs : s.logPages = victim :: rest) :
    ({ s with logPages := rest, logPageNext := s.logPageNext - size } : Fast size π).own =
      s.own ∘ FastOwner.later := by
  funext o
  cases o with
  | data b => rfl
  | sequential => rfl
  | log k =>
    have hget : rest[k]? = s.logPages[k + 1]? := by rw [hlogs, List.getElem?_cons_succ]
    exact congrArg (Option.map _) hget

/-- **The oldest RW log block is given up** when its pages are in the data blocks, but for the page in
slot 0. -/
theorem Core.dropVictim (hsize : 0 < size) (h : Core s latest) {victim : FastLog} {rest : List FastLog}
    {q : ℕ} (hlogs : s.logPages = victim :: rest)
    (hfull : s.logPageNext = s.logPages.length * size) (hzero : victim.aPages 0 = some q)
    (hmerged : ∀ i la p a, i ≠ 0 → Entry s.logPages 0 i victim la → latest la = some p →
      s.dataList (logicalBlock size la) = some a → s.media.flash.pageData (a + la % size) = p) :
    Core { s with logPages := rest, logPageNext := s.logPageNext - size }
      (Function.update latest q none) := by
  have hget : ∀ k, rest[k]? = s.logPages[k + 1]? := fun k => by rw [hlogs, List.getElem?_cons_succ]
  have hhead : s.logPages[0]? = some victim := by rw [hlogs, List.getElem?_cons_zero]
  have hentry : ∀ k i log la, Entry rest k i log la → Entry s.logPages (k + 1) i log la :=
    fun k i log la he => ⟨(hget k).symm.trans he.block, he.lt, he.page⟩
  have hlength : s.logPages.length = rest.length + 1 := by rw [hlogs, List.length_cons]
  -- the log is full, so the oldest block has an entry in every slot
  have hpages : victim.numPages = size := by
    rw [h.shape 0 victim hhead, hfull, hlength, Nat.zero_mul, Nat.sub_zero]
    exact Nat.min_eq_left (Nat.le_mul_of_pos_left size (Nat.succ_pos _))
  have hq : Entry s.logPages 0 0 victim q := ⟨hhead, hpages.symm ▸ hsize, hzero⟩
  -- each page has one entry, so slot 0 of the victim holds the only one of `q`
  have hne : ∀ k i log la, Entry rest k i log la → la ≠ q := by
    rintro k i log la he rfl
    have hsame := (h.unique _ _ _ _ _ _ _ (hentry k i log la he) hq).1
    omega
  have hlogged : ∀ la, ({ s with logPages := rest, logPageNext := s.logPageNext - size } :
      Fast size π).Logged la → s.Logged la := by
    rintro la ⟨log, hlog, hrest⟩
    exact ⟨log, hlogs ▸ List.mem_cons_of_mem _ hlog, hrest⟩
  refine ⟨?_, h.data, h.sequential, fun k log hk => ?_, fun k log hk => ?_, ?_,
    fun k k' i i' log log' la he he' => ?_, fun k i log hk hi => ?_, fun la hla => ?_,
    fun la p hp => ?_, fun la p a hp hnot hout ha => ?_⟩
  · rw [own_dropVictim hlogs]
    exact h.exclusive.comp FastOwner.later_injective
  · exact h.log (k + 1) log ((hget k).symm.trans hk)
  · have hshape := h.shape (k + 1) log ((hget k).symm.trans hk)
    rw [hshape, Nat.succ_mul, Nat.add_comm, Nat.sub_add_eq]
  · rw [hlength] at hfull
    change s.logPageNext - size ≤ rest.length * size
    rw [hfull, Nat.succ_mul, Nat.add_sub_cancel]
  · obtain ⟨hk, hi⟩ := h.unique _ _ _ _ _ _ _ (hentry _ _ _ _ he) (hentry _ _ _ _ he')
    exact ⟨Nat.succ_inj.mp hk, hi⟩
  · obtain ⟨la, p, hpage, hoffset, hp, hholds⟩ := h.slots (k + 1) i log ((hget k).symm.trans hk) hi
    refine ⟨la, p, hpage, hoffset, ?_, hholds⟩
    rw [Function.update_of_ne (hne k i log la ⟨hk, hi, hpage⟩)]
    exact hp
  · obtain ⟨hnot, p, hp, hholds⟩ := h.inSequential la hla
    refine ⟨fun hl => hnot (hlogged la hl), p, ?_, hholds⟩
    have hne' : la ≠ q := by
      rintro rfl
      exact hnot (logged_iff.mpr ⟨0, 0, victim, hq⟩)
    rw [Function.update_of_ne hne']
    exact hp
  · exact h.placed la p (of_update_none hp).2
  · obtain ⟨hne', hp⟩ := of_update_none hp
    by_cases hl : s.Logged la
    · obtain ⟨k, i, log, he⟩ := logged_iff.mp hl
      -- entries of the victim were merged; the others are still in the log
      cases k with
      | zero =>
        have hvictim : log = victim := Option.some.inj (he.block.symm.trans hhead)
        subst hvictim
        refine hmerged i la p a ?_ he hp ha
        rintro rfl
        exact hne' (Option.some.inj (he.page.symm.trans hzero))
      | succ k =>
        exact absurd (logged_iff.mpr ⟨k, i, log, (hget k).trans he.block, he.lt, he.page⟩) hnot
    · exact h.stored la p a hp hl hout ha

end Maps

end Fast

end ZnsFlash
