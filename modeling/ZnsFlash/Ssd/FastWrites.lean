import ZnsFlash.Ssd.FastState

/-!
# The three kinds of writes of FAST

* **`Core.writeData`**: a page of a data block is written;
* **`Core.writeSequential`**: the next page of the SW block;
* `getElem?_push`, `Entry.of_push`, `numPages_push`: the RW log with one more page;
* **`Core.writeLog`**: the next page of the RW log.
-/

namespace ZnsFlash

open Holdings

namespace Fast

variable {size : ℕ} {π : Type}

section Write

variable {g : Flash size π} {x : ℕ} {payload : π} {s : Fast size π} {latest : ℕ → Option π}
  {la a k : ℕ} {log : FastLog}

theorem Core.stored_written (h : Core s latest) (hw : Written s.media.flash g x payload) {p : π}
    (hp : latest la = some p) (hlogged : ¬ s.Logged la) (hout : ¬ s.InSequential la)
    (ha : s.dataList (logicalBlock size la) = some a) : g.pageData (a + la % size) = p := by
  obtain ⟨a', ha', hvalid⟩ := h.placed la p hp
  rw [ha] at ha'
  obtain rfl := Option.some.inj ha'
  exact (hw.holds ⟨hvalid, h.stored la p a hp hlogged hout ha⟩).data

theorem Core.other_written (h : Core s latest) (hw : Written s.media.flash g x payload)
    {o o' : FastOwner} {c : ℕ} (ho : s.own o = some (x / size)) (ho' : s.own o' = some c)
    (hne : o' ≠ o) : g.block c = s.media.flash.block c := by
  refine hw.other c fun heq => hne (h.exclusive o' o c ho' ?_)
  rw [heq]
  exact ho

theorem Core.slot_written (h : Core s latest) (hw : Written s.media.flash g x payload) {i : ℕ}
    (hk : s.logPages[k]? = some log) (hi : i < log.numPages) (hne : ∀ la', Entry s.logPages k i log la' →
      la' ≠ la) :
    ∃ la' p, log.aPages i = some la' ∧ la' % size ≠ 0 ∧
      Function.update latest la (some payload) la' = some p ∧ g.Holds (log.address + i) p := by
  obtain ⟨la', p, hpage, hoffset, hp, hholds⟩ := h.slots k i log hk hi
  refine ⟨la', p, hpage, hoffset, ?_, hw.holds hholds⟩
  rw [Function.update_of_ne (hne la' ⟨hk, hi, hpage⟩)]
  exact hp

theorem Core.sequential_written (h : Core s latest) (hw : Written s.media.flash g x payload) {la' : ℕ}
    (hin : s.InSequential la') (hne : la' ≠ la) :
    ¬ s.Logged la' ∧ ∃ p, Function.update latest la (some payload) la' = some p ∧
      g.Holds (s.sequentialAddress + la' % size) p := by
  obtain ⟨hlogged, p, hp, hholds⟩ := h.inSequential la' hin
  refine ⟨hlogged, p, ?_, hw.holds hholds⟩
  rw [Function.update_of_ne hne]
  exact hp

theorem Core.placed_written (h : Core s latest) (hw : Written s.media.flash g x payload)
    (hplaced : ∃ a, s.dataList (logicalBlock size la) = some a ∧ g.stateAt (a + la % size) = .valid)
    {la' : ℕ} {p : π} (hp : Function.update latest la (some payload) la' = some p) :
    ∃ a, s.dataList (logicalBlock size la') = some a ∧ g.stateAt (a + la' % size) = .valid := by
  by_cases hla : la' = la
  · rw [hla]
    exact hplaced
  · rw [Function.update_of_ne hla] at hp
    obtain ⟨a, ha, hvalid⟩ := h.placed la' p hp
    exact ⟨a, ha, hw.valid hvalid⟩

theorem Core.writeData (hsize : 0 < size) (h : Core s latest)
    (ha : s.dataList (logicalBlock size la) = some a)
    (hw : Written s.media.flash g (a + la % size) payload) :
    Core { s with media := { s.media with flash := g } } (Function.update latest la (some payload)) := by
  have hdiv : (a + la % size) / size = a / size :=
    Flash.page_div (h.data _ a ha).aligned (Nat.mod_lt la hsize)
  have hown : s.own (.data (logicalBlock size la)) = some ((a + la % size) / size) := by
    rw [hdiv, own_data ha]
  -- its page in the data block is empty, so the logical page has never been written
  have hnone : ∀ p, latest la ≠ some p := by
    intro p hp
    obtain ⟨a', ha', hvalid⟩ := h.placed la p hp
    rw [ha] at ha'
    rw [← Option.some.inj ha', hw.empty] at hvalid
    cases hvalid
  refine ⟨h.exclusive, fun b a' ha' => (h.data b a' ha').next hw.state, fun b hb => ?_,
    fun k log hk => ?_, h.shape, h.room, h.unique, fun k i log hk hi => ?_, fun la' hla' => ?_,
    fun la' p hp => ?_, fun la' p a' hp hlogged hout ha' => ?_⟩
  -- the SW block and the log blocks are other blocks
  · exact (h.sequential b hb).congr (h.other_written hw hown (own_sequential hb) nofun)
  · exact (h.log k log hk).congr (h.other_written hw hown (own_log hk) nofun)
  -- no entry of the log is for a page that was never written
  · refine h.slot_written hw hk hi ?_
    rintro la' he rfl
    obtain ⟨-, p, hp, -⟩ := h.entry he
    exact hnone p hp
  · refine h.sequential_written hw hla' ?_
    rintro rfl
    obtain ⟨-, p, hp, -⟩ := h.inSequential la' hla'
    exact hnone p hp
  · exact h.placed_written hw ⟨a, ha, hw.holds_self.valid⟩ hp
  · by_cases hla : la' = la
    · rw [hla, Function.update_self] at hp
      rw [hla] at ha' ⊢
      rw [← Option.some.inj hp, ← Option.some.inj (ha.symm.trans ha')]
      exact hw.holds_self.data
    · rw [Function.update_of_ne hla] at hp
      exact h.stored_written hw hp hlogged hout ha'

theorem Core.writeSequential (hsize : 0 < size) (h : Core s latest)
    (hb : s.sequentialLogicalblockAddress = some (logicalBlock size la))
    (hoffset : la % size = s.sequentialOffset) (hlogged : ¬ s.Logged la)
    (hplaced : ∃ a, s.dataList (logicalBlock size la) = some a ∧
      s.media.flash.stateAt (a + la % size) = .valid)
    (hw : Written s.media.flash g (s.sequentialAddress + la % size) payload) :
    Core { s with
      media := { s.media with flash := g }
      sequentialOffset := s.sequentialOffset + 1 } (Function.update latest la (some payload)) := by
  have happ := h.sequential _ hb
  have hlt : la % size < size := Nat.mod_lt la hsize
  have hdiv : (s.sequentialAddress + la % size) / size = s.sequentialAddress / size :=
    Flash.page_div happ.aligned hlt
  have hown : s.own .sequential = some ((s.sequentialAddress + la % size) / size) := by
    rw [hdiv, own_sequential hb]
  -- the SW block has gained the page that is written, and no other
  have hcases : ∀ la', ({ s with
      media := { s.media with flash := g }
      sequentialOffset := s.sequentialOffset + 1 } : Fast size π).InSequential la' →
      la' = la ∨ la' ≠ la ∧ s.InSequential la' := by
    rintro la' ⟨hb', hlt'⟩
    by_cases hla : la' = la
    · exact Or.inl hla
    · refine Or.inr ⟨hla, hb', lt_of_le_of_ne (Nat.le_of_lt_succ hlt') fun heq => hla ?_⟩
      have hblock : logicalBlock size la' = logicalBlock size la :=
        Option.some.inj (hb'.symm.trans hb)
      exact eq_of_offset_eq hsize hblock (heq.trans hoffset.symm)
  refine ⟨h.exclusive, fun b a' ha' => (h.data b a' ha').next hw.state, fun b hb' => ?_,
    fun k log hk => ?_, h.shape, h.room, h.unique, fun k i log hk hi => ?_, fun la' hla' => ?_,
    fun la' p hp => ?_, fun la' p a' hp hlogged' hout ha' => ?_⟩
  · rw [hoffset] at hw
    refine happ.next (hoffset ▸ hlt) ?_ hw.state
    have hcounted := hw.counted
    rw [← hoffset, hdiv, happ.counted] at hcounted
    exact hcounted
  · exact (h.log k log hk).congr (h.other_written hw hown (own_log hk) nofun)
  -- entries of the log stay the newest: there is none of this page
  · refine h.slot_written hw hk hi ?_
    rintro la' he rfl
    exact hlogged (logged_iff.mpr ⟨k, i, log, he⟩)
  · rcases hcases la' hla' with rfl | ⟨hla, hin⟩
    · exact ⟨hlogged, payload, Function.update_self _ _ _, hw.holds_self⟩
    · exact h.sequential_written hw hin hla
  · obtain ⟨a, ha, hvalid⟩ := hplaced
    exact h.placed_written hw ⟨a, ha, hw.valid hvalid⟩ hp
  · by_cases hla : la' = la
    -- the page is now in the SW block, so nothing is said of the data block
    · refine absurd ?_ hout
      rw [hla]
      exact ⟨hb, hoffset ▸ Nat.lt_succ_self _⟩
    · rw [Function.update_of_ne hla] at hp
      refine h.stored_written hw hp hlogged' (fun hin => hout ⟨hin.1, ?_⟩) ha'
      exact Nat.lt_succ_of_lt hin.2

theorem getElem?_push {logs : List FastLog} (hk : logs[k]? = some log) {k' i : ℕ} {log' : FastLog}
    (hk' : (logs.set k (log.push log.numPages la))[k']? = some log') (hi : i < log'.numPages) :
    (∃ old, logs[k']? = some old ∧ i < old.numPages ∧ log'.aPages i = old.aPages i ∧
        log'.address = old.address) ∨
      k' = k ∧ i = log.numPages ∧ log'.aPages i = some la ∧ log'.address = log.address := by
  by_cases hne : k' = k
  · subst hne
    rw [List.getElem?_set_self (List.getElem?_eq_some_iff.mp hk).1] at hk'
    obtain rfl := Option.some.inj hk'
    rcases Nat.lt_succ_iff_lt_or_eq.mp hi with hi | rfl
    · exact Or.inl ⟨log, hk, hi, Function.update_of_ne hi.ne _ _, rfl⟩
    · exact Or.inr ⟨rfl, rfl, Function.update_self _ _ _, rfl⟩
  · rw [List.getElem?_set_ne (Ne.symm hne)] at hk'
    exact Or.inl ⟨log', hk', hi, rfl, rfl⟩

theorem Entry.of_push {logs : List FastLog} (hk : logs[k]? = some log) {k' i la' : ℕ} {log' : FastLog}
    (he : Entry (logs.set k (log.push log.numPages la)) k' i log' la') :
    (∃ old, Entry logs k' i old la') ∨ k' = k ∧ i = log.numPages ∧ la' = la := by
  rcases getElem?_push hk he.block he.lt with ⟨old, hold, hi, hpage, -⟩ | ⟨hk', hi, hpage, -⟩
  · exact Or.inl ⟨old, hold, hi, hpage.symm.trans he.page⟩
  · exact Or.inr ⟨hk', hi, Option.some.inj (he.page.symm.trans hpage)⟩

theorem Entry.push {logs : List FastLog} (hk : logs[k]? = some log) {k' i la' : ℕ} {old : FastLog}
    (he : Entry logs k' i old la') :
    ∃ log', Entry (logs.set k (log.push log.numPages la)) k' i log' la' := by
  by_cases hne : k' = k
  · subst hne
    obtain rfl := Option.some.inj (hk.symm.trans he.block)
    refine ⟨_, List.getElem?_set_self (List.getElem?_eq_some_iff.mp hk).1, Nat.lt_succ_of_lt he.lt, ?_⟩
    exact (Function.update_of_ne he.lt.ne _ _).trans he.page
  · exact ⟨old, (List.getElem?_set_ne (Ne.symm hne)).trans he.block, he.lt, he.page⟩

theorem entry_push_self {logs : List FastLog} (hk : logs[k]? = some log) (la : ℕ) :
    Entry (logs.set k (log.push log.numPages la)) k log.numPages (log.push log.numPages la) la :=
  ⟨List.getElem?_set_self (List.getElem?_eq_some_iff.mp hk).1, Nat.lt_succ_self _,
    Function.update_self _ _ _⟩

theorem numPages_push {logs : List FastLog} {next : ℕ} (hk : logs[k]? = some log)
    (hlt : log.numPages < size) (hnext : next = k * size + log.numPages)
    (hshape : ∀ (k : ℕ) log, logs[k]? = some log → log.numPages = min size (next - k * size))
    {k' : ℕ} {log' : FastLog}
    (hk' : (logs.set k (log.push log.numPages la))[k']? = some log') :
    log'.numPages = min size (next + 1 - k' * size) := by
  rcases Nat.lt_trichotomy k' k with hlow | rfl | hhigh
  · rw [List.getElem?_set_ne hlow.ne'] at hk'
    have hle : (k' + 1) * size ≤ k * size := Nat.mul_le_mul_right size hlow
    rw [Nat.succ_mul] at hle
    rw [hshape k' log' hk']
    omega
  · rw [List.getElem?_set_self (List.getElem?_eq_some_iff.mp hk).1] at hk'
    rw [← Option.some.inj hk']
    change log.numPages + 1 = min size (next + 1 - k' * size)
    omega
  · rw [List.getElem?_set_ne hhigh.ne] at hk'
    have hle : (k + 1) * size ≤ k' * size := Nat.mul_le_mul_right size hhigh
    rw [Nat.succ_mul] at hle
    rw [hshape k' log' hk']
    omega

theorem own_push (s : Fast size π) (hk : s.logPages[k]? = some log) :
    ({ s with
      logPages := s.logPages.set k (log.push log.numPages la)
      logPageNext := s.logPageNext + 1 } : Fast size π).own = s.own := by
  funext o
  cases o with
  | data b => rfl
  | sequential => rfl
  | log k' =>
    by_cases hne : k' = k
    · rw [hne, own_log hk]
      exact congrArg (Option.map _) (List.getElem?_set_self (List.getElem?_eq_some_iff.mp hk).1)
    · exact congrArg (Option.map _) (List.getElem?_set_ne (Ne.symm hne))

theorem Core.writeLog (h : Core s latest) (hk : s.logPages[k]? = some log)
    (hlt : log.numPages < size) (hnext : s.logPageNext = k * size + log.numPages)
    (hlogged : ¬ s.Logged la) (hout : s.sequentialLogicalblockAddress ≠ some (logicalBlock size la))
    (hoffset : la % size ≠ 0)
    (hplaced : ∃ a, s.dataList (logicalBlock size la) = some a ∧
      s.media.flash.stateAt (a + la % size) = .valid)
    (hw : Written s.media.flash g (log.address + log.numPages) payload) :
    Core { s with
      media := { s.media with flash := g }
      logPages := s.logPages.set k (log.push log.numPages la)
      logPageNext := s.logPageNext + 1 } (Function.update latest la (some payload)) := by
  have happ := h.log k log hk
  have hdiv : (log.address + log.numPages) / size = log.address / size :=
    Flash.page_div happ.aligned hlt
  have hown : s.own (.log k) = some ((log.address + log.numPages) / size) := by
    rw [hdiv, own_log hk]
  have hklt : k < s.logPages.length := (List.getElem?_eq_some_iff.mp hk).1
  have hnotEntry : ∀ k' i old, ¬ Entry s.logPages k' i old la := fun k' i old he =>
    hlogged (logged_iff.mpr ⟨k', i, old, he⟩)
  -- entries stay entries, and there is one for the page that is written
  have hlogged' : ∀ la', s.Logged la' ∨ la' = la → ({ s with
      media := { s.media with flash := g }
      logPages := s.logPages.set k (log.push log.numPages la)
      logPageNext := s.logPageNext + 1 } : Fast size π).Logged la' := by
    rintro la' (hold | rfl)
    · obtain ⟨k', i, old, he⟩ := logged_iff.mp hold
      obtain ⟨log', he'⟩ := he.push hk
      exact logged_iff.mpr ⟨k', i, log', he'⟩
    · exact logged_iff.mpr ⟨k, log.numPages, _, entry_push_self hk la'⟩
  refine ⟨?_, fun b a' ha' => (h.data b a' ha').next hw.state, fun b hb' => ?_,
    fun k' log' hk' => ?_, fun k' log' hk' => numPages_push hk hlt hnext h.shape hk', ?_,
    fun k₁ k₂ i₁ i₂ log₁ log₂ la' he₁ he₂ => ?_, fun k' i log' hk' hi => ?_, fun la' hla' => ?_,
    fun la' p hp => ?_, fun la' p a' hp hnot hout' ha' => ?_⟩
  · exact (own_push s hk).symm ▸ h.exclusive
  · exact (h.sequential b hb').congr (h.other_written hw hown (own_sequential hb') nofun)
  -- only log block `k` has gained a page
  · by_cases hne : k' = k
    · subst hne
      rw [List.getElem?_set_self hklt] at hk'
      rw [← Option.some.inj hk']
      refine happ.next hlt ?_ hw.state
      have hcounted := hw.counted
      rw [hdiv, happ.counted] at hcounted
      exact hcounted
    · rw [List.getElem?_set_ne (Ne.symm hne)] at hk'
      refine (h.log k' log' hk').congr (h.other_written hw hown (own_log hk') fun heq => hne ?_)
      exact FastOwner.log.inj heq
  · change s.logPageNext + 1 ≤ (s.logPages.set k (log.push log.numPages la)).length * size
    have hle : (k + 1) * size ≤ s.logPages.length * size := Nat.mul_le_mul_right size hklt
    rw [List.length_set]
    rw [Nat.succ_mul] at hle
    omega
  -- two entries of one page would both be old, or one of them the new one
  · rcases he₁.of_push hk with ⟨old₁, hold₁⟩ | ⟨rfl, rfl, rfl⟩ <;>
      rcases he₂.of_push hk with ⟨old₂, hold₂⟩ | ⟨rfl, rfl, h₂⟩
    · exact h.unique _ _ _ _ _ _ la' hold₁ hold₂
    · exact absurd (h₂ ▸ hold₁) (hnotEntry _ _ _)
    · exact absurd hold₂ (hnotEntry _ _ _)
    · exact ⟨rfl, rfl⟩
  · rcases getElem?_push hk hk' hi with ⟨old, hold, hi', hpage, haddress⟩ | ⟨rfl, rfl, hpage, haddress⟩
    · rw [hpage, haddress]
      refine h.slot_written hw hold hi' ?_
      rintro la' he rfl
      exact hnotEntry _ _ _ he
    · refine ⟨la, payload, hpage, hoffset, Function.update_self _ _ _, ?_⟩
      rw [haddress]
      exact hw.holds_self
  -- a page in the SW block belongs to its owner, which is another logical block
  · have hla : la' ≠ la := by
      rintro rfl
      exact hout hla'.1
    obtain ⟨hnot, hholds⟩ := h.sequential_written hw hla' hla
    refine ⟨fun hl => ?_, hholds⟩
    obtain ⟨k', i, log', he⟩ := logged_iff.mp hl
    rcases he.of_push hk with ⟨old, hold⟩ | ⟨-, -, heq⟩
    · exact hnot (logged_iff.mpr ⟨k', i, old, hold⟩)
    · exact hla heq
  · obtain ⟨a, ha, hvalid⟩ := hplaced
    exact h.placed_written hw ⟨a, ha, hw.valid hvalid⟩ hp
  · by_cases hla : la' = la
    · exact absurd (hlogged' la' (Or.inr hla)) hnot
    · rw [Function.update_of_ne hla] at hp
      exact h.stored_written hw hp (fun hl => hnot (hlogged' la' (Or.inl hl))) hout' ha'

end Write

end Fast

end ZnsFlash
