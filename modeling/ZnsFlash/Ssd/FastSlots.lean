import ZnsFlash.Ssd.FastMerges

/-!
# The loop of `random_merge` over the log

For any contents of the RW log: a page may be there several times.

* `Fast.Newer`, `pairwise_visits`: newer pages of the log are visited first;
* `Fast.firstSlot`, `Fast.SlotsTaken`: of each logical page the first slot that is visited is copied, and
  the others are dropped; `mergeSlot_taken`, **`mergeSlots_taken`**;
* `Fast.Thinned`: the log without some pages that have newer versions in it;
* `Fast.Latest`, `firstSlot_eq_some`: the slot that is copied is the newest one outside the slots 0;
* `Thinned.eq_of_unique`, `Entry.latest`: a log that has each page once.
-/

namespace ZnsFlash

variable {size : ℕ} {π : Type} {ok : Halt → Prop}

namespace Fast

/-! ## The order of the visits -/

section Visits

variable {limit k i : ℕ} {logs : List FastLog}

theorem mem_visits : (k, i) ∈ visits limit logs ↔
    k < limit ∧ i ≠ 0 ∧ i < (logs[k]?.map FastLog.numPages).getD 0 := by
  have htail : ∀ n, i ∈ (List.range n).tail ↔ i ≠ 0 ∧ i < n := by
    intro n
    rw [List.tail_range, List.mem_range'_1]
    omega
  rw [visits, List.mem_flatMap]
  constructor
  · rintro ⟨k', hk', hmem⟩
    obtain ⟨i', hi', heq⟩ := List.mem_map.mp hmem
    obtain ⟨rfl, rfl⟩ := Prod.mk.inj heq
    exact ⟨List.mem_range.mp (List.mem_reverse.mp hk'), (htail _).mp (List.mem_reverse.mp hi')⟩
  · rintro ⟨hk, hi⟩
    exact ⟨k, List.mem_reverse.mpr (List.mem_range.mpr hk),
      List.mem_map.mpr ⟨i, List.mem_reverse.mpr ((htail _).mpr hi), rfl⟩⟩

end Visits

/-- The first slot was written after the second one. -/
def Newer (x y : ℕ × ℕ) : Prop := y.1 < x.1 ∨ y.1 = x.1 ∧ y.2 < x.2

theorem Newer.asymm {x y : ℕ × ℕ} (h : Newer x y) : ¬ Newer y x := by
  rintro (h' | h') <;> rcases h with h | h <;> omega

theorem pairwise_visits (limit : ℕ) (logs : List FastLog) : (visits limit logs).Pairwise Newer := by
  have hrange : ∀ n, (List.range n).reverse.Pairwise (· > ·) := fun n =>
    List.pairwise_reverse.mpr List.pairwise_lt_range
  refine List.pairwise_flatMap.mpr ⟨fun k _ => ?_, (hrange limit).imp fun {k k'} hk x hx y hy => ?_⟩
  · refine List.pairwise_map.mpr (List.pairwise_reverse.mpr ?_)
    exact List.pairwise_lt_range.tail.imp fun hlt => Or.inr ⟨rfl, hlt⟩
  · obtain ⟨i, -, rfl⟩ := List.mem_map.mp hx
    obtain ⟨j, -, rfl⟩ := List.mem_map.mp hy
    exact Or.inl hk

instance (x y : ℕ × ℕ) : Decidable (Newer x y) := inferInstanceAs (Decidable (_ ∨ _))

/-! ## The slots of the log -/

/-- The logical page of a slot. -/
def slotPage (logs : List FastLog) (slot : ℕ × ℕ) : Option ℕ :=
  logs[slot.1]?.bind fun log => log.aPages slot.2

/-- The address of a slot. -/
def slotAddress (logs : List FastLog) (slot : ℕ × ℕ) : ℕ :=
  (logs[slot.1]?.map FastLog.address).getD 0 + slot.2

/-- The slot has page number `o` of a logical block. -/
def isFor (size : ℕ) (logs : List FastLog) (b o : ℕ) (slot : ℕ × ℕ) : Bool :=
  (slotPage logs slot).any fun la => logicalBlock size la = b ∧ la % size = o

/-- The first of these slots that has the page. -/
def firstSlot (size : ℕ) (logs : List FastLog) (b : ℕ) (pre : List (ℕ × ℕ)) (o : ℕ) :
    Option (ℕ × ℕ) := pre.find? (isFor size logs b o)

section Slots

variable {logs : List FastLog} {b o k i la : ℕ} {slot : ℕ × ℕ} {log : FastLog}

theorem slotPage_eq (hk : logs[k]? = some log) (i : ℕ) : slotPage logs (k, i) = log.aPages i := by
  rw [slotPage, hk, Option.bind_some]

theorem slotAddress_eq (hk : logs[k]? = some log) (i : ℕ) :
    slotAddress logs (k, i) = log.address + i := by
  rw [slotAddress, hk, Option.map_some, Option.getD_some]

theorem isFor_iff : isFor size logs b o slot = true ↔
    ∃ la, slotPage logs slot = some la ∧ logicalBlock size la = b ∧ la % size = o := by
  rw [isFor, Option.any_eq_true]
  simp

theorem not_isFor (h : ∀ la, slotPage logs slot = some la → logicalBlock size la = b → la % size ≠ o) :
    isFor size logs b o slot = false := by
  rw [Bool.eq_false_iff]
  intro hfor
  obtain ⟨la, hla, hb, ho⟩ := isFor_iff.mp hfor
  exact h la hla hb ho

theorem isFor_self (h : slotPage logs slot = some la) (hb : logicalBlock size la = b) :
    isFor size logs b (la % size) slot = true := isFor_iff.mpr ⟨la, h, hb, rfl⟩

theorem firstSlot_concat (pre : List (ℕ × ℕ)) (slot : ℕ × ℕ) :
    firstSlot size logs b (pre ++ [slot]) o =
      (firstSlot size logs b pre o).or (if isFor size logs b o slot then some slot else none) := by
  rw [firstSlot, firstSlot, List.find?_append, List.find?_singleton]

end Slots

theorem pinned_update {source : ℕ → Option ℕ} {pinned : ℕ → Bool}
    (h : ∀ o, pinned o = (source o).isSome) (k a o : ℕ) :
    Function.update pinned k true o = (Function.update source k (some a) o).isSome := by
  by_cases ho : o = k
  · rw [ho, Function.update_self, Function.update_self]
    rfl
  · rw [Function.update_of_ne ho, Function.update_of_ne ho]
    exact h o

/-! ## The loop over the log -/

/-- A page with a newer version in the log. -/
def Superseded (logs : List FastLog) (slot : ℕ × ℕ) : Prop :=
  ∃ la, slotPage logs slot = some la ∧ ∃ k i log, Entry logs k i log la ∧ Newer (k, i) slot

/-- **The log without some of its pages**: pages of the logical blocks `B`, which have newer versions
in it. -/
structure Thinned (size : ℕ) (logs logs' : List FastLog) (B : Set ℕ) : Prop where
  length : logs'.length = logs.length
  block : ∀ (k : ℕ) log', logs'[k]? = some log' → ∃ log, logs[k]? = some log ∧
    log'.address = log.address ∧ log'.numPages = log.numPages ∧ ∀ i, log'.aPages i = log.aPages i ∨
      log'.aPages i = none ∧ (∃ la, log.aPages i = some la ∧ logicalBlock size la ∈ B) ∧
        Superseded logs (k, i)

section Taken

variable {f₀ : Flash size π} {logs : List FastLog} {b new limit : ℕ} {pre : List (ℕ × ℕ)}
  {m : MergeState size π}

theorem Thinned.refl (size : ℕ) (logs : List FastLog) (B : Set ℕ) : Thinned size logs logs B :=
  ⟨rfl, fun _ log hk => ⟨log, hk, rfl, rfl, fun _ => Or.inl rfl⟩⟩

/-- Where the first slots of a logical block lie. -/
def slotSource (size : ℕ) (logs : List FastLog) (b : ℕ) (pre : List (ℕ × ℕ)) (o : ℕ) : Option ℕ :=
  (firstSlot size logs b pre o).map (slotAddress logs)

/-- **After the visits `pre`** the first slot of each page has been copied, and later ones are dropped. -/
structure SlotsTaken (f₀ : Flash size π) (logs : List FastLog) (b new : ℕ) (pre : List (ℕ × ℕ))
    (m : MergeState size π) : Prop where
  image : Image f₀ new (slotSource size logs b pre) m.flash
  pinned : ∀ o, m.pinned o = (slotSource size logs b pre o).isSome
  thinned : Thinned size logs m.logs {b}
  ahead : ∀ k i log log', (k, i) ∉ pre → logs[k]? = some log → m.logs[k]? = some log' →
    log'.aPages i = log.aPages i

/-- What the loop relies on: the new block is not one of the log blocks. -/
def Apart (logs : List FastLog) (size new : ℕ) : Prop :=
  ∀ (k : ℕ) log, logs[k]? = some log → ∀ i < log.numPages, (log.address + i) / size ≠ new / size

theorem SlotsTaken.skip (h : SlotsTaken f₀ logs b new pre m) {slot : ℕ × ℕ}
    (hsame : ∀ o, firstSlot size logs b (pre ++ [slot]) o = firstSlot size logs b pre o) :
    SlotsTaken f₀ logs b new (pre ++ [slot]) m := by
  have hsource : slotSource size logs b (pre ++ [slot]) = slotSource size logs b pre := by
    funext o
    rw [slotSource, hsame]
    rfl
  refine ⟨?_, ?_, h.thinned, fun k i log log' hnot hk hk' => ?_⟩
  · rw [hsource]
    exact h.image
  · rw [hsource]
    exact h.pinned
  · exact h.ahead k i log log' (fun hmem => hnot (List.mem_append_left _ hmem)) hk hk'

theorem firstSlot_skip {slot : ℕ × ℕ}
    (hno : ∀ la, slotPage logs slot = some la → logicalBlock size la ≠ b) (o : ℕ) :
    firstSlot size logs b (pre ++ [slot]) o = firstSlot size logs b pre o := by
  rw [firstSlot_concat, not_isFor fun la hla hb => absurd hb (hno la hla)]
  exact Option.or_none

variable {k i la : ℕ} {log log' : FastLog}

theorem SlotsTaken.drop (h : SlotsTaken f₀ logs b new pre m) (hk : logs[k]? = some log)
    (hk' : m.logs[k]? = some log') (hpage : log.aPages i = some la) (hb : logicalBlock size la = b)
    (hsame : ∀ o, firstSlot size logs b (pre ++ [(k, i)]) o = firstSlot size logs b pre o)
    (hnewer : Superseded logs (k, i)) :
    SlotsTaken f₀ logs b new (pre ++ [(k, i)]) { m with logs := m.logs.set k (log'.drop i) } := by
  obtain ⟨himage, hpinned, hthinned, hahead⟩ := h.skip hsame
  have hklt : k < m.logs.length := (List.getElem?_eq_some_iff.mp hk').1
  have hget : ∀ (k₁ : ℕ) log₁, (m.logs.set k (log'.drop i))[k₁]? = some log₁ →
      k₁ = k ∧ log₁ = log'.drop i ∨ k₁ ≠ k ∧ m.logs[k₁]? = some log₁ := by
    intro k₁ log₁ h₁
    by_cases hne : k₁ = k
    · subst hne
      rw [List.getElem?_set_self hklt] at h₁
      exact Or.inl ⟨rfl, (Option.some.inj h₁).symm⟩
    · rw [List.getElem?_set_ne (Ne.symm hne)] at h₁
      exact Or.inr ⟨hne, h₁⟩
  refine ⟨himage, hpinned, ⟨List.length_set.trans hthinned.length, fun k₁ log₁ h₁ => ?_⟩,
    fun k₁ j log₀ log₁ hnot h₀ h₁ => ?_⟩
  · rcases hget k₁ log₁ h₁ with ⟨rfl, rfl⟩ | ⟨-, h₁⟩
    · obtain ⟨log₀, h₀, haddress, hpages, hrest⟩ := hthinned.block k₁ log' hk'
      obtain rfl := Option.some.inj (hk.symm.trans h₀)
      refine ⟨log, hk, haddress, hpages, fun j => ?_⟩
      by_cases hj : j = i
      · subst hj
        exact Or.inr ⟨Function.update_self _ _ _, ⟨la, hpage, hb⟩, hnewer⟩
      · have hkept : (log'.drop i).aPages j = log'.aPages j := Function.update_of_ne hj _ _
        rw [hkept]
        exact hrest j
    · exact hthinned.block k₁ log₁ h₁
  · rcases hget k₁ log₁ h₁ with ⟨rfl, rfl⟩ | ⟨-, h₁⟩
    · have hj : j ≠ i := by
        rintro rfl
        exact hnot (List.mem_append_right _ (List.mem_singleton_self _))
      have hkept : (log'.drop i).aPages j = log'.aPages j := Function.update_of_ne hj _ _
      rw [hkept]
      exact hahead k₁ j log₀ log' hnot h₀ hk'
    · exact hahead k₁ j log₀ log₁ hnot h₀ h₁

theorem SlotsTaken.copy (h : SlotsTaken f₀ logs b new pre m) (hk : logs[k]? = some log)
    (hpage : log.aPages i = some la) (hb : logicalBlock size la = b)
    (hfree : firstSlot size logs b pre (la % size) = none) {f : Flash size π}
    (hf : Image f₀ new
      (Function.update (slotSource size logs b pre) (la % size) (some (log.address + i))) f) :
    SlotsTaken f₀ logs b new (pre ++ [(k, i)])
      { m with flash := f, pinned := Function.update m.pinned (la % size) true } := by
  have hslot : slotPage logs (k, i) = some la := (slotPage_eq hk i).trans hpage
  have hsource : slotSource size logs b (pre ++ [(k, i)]) =
      Function.update (slotSource size logs b pre) (la % size) (some (log.address + i)) := by
    funext o
    by_cases ho : o = la % size
    · subst ho
      rw [Function.update_self, slotSource, firstSlot_concat, hfree, isFor_self hslot hb, if_pos rfl,
        Option.none_or, Option.map_some, slotAddress_eq hk]
    · have hother : isFor size logs b o (k, i) = false := by
        refine not_isFor fun la' hla' _ ho' => ho ?_
        rw [← Option.some.inj (hslot.symm.trans hla')] at ho'
        exact ho'.symm
      rw [Function.update_of_ne ho, slotSource, firstSlot_concat, hother]
      exact congrArg (Option.map _) Option.or_none
  refine ⟨?_, fun o => ?_, h.thinned, fun k₁ j log₀ log₁ hnot h₀ h₁ => ?_⟩
  · rw [hsource]
    exact hf
  · rw [hsource]
    exact pinned_update h.pinned _ _ o
  · exact h.ahead k₁ j log₀ log₁ (fun hmem => hnot (List.mem_append_left _ hmem)) h₀ h₁

theorem mergeSlot_taken (hsize : 0 < size) (haligned : new = new / size * size)
    (hapart : Apart logs size new) (hk : logs[k]? = some log) (hlt : i < log.numPages)
    (hpre : (k, i) ∉ pre)
    (hbefore : ∀ slot ∈ pre, Newer slot (k, i) ∧ slot.2 < (logs[slot.1]?.map FastLog.numPages).getD 0)
    (h : SlotsTaken f₀ logs b new pre m) :
    Yields ok (mergeSlot b new m (k, i)) (SlotsTaken f₀ logs b new (pre ++ [(k, i)])) := by
  have hklt : k < m.logs.length := by
    rw [h.thinned.length]
    exact (List.getElem?_eq_some_iff.mp hk).1
  have hk' : m.logs[k]? = some m.logs[k] := List.getElem?_eq_getElem hklt
  obtain ⟨log₀, h₀, haddress, -, -⟩ := h.thinned.block k _ hk'
  obtain rfl := Option.some.inj (hk.symm.trans h₀)
  -- slots that the loop has not come to are as they were before the merge
  have hsame := h.ahead k i log _ hpre hk hk'
  rw [mergeSlot, hk']
  dsimp only
  rw [hsame, haddress]
  cases hpage : log.aPages i with
  | none =>
    refine h.skip (firstSlot_skip fun la hla => ?_)
    rw [slotPage_eq hk, hpage] at hla
    cases hla
  | some la =>
    have hslot : slotPage logs (k, i) = some la := (slotPage_eq hk i).trans hpage
    dsimp only
    by_cases hb : b = logicalBlock size la
    · rw [if_pos hb, h.pinned]
      -- an earlier slot of the loop may hold a newer version of the page
      cases hfirst : firstSlot size logs b pre (la % size) with
      | some first =>
        have hpinned : (slotSource size logs b pre (la % size)).isSome = true := by
          rw [slotSource, hfirst]
          rfl
        rw [if_pos hpinned]
        refine h.drop hk hk' hpage hb.symm (fun o => ?_) ?_
        · rw [firstSlot_concat]
          by_cases ho : o = la % size
          · rw [ho, hfirst]
            rfl
          · rw [not_isFor fun la' hla' _ ho' => ho ?_]
            · exact Option.or_none
            · rw [← Option.some.inj (hslot.symm.trans hla')] at ho'
              exact ho'.symm
        · have hmem := List.mem_of_find?_eq_some hfirst
          obtain ⟨la', hla', hb', ho'⟩ := isFor_iff.mp (List.find?_some hfirst)
          obtain rfl := eq_of_offset_eq hsize (hb'.trans hb) ho'
          obtain ⟨hnewer, hpages⟩ := hbefore first hmem
          rw [slotPage] at hla'
          obtain ⟨log₁, h₁, hpage₁⟩ := Option.bind_eq_some_iff.mp hla'
          rw [h₁] at hpages
          exact ⟨la', hslot, first.1, first.2, log₁, ⟨h₁, hpages, hpage₁⟩, hnewer⟩
      | none =>
        have hfree : slotSource size logs b pre (la % size) = none := by
          rw [slotSource, hfirst]
          rfl
        have hpinned : ¬ (slotSource size logs b pre (la % size)).isSome = true := by
          rw [hfree]
          decide
        have hlast := Nat.mod_lt la hsize
        -- this slot is the newest: the page is copied
        rw [if_neg hpinned, if_pos (h.image.empty _ hlast hfree)]
        refine (h.image.copy hsize haligned hlast hfree (hapart k log hk i hlt)).bind fun f hf => ?_
        exact h.copy hk hpage hb.symm hfirst hf
    · rw [if_neg hb]
      refine h.skip (firstSlot_skip fun la' hla' hb' => hb ?_)
      rw [← Option.some.inj (hslot.symm.trans hla')] at hb'
      exact hb'.symm

/-- **The loop over the log** copies the newest versions, but for those in slots 0. -/
theorem mergeSlots_taken (hsize : 0 < size) (haligned : new = new / size * size)
    (hapart : Apart logs size new) (hlimit : logs.length = limit) (hsound : f₀.Sound)
    (herased : f₀.Erased (new / size)) :
    Yields ok ((visits limit logs).foldlM (mergeSlot b new) ⟨f₀, fun _ => false, logs⟩)
      (SlotsTaken f₀ logs b new (visits limit logs)) := by
  refine Yields.foldlM_list (SlotsTaken f₀ logs b new) ?_ ?_
  · exact ⟨.of_erased hsound haligned herased, fun _ => rfl, .refl size logs _,
      fun k i log log' _ hk hk' => by rw [Option.some.inj (hk.symm.trans hk')]⟩
  · rintro pre slot post m hsplit h
    have horder := pairwise_visits limit logs
    rw [hsplit] at horder
    obtain ⟨-, -, hcross⟩ := List.pairwise_append.mp horder
    have hmem : (slot.1, slot.2) ∈ visits limit logs := by
      rw [hsplit]
      exact List.mem_append_right _ List.mem_cons_self
    obtain ⟨hk, -, hlt⟩ := mem_visits.mp hmem
    have hlog := List.getElem?_eq_getElem (hk.trans_eq hlimit.symm)
    rw [hlog] at hlt
    refine mergeSlot_taken hsize haligned hapart hlog hlt (fun hpre => ?_) (fun first hfirst => ?_) h
    · have hself := hcross slot hpre slot List.mem_cons_self
      exact hself.asymm hself
    · refine ⟨hcross first hfirst slot List.mem_cons_self, ?_⟩
      have hvisit : (first.1, first.2) ∈ visits limit logs := by
        rw [hsplit]
        exact List.mem_append_left _ hfirst
      exact (mem_visits.mp hvisit).2.2

end Taken

/-! ## The newest slots -/

/-- Of the slots with property `p`, the newest one that has the page. -/
structure Latest (logs : List FastLog) (p : ℕ → Prop) (k i : ℕ) (log : FastLog) (la : ℕ) : Prop
    extends Entry logs k i log la where
  slot : p i
  last : ∀ k' i' log', Entry logs k' i' log' la → p i' → ¬ Newer (k', i') (k, i)

section Visits

variable {logs : List FastLog} {limit k i la : ℕ} {log : FastLog} {slot : ℕ × ℕ}

theorem Entry.visited (h : Entry logs k i log la) (hlimit : logs.length = limit) (hi : i ≠ 0) :
    (k, i) ∈ visits limit logs := by
  refine mem_visits.mpr ⟨?_, hi, ?_⟩
  · rw [← hlimit]
    exact (List.getElem?_eq_some_iff.mp h.block).1
  · rw [h.block]
    exact h.lt

theorem exists_of_isFor (hsize : 0 < size) (hmem : slot ∈ visits limit logs)
    (hfor : isFor size logs (logicalBlock size la) (la % size) slot = true) :
    ∃ log, Entry logs slot.1 slot.2 log la ∧ slot.2 ≠ 0 := by
  obtain ⟨-, hi, hlt⟩ := mem_visits.mp (show (slot.1, slot.2) ∈ visits limit logs from hmem)
  obtain ⟨la', hpage, hb, ho⟩ := isFor_iff.mp hfor
  obtain rfl := eq_of_offset_eq hsize hb ho
  obtain ⟨log, hk, hpage⟩ := Option.bind_eq_some_iff.mp hpage
  rw [hk] at hlt
  exact ⟨log, ⟨hk, hlt, hpage⟩, hi⟩

/-- **The first slot that is visited is the newest one** outside the slots 0. -/
theorem firstSlot_eq_some (hsize : 0 < size) (hlimit : logs.length = limit) :
    firstSlot size logs (logicalBlock size la) (visits limit logs) (la % size) = some (k, i) ↔
      ∃ log, Latest logs (· ≠ 0) k i log la := by
  have horder := pairwise_visits limit logs
  constructor
  · intro hfirst
    obtain ⟨hfor, pre, post, hsplit, hpre⟩ := List.find?_eq_some_iff_append.mp hfirst
    obtain ⟨log, he, hi⟩ := exists_of_isFor hsize (List.mem_of_find?_eq_some hfirst) hfor
    refine ⟨log, he, hi, fun k' i' log' he' hi' hnewer => ?_⟩
    have hfor' : isFor size logs (logicalBlock size la) (la % size) (k', i') = true :=
      isFor_self ((slotPage_eq he'.block i').trans he'.page) rfl
    have hvisit := he'.visited hlimit hi'
    rw [hsplit] at hvisit horder
    rcases List.mem_append.mp hvisit with hmem | hmem
    · have hnot := hpre _ hmem
      rw [hfor'] at hnot
      cases hnot
    · rcases List.mem_cons.mp hmem with heq | hmem
      · rw [heq] at hnewer
        exact hnewer.asymm hnewer
      · obtain ⟨-, hpost, -⟩ := List.pairwise_append.mp horder
        exact hnewer.asymm ((List.pairwise_cons.mp hpost).1 _ hmem)
  · rintro ⟨log, he, hi, hlast⟩
    have hfor : isFor size logs (logicalBlock size la) (la % size) (k, i) = true :=
      isFor_self ((slotPage_eq he.block i).trans he.page) rfl
    obtain ⟨pre, post, hsplit⟩ := List.append_of_mem (he.visited hlimit hi)
    refine List.find?_eq_some_iff_append.mpr ⟨hfor, pre, post, hsplit, fun slot hslot => ?_⟩
    have hmem : slot ∈ visits limit logs := by
      rw [hsplit]
      exact List.mem_append_left _ hslot
    rw [hsplit] at horder
    have hnewer := (List.pairwise_append.mp horder).2.2 slot hslot (k, i) List.mem_cons_self
    rw [Bool.not_eq_true', Bool.eq_false_iff]
    intro hfor'
    obtain ⟨log', he', hi'⟩ := exists_of_isFor hsize hmem hfor'
    exact hlast slot.1 slot.2 log' he' hi' hnewer

theorem firstSlot_eq_none (hsize : 0 < size) (hlimit : logs.length = limit) :
    firstSlot size logs (logicalBlock size la) (visits limit logs) (la % size) = none ↔
      ∀ k i log, Entry logs k i log la → i = 0 := by
  rw [firstSlot, List.find?_eq_none]
  constructor
  · intro hnone k i log he
    by_contra hi
    exact hnone _ (he.visited hlimit hi) (isFor_self ((slotPage_eq he.block i).trans he.page) rfl)
  · intro hzero slot hmem hfor
    obtain ⟨log, he, hi⟩ := exists_of_isFor hsize hmem hfor
    exact hi (hzero _ _ log he)

/-! A log that has each page once. -/

variable {logs' : List FastLog} {B : Set ℕ}

/-- No page is in the log twice. -/
def Unique (logs : List FastLog) : Prop := ∀ k k' i i' log log' la, Entry logs k i log la →
  Entry logs k' i' log' la → k = k' ∧ i = i'

theorem Thinned.eq_of_unique (hunique : Unique logs) (h : Thinned size logs logs' B)
    (hkept : ∀ k i log log', (k, i) ∉ visits limit logs → logs[k]? = some log →
      logs'[k]? = some log' → log'.aPages i = log.aPages i) : logs' = logs := by
  refine List.ext_getElem h.length fun k hk' hk => ?_
  have hlog := List.getElem?_eq_getElem hk
  have hlog' := List.getElem?_eq_getElem hk'
  obtain ⟨log, hlog₀, haddress, hpages, hrest⟩ := h.block k _ hlog'
  obtain rfl := Option.some.inj (hlog.symm.trans hlog₀)
  have hsame : logs'[k].aPages = logs[k].aPages := by
    funext i
    rcases hrest i with hsame | ⟨-, -, la, hla, k', i', log', he, hnewer⟩
    · exact hsame
    · by_cases hvisit : (k, i) ∈ visits limit logs
      · obtain ⟨-, -, hlt⟩ := mem_visits.mp hvisit
        rw [hlog] at hlt
        have he' : Entry logs k i logs[k] la := ⟨hlog, hlt, (slotPage_eq hlog i).symm.trans hla⟩
        obtain ⟨rfl, rfl⟩ := hunique _ _ _ _ _ _ _ he he'
        exact absurd hnewer hnewer.asymm
      · exact hkept k i _ _ hvisit hlog hlog'
  calc logs'[k] = ⟨logs'[k].address, logs'[k].aPages, logs'[k].numPages⟩ := rfl
    _ = ⟨logs[k].address, logs[k].aPages, logs[k].numPages⟩ := by rw [haddress, hsame, hpages]
    _ = logs[k] := rfl

theorem Entry.latest (hunique : Unique logs) (h : Entry logs k i log la) {p : ℕ → Prop} (hi : p i) :
    Latest logs p k i log la := by
  refine ⟨h, hi, fun k' i' log' he _ hnewer => ?_⟩
  obtain ⟨rfl, rfl⟩ := hunique _ _ _ _ _ _ _ he h
  exact hnewer.asymm hnewer

end Visits

end Fast

end ZnsFlash
