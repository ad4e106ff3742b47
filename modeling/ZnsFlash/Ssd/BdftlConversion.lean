import ZnsFlash.Ssd.Bdftl
import ZnsFlash.Ssd.DftlCache

/-!
# The switch of BDFTL to page mapping

* `convertPages_spec`: which entries the loop of the transfer sets;
* `Bdftl.Transferred`, `Bdftl.Written`, `write_spec`: what a write does to the maps;
* `Bdftl.Unmapped`, `serve_unmapped`: in a run, the entries of optimal blocks are unset; `read_spec`:
  so a read finds what `lookup` names;
* `Bdftl.Preserves`, **`bdftl_conversion_iff`**: the transfer keeps no page but the one that is written;
* `converted_page_lost`: a page that is lost.
-/

namespace ZnsFlash

variable {size n : ℕ} {τ π : Type} [Clock τ] [TransMap n τ] {ok : Halt → Prop}

namespace DftlParent

variable {s t : DftlParent n τ} {mpage : MPage τ} {i : ℕ}

theorem SameMapping.ppn_eq (h : SameMapping s t) : t.ppn = s.ppn := by
  funext q
  rw [DftlParent.ppn, DftlParent.ppn]
  split_ifs with hq
  · exact h.ppn ⟨q, hq⟩
  · rfl

theorem Replaced.ppn_eq (h : Replaced s i mpage t) : t.ppn = Function.update s.ppn i mpage.ppn := by
  obtain ⟨hi, -⟩ := h.get
  funext q
  by_cases hq : q = i
  · subst hq
    rw [Function.update_self, DftlParent.ppn, dif_pos hi, h.get_self rfl]
  · rw [Function.update_of_ne hq, DftlParent.ppn, DftlParent.ppn]
    split_ifs with hlt
    · rw [h.get_of_ne hq]
    · rfl

theorem ppn_of_lt {j : Fin n} (hj : (j : ℕ) = i) : s.ppn i = (s.transMap.get j).ppn := by
  subst hj
  rw [ppn, dif_pos j.isLt]

end DftlParent

namespace Bdftl

open DftlParent

variable {s t : Bdftl size n τ π} {cfg : BdftlConfig} {dlpn dlbn pbn startAdr k q : ℕ} {startTime : τ}

/-! ## The loop of the transfer -/

/-- The loop sets the entry of the page `startAdr + i`. -/
def Sets (s : Bdftl size n τ π) (startAdr i : ℕ) : Prop :=
  (s.media.flash.block (startAdr / size)).pages i = .valid ∧ s.ppn (startAdr + i) ≠ none

/-- The entries after `k` rounds. -/
structure Converted (s : Bdftl size n τ π) (pbn startAdr k : ℕ) (t : Bdftl size n τ π) : Prop where
  rest : t = { s with toDftlParent := t.toDftlParent }
  numbered : Numbered t.toDftlParent
  set : ∀ i < k, Sets s startAdr i → t.ppn (startAdr + i) = some (pbn + i)
  unset : ∀ q, (∀ i < k, q = startAdr + i → ¬ Sets s startAdr i) → t.ppn q = s.ppn q

theorem convertPage_spec (hall : ∀ e, ok e) (h : Converted s pbn startAdr k t) :
    Yields ok (convertPage pbn startAdr startTime t k) (Converted s pbn startAdr (k + 1)) := by
  have hmedia : t.media = s.media := by rw [h.rest]
  -- a page that is not valid, or has no entry yet, is passed over
  have hskip : ¬ Sets s startAdr k → Converted s pbn startAdr (k + 1) t := by
    intro hno
    refine ⟨h.rest, h.numbered, fun i hi hsets => ?_, fun q hq => ?_⟩
    · rcases Nat.lt_succ_iff_lt_or_eq.mp hi with hlt | rfl
      · exact h.set i hlt hsets
      · exact absurd hsets hno
    · exact h.unset q fun i hi => hq i (Nat.lt_succ_of_lt hi)
  -- earlier rounds have not touched this entry
  have hsame : t.ppn (startAdr + k) = s.ppn (startAdr + k) := by
    refine h.unset _ fun i hi heq => ?_
    exact absurd (Nat.add_left_cancel heq) hi.ne'
  rw [convertPage, hmedia]
  split_ifs with hsize hvalid
  · exact hall _
  · exact hskip fun hsets => hvalid hsets.1
  · refine (entry_spec (hall _) _ _).bind ?_
    rintro current ⟨hlt, rfl⟩
    have hppn := ppn_of_lt (s := t.toDftlParent) (j := ⟨startAdr + k, hlt⟩) rfl
    cases hcurrent : (t.transMap.get ⟨startAdr + k, hlt⟩).ppn with
    | none =>
      rw [hsame, hcurrent] at hppn
      exact hskip fun hsets => hsets.2 hppn
    | some old =>
      have hsets : Sets s startAdr k := by
        refine ⟨not_not.mp hvalid, ?_⟩
        rw [← hsame, hppn, hcurrent]
        exact Option.some_ne_none old
      refine (replace_spec (hall _) _ _ _).bind fun m hm => ?_
      have hupdate : m.ppn = Function.update t.ppn (startAdr + k) (some (pbn + k)) := hm.ppn_eq
      have hnumbered : Numbered m :=
        hm.numbered h.numbered (h.numbered ⟨startAdr + k, hlt⟩)
      refine ⟨?_, hnumbered, fun i hi hi' => ?_, fun q hq => ?_⟩
      · rw [h.rest]
      · show m.ppn (startAdr + i) = _
        rw [hupdate]
        rcases Nat.lt_succ_iff_lt_or_eq.mp hi with hlt | rfl
        · rw [Function.update_of_ne (fun heq => hlt.ne (Nat.add_left_cancel heq))]
          exact h.set i hlt hi'
        · exact Function.update_self _ _ _
      · show m.ppn q = _
        have hne : q ≠ startAdr + k := fun heq => hq k (Nat.lt_succ_self k) heq hsets
        rw [hupdate, Function.update_of_ne hne]
        exact h.unset q fun i hi => hq i (Nat.lt_succ_of_lt hi)

theorem convertPages_spec (hall : ∀ e, ok e) (hs : Numbered s.toDftlParent) (k : ℕ) :
    Yields ok ((List.range k).foldlM (convertPage pbn startAdr startTime) s)
      (Converted s pbn startAdr k) :=
  Yields.foldlM_range (fun k t => Converted s pbn startAdr k t)
    ⟨rfl, hs, fun _ hi => absurd hi (Nat.not_lt_zero _), fun _ _ => rfl⟩
    fun _ _ _ ht => convertPage_spec hall ht

/-! ## Writes -/

/-- The maps but for the entries, and the flags of the blocks. -/
structure SameMaps (s t : Bdftl size n τ π) : Prop where
  parent : t.toDftlParent = s.toDftlParent
  trimMap : t.trimMap = s.trimMap
  blockMap : t.blockMap = s.blockMap

theorem nextDataBlock_same (hall : ∀ e, ok e) (cfg : BdftlConfig) (s : Bdftl size n τ π) :
    Yields ok (s.nextDataBlock cfg) fun r => SameMaps s r.2 := by
  have hany : ∀ {α : Type} (x : Except Halt α), Yields ok x fun _ => True := by
    intro α x
    cases x with
    | ok a => trivial
    | error e => exact hall e
  exact (hany _).bind fun media _ => (hany _).bind fun r _ => ⟨rfl, rfl, rfl⟩

theorem getFreeDataPage_same (hall : ∀ e, ok e) (cfg : BdftlConfig) (s : Bdftl size n τ π) :
    Yields ok (s.getFreeDataPage cfg) fun r => SameMaps s r.2 := by
  rw [getFreeDataPage]
  cases s.currentDataPage with
  | none => exact nextDataBlock_same hall cfg s
  | some page =>
    dsimp only
    split_ifs
    · exact nextDataBlock_same hall cfg s
    · exact ⟨rfl, rfl, rfl⟩

theorem getFreeBiftlPage_same (hall : ∀ e, ok e) (cfg : BdftlConfig) (s : Bdftl size n τ π) :
    Yields ok (s.getFreeBiftlPage cfg) fun r => SameMaps s r.2 := by
  rw [getFreeBiftlPage]
  cases s.inuseBlock with
  | none => exact getFreeDataPage_same hall cfg s
  | some block =>
    dsimp only
    cases getNextPage s.media.flash block with
    | some page => exact ⟨rfl, rfl, rfl⟩
    | none =>
      dsimp only
      cases s.blockQueue with
      | nil =>
        exact (getFreeDataPage_same hall cfg
          { s with inuseBlock := none, blockQueue := [] }).mono fun r hr =>
            ⟨hr.parent, hr.trimMap, hr.blockMap⟩
      | cons next rest =>
        dsimp only
        cases getNextPage s.media.flash next with
        | some page => exact ⟨rfl, rfl, rfl⟩
        | none => exact hall _

/-- The page that is written has a new entry. -/
structure Remapped (s t : Bdftl size n τ π) (dlpn : ℕ) : Prop where
  numbered : Numbered t.toDftlParent
  ppn : ∀ q ≠ dlpn, t.ppn q = s.ppn q
  trimMap : t.trimMap = s.trimMap
  blockMap : t.blockMap = s.blockMap

theorem writeMapped_spec (hall : ∀ e, ok e) (hs : Numbered s.toDftlParent) (dlpn : ℕ)
    (startTime : τ) : Yields ok (s.writeMapped cfg dlpn startTime) fun r => Remapped s r.2 dlpn := by
  refine (getFreeBiftlPage_same hall cfg s).bind fun r hr => ?_
  rw [← hr.parent] at hs
  refine (resolveMapping_same hall hs dlpn startTime true).bind fun m hm => ?_
  refine (entry_spec (hall _) m dlpn).bind ?_
  rintro current ⟨hlt, rfl⟩
  refine (replace_spec (hall _) _ dlpn _).bind fun m' hm' => ?_
  have hnumbered := hm.numbered hs
  refine ⟨hm'.numbered hnumbered (hnumbered ⟨dlpn, hlt⟩), fun q hq => ?_, hr.trimMap, hr.blockMap⟩
  have hppn : m'.ppn = Function.update m.ppn dlpn (some r.1) := hm'.ppn_eq
  show m'.ppn q = s.ppn q
  rw [hppn, Function.update_of_ne hq, hm.ppn_eq, hr.parent]

/-- **A block was transferred**: it is not optimal any more. -/
structure Transferred (s t : Bdftl size n τ π) (dlbn : ℕ) : Prop where
  numbered : Numbered t.toDftlParent
  trimMap : t.trimMap = s.trimMap
  other : ∀ b ≠ dlbn, t.blockMap b = s.blockMap b
  optimal : (t.blockMap dlbn).optimal = false
  kept : ∀ q, t.ppn q = s.ppn q ∨ s.ppn q ≠ none
  set : ∀ pbn, (s.blockMap dlbn).pbn = some pbn → ∀ i < (s.blockMap dlbn).nextPage,
    Sets s (dlbn * size) i → t.ppn (dlbn * size + i) = some (pbn + i)
  unset : (s.blockMap dlbn).pbn ≠ none → ∀ q, (∀ i < (s.blockMap dlbn).nextPage,
    q = dlbn * size + i → ¬ Sets s (dlbn * size) i) → t.ppn q = s.ppn q

theorem enqueueBlock_same (s : Bdftl size n τ π) (block : ℕ) :
    SameMaps s (s.enqueueBlock block) := by
  rw [enqueueBlock]
  split_ifs
  · cases s.inuseBlock with
    | none => exact ⟨rfl, rfl, rfl⟩
    | some _ => exact ⟨rfl, rfl, rfl⟩
  · exact ⟨rfl, rfl, rfl⟩

theorem convert_spec (hall : ∀ e, ok e) (hs : Numbered s.toDftlParent)
    (hpbn : (s.blockMap dlbn).pbn = some pbn) :
    Yields ok (s.convert dlbn pbn startTime) fun t => Transferred s t dlbn := by
  refine (convertPages_spec hall hs (s.blockMap dlbn).nextPage).bind fun t ht => ?_
  have hblocks : t.blockMap = s.blockMap := by rw [ht.rest]
  have htrim : t.trimMap = s.trimMap := by rw [ht.rest]
  obtain ⟨hparent, htrimMap, hblockMap⟩ := enqueueBlock_same
    { t with blockMap := Function.update t.blockMap dlbn { t.blockMap dlbn with optimal := false } }
    (pbn / size)
  dsimp only at hparent htrimMap hblockMap
  refine ⟨?_, htrimMap.trans htrim, fun b hb => ?_, ?_, fun q => ?_, fun p hp i hi hsets => ?_,
    fun _ q hq => ?_⟩
  · rw [hparent]
    exact ht.numbered
  · rw [hblockMap, Function.update_of_ne hb, hblocks]
  · rw [hblockMap, Function.update_self]
  · rw [hparent]
    by_cases hset : ∃ i < (s.blockMap dlbn).nextPage, q = dlbn * size + i ∧ Sets s (dlbn * size) i
    · obtain ⟨i, -, rfl, hsets⟩ := hset
      exact Or.inr hsets.2
    · exact Or.inl (ht.unset q fun i hi heq hsets => hset ⟨i, hi, heq, hsets⟩)
  · obtain rfl := Option.some.inj (hpbn.symm.trans hp)
    rw [hparent]
    exact ht.set i hi hsets
  · rw [hparent]
    exact ht.unset q hq

/-- A new block was taken, if the block had none. -/
structure Taken (s u : Bdftl size n τ π) (dlbn : ℕ) : Prop where
  parent : u.toDftlParent = s.toDftlParent
  trimMap : u.trimMap = s.trimMap
  other : ∀ b ≠ dlbn, u.blockMap b = s.blockMap b
  optimal : (u.blockMap dlbn).optimal = (s.blockMap dlbn).optimal
  same : (s.blockMap dlbn).pbn ≠ none → u = s

theorem takeBlock_spec (hall : ∀ e, ok e) (cfg : BdftlConfig) (s : Bdftl size n τ π) (dlpn : ℕ) :
    Yields ok (s.takeBlock cfg dlpn) fun u => Taken s u (dlpn / size) := by
  rw [takeBlock]
  dsimp only
  split_ifs with htake
  · cases getFreeBlock cfg s.media with
    | error e => exact hall e
    | ok r =>
      refine ⟨rfl, rfl, fun b hb => Function.update_of_ne hb _ _, ?_, fun hno => absurd htake.1 hno⟩
      show (Function.update s.blockMap (dlpn / size) _ (dlpn / size)).optimal = _
      rw [Function.update_self]
  · exact ⟨rfl, rfl, fun _ _ => rfl, rfl, fun _ => rfl⟩

/-- A write that is handled in its optimal block. -/
structure Handled (s t : Bdftl size n τ π) : Prop where
  parent : t.toDftlParent = s.toDftlParent
  trimMap : t.trimMap = s.trimMap
  optimal : ∀ b, (t.blockMap b).optimal = (s.blockMap b).optimal

/-- What a write to an optimal block does. -/
def Wrote (s : Bdftl size n τ π) (dlbn : ℕ) (r : Option ℕ × Bdftl size n τ π) : Prop :=
  match r.1 with
  | some _ => Handled s r.2
  | none => Transferred s r.2 dlbn

theorem writeOptimal_spec (hall : ∀ e, ok e) (hs : Numbered s.toDftlParent) (dlpn : ℕ)
    (startTime : τ) :
    Yields ok (s.writeOptimal cfg dlpn startTime) (Wrote s (dlpn / size)) := by
  refine (takeBlock_spec hall cfg s dlpn).bind fun u hu => ?_
  have hnumbered : Numbered u.toDftlParent := hu.parent ▸ hs
  have hppn : u.ppn = s.ppn := by rw [hu.parent]
  cases hpbn : (u.blockMap (dlpn / size)).pbn with
  | none =>
    have hnone : (s.blockMap (dlpn / size)).pbn = none := by
      by_contra hno
      rw [hu.same hno] at hpbn
      exact hno hpbn
    refine ⟨hnumbered, hu.trimMap, fun b hb => ?_, ?_, fun q => Or.inl (congrFun hppn q),
      fun p hp => ?_, fun hno => absurd hnone hno⟩
    · exact (Function.update_of_ne hb _ _).trans (hu.other b hb)
    · show (Function.update u.blockMap (dlpn / size) _ (dlpn / size)).optimal = false
      rw [Function.update_self]
    · rw [hnone] at hp
      cases hp
  | some pbn =>
    dsimp only
    split_ifs with hnext
    · refine ⟨hu.parent, hu.trimMap, fun b => ?_⟩
      show (Function.update u.blockMap (dlpn / size) _ b).optimal = _
      by_cases hb : b = dlpn / size
      · rw [hb, Function.update_self]
        exact hu.optimal
      · rw [Function.update_of_ne hb, hu.other b hb]
    · refine (convert_spec hall hnumbered hpbn).bind fun t ht => ?_
      refine ⟨ht.numbered, ht.trimMap.trans hu.trimMap, fun b hb => (ht.other b hb).trans (hu.other b hb),
        ht.optimal, fun q => ?_, fun p hp => ?_, fun hno => ?_⟩
      · rw [← hppn]
        exact ht.kept q
      · have hsome : (s.blockMap (dlpn / size)).pbn ≠ none := by
          rw [hp]
          exact Option.some_ne_none p
        rw [← hu.same hsome] at hp ⊢
        exact ht.set p hp
      · have hset := ht.unset
        rw [hu.same hno] at hset
        exact hset hno

/-- **What a write does to the maps.** -/
structure Written (s t : Bdftl size n τ π) (dlpn : ℕ) : Prop where
  numbered : Numbered t.toDftlParent
  trimMap : t.trimMap = Function.update s.trimMap dlpn false
  optimal : ∀ b, (t.blockMap b).optimal = true → (s.blockMap b).optimal = true
  kept : ∀ q ≠ dlpn, t.ppn q = s.ppn q ∨ s.ppn q ≠ none
  self : (t.blockMap (dlpn / size)).optimal = true → t.ppn dlpn = s.ppn dlpn
  /-- If the block is transferred, it is done by the loop. -/
  transferred : (s.blockMap (dlpn / size)).optimal = true →
    (t.blockMap (dlpn / size)).optimal = false →
    ∃ u, Transferred s u (dlpn / size) ∧ ∀ q ≠ dlpn, t.ppn q = u.ppn q

theorem issue_same (hall : ∀ e, ok e) (s : Bdftl size n τ π) (address : ℕ) (replaced : Option ℕ)
    (payload : π) : Yields ok (s.issue address replaced payload) (SameMaps s) :=
  (Flash.write_halts (hall _) address payload).bind fun _ _ => ⟨rfl, rfl, rfl⟩

theorem writeMapped_written (hall : ∀ e, ok e) {u : Bdftl size n τ π} (hu : Numbered u.toDftlParent)
    (htrim : u.trimMap = Function.update s.trimMap dlpn false)
    (hoptimal : ∀ b, (u.blockMap b).optimal = true → (s.blockMap b).optimal = true)
    (hnot : (u.blockMap (dlpn / size)).optimal = false)
    (hkept : ∀ q, u.ppn q = s.ppn q ∨ s.ppn q ≠ none)
    (htransferred : (s.blockMap (dlpn / size)).optimal = true →
      ∃ v, Transferred s v (dlpn / size) ∧ v.ppn = u.ppn) (payload : π) :
    Yields ok (do
      let ((address, replaced), s) ← u.writeMapped cfg dlpn startTime
      s.issue address replaced payload) fun t => Written s t dlpn := by
  refine (writeMapped_spec hall hu dlpn startTime).bind fun r hr => ?_
  refine (issue_same hall r.2 _ _ payload).mono fun t ht => ?_
  have hppn : ∀ q ≠ dlpn, t.ppn q = u.ppn q := fun q hq => by rw [ht.parent, hr.ppn q hq]
  have hblocks : t.blockMap = u.blockMap := ht.blockMap.trans hr.blockMap
  refine ⟨ht.parent ▸ hr.numbered, (ht.trimMap.trans hr.trimMap).trans htrim, fun b hb => ?_,
    fun q hq => ?_, fun hopt => ?_, fun hopt _ => ?_⟩
  · rw [hblocks] at hb
    exact hoptimal b hb
  · rw [hppn q hq]
    exact hkept q
  · rw [hblocks, hnot] at hopt
    cases hopt
  · obtain ⟨v, hv, hvppn⟩ := htransferred hopt
    exact ⟨v, hv, fun q hq => by rw [hppn q hq, hvppn]⟩

theorem write_spec (hall : ∀ e, ok e) (hs : Numbered s.toDftlParent) (dlpn : ℕ) (startTime : τ)
    (payload : π) :
    Yields ok (s.write cfg dlpn startTime payload) fun t => Written s t dlpn := by
  rw [write]
  split_ifs with hlt
  · exact hall _
  by_cases hopt : (s.blockMap (dlpn / size)).optimal = true
  · dsimp only
    rw [if_pos hopt]
    refine (writeOptimal_spec (s := { s with trimMap := Function.update s.trimMap dlpn false })
      hall hs dlpn startTime).bind ?_
    rintro ⟨handled, u⟩ hu
    cases handled with
    -- the next page of the block was free: no entry has changed
    | some address =>
      have hsame : Handled { s with trimMap := Function.update s.trimMap dlpn false } u := hu
      refine (issue_same hall u address none payload).mono fun t ht => ?_
      have hparent : t.toDftlParent = s.toDftlParent := ht.parent.trans hsame.parent
      have hflags : ∀ b, (t.blockMap b).optimal = (s.blockMap b).optimal := fun b => by
        rw [ht.blockMap, hsame.optimal]
      refine ⟨hparent ▸ hs, ht.trimMap.trans hsame.trimMap, fun b hb => (hflags b).symm.trans hb,
        fun q _ => Or.inl (by rw [hparent]), fun _ => by rw [hparent], fun _ hno => ?_⟩
      rw [hflags, hopt] at hno
      cases hno
    -- out of order: the block was converted to page mapping first
    | none =>
      have hmoved : Transferred { s with trimMap := Function.update s.trimMap dlpn false } u
        (dlpn / size) := hu
      refine writeMapped_written hall hmoved.numbered hmoved.trimMap (fun b hb => ?_) hmoved.optimal
        hmoved.kept (fun _ => ⟨{ u with trimMap := s.trimMap }, ?_, rfl⟩) payload
      · by_cases hb' : b = dlpn / size
        · rw [hb']
          exact hopt
        · rw [hmoved.other b hb'] at hb
          exact hb
      · exact ⟨hmoved.numbered, rfl, hmoved.other, hmoved.optimal, hmoved.kept, hmoved.set,
          hmoved.unset⟩
  · dsimp only
    rw [if_neg hopt]
    rw [Bool.not_eq_true] at hopt
    refine writeMapped_written (u := { s with trimMap := Function.update s.trimMap dlpn false })
      hall hs rfl (fun _ hb => hb) hopt (fun _ => Or.inl rfl) (fun hopt' => ?_) payload
    rw [hopt] at hopt'
    cases hopt'

/-! ## What the transfer keeps -/

/-- A read of the page finds a valid one. -/
def Readable (s : Bdftl size n τ π) (q : ℕ) : Prop :=
  ∃ a, s.lookup q = some a ∧ s.media.flash.stateAt a = .valid

/-- **The other pages of the block** are found where they were. -/
def Preserves (s t : Bdftl size n τ π) (dlpn : ℕ) : Prop :=
  ∀ q, q / size = dlpn / size → q ≠ dlpn → s.Readable q → t.lookup q = s.lookup q

/-- **In any state**, a page is kept if the loop sets its entry, or its entry has been right before. -/
theorem Written.preserves_iff (h : Written s t dlpn)
    (hbefore : (s.blockMap (dlpn / size)).optimal = true)
    (hafter : (t.blockMap (dlpn / size)).optimal = false) :
    Preserves s t dlpn ↔ ∀ q, q / size = dlpn / size → q ≠ dlpn → s.Readable q →
      q % size < (s.blockMap (dlpn / size)).nextPage ∧ Sets s (dlpn / size * size) (q % size) ∨
        s.ppn q = s.lookup q := by
  obtain ⟨u, hu, huppn⟩ := h.transferred hbefore hafter
  refine forall_congr' fun q => forall_congr' fun hblock => forall_congr' fun hne =>
    forall_congr' fun hreadable => ?_
  have hbefore' : s.lookup q = (s.blockMap (dlpn / size)).pbn.map (· + q % size) := by
    rw [lookup, hblock, if_pos hbefore]
  have hafter' : t.lookup q = u.ppn q := by
    rw [lookup, hblock, hafter, if_neg (by decide)]
    exact huppn q hne
  obtain ⟨a, ha, -⟩ := hreadable
  rw [hbefore'] at ha
  obtain ⟨pbn, hpbn, rfl⟩ := Option.map_eq_some_iff.mp ha
  have hq : dlpn / size * size + q % size = q := by rw [← hblock, Nat.div_add_mod']
  rw [hafter', hbefore', hpbn, Option.map_some]
  by_cases hset : q % size < (s.blockMap (dlpn / size)).nextPage ∧
      Sets s (dlpn / size * size) (q % size)
  · have hentry := hu.set pbn hpbn (q % size) hset.1 hset.2
    rw [hq] at hentry
    exact iff_of_true hentry (Or.inl hset)
  · have hsome : (s.blockMap (dlpn / size)).pbn ≠ none := by
      rw [hpbn]
      exact Option.some_ne_none pbn
    have hentry : u.ppn q = s.ppn q := by
      refine hu.unset hsome q fun i hi heq hsets => hset ?_
      have hi' : i = q % size := Nat.add_left_cancel (heq.symm.trans hq.symm)
      rw [← hi']
      exact ⟨hi, hsets⟩
    rw [hentry]
    exact (or_iff_right hset).symm

/-! ## Runs -/

/-- **The entries of optimal blocks are unset**, and those of trimmed pages are. -/
structure Unmapped (s : Bdftl size n τ π) : Prop where
  numbered : Numbered s.toDftlParent
  trimmed : ∀ q, s.trimMap q = true → s.ppn q = none
  optimal : ∀ q, (s.blockMap (q / size)).optimal = true → s.ppn q = none

theorem unmapped_new (erases : ℕ) (junk : ℕ → π) (reverse : Option ℕ → ℕ) (trimmed : ℕ → Bool) :
    Unmapped (new erases junk reverse trimmed : Bdftl size n τ π) := by
  have hnone : ∀ q, (new erases junk reverse trimmed : Bdftl size n τ π).ppn q = none := by
    intro q
    rw [DftlParent.ppn]
    split_ifs with h
    · exact congrArg MPage.ppn (DftlParent.get_new reverse ⟨q, h⟩)
    · rfl
  exact ⟨DftlParent.numbered_new reverse, fun q _ => hnone q, fun q _ => hnone q⟩

theorem Written.unmapped (hs : Unmapped s) (h : Written s t dlpn) : Unmapped t := by
  have hkept : ∀ q ≠ dlpn, s.ppn q = none → t.ppn q = none := by
    intro q hq hnone
    rcases h.kept q hq with hsame | hno
    · rw [hsame, hnone]
    · exact absurd hnone hno
  refine ⟨h.numbered, fun q htrim => ?_, fun q hopt => ?_⟩
  · rw [h.trimMap] at htrim
    by_cases hq : q = dlpn
    · rw [hq, Function.update_self] at htrim
      cases htrim
    · rw [Function.update_of_ne hq] at htrim
      exact hkept q hq (hs.trimmed q htrim)
  · have hnone := hs.optimal q (h.optimal _ hopt)
    by_cases hq : q = dlpn
    · subst hq
      rw [h.self hopt, hnone]
    · exact hkept q hq hnone

/-- **A read finds the page that `lookup` names**, and the map stays what a run makes it. -/
theorem read_spec (hall : ∀ e, ok e) (hs : Unmapped s) (dlpn : ℕ) (startTime : τ) :
    Yields ok (s.read cfg dlpn startTime) fun r => r.1 = s.lookup dlpn ∧ Unmapped r.2 := by
  rw [read]
  by_cases hlt : n ≤ dlpn
  · rw [if_pos hlt]
    exact hall _
  rw [if_neg hlt, lookup]
  by_cases hopt : (s.blockMap (dlpn / size)).optimal = true
  · rw [if_pos hopt, if_pos hopt]
    exact ⟨rfl, hs⟩
  · rw [if_neg hopt, if_neg hopt]
    refine (resolveMapping_same hall hs.numbered dlpn startTime false).bind fun m hm => ?_
    refine (entry_spec (hall _) m dlpn).bind ?_
    rintro current ⟨hdlpn, rfl⟩
    have hppn : ∀ q, m.ppn q = s.ppn q := fun q => congrFun hm.ppn_eq q
    have hfound : (m.transMap.get ⟨dlpn, hdlpn⟩).ppn = s.ppn dlpn := by
      rw [← hppn dlpn, ppn_of_lt (j := ⟨dlpn, hdlpn⟩) rfl]
    exact ⟨hfound, hm.numbered hs.numbered, fun q hq => (hppn q).trans (hs.trimmed q hq),
      fun q hq => (hppn q).trans (hs.optimal q hq)⟩

theorem trimOptimal_handled (hall : ∀ e, ok e) (cfg : BdftlConfig) (s : Bdftl size n τ π) (dlpn : ℕ) :
    Yields ok (s.trimOptimal cfg dlpn) (Handled s) := by
  rw [trimOptimal]
  dsimp only
  split_ifs
  · cases (Media.mk _ s.media.bm).eraseAndInvalidate _ .data with
    | error e => exact hall e
    | ok media =>
      refine ⟨rfl, rfl, fun b => ?_⟩
      show (Function.update s.blockMap (dlpn / size) _ b).optimal = _
      by_cases hb : b = dlpn / size
      · rw [hb, Function.update_self]
      · rw [Function.update_of_ne hb]
  · exact ⟨rfl, rfl, fun _ => rfl⟩

/-- The entry of the page is unset. -/
structure Cleared (s t : Bdftl size n τ π) (dlpn : ℕ) : Prop where
  numbered : Numbered t.toDftlParent
  self : t.ppn dlpn = none
  other : ∀ q ≠ dlpn, t.ppn q = s.ppn q
  trimMap : t.trimMap = s.trimMap
  blockMap : t.blockMap = s.blockMap

theorem trimMapped_cleared (hall : ∀ e, ok e) (hs : Numbered s.toDftlParent) (dlpn : ℕ) :
    Yields ok (s.trimMapped cfg dlpn) fun t => Cleared s t dlpn := by
  refine (entry_spec (hall _) s.toDftlParent dlpn).bind ?_
  rintro current ⟨hlt, rfl⟩
  have hppn : s.ppn dlpn = _ := ppn_of_lt (j := ⟨dlpn, hlt⟩) rfl
  cases hcurrent : (s.transMap.get ⟨dlpn, hlt⟩).ppn with
  | none => exact ⟨hs, hppn.trans hcurrent, fun _ _ => rfl, rfl, rfl⟩
  | some a =>
    refine (evictSpecificPageFromCache_same hall hs dlpn).bind fun m hm => ?_
    refine (replace_spec (hall _) _ dlpn _).bind fun m' hm' => ?_
    have hupdate : m'.ppn = Function.update m.ppn dlpn none := hm'.ppn_eq
    have hnumbered : Numbered m' := hm'.numbered (hm.numbered hs) (hs ⟨dlpn, hlt⟩)
    refine ⟨hnumbered, ?_, fun q hq => ?_, rfl, rfl⟩
    · exact (congrFun hupdate dlpn).trans (Function.update_self _ _ _)
    · show m'.ppn q = s.ppn q
      rw [hupdate, Function.update_of_ne hq, hm.ppn_eq]

theorem resetBlock_unmapped (hsize : 0 < size) (hs : Unmapped s) (dlpn : ℕ) :
    Unmapped (s.resetBlock dlpn) := by
  rw [resetBlock]
  split_ifs with hall
  · refine ⟨hs.numbered, hs.trimmed, fun q hopt => ?_⟩
    show s.ppn q = none
    have hopt' : (Function.update s.blockMap (dlpn / size) .new (q / size)).optimal = true := hopt
    by_cases hq : q / size = dlpn / size
    · have htrim := hall (q % size) (Nat.mod_lt q hsize)
      have heq : dlpn - dlpn % size + q % size = q := by
        have hstart : dlpn / size * size = dlpn - dlpn % size := by
          rw [Nat.div_mul_self_eq_mod_sub_self]
        rw [← hstart, ← hq, Nat.div_add_mod']
      rw [heq] at htrim
      exact hs.trimmed q htrim
    · rw [Function.update_of_ne hq] at hopt'
      exact hs.optimal q hopt'
  · exact hs

theorem trim_unmapped (hsize : 0 < size) (hall : ∀ e, ok e) (hs : Unmapped s) (dlpn : ℕ) :
    Yields ok (s.trim cfg dlpn) Unmapped := by
  rw [trim]
  split_ifs with hlt
  · exact hall _
  have htrimmed : ∀ {f : ℕ → Option ℕ} (q : ℕ), f dlpn = none → (∀ q ≠ dlpn, f q = s.ppn q) →
      Function.update s.trimMap dlpn true q = true → f q = none := by
    intro f q hself hother htrim
    by_cases hq : q = dlpn
    · rw [hq, hself]
    · rw [Function.update_of_ne hq] at htrim
      rw [hother q hq, hs.trimmed q htrim]
  by_cases hopt : (s.blockMap (dlpn / size)).optimal = true
  · dsimp only
    rw [if_pos hopt]
    refine (trimOptimal_handled hall cfg _ dlpn).mono fun t ht => ?_
    have hparent : t.toDftlParent = s.toDftlParent := ht.parent
    have htrimMap : t.trimMap = Function.update s.trimMap dlpn true := ht.trimMap
    have hflags : ∀ b, (t.blockMap b).optimal = (s.blockMap b).optimal := ht.optimal
    refine ⟨hparent ▸ hs.numbered, fun q hq => ?_, fun q hq => ?_⟩
    · rw [htrimMap] at hq
      rw [hparent]
      exact htrimmed q (hs.optimal dlpn hopt) (fun _ _ => rfl) hq
    · rw [hflags] at hq
      rw [hparent]
      exact hs.optimal q hq
  · dsimp only
    rw [if_neg hopt]
    refine (trimMapped_cleared (s := { s with trimMap := Function.update s.trimMap dlpn true })
      hall hs.numbered dlpn).bind fun t ht => ?_
    refine resetBlock_unmapped hsize ⟨ht.numbered, fun q hq => ?_, fun q hq => ?_⟩ dlpn
    · rw [ht.trimMap] at hq
      exact htrimmed q ht.self ht.other hq
    · rw [ht.blockMap] at hq
      by_cases hself : q = dlpn
      · rw [hself]
        exact ht.self
      · exact (ht.other q hself).trans (hs.optimal q hq)

theorem serve_unmapped (hsize : 0 < size) (hall : ∀ e, ok e) (hs : Unmapped s)
    (r : BdftlRequest τ π) : Yields ok (s.serve cfg r) Unmapped := by
  cases r with
  | read dlpn startTime => exact (read_spec hall hs dlpn startTime).bind fun _ hr => hr.2
  | write dlpn startTime payload =>
    exact (write_spec hall hs.numbered dlpn startTime payload).mono fun _ ht => ht.unmapped hs
  | trim dlpn => exact trim_unmapped hsize hall hs dlpn

end Bdftl

/-- **The transfer of BDFTL.** In every state that is reached, a write that makes a block not optimal keeps
its other pages precisely when none of them is readable. -/
theorem bdftl_conversion_iff {n : ℕ} {τ π : Type} [Clock τ] [TransMap n τ] (cfg : BdftlConfig)
    (erases : ℕ) (junk : ℕ → π) (reverse : Option ℕ → ℕ) (trimmed : ℕ → Bool) (rs : List (BdftlRequest τ π))
    (s t : Bdftl cfg.blockSize n τ π)
    (hs : Bdftl.serveAll cfg (Bdftl.new erases junk reverse trimmed) rs = .ok s)
    (dlpn : ℕ) (startTime : τ) (payload : π) (ht : s.write cfg dlpn startTime payload = .ok t)
    (hbefore : (s.blockMap (dlpn / cfg.blockSize)).optimal = true)
    (hafter : (t.blockMap (dlpn / cfg.blockSize)).optimal = false) :
    Bdftl.Preserves s t dlpn ↔ ∀ q, q / cfg.blockSize = dlpn / cfg.blockSize → q ≠ dlpn →
      ¬ s.Readable q := by
  have hrun : Yields (fun _ => True)
      (Bdftl.serveAll cfg (Bdftl.new erases junk reverse trimmed : Bdftl cfg.blockSize n τ π) rs)
      Bdftl.Unmapped := by
    refine Yields.foldlM_list (fun _ => Bdftl.Unmapped) (Bdftl.unmapped_new _ _ _ _) ?_
    intro pre r post u _ hu
    exact Bdftl.serve_unmapped cfg.blockSize_pos (fun _ => trivial) hu r
  have hunmapped := hrun.of_ok hs
  have hwrite : Yields (fun _ => True) (s.write cfg dlpn startTime payload)
      fun t => Bdftl.Written s t dlpn :=
    Bdftl.write_spec (fun _ => trivial) hunmapped.numbered dlpn startTime payload
  rw [(hwrite.of_ok ht).preserves_iff hbefore hafter]
  refine forall_congr' fun q => forall_congr' fun hblock => forall_congr' fun _ => ?_
  have hnone : s.ppn q = none := hunmapped.optimal q (hblock ▸ hbefore)
  refine ⟨fun hkept hreadable => ?_, fun hno hreadable => absurd hreadable hno⟩
  rcases hkept hreadable with ⟨-, hset⟩ | hsame
  · have hq : dlpn / cfg.blockSize * cfg.blockSize + q % cfg.blockSize = q := by
      rw [← hblock, Nat.div_add_mod']
    exact hset.2 (hq.symm ▸ hnone)
  · obtain ⟨a, ha, -⟩ := hreadable
    rw [hnone, ha] at hsame
    cases hsame

def smallBdftl : BdftlConfig :=
  ⟨⟨2, 12, 12, fun _ => false, Nat.two_pos⟩, ⟨2, 2, Nat.two_pos, Nat.two_pos⟩⟩

/-- A device with 12 blocks of two pages. -/
def smallBdftlDevice : Bdftl 2 24 ℤ ℕ := .new 9 id (fun _ => 0) fun _ => false

/-- The only page of a block is written again. -/
theorem bdftl_conversion_iff_single :
    ∃ s t, smallBdftlDevice.serveAll smallBdftl [.write 0 0 10] = .ok s ∧
      s.write smallBdftl 0 1 20 = .ok t ∧ Bdftl.Preserves s t 0 := by
  have hrun : ∃ s t, smallBdftlDevice.serveAll smallBdftl [.write 0 0 10] = .ok s ∧
      s.write smallBdftl 0 1 20 = .ok t ∧ (s.blockMap 0).optimal = true ∧
        (t.blockMap 0).optimal = false ∧ s.lookup 1 = some 1 ∧
          s.media.flash.stateAt 1 = .empty := ⟨_, _, rfl, rfl, rfl, rfl, rfl, rfl⟩
  obtain ⟨s, t, hs, ht, hbefore, hafter, hlookup, hempty⟩ := hrun
  refine ⟨s, t, hs, ht, (bdftl_conversion_iff smallBdftl 9 id (fun _ => 0) (fun _ => false) _ s t hs 0 1
    20 ht hbefore hafter).mpr ?_⟩
  rintro q hblock hne ⟨a, ha, hvalid⟩
  obtain rfl : q = 1 := by
    have hblock' : q / 2 = 0 := hblock
    omega
  obtain rfl := Option.some.inj (hlookup.symm.trans ha)
  have hstate := hempty.symm.trans hvalid
  cases hstate

/-- **A page that is lost**: the block has two pages, and the write of the first one again leaves the
second one without an address. -/
theorem converted_page_lost :
    ∃ s t, smallBdftlDevice.serveAll smallBdftl [.write 0 0 10, .write 1 1 11] = .ok s ∧
      s.write smallBdftl 0 2 20 = .ok t ∧ (s.blockMap 0).optimal = true ∧
        (t.blockMap 0).optimal = false ∧ s.lookup 1 = some 1 ∧ s.media.flash.Holds 1 11 ∧
          t.lookup 1 = none ∧ ¬ Bdftl.Preserves s t 0 := by
  have hrun : ∃ s t, smallBdftlDevice.serveAll smallBdftl [.write 0 0 10, .write 1 1 11] = .ok s ∧
      s.write smallBdftl 0 2 20 = .ok t ∧ (s.blockMap 0).optimal = true ∧
        (t.blockMap 0).optimal = false ∧ s.lookup 1 = some 1 ∧ s.media.flash.Holds 1 11 ∧
          t.lookup 1 = none := ⟨_, _, rfl, rfl, rfl, rfl, rfl, ⟨rfl, rfl⟩, rfl⟩
  obtain ⟨s, t, hs, ht, hbefore, hafter, hlookup, hholds, hlost⟩ := hrun
  refine ⟨s, t, hs, ht, hbefore, hafter, hlookup, hholds, hlost, fun hpreserves => ?_⟩
  have hkept := hpreserves 1 rfl (by decide) ⟨1, hlookup, hholds.valid⟩
  rw [hlookup, hlost] at hkept
  cases hkept

end ZnsFlash
