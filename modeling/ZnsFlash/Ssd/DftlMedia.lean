import ZnsFlash.Library.Placement
import ZnsFlash.Ssd.DftlCache

/-!
# DFTL on the flash

`dftl_ftl.cpp` with the pages themselves. `Controller::issue`, which the sources only stub, stores the
payload of a write, marks the page valid and invalidates the replace address; a trim does nothing there.

* `Cleanup`, `Copying.page`, `Dftl.cleanupBlock`: a block is cleaned up, and erased by the block manager;
* `Dftl.read`, `Dftl.write`, `Dftl.trim`: the requests, on `DftlParent`;
* `DftlCommand`, `latest`: a history of requests, and what they leave under a logical page;
* `Dftl.Stores`: each live logical page has a valid page of its own, which holds its latest payload;
  `copyPages_spec`, `moveEntries_spec`, `cleanupBlock_stores`, `write_stores`, `trim_stores`;
* **`dftl_reads_latest`**, **`dftl_valid_iff_mapped`**: after any requests.
-/

namespace ZnsFlash

open Placement Holdings Yields

/-- A block that is cleaned up, and the pages that `get_free_data_page` returns for it. -/
structure Cleanup where
  block : ℕ
  freePages : List ℕ

/-- The first loop of `cleanup_block` on its way: the flash, the free pages to come, and the pages that
were moved. -/
structure Copying (size : ℕ) (π : Type) where
  flash : Flash size π
  freePages : List ℕ
  moved : List (ℕ × ℕ)

/-- The body of that loop. -/
def Copying.page {size : ℕ} {π : Type} (physicalAddress : ℕ) (c : Copying size π) (i : ℕ) :
    Except Halt (Copying size π) :=
  match c.flash.stateAt (physicalAddress + i) with
  | .empty => .error .badAddress
  | .invalid => .ok c
  | .valid =>
    match c.freePages with
    | [] => .error .noFreeBlock
    | freePage :: freePages => do
      let flash ← c.flash.write freePage (c.flash.pageData (physicalAddress + i))
      .ok ⟨flash.invalidate (physicalAddress + i), freePages, c.moved ++ [(i, freePage)]⟩

/-- `FtlImpl_Dftl` and its flash. -/
structure Dftl (n size : ℕ) (τ π : Type) [Clock τ] [TransMap n τ] where
  ftl : DftlParent n τ
  flash : Flash size π

/-- A request, with what the block manager does in it. -/
inductive DftlCommand (τ π : Type)
  | read (dlpn : ℕ) (startTime : τ)
  | write (dlpn : ℕ) (startTime : τ) (payload : π) (blocks : List Cleanup) (freePage : ℕ)
  | trim (dlpn : ℕ)

namespace Dftl

variable {n size : ℕ} {τ π : Type} [Clock τ] [TransMap n τ]

/-- The state at start-up. -/
def new (junk : Option ℕ → ℕ) (erases : ℕ) (junkData : ℕ → π) : Dftl n size τ π :=
  ⟨.new junk, ⟨fun _ => .new erases, junkData⟩⟩

/-- `cleanup_block`, and the erase that follows it in `insert_events`. -/
def cleanupBlock (startTime : τ) (d : Dftl n size τ π) (k : Cleanup) :
    Except Halt (Dftl n size τ π) := do
  let c ← (List.range size).foldlM (Copying.page (k.block * size)) ⟨d.flash, k.freePages, []⟩
  let ftl ← d.ftl.cleanupBlock startTime ⟨k.block * size, c.moved⟩
  let flash ← c.flash.erase k.block
  .ok ⟨ftl, flash⟩

/-- `read`: what stands at the page that is found. A page that is not mapped is not read. -/
def read (cfg : DftlConfig) (d : Dftl n size τ π) (dlpn : ℕ) (startTime : τ) :
    Except Halt (Option π × Dftl n size τ π) := do
  let ftl ← d.ftl.resolveMapping cfg dlpn startTime false
  let current ← ftl.entry dlpn
  .ok (current.ppn.map d.flash.pageData, ⟨ftl, d.flash⟩)

/-- `write`, when `get_free_data_page` returns `freePage` after some blocks have been cleaned up. -/
def write (cfg : DftlConfig) (d : Dftl n size τ π) (dlpn : ℕ) (startTime : τ) (payload : π)
    (blocks : List Cleanup) (freePage : ℕ) : Except Halt (Dftl n size τ π) := do
  let ftl ← d.ftl.resolveMapping cfg dlpn startTime true
  let d ← blocks.foldlM (cleanupBlock startTime) ⟨ftl, d.flash⟩
  let current ← d.ftl.entry dlpn
  let (mpage, ftl) := d.ftl.updateTranslationMap current (some freePage)
  let ftl ← ftl.replace dlpn mpage
  let flash ← d.flash.write freePage payload
  .ok ⟨ftl, current.ppn.elim flash flash.invalidate⟩

/-- `trim` -/
def trim (cfg : DftlConfig) (d : Dftl n size τ π) (dlpn : ℕ) : Except Halt (Dftl n size τ π) := do
  let current ← d.ftl.entry dlpn
  let ftl ← d.ftl.trim cfg dlpn
  .ok ⟨ftl, current.ppn.elim d.flash d.flash.invalidate⟩

def serve (cfg : DftlConfig) (d : Dftl n size τ π) : DftlCommand τ π → Except Halt (Dftl n size τ π)
  | .read dlpn startTime => (d.read cfg dlpn startTime).map Prod.snd
  | .write dlpn startTime payload blocks freePage =>
    d.write cfg dlpn startTime payload blocks freePage
  | .trim dlpn => d.trim cfg dlpn

def serveAll (cfg : DftlConfig) (d : Dftl n size τ π) (cs : List (DftlCommand τ π)) :
    Except Halt (Dftl n size τ π) := cs.foldlM (serve cfg) d

end Dftl

/-- What one request leaves under a logical page. -/
def recordCommand {τ π : Type} (contents : ℕ → Option π) : DftlCommand τ π → ℕ → Option π
  | .read _ _ => contents
  | .write dlpn _ payload _ _ => Function.update contents dlpn (some payload)
  | .trim dlpn => Function.update contents dlpn none

/-- **The payload of the latest write** of a logical page, if it has not been trimmed since. -/
def latest {τ π : Type} (cs : List (DftlCommand τ π)) : ℕ → Option π :=
  cs.foldl recordCommand fun _ => none

/-- The pages for a block that is cleaned up are in other blocks. -/
def Cleanup.Apart (size : ℕ) (k : Cleanup) : Prop := ∀ page ∈ k.freePages, page / size ≠ k.block

/-- The block manager cleans up other blocks than the ones it fills. -/
def DftlCommand.Apart {τ π : Type} (size : ℕ) : DftlCommand τ π → Prop
  | .write _ _ _ blocks _ => ∀ k ∈ blocks, k.Apart size
  | _ => True

/-! ## What the table does -/

variable {n size : ℕ} {τ π : Type} [Clock τ] [TransMap n τ] {ok : Halt → Prop}

namespace DftlParent

variable {s t : DftlParent n τ} {cfg : DftlConfig} {mpage : MPage τ} {i dlpn : ℕ}

/-- The pages of the logical pages. -/
def mappedPage (s : DftlParent n τ) (i : Fin n) : Option ℕ := (s.transMap.get i).ppn

theorem SameMapping.mappedPage_eq (h : SameMapping s t) : t.mappedPage = s.mappedPage := funext h.ppn

/-- The reverse map stays. -/
def SameReverse (s t : DftlParent n τ) : Prop := t.reverseTransMap = s.reverseTransMap

theorem SameReverse.trans {u : DftlParent n τ} (h : SameReverse s t) (h' : SameReverse t u) :
    SameReverse s u := Eq.trans h' h

section Reverse

variable (hall : ∀ e, ok e)
include hall

theorem replace_reverse (s : DftlParent n τ) (i : ℕ) (mpage : MPage τ) :
    Yields ok (s.replace i mpage) (SameReverse s) := by
  rw [replace]
  split_ifs
  · exact rfl
  · exact hall _

theorem writeBack_reverse (s : DftlParent n τ) (evictPage : MPage τ) :
    Yields ok (s.writeBack cfg evictPage) (SameReverse s) := by
  rw [writeBack]
  split_ifs
  · refine Yields.foldlM_range (fun _ t => SameReverse s t) rfl fun k t _ ht => ?_
    refine (entry_spec (hall _) t _).bind fun cur _ => ?_
    split_ifs
    · exact (replace_reverse hall t _ _).mono fun u hu => ht.trans hu
    · exact ht
  · exact rfl

theorem evict_reverse (s : DftlParent n τ) (evictPage : MPage τ) :
    Yields ok (s.evict cfg evictPage) (SameReverse s) := by
  rw [evict]
  split_ifs
  · exact hall _
  · exact hall _
  · refine (writeBack_reverse hall s _).bind fun t ht => ?_
    exact (replace_reverse hall _ _ _).mono fun u hu => ht.trans hu

theorem evictWhile_reverse (rounds : ℕ) (s : DftlParent n τ) :
    Yields ok (evictWhile cfg rounds s) (SameReverse s) := by
  induction rounds generalizing s with
  | zero => exact rfl
  | succ rounds ih =>
    have hfirst : Yields ok (s.evictFirst cfg) (SameReverse s) := by
      rw [evictFirst]
      cases s.transMap.first with
      | none => exact hall _
      | some j => exact evict_reverse hall s _
    rw [evictWhile]
    split_ifs
    · exact hfirst.bind fun t ht => (ih t).mono fun u hu => ht.trans hu
    · exact rfl

theorem resolveMapping_reverse (s : DftlParent n τ) (dlpn : ℕ) (startTime : τ) (isWrite : Bool) :
    Yields ok (s.resolveMapping cfg dlpn startTime isWrite) (SameReverse s) := by
  refine (entry_spec (hall _) s dlpn).bind fun found _ => ?_
  by_cases hfound : found.cached = true
  · rw [if_pos hfound]
    exact replace_reverse hall s _ _
  · rw [if_neg hfound]
    refine (evictWhile_reverse hall _ s).bind fun t ht => ?_
    refine (entry_spec (hall _) t dlpn).bind fun current _ => ?_
    exact (replace_reverse hall t _ _).bind fun u hu => ht.trans hu

theorem evictSpecificPageFromCache_reverse (s : DftlParent n τ) (lba : ℕ) :
    Yields ok (s.evictSpecificPageFromCache cfg lba) (SameReverse s) := by
  refine (entry_spec (hall _) s lba).bind fun evictPage _ => ?_
  split_ifs
  · exact rfl
  · exact evict_reverse hall s _

end Reverse

/-- **A logical page gets a physical page**, or none. -/
structure Assigned (s : DftlParent n τ) (i : ℕ) (page : Option ℕ) (t : DftlParent n τ) : Prop where
  numbered : Numbered t
  ppn : ∃ h : i < n, t.mappedPage = Function.update s.mappedPage ⟨i, h⟩ page
  reverse : t.reverseTransMap = Function.update s.reverseTransMap page i

theorem assigned_of_replaced {u : DftlParent n τ} (h : Replaced u i mpage t ∧ SameReverse u t)
    (hs : Numbered s) (hvpn : mpage.vpn = i) (hget : u.transMap.get = s.transMap.get)
    (hreverse : u.reverseTransMap = Function.update s.reverseTransMap mpage.ppn mpage.vpn) :
    Assigned s i mpage.ppn t := by
  obtain ⟨hi, hupdate⟩ := h.1.get
  have hnumbered : Numbered u := fun k => by
    rw [hget]
    exact hs k
  have hlast : t.reverseTransMap = u.reverseTransMap := h.2
  refine ⟨h.1.numbered hnumbered hvpn, ⟨hi, ?_⟩, ?_⟩
  · funext k
    rw [DftlParent.mappedPage, hupdate, hget]
    by_cases hk : k = ⟨i, hi⟩
    · simp [hk]
    · simp [hk, DftlParent.mappedPage]
  · rw [hlast, hreverse, hvpn]

section Assign

variable (hall : ∀ e, ok e)
include hall

theorem moveEntry_assigned (hs : Numbered s) (startTime : τ) (page : ℕ × ℕ) :
    Yields ok (moveEntry startTime s page) (Assigned s page.1 (some page.2)) := by
  refine (entry_spec (hall _) s page.1).bind ?_
  rintro current ⟨hlt, rfl⟩
  have hvpn := hs ⟨page.1, hlt⟩
  dsimp only [updateTranslationMap]
  split_ifs
  · refine ((replace_spec (hall _) _ page.1 _).and (replace_reverse hall _ _ _)).mono fun t ht => ?_
    exact assigned_of_replaced ht hs hvpn rfl rfl
  · refine ((replace_spec (hall _) _ page.1 _).and (replace_reverse hall _ _ _)).mono fun t ht => ?_
    exact assigned_of_replaced ht hs hvpn rfl rfl

theorem trim_assigned (hs : Numbered s) (dlpn : ℕ) :
    Yields ok (s.trim cfg dlpn) fun t => Assigned s dlpn none t ∨
      t = s ∧ ∃ h : dlpn < n, s.mappedPage ⟨dlpn, h⟩ = none := by
  refine (entry_spec (hall _) s dlpn).bind ?_
  rintro current ⟨hlt, rfl⟩
  cases hppn : (s.transMap.get ⟨dlpn, hlt⟩).ppn with
  | none => exact .inr ⟨rfl, hlt, hppn⟩
  | some ppn =>
    have hvpn := hs ⟨dlpn, hlt⟩
    refine ((evictSpecificPageFromCache_same hall hs dlpn).and
      (evictSpecificPageFromCache_reverse hall s dlpn)).bind ?_
    rintro t ⟨hsame, hreverse⟩
    refine ((replace_spec (hall _) _ dlpn _).and (replace_reverse hall _ _ _)).mono fun u hu => ?_
    have hassigned := assigned_of_replaced hu (hsame.numbered hs) hvpn rfl rfl
    refine .inl ⟨hassigned.numbered, ⟨hlt, ?_⟩, ?_⟩
    · obtain ⟨_, hnext⟩ := hassigned.ppn
      rw [hnext, hsame.mappedPage_eq]
    · rw [hassigned.reverse, hreverse]

end Assign

end DftlParent

/-! ## Pages that are moved -/

/-- The pages that are valid. -/
def Flash.used (f : Flash size π) : Set ℕ := {page | f.stateAt page = .valid}

section Used

variable {f g : Flash size π} {page target : ℕ} {payload : π}

theorem Written.used (h : Written f g target payload) : g.used = insert target f.used := by
  ext p
  show g.stateAt p = .valid ↔ p = target ∨ f.stateAt p = .valid
  rw [h.state]
  by_cases hp : p = target <;> simp [hp]

theorem Written.notMem (h : Written f g target payload) : target ∉ f.used := by
  show ¬ f.stateAt target = .valid
  rw [h.empty]
  decide

theorem used_invalidate (hsize : 0 < size) (hf : f.Sound) (page : ℕ) :
    (f.invalidate page).used = f.used \ {page} := by
  obtain ⟨-, hstate, -⟩ := Flash.invalidate_spec hsize hf page
  ext p
  show (f.invalidate page).stateAt p = .valid ↔ f.stateAt p = .valid ∧ p ≠ page
  rw [hstate]
  by_cases hp : p = page <;> simp [hp]

theorem Written.used_replaced (hsize : 0 < size) (h : Written f g target payload)
    (hpage : page ∈ f.used) : (g.invalidate page).used = insert target (f.used \ {page}) := by
  have hne : target ≠ page := fun heq => h.notMem (heq ▸ hpage)
  rw [used_invalidate hsize h.sound, h.used, Set.insert_sdiff_of_notMem _ (by simpa using hne)]

theorem Flash.write_yields (hall : ∀ e, ok e) (hsize : 0 < size) (hf : f.Sound) (target : ℕ)
    (payload : π) : Yields ok (f.write target payload) fun g => Written f g target payload := by
  by_cases hempty : f.stateAt target = .empty
  · exact Written.of_write hsize hf hempty
  · rw [Flash.write, if_neg hempty]
    exact hall _

end Used

theorem assign_perm {vpn ppn : ℕ} {map : List (ℕ × ℕ)} (h : vpn ∉ map.map Prod.fst) :
    (assign vpn ppn map).Perm ((vpn, ppn) :: map) := by
  induction map with
  | nil => exact .refl _
  | cons e rest ih =>
    obtain ⟨key, value⟩ := e
    rw [List.map_cons, List.mem_cons, not_or] at h
    rw [assign]
    split_ifs with hlt heq
    · exact .refl _
    · exact absurd heq h.1
    · exact ((ih h.2).cons _).trans (.swap _ _ _)

theorem foldl_assign_perm {l : List (ℕ × ℕ)} (h : (l.map Prod.fst).Nodup) :
    (l.foldl (fun map e => assign e.1 e.2 map) []).Perm l := by
  induction l using List.reverseRecOn with
  | nil => exact .refl _
  | append_singleton l e ih =>
    rw [List.map_append, List.map_singleton, List.nodup_append] at h
    have hperm := ih h.1
    have hnot : e.1 ∉ (l.foldl (fun map e => assign e.1 e.2 map) []).map Prod.fst := fun hmem =>
      h.2.2 e.1 ((hperm.map Prod.fst).mem_iff.mp hmem) e.1 List.mem_cons_self rfl
    rw [List.foldl_append]
    exact (assign_perm hnot).trans ((hperm.cons e).trans (List.perm_append_singleton e l).symm)

/-- Logical pages by their numbers. -/
def numbers (l : List (Fin n × ℕ)) : List (ℕ × ℕ) := l.map fun e => ((e.1 : ℕ), e.2)

theorem numbers_injective : Function.Injective fun e : Fin n × ℕ => ((e.1 : ℕ), e.2) := by
  rintro ⟨i, p⟩ ⟨j, q⟩ h
  obtain ⟨hi, hp⟩ := Prod.mk.inj h
  exact Prod.ext (Fin.ext hi) hp

theorem fst_numbers (l : List (Fin n × ℕ)) :
    (numbers l).map Prod.fst = (l.map Prod.fst).map Fin.val := by
  simp [numbers, Function.comp_def]

theorem snd_numbers (l : List (Fin n × ℕ)) : (numbers l).map Prod.snd = l.map Prod.snd := by
  simp [numbers, Function.comp_def]

namespace DftlParent

variable {s : DftlParent n τ}

/-- Some logical pages got new pages. -/
structure Moved (s : DftlParent n τ) (l : List (Fin n × ℕ)) (t : DftlParent n τ) : Prop where
  numbered : Numbered t
  ppn : t.mappedPage = assignAll s.mappedPage l
  target : ∀ e ∈ l, t.reverseTransMap (some e.2) = e.1
  other : ∀ page ∉ l.map Prod.snd, t.reverseTransMap (some page) = s.reverseTransMap (some page)

theorem moveEntries_spec (hall : ∀ e, ok e) (hs : Numbered s) (startTime : τ) (pages : List (ℕ × ℕ))
    (hnodup : (pages.map Prod.snd).Nodup) : Yields ok (pages.foldlM (moveEntry startTime) s) fun t =>
      ∃ l, numbers l = pages ∧ Moved s l t := by
  refine Yields.foldlM_list (fun pre t => ∃ l : List (Fin n × ℕ), numbers l = pre ∧ Moved s l t)
    ⟨[], rfl, hs, rfl, by simp, fun _ _ => rfl⟩ ?_
  rintro pre page post t rfl ⟨l, rfl, ht⟩
  rw [List.map_append, List.map_cons, snd_numbers, List.nodup_append] at hnodup
  have hnew : page.2 ∉ l.map Prod.snd := fun hmem => hnodup.2.2 _ hmem _ List.mem_cons_self rfl
  refine (moveEntry_assigned hall ht.numbered startTime page).mono fun u hu => ?_
  obtain ⟨hlt, hppn⟩ := hu.ppn
  have hconcat : numbers (l ++ [(⟨page.1, hlt⟩, page.2)]) = numbers l ++ [page] := by simp [numbers]
  refine ⟨l ++ [(⟨page.1, hlt⟩, page.2)], hconcat, hu.numbered, ?_, ?_, ?_⟩
  · rw [assignAll_concat, hppn, ht.ppn]
  · intro e he
    rw [hu.reverse]
    rcases List.mem_append.mp he with hmem | hmem
    · have hne : some e.2 ≠ some page.2 := fun heq =>
        hnew (Option.some.inj heq ▸ List.mem_map_of_mem hmem)
      rw [Function.update_of_ne hne, ht.target e hmem]
    · obtain rfl := List.mem_singleton.mp hmem
      rw [Function.update_self]
  · intro q hq
    rw [List.map_append, List.mem_append, not_or, List.map_singleton, List.mem_singleton] at hq
    have hne : some q ≠ some page.2 := fun heq => hq.2 (Option.some.inj heq)
    rw [hu.reverse, Function.update_of_ne hne, ht.other q hq.1]

end DftlParent

namespace Dftl

variable {d : Dftl n size τ π} {contents : ℕ → Option π}

/-- **Each live logical page has a valid page of its own**, with the contents that are meant, and the
reverse map leads back. -/
structure Stores (d : Dftl n size τ π) (contents : ℕ → Option π) : Prop where
  numbered : d.ftl.Numbered
  sound : d.flash.Sound
  places : Places d.ftl.mappedPage d.flash.used d.flash.pageData fun i : Fin n => contents i
  reverse : ∀ i page, d.ftl.mappedPage i = some page → d.ftl.reverseTransMap (some page) = i

/-- The first loop of `cleanup_block` after `k` pages: some logical pages have new pages, but the table
does not say so yet. -/
structure Copied (s : DftlParent n τ) (block : ℕ) (contents : ℕ → Option π) (k : ℕ)
    (c : Copying size π) (l : List (Fin n × ℕ)) : Prop where
  sound : c.flash.Sound
  cleared : ∀ i < k, c.flash.stateAt (block * size + i) ≠ .valid
  free : ∀ page ∈ c.freePages, page / size ≠ block
  moved : numbers l =
    c.moved.map fun page => (s.reverseTransMap (some (block * size + page.1)), page.2)
  nodup : (l.map Prod.fst).Nodup
  away : ∀ e ∈ l, e.2 / size ≠ block
  places : Places (assignAll s.mappedPage l) c.flash.used c.flash.pageData fun i : Fin n => contents i

theorem block_div {block i : ℕ} (hi : i < size) : (block * size + i) / size = block := by
  have hpos : 0 < size := Nat.zero_lt_of_lt hi
  rw [Nat.mul_comm, Nat.mul_add_div hpos, Nat.div_eq_of_lt hi, Nat.add_zero]

theorem copyPage_spec (hall : ∀ e, ok e) {s : DftlParent n τ}
    (hreverse : ∀ i page, s.mappedPage i = some page → s.reverseTransMap (some page) = i) {block k : ℕ}
    {c : Copying size π} {l : List (Fin n × ℕ)} (hk : k < size) (h : Copied s block contents k c l) :
    Yields ok (c.page (block * size) k) fun c' => ∃ l', Copied s block contents (k + 1) c' l' := by
  have hsize : 0 < size := Nat.zero_lt_of_lt hk
  rw [Copying.page]
  cases hstate : c.flash.stateAt (block * size + k) with
  | empty => exact hall _
  | invalid =>
    refine ⟨l, h.sound, fun i hi => ?_, h.free, h.moved, h.nodup, h.away, h.places⟩
    rcases Nat.lt_succ_iff_lt_or_eq.mp hi with hi | rfl
    · exact h.cleared i hi
    · rw [hstate]
      decide
  | valid =>
    cases hfree : c.freePages with
    | nil => exact hall _
    | cons target rest =>
      have hused : block * size + k ∈ c.flash.used := hstate
      have htarget : target / size ≠ block := h.free target (hfree ▸ List.mem_cons_self)
      obtain ⟨j, hj⟩ := h.places.exists_owner hused
      have hdiv : (block * size + k) / size = block := block_div hk
      -- the page is not one of the new ones, which are in other blocks
      have hnew : j ∉ l.map Prod.fst := fun hmem => by
        obtain ⟨⟨j', p⟩, he, rfl⟩ := List.mem_map.mp hmem
        rw [assignAll_of_mem _ h.nodup he] at hj
        have haway := h.away _ he
        rw [Option.some.inj hj] at haway
        exact haway hdiv
      have hold : s.mappedPage j = some (block * size + k) := (assignAll_of_notMem hnew).symm.trans hj
      refine (Flash.write_yields hall hsize h.sound target _).bind fun g hg => ?_
      have hplaces := h.places.move hj hg.notMem
      obtain ⟨hsound, hstates, hdata, -⟩ := Flash.invalidate_spec hsize hg.sound (block * size + k)
      refine ⟨l ++ [(j, target)], hsound, fun i hi => ?_, fun page hpage => ?_, ?_, ?_, ?_, ?_⟩
      · rw [hstates, hg.state]
        rcases Nat.lt_succ_iff_lt_or_eq.mp hi with hi | rfl
        · have hne : block * size + i ≠ block * size + k := by omega
          have hne' : block * size + i ≠ target := by
            rintro rfl
            exact htarget (block_div (hi.trans hk))
          rw [Function.update_of_ne hne, Function.update_of_ne hne']
          exact h.cleared i hi
        · rw [Function.update_self]
          decide
      · exact h.free page (hfree ▸ List.mem_cons_of_mem _ hpage)
      · rw [List.map_append, ← h.moved, List.map_singleton, hreverse j _ hold]
        simp [numbers]
      · rw [List.map_append, List.map_singleton]
        exact List.nodup_append.mpr ⟨h.nodup, List.nodup_singleton _, by
          rintro a ha b hb rfl
          rw [List.mem_singleton.mp hb] at ha
          exact hnew ha⟩
      · intro e he
        rcases List.mem_append.mp he with hmem | hmem
        · exact h.away e hmem
        · rw [List.mem_singleton.mp hmem]
          exact htarget
      · rw [assignAll_concat, hg.used_replaced hsize hused, hdata, hg.data]
        exact hplaces

theorem copyPages_spec (hall : ∀ e, ok e) (h : d.Stores contents) {k : Cleanup} (hk : k.Apart size) :
    Yields ok ((List.range size).foldlM (Copying.page (k.block * size)) ⟨d.flash, k.freePages, []⟩)
      fun c => ∃ l, Copied d.ftl k.block contents size c l := by
  refine Yields.foldlM_range (fun i c => ∃ l, Copied d.ftl k.block contents i c l) ⟨[], ?_⟩ ?_
  · refine ⟨h.sound, fun i hi => ?_, hk, rfl, List.nodup_nil, fun e he => ?_, h.places⟩
    · exact absurd hi (Nat.not_lt_zero i)
    · exact absurd he List.not_mem_nil
  · rintro i c hi ⟨l, hc⟩
    exact copyPage_spec hall h.reverse hi hc

theorem Copied.nodup_targets {s : DftlParent n τ} {block k : ℕ} {c : Copying size π}
    {l : List (Fin n × ℕ)} (h : Copied s block contents k c l) : (l.map Prod.snd).Nodup := by
  refine List.Nodup.map_on ?_ h.nodup.of_map
  intro e he e' he' heq
  have hown := assignAll_of_mem s.mappedPage h.nodup he
  have hown' := assignAll_of_mem s.mappedPage h.nodup he'
  rw [← heq] at hown'
  exact Prod.ext (h.places.exclusive _ _ _ hown hown') heq

theorem cleanupBlock_stores (hall : ∀ e, ok e) (hsize : 0 < size) (h : d.Stores contents)
    (startTime : τ) {k : Cleanup} (hk : k.Apart size) :
    Yields ok (d.cleanupBlock startTime k) fun d' => d'.Stores contents := by
  refine (copyPages_spec hall h hk).bind ?_
  rintro c ⟨l, hc⟩
  have hkeys : ((numbers l).map Prod.fst).Nodup := by
    rw [fst_numbers]
    exact hc.nodup.map Fin.val_injective
  have hperm : (d.ftl.invalidatedTranslation ⟨k.block * size, c.moved⟩).Perm (numbers l) := by
    rw [hc.moved] at hkeys ⊢
    have hfold := foldl_assign_perm hkeys
    rw [List.foldl_map] at hfold
    exact hfold
  have htargets : ((d.ftl.invalidatedTranslation ⟨k.block * size, c.moved⟩).map Prod.snd).Nodup := by
    rw [(hperm.map Prod.snd).nodup_iff, snd_numbers]
    exact hc.nodup_targets
  refine (DftlParent.moveEntries_spec hall h.numbered startTime _ htargets).bind ?_
  rintro ftl ⟨l', hl', hmoved⟩
  rw [← hl'] at hperm
  have hsame : l'.Perm l := (List.map_perm_map_iff numbers_injective).mp hperm
  have hppn : ftl.mappedPage = assignAll d.ftl.mappedPage l := by
    rw [hmoved.ppn, assignAll_perm ((hsame.map Prod.fst).nodup_iff.mpr hc.nodup) hsame]
  refine (Flash.erase_spec (hall _) hc.sound k.block).bind ?_
  rintro g ⟨hsound, herased, hdata, hother⟩
  -- no page of the block is valid any more
  have hused : g.used = c.flash.used := by
    ext page
    show g.stateAt page = .valid ↔ c.flash.stateAt page = .valid
    by_cases hblock : page / size = k.block
    · have hpage : k.block * size + page % size = page := by
        rw [← hblock, Nat.mul_comm, Nat.div_add_mod]
      have hclear := hc.cleared (page % size) (Nat.mod_lt page hsize)
      rw [hpage] at hclear
      have hempty : g.stateAt page = .empty := (hblock ▸ herased : g.Erased (page / size)).stateAt
      simp [hempty, hclear]
    · rw [Flash.stateAt_congr (hother _ hblock)]
  refine ⟨hmoved.numbered, hsound, ?_, fun i page hi => ?_⟩
  · rw [hppn, hused, hdata]
    exact hc.places
  · dsimp only at hi ⊢
    by_cases hpage : page ∈ l'.map Prod.snd
    · obtain ⟨e, he, rfl⟩ := List.mem_map.mp hpage
      have hown := assignAll_of_mem d.ftl.mappedPage hc.nodup (hsame.mem_iff.mp he)
      rw [hppn] at hi
      rw [hmoved.target e he, hc.places.exclusive _ _ _ hown hi]
    · have hnot : i ∉ l.map Prod.fst := fun hmem => by
        obtain ⟨⟨j, q⟩, he, rfl⟩ := List.mem_map.mp hmem
        rw [hppn, assignAll_of_mem _ hc.nodup he] at hi
        exact hpage (Option.some.inj hi ▸ List.mem_map_of_mem (hsame.mem_iff.mpr he))
      rw [hppn, assignAll_of_notMem hnot] at hi
      rw [hmoved.other page hpage, h.reverse i page hi]

/-! ## Requests -/

theorem Stores.resolve (hall : ∀ e, ok e) {cfg : DftlConfig} (h : d.Stores contents) (dlpn : ℕ)
    (startTime : τ) (isWrite : Bool) :
    Yields ok (d.ftl.resolveMapping cfg dlpn startTime isWrite) fun ftl =>
      (⟨ftl, d.flash⟩ : Dftl n size τ π).Stores contents := by
  refine ((DftlParent.resolveMapping_same hall h.numbered dlpn startTime isWrite).and
    (DftlParent.resolveMapping_reverse hall d.ftl dlpn startTime isWrite)).mono ?_
  rintro ftl ⟨hsame, hreverse⟩
  refine ⟨hsame.numbered h.numbered, h.sound, ?_, fun i page hi => ?_⟩
  · rw [hsame.mappedPage_eq]
    exact h.places
  · dsimp only at hi ⊢
    rw [hsame.mappedPage_eq] at hi
    rw [hreverse, h.reverse i page hi]

theorem update_contents (contents : ℕ → Option π) (i : Fin n) (x : Option π) :
    (fun j : Fin n => Function.update contents i x j) =
      Function.update (fun j : Fin n => contents j) i x := by
  funext j
  by_cases hj : j = i
  · simp [hj]
  · have hne : (j : ℕ) ≠ i := fun heq => hj (Fin.ext heq)
    simp [hj, hne]

theorem write_stores (hall : ∀ e, ok e) (hsize : 0 < size) {cfg : DftlConfig} (h : d.Stores contents)
    (dlpn : ℕ) (startTime : τ) (payload : π) {blocks : List Cleanup}
    (hblocks : ∀ k ∈ blocks, k.Apart size) (freePage : ℕ) :
    Yields ok (d.write cfg dlpn startTime payload blocks freePage) fun d' =>
      d'.Stores (Function.update contents dlpn (some payload)) := by
  refine (h.resolve hall dlpn startTime true).bind fun ftl hftl => ?_
  have hclean : Yields ok (blocks.foldlM (cleanupBlock startTime)
      (⟨ftl, d.flash⟩ : Dftl n size τ π)) fun d => d.Stores contents := by
    refine Yields.foldlM_list (fun _ (d : Dftl n size τ π) => d.Stores contents) hftl ?_
    rintro pre k post d rfl hd
    exact cleanupBlock_stores hall hsize hd startTime (hblocks k (by simp))
  -- the entry is read again after the collections, which may have moved its page
  refine hclean.bind fun d hd => ?_
  refine (DftlParent.entry_spec (hall _) d.ftl dlpn).bind ?_
  rintro current ⟨hlt, rfl⟩
  refine ((DftlParent.replace_spec (hall _) _ dlpn _).and
    (DftlParent.replace_reverse hall _ _ _)).bind fun t ht => ?_
  have hassigned := DftlParent.assigned_of_replaced ht hd.numbered (hd.numbered ⟨dlpn, hlt⟩) rfl rfl
  refine (Flash.write_yields hall hsize hd.sound freePage payload).bind fun g hg => ?_
  obtain ⟨_, hppn⟩ := hassigned.ppn
  have hput := hd.places.put ⟨dlpn, hlt⟩ hg.notMem payload
  rw [← update_contents] at hput
  have hreverse : ∀ i page, t.mappedPage i = some page → t.reverseTransMap (some page) = i := by
    intro i page hi
    rw [hppn] at hi
    rw [hassigned.reverse]
    by_cases hid : i = ⟨dlpn, hlt⟩
    · rw [hid, Function.update_self] at hi
      rw [← hi, hid, Function.update_self]
    · rw [Function.update_of_ne hid] at hi
      have hne : some page ≠ some freePage := fun heq =>
        hg.notMem (Option.some.inj heq ▸ hd.places.mem_used hi)
      rw [Function.update_of_ne hne, hd.reverse i page hi]
  -- the page that held the old version is invalidated, if there is one
  cases hold : (d.ftl.transMap.get ⟨dlpn, hlt⟩).ppn with
  | none =>
    have hnone : {page | d.ftl.mappedPage ⟨dlpn, hlt⟩ = some page} = ∅ := holding_of_none hold
    refine ⟨hassigned.numbered, hg.sound, ?_, hreverse⟩
    rw [hnone, Set.sdiff_empty, ← hg.used, ← hg.data, ← hppn] at hput
    exact hput
  | some old =>
    have hsome : {page | d.ftl.mappedPage ⟨dlpn, hlt⟩ = some page} = {old} := holding_of_some hold
    have hused : old ∈ d.flash.used := hd.places.mem_used hold
    obtain ⟨hsound, -, hdata, -⟩ := Flash.invalidate_spec hsize hg.sound old
    refine ⟨hassigned.numbered, hsound, ?_, hreverse⟩
    rw [hsome, ← hg.used_replaced hsize hused, ← hg.data, ← hdata, ← hppn] at hput
    exact hput

theorem trim_stores (hall : ∀ e, ok e) (hsize : 0 < size) {cfg : DftlConfig} (h : d.Stores contents)
    (dlpn : ℕ) : Yields ok (d.trim cfg dlpn) fun d' =>
      d'.Stores (Function.update contents dlpn none) := by
  refine (DftlParent.entry_spec (hall _) d.ftl dlpn).bind ?_
  rintro current ⟨hlt, rfl⟩
  have hremove := h.places.remove ⟨dlpn, hlt⟩
  rw [← update_contents] at hremove
  refine (DftlParent.trim_assigned hall h.numbered dlpn).bind ?_
  rintro ftl (hassigned | ⟨rfl, _, hnone⟩)
  · obtain ⟨_, hppn⟩ := hassigned.ppn
    have hreverse : ∀ i page, ftl.mappedPage i = some page → ftl.reverseTransMap (some page) = i := by
      intro i page hi
      rw [hppn] at hi
      rw [hassigned.reverse, Function.update_of_ne (Option.some_ne_none page)]
      exact h.reverse i page (of_update_none hi).2
    cases hold : (d.ftl.transMap.get ⟨dlpn, hlt⟩).ppn with
    | none =>
      have hnone : {page | d.ftl.mappedPage ⟨dlpn, hlt⟩ = some page} = ∅ := holding_of_none hold
      refine ⟨hassigned.numbered, h.sound, ?_, hreverse⟩
      rw [hnone, Set.sdiff_empty, ← hppn] at hremove
      exact hremove
    | some old =>
      have hsome : {page | d.ftl.mappedPage ⟨dlpn, hlt⟩ = some page} = {old} := holding_of_some hold
      obtain ⟨hsound, -, hdata, -⟩ := Flash.invalidate_spec hsize h.sound old
      refine ⟨hassigned.numbered, hsound, ?_, hreverse⟩
      rw [hsome, ← used_invalidate hsize h.sound, ← hdata, ← hppn] at hremove
      exact hremove
  · have hold : (d.ftl.transMap.get ⟨dlpn, hlt⟩).ppn = none := hnone
    have hempty : {page | d.ftl.mappedPage ⟨dlpn, hlt⟩ = some page} = ∅ := holding_of_none hold
    rw [hold]
    refine ⟨h.numbered, h.sound, ?_, h.reverse⟩
    rw [hempty, Set.sdiff_empty, ← hnone, Function.update_eq_self] at hremove
    exact hremove

theorem serve_stores (hall : ∀ e, ok e) (hsize : 0 < size) {cfg : DftlConfig} (h : d.Stores contents)
    {c : DftlCommand τ π} (hc : c.Apart size) :
    Yields ok (d.serve cfg c) fun d' => d'.Stores (recordCommand contents c) := by
  cases c with
  | read dlpn startTime =>
    have hread : Yields ok (d.read cfg dlpn startTime) fun r => r.2.Stores contents := by
      refine (h.resolve hall dlpn startTime false).bind fun ftl hftl => ?_
      exact (DftlParent.entry_spec (hall _) ftl dlpn).bind fun _ _ => hftl
    rw [serve]
    cases hrun : d.read cfg dlpn startTime with
    | error e => exact hall e
    | ok r => exact hread.of_ok hrun
  | write dlpn startTime payload blocks freePage =>
    exact write_stores hall hsize h dlpn startTime payload hc freePage
  | trim dlpn => exact trim_stores hall hsize h dlpn

theorem new_stores (junk : Option ℕ → ℕ) (erases : ℕ) (junkData : ℕ → π) :
    (new junk erases junkData : Dftl n size τ π).Stores fun _ => none := by
  have hunmapped : (DftlParent.new junk : DftlParent n τ).mappedPage = fun _ => none :=
    funext fun i => congrArg MPage.ppn (DftlParent.get_new junk i)
  have hempty : (new junk erases junkData : Dftl n size τ π).flash.used = ∅ :=
    Set.eq_empty_of_forall_notMem fun page hpage => by cases hpage
  refine ⟨DftlParent.numbered_new junk, fun _ => Block.sound_new erases, ?_, fun i page hi => ?_⟩
  · rw [hempty]
    exact hunmapped ▸ places_empty _
  · cases (congrFun hunmapped i).symm.trans hi

theorem serveAll_stores (hall : ∀ e, ok e) (hsize : 0 < size) (cfg : DftlConfig)
    (junk : Option ℕ → ℕ) (erases : ℕ) (junkData : ℕ → π) {cs : List (DftlCommand τ π)}
    (hcs : ∀ c ∈ cs, c.Apart size) :
    Yields ok ((new junk erases junkData : Dftl n size τ π).serveAll cfg cs) fun d =>
      d.Stores (latest cs) := by
  refine Yields.foldlM_list (fun pre (d : Dftl n size τ π) => d.Stores (latest pre))
    (new_stores junk erases junkData) ?_
  rintro pre c post d rfl hd
  rw [latest, List.foldl_append]
  exact serve_stores hall hsize hd (hcs c (by simp))

/-! The table alone runs the same requests. -/

section Table

variable {cfg : DftlConfig} {d' : Dftl n size τ π}

theorem cleanupBlocks_ftl {startTime : τ} {blocks : List Cleanup}
    (h : blocks.foldlM (cleanupBlock startTime) d = .ok d') :
    ∃ collections : List Collection,
      collections.foldlM (DftlParent.cleanupBlock startTime) d.ftl = .ok d'.ftl := by
  induction blocks generalizing d with
  | nil => exact ⟨[], by cases h; rfl⟩
  | cons k blocks ih =>
    rw [List.foldlM_cons] at h
    obtain ⟨e, hclean, hrest⟩ := bind_eq_ok.mp h
    obtain ⟨collections, hcollections⟩ := ih hrest
    obtain ⟨c, -, hclean⟩ := bind_eq_ok.mp hclean
    obtain ⟨ftl, hftl, hclean⟩ := bind_eq_ok.mp hclean
    obtain ⟨flash, -, hclean⟩ := bind_eq_ok.mp hclean
    obtain rfl := Except.ok.inj hclean
    refine ⟨⟨k.block * size, c.moved⟩ :: collections, ?_⟩
    rw [List.foldlM_cons]
    exact bind_eq_ok.mpr ⟨ftl, hftl, hcollections⟩

theorem serve_ftl {c : DftlCommand τ π} (h : d.serve cfg c = .ok d') :
    ∃ r : DftlRequest τ, d.ftl.serve cfg r = .ok d'.ftl := by
  cases c with
  | read dlpn startTime =>
    refine ⟨.read dlpn startTime, ?_⟩
    obtain ⟨r, hread, rfl⟩ := map_eq_ok.mp h
    obtain ⟨ftl, hresolve, hread⟩ := bind_eq_ok.mp hread
    obtain ⟨current, -, hread⟩ := bind_eq_ok.mp hread
    obtain rfl := Except.ok.inj hread
    exact hresolve
  | write dlpn startTime payload blocks freePage =>
    obtain ⟨ftl, hresolve, h⟩ := bind_eq_ok.mp h
    obtain ⟨e, hclean, h⟩ := bind_eq_ok.mp h
    obtain ⟨current, hcurrent, h⟩ := bind_eq_ok.mp h
    obtain ⟨t, hreplace, h⟩ := bind_eq_ok.mp h
    obtain ⟨g, -, h⟩ := bind_eq_ok.mp h
    obtain rfl := Except.ok.inj h
    obtain ⟨collections, hcollections⟩ := cleanupBlocks_ftl hclean
    refine ⟨.write dlpn startTime collections freePage, bind_eq_ok.mpr ⟨ftl, hresolve, ?_⟩⟩
    exact bind_eq_ok.mpr ⟨e.ftl, hcollections, bind_eq_ok.mpr ⟨current, hcurrent, hreplace⟩⟩
  | trim dlpn =>
    obtain ⟨current, -, h⟩ := bind_eq_ok.mp h
    obtain ⟨ftl, htrim, h⟩ := bind_eq_ok.mp h
    obtain rfl := Except.ok.inj h
    exact ⟨.trim dlpn, htrim⟩

/-- **The table of a device is the table of a run without a flash.** -/
theorem serveAll_ftl {cs : List (DftlCommand τ π)} (h : d.serveAll cfg cs = .ok d') :
    ∃ rs, d.ftl.serveAll cfg rs = .ok d'.ftl := by
  induction cs generalizing d with
  | nil => exact ⟨[], by cases h; rfl⟩
  | cons c cs ih =>
    rw [serveAll, List.foldlM_cons] at h
    obtain ⟨e, hserve, hrest⟩ := bind_eq_ok.mp h
    obtain ⟨r, hr⟩ := serve_ftl hserve
    obtain ⟨rs, hrs⟩ := ih hrest
    refine ⟨r :: rs, ?_⟩
    rw [DftlParent.serveAll, List.foldlM_cons]
    exact bind_eq_ok.mpr ⟨e.ftl, hr, hrs⟩

end Table

end Dftl

/-- **DFTL returns the newest version.** After any requests that return, whatever blocks are cleaned up in
them, a read finds the payload of the latest write, and nothing under a page that was never written or has
been trimmed since. -/
theorem dftl_reads_latest (hsize : 0 < size) (cfg : DftlConfig) (junk : Option ℕ → ℕ) (erases : ℕ)
    (junkData : ℕ → π) {cs : List (DftlCommand τ π)} (hcs : ∀ c ∈ cs, c.Apart size)
    {d : Dftl n size τ π} (hrun : (Dftl.new junk erases junkData).serveAll cfg cs = .ok d) {dlpn : ℕ}
    {startTime : τ} {r : Option π × Dftl n size τ π} (hread : d.read cfg dlpn startTime = .ok r) :
    r.1 = latest cs dlpn := by
  have hall : ∀ e : Halt, (fun _ => True) e := fun _ => trivial
  have hstores := (Dftl.serveAll_stores hall hsize cfg junk erases junkData hcs).of_ok hrun
  have hfound : Yields (fun _ => True) (d.read cfg dlpn startTime) fun r => r.1 = latest cs dlpn := by
    refine (hstores.resolve hall dlpn startTime false).bind fun ftl hftl => ?_
    refine (DftlParent.entry_spec (hall .outOfArray) ftl dlpn).bind ?_
    rintro current ⟨hlt, rfl⟩
    exact (hftl.places.contents ⟨dlpn, hlt⟩).symm
  exact hfound.of_ok hread

/-- **Valid pages and the table.** After any requests that return, a page is valid exactly when one logical
page is mapped to it, no two are mapped to the same page, and each holds the payload of its latest write. -/
theorem dftl_valid_iff_mapped (hsize : 0 < size) (cfg : DftlConfig) (junk : Option ℕ → ℕ) (erases : ℕ)
    (junkData : ℕ → π) {cs : List (DftlCommand τ π)} (hcs : ∀ c ∈ cs, c.Apart size)
    {d : Dftl n size τ π} (hrun : (Dftl.new junk erases junkData).serveAll cfg cs = .ok d) :
    (∀ page, d.flash.stateAt page = .valid ↔ ∃! i, d.ftl.mappedPage i = some page) ∧
      (∀ i j page, d.ftl.mappedPage i = some page → d.ftl.mappedPage j = some page → i = j) ∧
      ∀ i : Fin n, (d.ftl.mappedPage i).map d.flash.pageData = latest cs i := by
  have hall : ∀ e : Halt, (fun _ => True) e := fun _ => trivial
  have hstores := (Dftl.serveAll_stores hall hsize cfg junk erases junkData hcs).of_ok hrun
  refine ⟨fun page => ⟨fun hvalid => ?_, ?_⟩, hstores.places.exclusive,
    fun i => (hstores.places.contents i).symm⟩
  · obtain ⟨i, hi⟩ := hstores.places.exists_owner hvalid
    exact ⟨i, hi, fun j hj => hstores.places.exclusive j i page hj hi⟩
  · rintro ⟨i, hi, -⟩
    exact hstores.places.mem_used hi

/-- Page 0 is written again, so that block 0 holds one valid page, which is moved when the block is cleaned
up in the last write. -/
def movingCommands : List (DftlCommand ℤ ℕ) :=
  [.write 0 0 10 [] 0, .write 1 1 11 [] 1, .write 0 2 12 [] 2, .write 2 3 13 [⟨0, [4]⟩] 3, .trim 2]

def mediaDftl : DftlConfig := ⟨2, 4, Nat.two_pos, Nat.succ_pos 3⟩

theorem movingCommands_apart : ∀ c ∈ movingCommands, c.Apart 2 := by
  simp [movingCommands, DftlCommand.Apart, Cleanup.Apart]

theorem dftl_reads_latest_movingCommands :
    ∃ (d : Dftl 4 2 ℤ ℕ) (r : Option ℕ × Dftl 4 2 ℤ ℕ),
      (Dftl.new (fun _ => 0) 5 fun _ => 7).serveAll mediaDftl movingCommands = .ok d ∧
        d.read mediaDftl 1 9 = .ok r ∧ r.1 = some 11 := by
  have hrun : ∃ (d : Dftl 4 2 ℤ ℕ) (r : Option ℕ × Dftl 4 2 ℤ ℕ),
      (Dftl.new (fun _ => 0) 5 fun _ => 7).serveAll mediaDftl movingCommands = .ok d ∧
        d.read mediaDftl 1 9 = .ok r := ⟨_, _, rfl, rfl⟩
  obtain ⟨d, r, hd, hr⟩ := hrun
  exact ⟨d, r, hd, hr, dftl_reads_latest Nat.two_pos mediaDftl _ 5 _ movingCommands_apart hd hr⟩

theorem dftl_valid_iff_mapped_movingCommands :
    ∃ d : Dftl 4 2 ℤ ℕ,
      (Dftl.new (fun _ => 0) 5 fun _ => 7).serveAll mediaDftl movingCommands = .ok d ∧
      (d.flash.stateAt 4 = .valid ↔ ∃! i, d.ftl.mappedPage i = some 4) ∧
      (d.ftl.mappedPage 0 = some 2 → d.ftl.mappedPage 1 = some 2 → (0 : Fin 4) = 1) ∧
      (d.ftl.mappedPage 1).map d.flash.pageData = some 11 := by
  have hrun : ∃ d : Dftl 4 2 ℤ ℕ,
      (Dftl.new (fun _ => 0) 5 fun _ => 7).serveAll mediaDftl movingCommands = .ok d := ⟨_, rfl⟩
  obtain ⟨d, hd⟩ := hrun
  have hmapped := dftl_valid_iff_mapped Nat.two_pos mediaDftl _ 5 _ movingCommands_apart hd
  exact ⟨d, hd, hmapped.1 4, hmapped.2.1 0 1 2, hmapped.2.2 1⟩

end ZnsFlash
