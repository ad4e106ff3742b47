import ZnsFlash.Library.Indexed
import ZnsFlash.Ssd.Flash
import Mathlib.Data.Int.Order.Basic
import Mathlib.Order.WithBot

/-!
# The DFTL translation layer

`dftl_parent.cpp` and `dftl_ftl.cpp`: a table with an entry for each logical page, some of which count as
cached. `Controller::issue` succeeds, and what it does to the pages is not needed here.

`get_free_data_page` asks the block manager, which may let the layer move the pages of some blocks before,
here one block after another. Which blocks these are depends on `active_cost`, which `cost_insert` does not
fill. What is moved and the page that is returned are inputs of a write, and may be anything.

* `Clock`, `MPage`, `TransMap`, `DftlParent`: the times, the entries, their container and the table;
* `DftlParent.evictPageFromCache`, `DftlParent.evictSpecificPageFromCache`,
  `DftlParent.resolveMapping`: the cache;
* `Collection`, `DftlParent.cleanupBlock`: pages that are moved;
* `DftlParent.read`, `DftlParent.write`, `DftlParent.trim`: the requests.
-/

namespace ZnsFlash

/-- The times of events, `double` in the source; `-1` is the time of an entry that was never visited, and
`-2` of one that was evicted. -/
class Clock (τ : Type) extends LinearOrder τ where
  zero : τ
  minusOne : τ
  minusTwo : τ
  next : τ → τ

instance : Clock ℤ := ⟨0, -1, -2, (· + 1)⟩

/-- `MPage`; `none` in `ppn` is `-1`. -/
structure MPage (τ : Type) where
  vpn : ℕ
  ppn : Option ℕ
  createTs : τ
  modifiedTs : τ
  lastVisitedTime : τ
  cached : Bool

namespace MPage

variable {τ : Type} [Clock τ]

/-- The constructor. -/
def new (vpn : ℕ) : MPage τ :=
  ⟨vpn, none, Clock.minusOne, Clock.minusOne, Clock.minusOne, false⟩

/-- `mpage_last_visited_time_compare`; `⊤` is the largest `double`. -/
def lastVisitedTimeCompare (mpage : MPage τ) : WithTop τ :=
  if mpage.cached then (mpage.lastVisitedTime : WithTop τ) else ⊤

/-- `reset_MPage` -/
def reset (mpage : MPage τ) : MPage τ :=
  { mpage with
    createTs := Clock.minusTwo, modifiedTs := Clock.minusTwo, lastVisitedTime := Clock.minusTwo }

end MPage

/-- The `boost::multi_index` container of the entries, by their position and by
`mpage_last_visited_time_compare`. -/
abbrev TransMap (n : ℕ) (τ : Type) [Clock τ] :=
  MultiIndex n (MPage.lastVisitedTimeCompare : MPage τ → WithTop τ)

instance (n : ℕ) : TransMap n ℤ := SortedIndex.multiIndex n _

/-- `addressPerPage` and `totalCMTentries`. -/
structure DftlConfig where
  addressPerPage : ℕ
  totalCMTentries : ℕ
  addressPerPage_pos : 0 < addressPerPage
  totalCMTentries_pos : 0 < totalCMTentries

/-- `FtlImpl_DftlParent` for `n` logical pages. In `reverseTransMap`, `none` is the index `-1`, before the
array. -/
structure DftlParent (n : ℕ) (τ : Type) [Clock τ] [TransMap n τ] where
  transMap : Indexed n (MPage.lastVisitedTimeCompare : MPage τ → WithTop τ)
  reverseTransMap : Option ℕ → ℕ
  cmt : ℤ

namespace DftlParent

variable {n : ℕ} {τ : Type} [Clock τ] [TransMap n τ]

/-- The state at start-up; `junk` is what `reverse_trans_map` holds. -/
def new (junk : Option ℕ → ℕ) : DftlParent n τ :=
  ⟨.ofFn fun i => .new i, junk, 0⟩

theorem get_new (junk : Option ℕ → ℕ) (i : Fin n) :
    (new junk : DftlParent n τ).transMap.get i = .new i :=
  congrFun (Indexed.get_ofFn _) i

/-- `trans_map[i]` -/
def entry (s : DftlParent n τ) (i : ℕ) : Except Halt (MPage τ) :=
  if h : i < n then .ok (s.transMap.get ⟨i, h⟩) else .error .outOfArray

/-- `trans_map.replace(trans_map.begin() + i, mpage)` -/
def replace (s : DftlParent n τ) (i : ℕ) (mpage : MPage τ) : Except Halt (DftlParent n τ) :=
  if h : i < n then .ok { s with transMap := s.transMap.replace ⟨i, h⟩ mpage }
  else .error .outOfArray

/-- `update_translation_map`, with the entry that it changes. -/
def updateTranslationMap (s : DftlParent n τ) (mpage : MPage τ) (ppn : Option ℕ) :
    MPage τ × DftlParent n τ :=
  ({ mpage with ppn },
    { s with reverseTransMap := Function.update s.reverseTransMap ppn mpage.vpn })

/-! ## The cache -/

/-- An entry of the translation page that is written back. -/
def writeBackEntry (s : DftlParent n τ) (i : ℕ) : Except Halt (DftlParent n τ) := do
  let cur ← s.entry i
  if cur.cached then s.replace i { cur with createTs := cur.modifiedTs } else .ok s

/-- The entries on the translation page of an entry that has changed are written back. -/
def writeBack (cfg : DftlConfig) (s : DftlParent n τ) (evictPage : MPage τ) :
    Except Halt (DftlParent n τ) :=
  if evictPage.createTs ≠ evictPage.modifiedTs then
    let vpnBase := evictPage.vpn - evictPage.vpn % cfg.addressPerPage
    (List.range cfg.addressPerPage).foldlM (fun s i => s.writeBackEntry (vpnBase + i)) s
  else .ok s

/-- The body of the loop of `evict_page_from_cache`, and the rest of `evict_specific_page_from_cache`. -/
def evict (cfg : DftlConfig) (s : DftlParent n τ) (evictPage : MPage τ) :
    Except Halt (DftlParent n τ) := do
  if evictPage.cached = false then .error .notCached
  else if evictPage.createTs < Clock.zero ∨ evictPage.modifiedTs < Clock.zero then
    .error .noTimestamp
  else
    let s ← s.writeBack cfg evictPage
    ({ s with cmt := s.cmt - 1 } : DftlParent n τ).replace evictPage.vpn
      { evictPage.reset with cached := false }

/-- The first entry by the time of the last visit is evicted. -/
def evictFirst (cfg : DftlConfig) (s : DftlParent n τ) : Except Halt (DftlParent n τ) :=
  match s.transMap.first with
  | none => .error .outOfArray
  | some i => s.evict cfg (s.transMap.get i)

/-- The loop `while (cmt >= totalCMTentries)`, for at most so many rounds. -/
def evictWhile (cfg : DftlConfig) : ℕ → DftlParent n τ → Except Halt (DftlParent n τ)
  | 0, s => .ok s
  | rounds + 1, s => do
    if (cfg.totalCMTentries : ℤ) ≤ s.cmt then
      let s ← s.evictFirst cfg
      evictWhile cfg rounds s
    else .ok s

/-- `evict_page_from_cache`; each round takes 1 from `cmt`. -/
def evictPageFromCache (cfg : DftlConfig) (s : DftlParent n τ) : Except Halt (DftlParent n τ) :=
  evictWhile cfg (s.cmt + 1 - cfg.totalCMTentries).toNat s

/-- `evict_specific_page_from_cache` -/
def evictSpecificPageFromCache (cfg : DftlConfig) (s : DftlParent n τ) (lba : ℕ) :
    Except Halt (DftlParent n τ) := do
  let evictPage ← s.entry lba
  if evictPage.cached = false then .ok s else s.evict cfg evictPage

/-- `resolve_mapping`, for an event that starts at `startTime`. -/
def resolveMapping (cfg : DftlConfig) (s : DftlParent n τ) (dlpn : ℕ) (startTime : τ)
    (isWrite : Bool) : Except Halt (DftlParent n τ) := do
  let found ← s.entry dlpn
  if found.cached then
    s.replace dlpn { found with
      modifiedTs := if isWrite then startTime else found.modifiedTs
      lastVisitedTime := startTime }
  else
    let s ← s.evictPageFromCache cfg
    let current ← s.entry dlpn
    let s ← s.replace dlpn { current with
      modifiedTs := if isWrite then Clock.next startTime else startTime
      lastVisitedTime := startTime
      createTs := startTime
      cached := true }
    .ok { s with cmt := s.cmt + 1 }

end DftlParent

/-! ## Pages that are moved -/

/-- What the first loop of `cleanup_block` does to a block: the numbers in it of its valid pages, and the
page that each is copied to. -/
structure Collection where
  physicalAddress : ℕ
  moved : List (ℕ × ℕ)

/-- `invalidated_translation[vpn] = ppn`, in a `std::map` as the list of its entries. -/
def assign (vpn ppn : ℕ) : List (ℕ × ℕ) → List (ℕ × ℕ)
  | [] => [(vpn, ppn)]
  | (key, value) :: rest =>
    if vpn < key then (vpn, ppn) :: (key, value) :: rest
    else if vpn = key then (vpn, ppn) :: rest
    else (key, value) :: assign vpn ppn rest

namespace DftlParent

variable {n : ℕ} {τ : Type} [Clock τ] [TransMap n τ]

/-- `invalidated_translation`: the logical pages that were moved. -/
def invalidatedTranslation (s : DftlParent n τ) (block : Collection) : List (ℕ × ℕ) :=
  block.moved.foldl (fun map page =>
    assign (s.reverseTransMap (some (block.physicalAddress + page.1))) page.2 map) []

/-- The body of the second loop of `cleanup_block`. -/
def moveEntry (startTime : τ) (s : DftlParent n τ) (page : ℕ × ℕ) :
    Except Halt (DftlParent n τ) := do
  let current ← s.entry page.1
  let (current, s) := s.updateTranslationMap current (some page.2)
  if current.cached then s.replace page.1 { current with modifiedTs := startTime }
  else
    ({ s with cmt := s.cmt + 1 } : DftlParent n τ).replace page.1 { current with
      modifiedTs := startTime, createTs := startTime, cached := true }

/-- `cleanup_block`, up to the pages themselves. -/
def cleanupBlock (startTime : τ) (s : DftlParent n τ) (block : Collection) :
    Except Halt (DftlParent n τ) :=
  (s.invalidatedTranslation block).foldlM (moveEntry startTime) s

/-! ## Requests -/

/-- `read`, up to the page that it finds. -/
def read (cfg : DftlConfig) (s : DftlParent n τ) (dlpn : ℕ) (startTime : τ) :
    Except Halt (DftlParent n τ) := s.resolveMapping cfg dlpn startTime false

/-- `write`, when `get_free_data_page` returns `freePage` after some blocks have been cleaned up. -/
def write (cfg : DftlConfig) (s : DftlParent n τ) (dlpn : ℕ) (startTime : τ)
    (blocks : List Collection) (freePage : ℕ) : Except Halt (DftlParent n τ) := do
  let s ← s.resolveMapping cfg dlpn startTime true
  let s ← blocks.foldlM (cleanupBlock startTime) s
  let current ← s.entry dlpn
  let (current, s) := s.updateTranslationMap current (some freePage)
  s.replace dlpn current

/-- `trim`: `current` is the entry before it is evicted. -/
def trim (cfg : DftlConfig) (s : DftlParent n τ) (dlpn : ℕ) : Except Halt (DftlParent n τ) := do
  let current ← s.entry dlpn
  match current.ppn with
  | none => .ok s
  | some _ =>
    let s ← s.evictSpecificPageFromCache cfg dlpn
    let (current, s) := s.updateTranslationMap current none
    s.replace dlpn current

end DftlParent

/-- A request, with what the block manager does in it. -/
inductive DftlRequest (τ : Type)
  | read (dlpn : ℕ) (startTime : τ)
  | write (dlpn : ℕ) (startTime : τ) (blocks : List Collection) (freePage : ℕ)
  | trim (dlpn : ℕ)

namespace DftlParent

variable {n : ℕ} {τ : Type} [Clock τ] [TransMap n τ]

def serve (cfg : DftlConfig) (s : DftlParent n τ) : DftlRequest τ → Except Halt (DftlParent n τ)
  | .read dlpn startTime => s.read cfg dlpn startTime
  | .write dlpn startTime blocks freePage => s.write cfg dlpn startTime blocks freePage
  | .trim dlpn => s.trim cfg dlpn

def serveAll (cfg : DftlConfig) (s : DftlParent n τ) (rs : List (DftlRequest τ)) :
    Except Halt (DftlParent n τ) := rs.foldlM (serve cfg) s

end DftlParent

end ZnsFlash
