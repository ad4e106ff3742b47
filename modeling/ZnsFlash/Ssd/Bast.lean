import ZnsFlash.Ssd.BlockManager
import Mathlib.Data.List.AList
import Mathlib.Data.List.Sort

/-!
# The BAST translation layer

`bast_ftl.cpp`: each logical block has a data block, and may have a log block with a map of its
pages. `Controller::issue` and its queries act on the blocks as `ssd_block.cpp` says; statistics and
times are left out, and so are `update_map_block`, whose write is a no-op, and the block types.

* `BastLog`, `Bast`: the log blocks and the maps;
* `Bast.readAddress`, `Bast.write`, `Bast.trim`: the three requests;
* `Bast.mergeLogBlock`, `Bast.allocateNewLogblock`: switches, merges and evictions;
* `BastEvent`, `Bast.run`, `latestWrite`: sequences of requests, and the payload that each page
  should hold after them.
-/

namespace ZnsFlash

/-- `LogPageBlock`, as far as BAST uses it: `pages` says where the pages of the logical block lie. -/
structure BastLog where
  address : ℕ
  pages : ℕ → Option ℕ

/-- A fresh log block. -/
def BastLog.new (address : ℕ) : BastLog := ⟨address, fun _ => none⟩

/-- `pages[offset] = page` -/
def BastLog.set (log : BastLog) (offset : ℕ) (page : Option ℕ) : BastLog :=
  { log with pages := Function.update log.pages offset page }

@[simp] theorem BastLog.address_set (log : BastLog) (offset : ℕ) (page : Option ℕ) :
    (log.set offset page).address = log.address := rfl

@[simp] theorem BastLog.pages_set_self (log : BastLog) (offset : ℕ) (page : Option ℕ) :
    (log.set offset page).pages offset = page := Function.update_self _ _ _

theorem BastLog.pages_set_of_ne (log : BastLog) {offset i : ℕ} (page : Option ℕ) (h : i ≠ offset) :
    (log.set offset page).pages i = log.pages i := Function.update_of_ne h _ _

/-- With `BAST_LOG_BLOCK_LIMIT`. -/
structure BastConfig extends SsdConfig where
  logBlockLimit : ℕ

/-- `FtlImpl_Bast`; `none` in `dataList` is `-1`. -/
structure Bast (size : ℕ) (π : Type) where
  media : Media size π
  dataList : ℕ → Option ℕ
  logMap : AList fun _ : ℕ => BastLog

/-- The logical block of an address; `addressShift` is the logarithm of the block size. -/
def logicalBlock (size logicalAddress : ℕ) : ℕ := logicalAddress >>> Nat.log2 size

theorem eq_of_offset_eq {size : ℕ} (hsize : 0 < size) {la la' : ℕ}
    (hblock : logicalBlock size la = logicalBlock size la') (hoffset : la % size = la' % size) :
    la = la' := by
  have hpow : 2 ^ Nat.log2 size ≤ size := Nat.log2_self_le (by omega)
  rw [logicalBlock, logicalBlock, Nat.shiftRight_eq_div_pow, Nat.shiftRight_eq_div_pow] at hblock
  have hlt := Nat.mod_lt la (Nat.two_pow_pos (Nat.log2 size))
  have hlt' := Nat.mod_lt la' (Nat.two_pow_pos (Nat.log2 size))
  have hdiv := Nat.div_add_mod la (2 ^ Nat.log2 size)
  have hdiv' := Nat.div_add_mod la' (2 ^ Nat.log2 size)
  rw [hblock] at hdiv
  have hle : la - la' < size := by omega
  have hle' : la' - la < size := by omega
  have hzero : la - la' = 0 := Nat.eq_zero_of_dvd_of_lt
    (Nat.dvd_of_mod_eq_zero (Nat.sub_mod_eq_zero_of_mod_eq hoffset)) hle
  have hzero' : la' - la = 0 := Nat.eq_zero_of_dvd_of_lt
    (Nat.dvd_of_mod_eq_zero (Nat.sub_mod_eq_zero_of_mod_eq hoffset.symm)) hle'
  omega

namespace Bast

variable {size : ℕ} {π : Type}

/-- The state at start-up; `junk` is what `page_data` holds. -/
def new (erases : ℕ) (junk : ℕ → π) : Bast size π :=
  ⟨⟨⟨fun _ => .new erases, junk⟩, .new⟩, fun _ => none, ∅⟩

/-- The page that a read of a logical address finds. -/
def lookupAddress (s : Bast size π) (logicalAddress : ℕ) : ℕ :=
  let lookupBlock := logicalBlock size logicalAddress
  let offset := logicalAddress % size
  match (s.logMap.lookup lookupBlock).bind fun log => (log.pages offset).map (log.address + ·) with
  | some a => a
  | none =>
    match s.dataList lookupBlock with
    | none => 0
    | some a => a + offset

/-- `read`: the address that is issued. -/
def readAddress (s : Bast size π) (logicalAddress : ℕ) : ℕ :=
  if s.media.flash.stateAt (s.lookupAddress logicalAddress) = .invalid then 0
  else s.lookupAddress logicalAddress

/-! ## Merges -/

/-- The test of `is_sequential`. -/
def Sequential (size : ℕ) (log : BastLog) : Prop := ∀ i < size, log.pages i = some i

instance (size : ℕ) (log : BastLog) : Decidable (Sequential size log) :=
  inferInstanceAs (Decidable (∀ i < size, log.pages i = some i))

/-- The data block of a logical block is erased, if there is one. -/
def eraseData (s : Bast size π) (lba : ℕ) (media : Media size π) : Except Halt (Media size π) :=
  match s.dataList lba with
  | none => .ok media
  | some a => media.eraseAndInvalidate a .data

/-- The mapping after a merge: the data block is at `address`, the log block is disposed. -/
def remapped (s : Bast size π) (lba address : ℕ) (media : Media size π) : Bast size π :=
  ⟨media, Function.update s.dataList lba (some address), s.logMap.erase lba⟩

/-- The switch of `is_sequential`: the log block becomes the data block. -/
def switchMerge (s : Bast size π) (lba : ℕ) (log : BastLog) : Except Halt (Bast size π) := do
  let media ← s.eraseData lba { s.media with bm := s.media.bm.promoteBlock .data }
  .ok (s.remapped lba log.address media)

/-- Where a merge finds page `i`: in the log block, else in the data block. -/
def mergeSource (s : Bast size π) (lba : ℕ) (log : BastLog) (i : ℕ) : Option ℕ :=
  match log.pages i with
  | some j => some (log.address + j)
  | none => (s.dataList lba).map (· + i)

/-- One round of `random_merge`: a valid page is copied and then invalidated. -/
def mergePage (source : ℕ → Option ℕ) (newDataBlock : ℕ) (f : Flash size π) (i : ℕ) :
    Except Halt (Flash size π) :=
  match source i with
  | none => .ok f
  | some a =>
    if f.stateAt a = .empty ∨ f.stateAt a = .invalid then .ok f
    else do
      let g ← f.write (newDataBlock + i) (f.pageData a)
      .ok (g.invalidate a)

/-- `random_merge` -/
def randomMerge (cfg : SsdConfig) (s : Bast size π) (lba : ℕ) (log : BastLog) :
    Except Halt (Bast size π) := do
  let (newDataBlock, media) ← s.media.getFreeBlock cfg .data
  let flash ← (List.range size).foldlM (mergePage (s.mergeSource lba log) newDataBlock) media.flash
  let media ← (Media.mk flash media.bm).eraseAndInvalidate log.address .log
  let media ← s.eraseData lba media
  .ok (s.remapped lba newDataBlock media)

/-- `if (!is_sequential(...)) random_merge(...)` -/
def mergeLogBlock (cfg : SsdConfig) (s : Bast size π) (lba : ℕ) (log : BastLog) :
    Except Halt (Bast size π) :=
  if Sequential size log then s.switchMerge lba log else s.randomMerge cfg lba log

/-- The eviction of `allocate_new_logblock`; `random` is the value of `random()`, and the log blocks
are counted in the order of `std::map`. -/
def evict (cfg : BastConfig) (random : ℕ) (s : Bast size π) : Except Halt (Bast size π) :=
  if cfg.logBlockLimit ≤ s.logMap.keys.length then
    match (s.logMap.keys.insertionSort (· ≤ ·))[random % s.logMap.keys.length - 1]? with
    | none => .ok s -- not reached, the index is in range
    | some exLogicalBlock =>
      match s.logMap.lookup exLogicalBlock with
      | none => .ok s -- not reached, it is a key
      | some exLogBlock => s.mergeLogBlock cfg.toSsdConfig exLogicalBlock exLogBlock
  else .ok s

/-- `allocate_new_logblock` -/
def allocateNewLogblock (cfg : BastConfig) (random lba : ℕ) (s : Bast size π) :
    Except Halt (Bast size π × BastLog) := do
  let s ← s.evict cfg random
  let (address, media) ← s.media.getFreeBlock cfg.toSsdConfig .log
  .ok ({ s with media, logMap := s.logMap.insert lba (.new address) }, .new address)

/-! ## Requests -/

/-- The log block of a logical block, allocated where there is none. -/
def logBlock (cfg : BastConfig) (random lba : ℕ) (s : Bast size π) :
    Except Halt (Bast size π × BastLog) :=
  match s.logMap.lookup lba with
  | none => s.allocateNewLogblock cfg random lba
  | some log => .ok (s, log)

/-- A page of the data block that is not empty is invalidated instead of the page in the log. -/
def replaceAddress (s : Bast size π) (logicalAddress : ℕ) (replace : Option ℕ) : Option ℕ :=
  match s.dataList (logicalBlock size logicalAddress) with
  | none => replace
  | some a =>
    if s.media.flash.stateAt (a + logicalAddress % size) ≠ .empty then
      some (a + logicalAddress % size)
    else replace

/-- `invalidate_page` of the block at an address. -/
def invalidated (s : Bast size π) (a : ℕ) : Bast size π :=
  { s with media := { s.media with flash := s.media.flash.invalidate a } }

/-- `logBlock->pages[offset] = page` -/
def setPage (s : Bast size π) (logicalAddress : ℕ) (log : BastLog) (page : Option ℕ) : Bast size π :=
  { s with
    logMap := s.logMap.insert (logicalBlock size logicalAddress)
      (log.set (logicalAddress % size) page) }

/-- The write is issued to a page of the log block, where the log says it is. -/
def issueWrite (s : Bast size π) (logicalAddress : ℕ) (payload : π) (log : BastLog) (page : ℕ)
    (replace : Option ℕ) : Except Halt (Bast size π) := do
  let flash ← s.media.flash.write (log.address + page) payload
  let flash := match s.replaceAddress logicalAddress replace with
    | none => flash
    | some a => flash.invalidate a
  .ok ({ s with media := { s.media with flash } }.setPage logicalAddress log (some page))

/-- `write` -/
def write (cfg : BastConfig) (s : Bast size π) (logicalAddress : ℕ) (payload : π) (random : ℕ) :
    Except Halt (Bast size π) := do
  let lba := logicalBlock size logicalAddress
  if cfg.addressableBlocks ≤ lba then .error .outOfArray
  else
    let (s, log) ← s.logBlock cfg random lba
    let numValid := (s.media.flash.block (log.address / size)).pagesValid
    if numValid < size then
      s.issueWrite logicalAddress payload log numValid
        ((log.pages (logicalAddress % size)).map (log.address + ·))
    else
      let s ← s.mergeLogBlock cfg.toSsdConfig lba log
      let (s, log) ← s.allocateNewLogblock cfg random lba
      s.issueWrite logicalAddress payload log 0 none

/-- The page in the log block is invalidated, and the block erased when it was the last one. -/
def trimLog (s : Bast size π) (logicalAddress : ℕ) : Except Halt (Bast size π) :=
  let lba := logicalBlock size logicalAddress
  match s.logMap.lookup lba with
  | none => .ok s
  | some log =>
    match log.pages (logicalAddress % size) with
    | none => .ok s
    | some page =>
      let s := (s.invalidated (log.address + page)).setPage logicalAddress log none
      if (s.media.flash.block ((log.address + page) / size)).state = .inactive then do
        let media ← s.media.eraseAndInvalidate (log.address + page) .log
        .ok { s with media, logMap := s.logMap.erase lba }
      else .ok s

/-- The page in the data block is invalidated, and the block erased when it was the last one. -/
def trimData (s : Bast size π) (logicalAddress : ℕ) : Except Halt (Bast size π) :=
  let lba := logicalBlock size logicalAddress
  match s.dataList lba with
  | none => .ok s
  | some a =>
    let s := s.invalidated (a + logicalAddress % size)
    if (s.media.flash.block ((a + logicalAddress % size) / size)).state = .inactive then do
      let media ← s.media.eraseAndInvalidate (a + logicalAddress % size) .data
      .ok { s with media, dataList := Function.update s.dataList lba none }
    else .ok s

/-- `trim` -/
def trim (cfg : BastConfig) (s : Bast size π) (logicalAddress : ℕ) : Except Halt (Bast size π) := do
  if cfg.addressableBlocks ≤ logicalBlock size logicalAddress then .error .outOfArray
  else
    let s ← s.trimLog logicalAddress
    s.trimData logicalAddress

end Bast

/-- A request; `random` decides which log block a write evicts. -/
inductive BastEvent (π : Type)
  | read (logicalAddress : ℕ)
  | write (logicalAddress : ℕ) (payload : π) (random : ℕ)
  | trim (logicalAddress : ℕ)

namespace Bast

variable {size : ℕ} {π : Type}

def step (cfg : BastConfig) (s : Bast size π) : BastEvent π → Except Halt (Bast size π)
  | .read logicalAddress =>
    if cfg.addressableBlocks ≤ logicalBlock size logicalAddress then .error .outOfArray else .ok s
  | .write logicalAddress payload random => s.write cfg logicalAddress payload random
  | .trim logicalAddress => s.trim cfg logicalAddress

def run (cfg : BastConfig) (s : Bast size π) (es : List (BastEvent π)) : Except Halt (Bast size π) :=
  es.foldlM (step cfg) s

end Bast

/-! ## What the pages should hold -/

section Latest

variable {π : Type}

/-- A write stores the payload, a trim forgets it. -/
def remember (latest : ℕ → Option π) : BastEvent π → ℕ → Option π
  | .read _ => latest
  | .write logicalAddress payload _ => Function.update latest logicalAddress (some payload)
  | .trim logicalAddress => Function.update latest logicalAddress none

/-- The payload of the latest write of each page that was not trimmed since. -/
def latestWrite (es : List (BastEvent π)) : ℕ → Option π := es.foldl remember fun _ => none

end Latest

end ZnsFlash
