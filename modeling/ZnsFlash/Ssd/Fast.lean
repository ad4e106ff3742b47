import ZnsFlash.Ssd.Bast

/-!
# The FAST translation layer

`fast_ftl.cpp` without `trim`: data blocks, one sequential log block (SW) with the first pages of
its logical block, and a list of random-write log blocks (RW) that take pages of all logical blocks.
The controller is as for BAST. The pages of a device are numbered by `uint`, and numbers of pages are
natural numbers here.

* `FastLog`, `Fast`: the log blocks and the maps;
* `Fast.readAddress`: where a read looks;
* `Fast.finishSequential`, `Fast.makeRoom`: the merges of the SW block and of the RW log;
* `Fast.writeToLogBlock`, `Fast.write`: the three kinds of writes;
* `Fast.WriteSafe`: the writes that keep the newest versions.
-/

namespace ZnsFlash

/-- `LogPageBlock`, as far as FAST uses it; `none` in `aPages` is `-1`. -/
structure FastLog where
  address : ℕ
  aPages : ℕ → Option ℕ
  numPages : ℕ

def FastLog.new (address : ℕ) : FastLog := ⟨address, fun _ => none, 0⟩

/-- `aPages[i] = page; numPages++` -/
def FastLog.push (log : FastLog) (i la : ℕ) : FastLog :=
  { log with aPages := Function.update log.aPages i (some la), numPages := log.numPages + 1 }

/-- `aPages[i] = -1` -/
def FastLog.drop (log : FastLog) (i : ℕ) : FastLog :=
  { log with aPages := Function.update log.aPages i none }

/-- With `FAST_LOG_BLOCK_LIMIT`. -/
structure FastConfig extends SsdConfig where
  logBlockLimit : ℕ
  logBlockLimit_pos : 0 < logBlockLimit

/-- `FtlImpl_Fast`; `none` is `-1` in `dataList` and `sequentialLogicalblockAddress`, and the list
`logPages` is linked by `next`, with `[]` for `NULL`. -/
structure Fast (size : ℕ) (π : Type) where
  media : Media size π
  dataList : ℕ → Option ℕ
  sequentialOffset : ℕ
  sequentialAddress : ℕ
  sequentialLogicalblockAddress : Option ℕ
  logPages : List FastLog
  logPageNext : ℕ

namespace Fast

variable {size : ℕ} {π : Type}

/-- The state at start-up; `junk` is what `page_data` holds. -/
def new (erases : ℕ) (junk : ℕ → π) : Fast size π :=
  ⟨⟨⟨fun _ => .new erases, junk⟩, .new⟩, fun _ => none, 0, 0, none, [], 0⟩

/-- A log block is allocated and linked to the end of the list. -/
def appendLogBlock (cfg : FastConfig) (s : Fast size π) : Except Halt (Fast size π) := do
  let (address, media) ← s.media.getFreeBlock cfg.toSsdConfig .log
  .ok { s with media, logPages := s.logPages ++ [.new address] }

/-- `initialize_log_pages` -/
def initializeLogPages (cfg : FastConfig) (s : Fast size π) : Except Halt (Fast size π) :=
  if s.logPages = [] then
    (List.range cfg.logBlockLimit).foldlM (fun s _ => s.appendLogBlock cfg) s
  else .ok s

/-! ## Reads -/

/-- The search of `read` in the RW log blocks: the first page of the first block. -/
def findPage (logicalAddress : ℕ) (logs : List FastLog) : Option ℕ :=
  logs.findSome? fun log =>
    ((List.range log.numPages).find? fun i => log.aPages i = some logicalAddress).map
      (log.address + ·)

/-- The page that a read of a logical address finds. -/
def readAddress (s : Fast size π) (logicalAddress : ℕ) : ℕ :=
  let lookupBlock := logicalBlock size logicalAddress
  let lbnOffset := logicalAddress % size
  match findPage logicalAddress s.logPages with
  | some a => a
  | none =>
    if s.sequentialLogicalblockAddress = some lookupBlock ∧ lbnOffset < s.sequentialOffset then
      s.sequentialAddress + lbnOffset
    else
      match s.dataList lookupBlock with
      | none => 0
      | some a => a + lbnOffset

/-! ## Merges of the sequential log block -/

/-- `switch_sequential` -/
def switchSequential (s : Fast size π) : Except Halt (Fast size π) :=
  match s.sequentialLogicalblockAddress with
  | none => .error .wildAccess
  | some b =>
    let media := match s.dataList b with
      | none => s.media
      | some a => s.media.invalidateBlock a .data
    .ok { s with media, dataList := Function.update s.dataList b (some s.sequentialAddress) }

/-- Where `merge_sequential` finds page `i`: in the SW block, else in the data block. -/
def sequentialSource (f : Flash size π) (sequentialAddress : ℕ) (data : Option ℕ) (i : ℕ) :
    Option ℕ :=
  if f.stateAt (sequentialAddress + i) = .valid then some (sequentialAddress + i)
  else data.bind fun a => if f.stateAt (a + i) = .valid then some (a + i) else none

/-- A page is read and written to a new block. -/
def copyPage (source : Flash size π → ℕ → Option ℕ) (newDataBlock : ℕ) (f : Flash size π) (i : ℕ) :
    Except Halt (Flash size π) :=
  match source f i with
  | none => .ok f
  | some a => f.write (newDataBlock + i) (f.pageData a)

/-- Garbage is collected when few blocks are free. -/
def collect (cfg : FastConfig) (media : Media size π) : Except Halt (Media size π) :=
  if media.getNumFreeBlocks cfg.toSsdConfig < 5 then media.insertEvents cfg.toSsdConfig
  else .ok media

/-- `merge_sequential` -/
def mergeSequential (cfg : FastConfig) (s : Fast size π) : Except Halt (Fast size π) :=
  match s.sequentialLogicalblockAddress with
  | none => .ok s
  | some b => do
    let (newDataBlock, media) ← s.media.getFreeBlock cfg.toSsdConfig .data
    let media ← collect cfg media
    let flash ← (List.range size).foldlM
      (copyPage (fun f => sequentialSource f s.sequentialAddress (s.dataList b)) newDataBlock)
      media.flash
    let media := (Media.mk flash media.bm).invalidateBlock s.sequentialAddress .data
    let media := match s.dataList b with
      | none => media
      | some a => media.invalidateBlock a .data
    .ok { s with media, dataList := Function.update s.dataList b (some newDataBlock) }

/-- Before a new SW block: a full one is switched, another one merged. -/
def finishSequential (cfg : FastConfig) (s : Fast size π) : Except Halt (Fast size π) :=
  if s.sequentialOffset = size then s.switchSequential else s.mergeSequential cfg

/-- A new SW block for a logical block, whose first page is written next. -/
def newSequential (cfg : FastConfig) (b : ℕ) (s : Fast size π) : Except Halt (Fast size π × ℕ) := do
  let (address, media) ← s.media.getFreeBlock cfg.toSsdConfig .data
  .ok ({ s with
    media, sequentialOffset := 1, sequentialAddress := address,
    sequentialLogicalblockAddress := some b }, address)

/-! ## Merges of the random-write log blocks -/

/-- What `random_merge` changes while it merges one logical block. -/
structure MergeState (size : ℕ) (π : Type) where
  flash : Flash size π
  pinned : ℕ → Bool
  logs : List FastLog

/-- One page of the log blocks: number `i` of block `k`, both from 0. The comparison with `-1u` never
holds of a page of the device; for `-1` the logical block is not the right one either. -/
def mergeSlot (victimLBA mergeAddress : ℕ) (m : MergeState size π) (slot : ℕ × ℕ) :
    Except Halt (MergeState size π) :=
  match m.logs[slot.1]? with
  | none => .error .nullNext
  | some lpb =>
    match lpb.aPages slot.2 with
    | none => .ok m
    | some la =>
      if victimLBA = logicalBlock size la then
        if m.pinned (la % size) then
          .ok { m with logs := m.logs.set slot.1 (lpb.drop slot.2) }
        else if m.flash.stateAt (mergeAddress + la % size) = .empty then do
          let flash ← m.flash.write (mergeAddress + la % size)
            (m.flash.pageData (lpb.address + slot.2))
          .ok { m with flash, pinned := Function.update m.pinned (la % size) true }
        else .ok m
      else .ok m

/-- The order in which `random_merge` visits the pages of the log blocks: the last block first, and
in each block the last page first, without page 0. -/
def visits (limit : ℕ) (logs : List FastLog) : List (ℕ × ℕ) :=
  (List.range limit).reverse.flatMap fun k =>
    ((List.range ((logs[k]?.map FastLog.numPages).getD 0)).tail.reverse).map (k, ·)

/-- The linear address of page `i` of the data block; without one, `-1 + i` is an unsigned number. -/
def dataPage (data : Option ℕ) (i : ℕ) : ℕ :=
  match data with
  | some a => a + i
  | none => (2 ^ 32 - 1 + i) % 2 ^ 32

/-- The page that this address reaches: an address wraps at the end of the device. -/
def reachedPage (cfg : SsdConfig) (size : ℕ) (data : Option ℕ) (i : ℕ) : ℕ :=
  match data with
  | some a => a + i
  | none => dataPage none i % (cfg.addressableBlocks * size)

/-- One page of the data block, unless the log blocks had it. -/
def mergeDataPage (cfg : SsdConfig) (data : Option ℕ) (mergeAddress : ℕ) (m : MergeState size π)
    (i : ℕ) : Except Halt (MergeState size π) :=
  if m.flash.stateAt (mergeAddress + i) = .empty ∧ m.pinned i = false then
    if m.flash.stateAt (reachedPage cfg size data i) = .valid then do
      let flash ← m.flash.write (mergeAddress + i) (m.flash.pageData (dataPage data i))
      .ok { m with flash, pinned := Function.update m.pinned i true }
    else .ok m
  else .ok m

/-- The body of the loop over `mergeBlocks`. -/
def mergeVictim (cfg : FastConfig) (s : Fast size π) (victimLBA : ℕ) : Except Halt (Fast size π) := do
  let media ← collect cfg s.media
  let (mergeAddress, media) ← media.getFreeBlock cfg.toSsdConfig .data
  let m ← (visits cfg.logBlockLimit s.logPages).foldlM (mergeSlot victimLBA mergeAddress)
    ⟨media.flash, fun _ => false, s.logPages⟩
  let m ← (List.range size).foldlM
    (mergeDataPage cfg.toSsdConfig (s.dataList victimLBA) mergeAddress) m
  let dataBlock := reachedPage cfg.toSsdConfig size (s.dataList victimLBA) 0
  .ok { s with
    media := (Media.mk m.flash media.bm).invalidateBlock dataBlock .data
    dataList := Function.update s.dataList victimLBA (some mergeAddress)
    logPages := m.logs }

/-- The keys of `mergeBlocks`, in the order of `std::map`. -/
def mergeBlocks (size : ℕ) (logBlock : FastLog) : List ℕ :=
  (((List.range logBlock.numPages).filterMap fun i =>
    (logBlock.aPages i).map (logicalBlock size)).dedup).insertionSort (· ≤ ·)

/-- `random_merge` -/
def randomMerge (cfg : FastConfig) (logBlock : FastLog) (s : Fast size π) :
    Except Halt (Fast size π) :=
  (mergeBlocks size logBlock).foldlM (mergeVictim cfg) s

/-! ## Writes -/

/-- The oldest RW log block is merged, and a new one is linked to the end. -/
def replaceVictim (cfg : FastConfig) (s : Fast size π) : Except Halt (Fast size π) :=
  match s.logPages with
  | [] => .error .nullNext
  | victim :: _ => do
    let s ← s.randomMerge cfg victim
    let s := { s with
      logPages := s.logPages.tail
      media := s.media.invalidateBlock victim.address .log
      logPageNext := s.logPageNext - size }
    let s ← s.appendLogBlock cfg
    -- the loop to the end of the list starts with a null pointer when this was the only block
    if s.logPages.length ≤ 1 then .error .nullNext else .ok s

/-- When the RW log is full, its oldest block is replaced. -/
def makeRoom (cfg : FastConfig) (s : Fast size π) : Except Halt (Fast size π) :=
  if s.logPageNext = cfg.logBlockLimit * size then s.replaceVictim cfg else .ok s

/-- The page is appended to the first RW log block that has room. -/
def appendPage (size logPageNext la : ℕ) : List FastLog → Option (List FastLog × ℕ)
  | [] => none
  | log :: rest =>
    if log.numPages = size then
      (appendPage size logPageNext la rest).map fun r => (log :: r.1, r.2)
    else some (log.push (logPageNext % size) la :: rest, log.address + logPageNext % size)

/-- `write_to_log_block`, with the address that the event gets. -/
def writeToLogBlock (cfg : FastConfig) (s : Fast size π) (logicalAddress : ℕ) :
    Except Halt (Fast size π × ℕ) :=
  let lbn := logicalBlock size logicalAddress
  let lbnOffset := logicalAddress % size
  if lbnOffset = 0 then do
    let s ← s.finishSequential cfg
    s.newSequential cfg lbn
  else if s.sequentialLogicalblockAddress = some lbn then
    if lbnOffset = s.sequentialOffset then
      let page := (s.media.flash.block (s.sequentialAddress / size)).pagesValid
      if page < size then
        .ok ({ s with sequentialOffset := s.sequentialOffset + 1 }, s.sequentialAddress + page)
      else .error .badAddress
    else do
      let s ← s.mergeSequential cfg
      s.newSequential cfg lbn
  else do
    let s ← s.makeRoom cfg
    match appendPage size s.logPageNext logicalAddress s.logPages with
    | none => .error .nullNext
    | some (logPages, address) =>
      .ok ({ s with logPages, logPageNext := s.logPageNext + 1 }, address)

/-- The address that `write` gives to the event. -/
def place (cfg : FastConfig) (s : Fast size π) (logicalAddress : ℕ) :
    Except Halt (Fast size π × ℕ) :=
  let b := logicalBlock size logicalAddress
  let lbnOffset := logicalAddress % size
  match s.dataList b with
  | none => do
    let (newBlock, media) ← s.media.getFreeBlock cfg.toSsdConfig .data
    .ok ({ s with media, dataList := Function.update s.dataList b (some newBlock) },
      newBlock + lbnOffset)
  | some a =>
    if s.media.flash.stateAt (a + lbnOffset) = .empty then .ok (s, a + lbnOffset)
    else s.writeToLogBlock cfg logicalAddress

/-- `write`: garbage is collected before the event is issued. -/
def write (cfg : FastConfig) (s : Fast size π) (logicalAddress : ℕ) (payload : π) :
    Except Halt (Fast size π) := do
  if cfg.addressableBlocks ≤ logicalBlock size logicalAddress then .error .outOfArray
  else
    let s ← s.initializeLogPages cfg
    let (s, address) ← s.place cfg logicalAddress
    let media ← s.media.insertEvents cfg.toSsdConfig
    let flash ← media.flash.write address payload
    .ok { s with media := ⟨flash, media.bm⟩ }

/-- `read`, up to the page that it finds. -/
def read (cfg : FastConfig) (s : Fast size π) (logicalAddress : ℕ) : Except Halt (Fast size π) :=
  if cfg.addressableBlocks ≤ logicalBlock size logicalAddress then .error .outOfArray
  else s.initializeLogPages cfg

/-! ## Safe writes -/

/-- The page is in an RW log block. -/
def Logged (s : Fast size π) (logicalAddress : ℕ) : Prop :=
  ∃ log ∈ s.logPages, ∃ i < log.numPages, log.aPages i = some logicalAddress

instance (s : Fast size π) (logicalAddress : ℕ) : Decidable (s.Logged logicalAddress) :=
  inferInstanceAs (Decidable (∃ log ∈ s.logPages, ∃ i < log.numPages, _))

/-- The page has no place in its data block yet. -/
def Unplaced (s : Fast size π) (logicalAddress : ℕ) : Prop :=
  ∀ a, s.dataList (logicalBlock size logicalAddress) = some a →
    s.media.flash.stateAt (a + logicalAddress % size) = .empty

instance (s : Fast size π) (logicalAddress : ℕ) : Decidable (s.Unplaced logicalAddress) :=
  match h : s.dataList (logicalBlock size logicalAddress) with
  | none => isTrue fun a ha => by rw [h] at ha; cases ha
  | some a =>
    decidable_of_iff (s.media.flash.stateAt (a + logicalAddress % size) = .empty)
      ⟨fun he a' ha' => by rw [h] at ha'; rwa [← Option.some.inj ha'], fun hu => hu a h⟩

/-- The writes to the log blocks that FAST gets right: the start of an SW block; the next page of the
SW block, without a page in the RW log; a page that the RW log does not have and has room for; or, when
the RW log is full, the page that its merge loses. -/
def LogSafe (cfg : FastConfig) (s : Fast size π) (logicalAddress : ℕ) : Prop :=
  logicalAddress % size = 0 ∨
    if s.sequentialLogicalblockAddress = some (logicalBlock size logicalAddress) then
      logicalAddress % size = s.sequentialOffset ∧ ¬ s.Logged logicalAddress
    else if s.logPageNext = cfg.logBlockLimit * size then
      1 < cfg.logBlockLimit ∧ (s.logPages.head?.bind fun log => log.aPages 0) = some logicalAddress
    else ¬ s.Logged logicalAddress

instance (cfg : FastConfig) (s : Fast size π) (logicalAddress : ℕ) :
    Decidable (s.LogSafe cfg logicalAddress) :=
  inferInstanceAs (Decidable (_ ∨ ite _ _ _))

/-- **The writes that FAST gets right**: those to a data block, and the safe ones to the log. -/
def WriteSafe (cfg : FastConfig) (s : Fast size π) (logicalAddress : ℕ) : Prop :=
  s.Unplaced logicalAddress ∨ s.LogSafe cfg logicalAddress

instance (cfg : FastConfig) (s : Fast size π) (logicalAddress : ℕ) :
    Decidable (s.WriteSafe cfg logicalAddress) :=
  inferInstanceAs (Decidable (_ ∨ _))

end Fast

end ZnsFlash
