import ZnsFlash.Ssd.Dftl
import ZnsFlash.Ssd.Fast

/-!
# The BDFTL translation layer

`bdftl_ftl.cpp`: DFTL with an optimal mapping for blocks that are written in order. `active_cost` stays
empty, since `cost_insert` does nothing, so a run that comes to collect blocks by their cost stops at
its end iterator.

* `BPage`, `Bdftl`: the map of blocks, and the state;
* `Bdftl.convertPage`, `Bdftl.convert`: the switch to page mapping;
* `Bdftl.getFreeBiftlPage`, `Bdftl.writeOptimal`, `Bdftl.writeMapped`, `Bdftl.write`: writes;
* `Bdftl.read`, `Bdftl.trim`, `BdftlRequest`, `Bdftl.serve`: the requests.
-/

namespace ZnsFlash

/-- `BPage`; `none` in `pbn` is `-1`, and `nextPage` is an `unsigned char`. -/
structure BPage where
  pbn : Option ℕ
  nextPage : ℕ
  optimal : Bool

def BPage.new : BPage := ⟨none, 0, true⟩

structure BdftlConfig extends SsdConfig, DftlConfig

/-- `FtlImpl_BDftl` for `n` logical pages; `none` in `inuseBlock` is `NULL`. -/
structure Bdftl (size n : ℕ) (τ π : Type) [Clock τ] [TransMap n τ] extends DftlParent n τ where
  currentDataPage : Option ℕ
  blockMap : ℕ → BPage
  trimMap : ℕ → Bool
  blockQueue : List ℕ
  inuseBlock : Option ℕ
  media : Media size π

/-- `trans_map[dlpn].ppn` -/
def DftlParent.ppn {n : ℕ} {τ : Type} [Clock τ] [TransMap n τ] (s : DftlParent n τ) (dlpn : ℕ) : Option ℕ :=
  if h : dlpn < n then (s.transMap.get ⟨dlpn, h⟩).ppn else none

namespace Bdftl

variable {size n : ℕ} {τ π : Type} [Clock τ] [TransMap n τ]

/-- The state at start-up; `junk` is what `page_data` holds, and `reverse` and `trimmed` are what
`reverse_trans_map` and `trim_map` hold. -/
def new (erases : ℕ) (junk : ℕ → π) (reverse : Option ℕ → ℕ) (trimmed : ℕ → Bool) :
    Bdftl size n τ π :=
  { toDftlParent := .new reverse
    currentDataPage := none
    blockMap := fun _ => .new
    trimMap := trimmed
    blockQueue := []
    inuseBlock := none
    media := ⟨⟨fun _ => .new erases, junk⟩, .new⟩ }

/-! ## Free pages -/

/-- `insert_events`, with the loop over `active_cost`. -/
def insertEvents (cfg : BdftlConfig) (media : Media size π) : Except Halt (Media size π) :=
  if cfg.gcDue media.bm then do
    let _ ← media.insertEvents cfg.toSsdConfig
    .error .wildAccess
  else .ok media

/-- `get_free_block(DATA)`, with this `insert_events` when few blocks are free. -/
def getFreeBlock (cfg : BdftlConfig) (media : Media size π) : Except Halt (ℕ × Media size π) :=
  if cfg.addressableBlocks * size ≤ media.bm.simpleCurrentFree ∧ media.bm.freeList.length ≤ 1 ∧
      media.bm.outOfBlocks = false then do
    let media ← insertEvents cfg { media with bm := { media.bm with outOfBlocks := true } }
    media.getFreeBlock cfg.toSsdConfig .data
  else media.getFreeBlock cfg.toSsdConfig .data

/-- `get_free_data_page` in a new block. -/
def nextDataBlock (cfg : BdftlConfig) (s : Bdftl size n τ π) :
    Except Halt (ℕ × Bdftl size n τ π) := do
  let media ← insertEvents cfg s.media
  let (address, media) ← getFreeBlock cfg media
  .ok (address, { s with media, currentDataPage := some address })

/-- `get_free_data_page` -/
def getFreeDataPage (cfg : BdftlConfig) (s : Bdftl size n τ π) :
    Except Halt (ℕ × Bdftl size n τ π) :=
  match s.currentDataPage with
  | none => s.nextDataBlock cfg
  | some page =>
    if page % size = size - 1 then s.nextDataBlock cfg
    else .ok (page + 1, { s with currentDataPage := some (page + 1) })

/-- `get_next_page` of a block. -/
def getNextPage (flash : Flash size π) (block : ℕ) : Option ℕ :=
  ((List.range size).find? fun i => (flash.block block).pages i = .empty).map (block * size + ·)

/-- `get_free_biftl_page` -/
def getFreeBiftlPage (cfg : BdftlConfig) (s : Bdftl size n τ π) :
    Except Halt (ℕ × Bdftl size n τ π) :=
  match s.inuseBlock with
  | none => s.getFreeDataPage cfg
  | some block =>
    match getNextPage s.media.flash block with
    | some page => .ok (page, s)
    | none =>
      match s.blockQueue with
      | next :: rest =>
        match getNextPage s.media.flash next with
        | some page => .ok (page, { s with inuseBlock := some next, blockQueue := rest })
        | none => .error .badAddress
      | [] => { s with inuseBlock := none }.getFreeDataPage cfg

/-! ## The switch to page mapping -/

/-- The body of the loop over the pages of the block: the states are those of the block at `startAdr`. -/
def convertPage (pbn startAdr : ℕ) (startTime : τ) (s : Bdftl size n τ π) (i : ℕ) :
    Except Halt (Bdftl size n τ π) := do
  if size ≤ i then .error .badAddress
  else if (s.media.flash.block (startAdr / size)).pages i ≠ .valid then .ok s
  else
    let current ← s.entry (startAdr + i)
    match current.ppn with
    | none => .ok s
    | some _ =>
      let (current, m) := s.updateTranslationMap current (some (pbn + i))
      let m ← m.replace (startAdr + i)
        { current with createTs := startTime, modifiedTs := startTime, cached := true }
      .ok { s with toDftlParent := { m with cmt := m.cmt + 1 } }

/-- The block is used for other pages later, unless it is full. -/
def enqueueBlock (s : Bdftl size n τ π) (block : ℕ) : Bdftl size n τ π :=
  if (s.media.flash.block block).pagesValid ≠ size then
    match s.inuseBlock with
    | none => { s with inuseBlock := some block }
    | some _ => { s with blockQueue := s.blockQueue ++ [block] }
  else s

/-- The transfer of a block to DFTL. -/
def convert (s : Bdftl size n τ π) (dlbn pbn : ℕ) (startTime : τ) :
    Except Halt (Bdftl size n τ π) := do
  let s ← (List.range (s.blockMap dlbn).nextPage).foldlM
    (convertPage pbn (dlbn * size) startTime) s
  let s := { s with
    blockMap := Function.update s.blockMap dlbn { s.blockMap dlbn with optimal := false } }
  .ok (s.enqueueBlock (pbn / size))

/-! ## Requests -/

/-- The first page of a block that has none takes a new block. -/
def takeBlock (cfg : BdftlConfig) (s : Bdftl size n τ π) (dlpn : ℕ) :
    Except Halt (Bdftl size n τ π) :=
  let dlbn := dlpn / size
  if (s.blockMap dlbn).pbn = none ∧ dlpn % size = 0 then do
    let (address, media) ← getFreeBlock cfg s.media
    .ok { s with
      media
      blockMap := Function.update s.blockMap dlbn { s.blockMap dlbn with pbn := some address } }
  else .ok s

/-- A write to an optimal block, with the address if it is handled there. -/
def writeOptimal (cfg : BdftlConfig) (s : Bdftl size n τ π) (dlpn : ℕ) (startTime : τ) :
    Except Halt (Option ℕ × Bdftl size n τ π) := do
  let dlbn := dlpn / size
  let s ← s.takeBlock cfg dlpn
  match (s.blockMap dlbn).pbn with
  | some pbn =>
    let dppn := dlpn % size % 256
    if (s.blockMap dlbn).nextPage = dppn then
      .ok (some (pbn + dppn), { s with
        blockMap := Function.update s.blockMap dlbn
          { s.blockMap dlbn with nextPage := (dppn + 1) % 256 } })
    else
      let s ← s.convert dlbn pbn startTime
      .ok (none, s)
  | none =>
    .ok (none, { s with
      blockMap := Function.update s.blockMap dlbn { s.blockMap dlbn with optimal := false } })

/-- A write of a page by itself: its new address, and the one that is replaced. -/
def writeMapped (cfg : BdftlConfig) (s : Bdftl size n τ π) (dlpn : ℕ) (startTime : τ) :
    Except Halt ((ℕ × Option ℕ) × Bdftl size n τ π) := do
  let (freePage, s) ← s.getFreeBiftlPage cfg
  let m ← s.resolveMapping cfg.toDftlConfig dlpn startTime true
  let current ← m.entry dlpn
  let (updated, m) := m.updateTranslationMap current (some freePage)
  let m ← m.replace dlpn updated
  .ok ((freePage, current.ppn), { s with toDftlParent := m })

/-- `issue` of a write, with the page that it replaces. -/
def issue (s : Bdftl size n τ π) (address : ℕ) (replaced : Option ℕ) (payload : π) :
    Except Halt (Bdftl size n τ π) := do
  let flash ← s.media.flash.write address payload
  let flash := match replaced with
    | none => flash
    | some a => flash.invalidate a
  .ok { s with media := ⟨flash, s.media.bm⟩ }

/-- `write` -/
def write (cfg : BdftlConfig) (s : Bdftl size n τ π) (dlpn : ℕ) (startTime : τ) (payload : π) :
    Except Halt (Bdftl size n τ π) := do
  if n ≤ dlpn then .error .outOfArray
  else
    let s := { s with trimMap := Function.update s.trimMap dlpn false }
    let (handled, s) ←
      if (s.blockMap (dlpn / size)).optimal then s.writeOptimal cfg dlpn startTime
      else .ok (none, s)
    match handled with
    | some address => s.issue address none payload
    | none =>
      let ((address, replaced), s) ← s.writeMapped cfg dlpn startTime
      s.issue address replaced payload

/-- Where a read finds a page; `none` is a read without an address. -/
def lookup (s : Bdftl size n τ π) (dlpn : ℕ) : Option ℕ :=
  if (s.blockMap (dlpn / size)).optimal then
    (s.blockMap (dlpn / size)).pbn.map (· + dlpn % size)
  else s.ppn dlpn

/-- `read`, with the page that it finds. -/
def read (cfg : BdftlConfig) (s : Bdftl size n τ π) (dlpn : ℕ) (startTime : τ) :
    Except Halt (Option ℕ × Bdftl size n τ π) := do
  if n ≤ dlpn then .error .outOfArray
  else if (s.blockMap (dlpn / size)).optimal then
    .ok ((s.blockMap (dlpn / size)).pbn.map (· + dlpn % size), s)
  else
    let m ← s.resolveMapping cfg.toDftlConfig dlpn startTime false
    let current ← m.entry dlpn
    .ok (current.ppn, { s with toDftlParent := m })

/-- A trim of a page of an optimal block, which is erased when all its pages are invalid. -/
def trimOptimal (cfg : BdftlConfig) (s : Bdftl size n τ π) (dlpn : ℕ) :
    Except Halt (Bdftl size n τ π) := do
  let dlbn := dlpn / size
  let address := Fast.reachedPage cfg.toSsdConfig size (s.blockMap dlbn).pbn (dlpn % size)
  let flash := s.media.flash.invalidate address
  if (flash.block (address / size)).state = .inactive then
    let media ← (Media.mk flash s.media.bm).eraseAndInvalidate address .data
    .ok { s with
      media
      blockMap := Function.update s.blockMap dlbn
        { s.blockMap dlbn with pbn := none, nextPage := 0 } }
  else .ok { s with media := ⟨flash, s.media.bm⟩ }

/-- A page that is mapped by itself is unmapped. -/
def trimMapped (cfg : BdftlConfig) (s : Bdftl size n τ π) (dlpn : ℕ) :
    Except Halt (Bdftl size n τ π) := do
  let current ← s.entry dlpn
  match current.ppn with
  | none => .ok s
  | some a =>
    let m ← s.evictSpecificPageFromCache cfg.toDftlConfig dlpn
    let (current, m) := m.updateTranslationMap current none
    let m ← m.replace dlpn current
    .ok { s with toDftlParent := m, media := ⟨s.media.flash.invalidate a, s.media.bm⟩ }

/-- A block of which all pages are trimmed is optimal again. -/
def resetBlock (s : Bdftl size n τ π) (dlpn : ℕ) : Bdftl size n τ π :=
  if ∀ i < size, s.trimMap (dlpn - dlpn % size + i) = true then
    { s with blockMap := Function.update s.blockMap (dlpn / size) .new }
  else s

/-- `trim` -/
def trim (cfg : BdftlConfig) (s : Bdftl size n τ π) (dlpn : ℕ) : Except Halt (Bdftl size n τ π) := do
  if n ≤ dlpn then .error .outOfArray
  else
    let s := { s with trimMap := Function.update s.trimMap dlpn true }
    if (s.blockMap (dlpn / size)).optimal then s.trimOptimal cfg dlpn
    else
      let s ← s.trimMapped cfg dlpn
      .ok (s.resetBlock dlpn)

end Bdftl

inductive BdftlRequest (τ π : Type)
  | read (dlpn : ℕ) (startTime : τ)
  | write (dlpn : ℕ) (startTime : τ) (payload : π)
  | trim (dlpn : ℕ)

namespace Bdftl

variable {size n : ℕ} {τ π : Type} [Clock τ] [TransMap n τ]

def serve (cfg : BdftlConfig) (s : Bdftl size n τ π) :
    BdftlRequest τ π → Except Halt (Bdftl size n τ π)
  | .read dlpn startTime => do
    let (_, s) ← s.read cfg dlpn startTime
    .ok s
  | .write dlpn startTime payload => s.write cfg dlpn startTime payload
  | .trim dlpn => s.trim cfg dlpn

def serveAll (cfg : BdftlConfig) (s : Bdftl size n τ π) (rs : List (BdftlRequest τ π)) :
    Except Halt (Bdftl size n τ π) := rs.foldlM (serve cfg) s

end Bdftl

end ZnsFlash
