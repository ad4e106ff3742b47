import ZnsFlash.Ssd.Fast

/-!
# Trims of FAST

`FtlImpl_Fast::trim`, and sequences of requests with trims.

* `Fast.lookup`: the page that a logical page is in, if any; **`Fast.readAddress_eq`**;
* `Fast.dropEntry`, `Fast.trimPage`, `Fast.trim`: the page is invalidated, and a block without valid
  pages is erased;
* `FastRequest`, `Fast.serve`, `Fast.serveAll`, `Fast.latestWrite`: sequences of requests;
* `Fast.RunSafe`: runs of reads and of writes that keep the newest versions.
-/

namespace ZnsFlash

namespace Fast

variable {size : ℕ} {π : Type}

/-- The page that a read of a logical address resolves to; `none` when it is not mapped. -/
def lookup (s : Fast size π) (logicalAddress : ℕ) : Option ℕ :=
  let lookupBlock := logicalBlock size logicalAddress
  let lbnOffset := logicalAddress % size
  match findPage logicalAddress s.logPages with
  | some a => some a
  | none =>
    if s.sequentialLogicalblockAddress = some lookupBlock ∧ lbnOffset < s.sequentialOffset then
      some (s.sequentialAddress + lbnOffset)
    else (s.dataList lookupBlock).map (· + lbnOffset)

theorem readAddress_eq (s : Fast size π) (logicalAddress : ℕ) :
    s.readAddress logicalAddress = (s.lookup logicalAddress).getD 0 := by
  rw [readAddress, lookup]
  cases findPage logicalAddress s.logPages with
  | some a => rfl
  | none =>
    dsimp only
    split_ifs
    · rfl
    · cases s.dataList (logicalBlock size logicalAddress) <;> rfl

/-- The search of `trim` in the RW log: `aPages[i] = -1` for the first page that is found, whose block
and address are given. -/
def dropEntry (logicalAddress : ℕ) : List FastLog → Option (List FastLog × ℕ × ℕ)
  | [] => none
  | log :: rest =>
    match (List.range log.numPages).find? fun i => log.aPages i = some logicalAddress with
    | some i => some (log.drop i :: rest, log.address, log.address + i)
    | none => (dropEntry logicalAddress rest).map fun r => (log :: r.1, r.2)

/-- A page is invalidated. When its block has only invalid pages then, the block is erased, and
`forget` takes it out of the maps. -/
def invalidatePage (s : Fast size π) (block address : ℕ) (forget : Fast size π → Fast size π) :
    Except Halt (Fast size π) :=
  let flash := s.media.flash.invalidate address
  let s := { s with media := ⟨flash, s.media.bm⟩ }
  if (flash.block (address / size)).state = .inactive then do
    let media ← s.media.eraseAndInvalidate block .log
    .ok (forget { s with media })
  else .ok s

/-- The three cases of `trim`. -/
def trimPage (s : Fast size π) (logicalAddress : ℕ) : Except Halt (Fast size π) :=
  let lookupBlock := logicalBlock size logicalAddress
  let lbnOffset := logicalAddress % size
  match dropEntry logicalAddress s.logPages with
  | some (logPages, block, address) =>
    { s with logPages }.invalidatePage block address fun s =>
      { s with dataList := Function.update s.dataList lookupBlock none }
  | none =>
    if s.sequentialLogicalblockAddress = some lookupBlock ∧ lbnOffset < s.sequentialOffset then
      let address := s.sequentialAddress + lbnOffset
      s.invalidatePage address address fun s => { s with sequentialLogicalblockAddress := none }
    else
      match s.dataList lookupBlock with
      | none => .ok s
      | some a =>
        s.invalidatePage (a + lbnOffset) (a + lbnOffset) fun s =>
          { s with dataList := Function.update s.dataList lookupBlock none }

/-- `trim`; the event that is issued last is a no-op. -/
def trim (cfg : FastConfig) (s : Fast size π) (logicalAddress : ℕ) : Except Halt (Fast size π) := do
  if cfg.addressableBlocks ≤ logicalBlock size logicalAddress then .error .outOfArray
  else
    let s ← s.initializeLogPages cfg
    let s ← s.trimPage logicalAddress
    let media ← s.media.insertEvents cfg.toSsdConfig
    .ok { s with media }

end Fast

/-! ## Requests -/

inductive FastRequest (π : Type)
  | read (logicalAddress : ℕ)
  | write (logicalAddress : ℕ) (payload : π)
  | trim (logicalAddress : ℕ)

namespace Fast

variable {size : ℕ} {π : Type}

def serve (cfg : FastConfig) (s : Fast size π) : FastRequest π → Except Halt (Fast size π)
  | .read logicalAddress => s.read cfg logicalAddress
  | .write logicalAddress payload => s.write cfg logicalAddress payload
  | .trim logicalAddress => s.trim cfg logicalAddress

def serveAll (cfg : FastConfig) (s : Fast size π) (rs : List (FastRequest π)) :
    Except Halt (Fast size π) := rs.foldlM (serve cfg) s

def remember (latest : ℕ → Option π) : FastRequest π → ℕ → Option π
  | .write logicalAddress payload => Function.update latest logicalAddress (some payload)
  | .read _ | .trim _ => latest

/-- The payload of the latest write of each page. -/
def latestWrite (rs : List (FastRequest π)) : ℕ → Option π := rs.foldl remember fun _ => none

/-- Reads, and the writes that FAST gets right; trims are not among them. -/
def StepSafe (cfg : FastConfig) (s : Fast size π) : FastRequest π → Prop
  | .read _ => True
  | .write logicalAddress _ => s.WriteSafe cfg logicalAddress
  | .trim _ => False

instance (cfg : FastConfig) (s : Fast size π) : DecidablePred (s.StepSafe cfg)
  | .read _ => isTrue trivial
  | .write logicalAddress _ => inferInstanceAs (Decidable (s.WriteSafe cfg logicalAddress))
  | .trim _ => isFalse id

/-- Each write of a run of reads and writes is safe, in the state that it meets. -/
def RunSafe (cfg : FastConfig) (s : Fast size π) (rs : List (FastRequest π)) : Prop :=
  Yields.Along (serve cfg) (StepSafe cfg) s rs

instance (cfg : FastConfig) (s : Fast size π) (rs : List (FastRequest π)) :
    Decidable (RunSafe cfg s rs) := Yields.decidableAlong (serve cfg) (StepSafe cfg) s rs

/-! ## The search for an entry -/

section DropEntry

variable {la : ℕ} {logs logs' : List FastLog} {block address : ℕ}

/-- What the search finds and changes. -/
structure Dropped (la : ℕ) (logs logs' : List FastLog) (block address : ℕ) : Prop where
  found : findPage la logs = some address
  entry : ∃ pre log post i, logs = pre ++ log :: post ∧ logs' = pre ++ log.drop i :: post ∧
    i < log.numPages ∧ log.aPages i = some la ∧ block = log.address ∧ address = log.address + i

theorem dropEntry_eq_some (h : dropEntry la logs = some (logs', block, address)) :
    Dropped la logs logs' block address := by
  induction logs generalizing logs' with
  | nil => cases h
  | cons log rest ih =>
    rw [dropEntry] at h
    cases hfind : (List.range log.numPages).find? fun i => log.aPages i = some la with
    | some i =>
      rw [hfind] at h
      obtain ⟨rfl, rfl, rfl⟩ := h
      have hpage := List.find?_some hfind
      refine ⟨?_, [], log, rest, i, rfl, rfl, List.mem_range.mp (List.mem_of_find?_eq_some hfind),
        of_decide_eq_true hpage, rfl, rfl⟩
      rw [findPage, List.findSome?_cons, hfind]
      rfl
    | none =>
      rw [hfind] at h
      obtain ⟨⟨logs₁, block₁, address₁⟩, hrest, heq⟩ := Option.map_eq_some_iff.mp h
      obtain ⟨rfl, rfl, rfl⟩ := heq
      obtain ⟨hfound, pre, log', post, i, rfl, rfl, hi, hpage, hblock, haddress⟩ := ih hrest
      refine ⟨?_, log :: pre, log', post, i, rfl, rfl, hi, hpage, hblock, haddress⟩
      rw [findPage, List.findSome?_cons, hfind]
      exact hfound

theorem dropEntry_eq_none (h : dropEntry la logs = none) : findPage la logs = none := by
  induction logs with
  | nil => rfl
  | cons log rest ih =>
    rw [dropEntry] at h
    rw [findPage, List.findSome?_cons]
    cases hfind : (List.range log.numPages).find? fun i => log.aPages i = some la with
    | some i =>
      rw [hfind] at h
      cases h
    | none =>
      rw [hfind] at h
      exact ih (Option.map_eq_none_iff.mp h)

theorem Dropped.findPage_eq (h : Dropped la logs logs' block address) {la' : ℕ} (hne : la' ≠ la) :
    findPage la' logs' = findPage la' logs := by
  obtain ⟨-, pre, log, post, i, rfl, rfl, -, hpage, -, -⟩ := h
  have hsame : ∀ j, (log.drop i).aPages j = some la' ↔ log.aPages j = some la' := by
    intro j
    show Function.update log.aPages i none j = some la' ↔ log.aPages j = some la'
    by_cases hj : j = i
    · rw [hj, Function.update_self, hpage]
      simp [hne.symm]
    · rw [Function.update_of_ne hj]
  rw [findPage, findPage, List.findSome?_append, List.findSome?_append, List.findSome?_cons,
    List.findSome?_cons]
  simp only [hsame]
  rfl

theorem Dropped.numPages (h : Dropped la logs logs' block address) :
    logs'.map FastLog.numPages = logs.map FastLog.numPages := by
  obtain ⟨-, pre, log, post, i, rfl, rfl, -⟩ := h
  rw [List.map_append, List.map_append, List.map_cons, List.map_cons]
  rfl

end DropEntry

end Fast

end ZnsFlash
