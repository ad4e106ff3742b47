import ZnsFlash.Ssd.Bookkeeping

/-!
# The page-level layer without merges

`page_ftl.cpp`: writes are not carried out and only counted, and all erases go to the first block.

* `PageFtlConfig`, `FtlImplPage`, `FtlImplPage.write`, `FtlImplPage.trim`, `FtlImplPage.serve`;
* `FtlImplPage.Ledger`: the counter, the erases and the wear of the first block; `Ledger.serve`;
* **`page_ftl_ledger`**: they agree after every run;
* `PageRequest.ErasesShort`, `active_le_iff`: a trim that takes more pages from the counter than it
  holds;
* **`page_ftl_counter_iff`**: the counter stays within the device exactly without such trims.
-/

namespace ZnsFlash

/-! ## The layer -/

/-- `NUMBER_OF_ADDRESSABLE_BLOCKS` and `BLOCK_SIZE`. -/
structure PageFtlConfig where
  addressableBlocks : BitVec 32
  blockSize : BitVec 32

/-- The number of pages, which is computed in 32 bits. -/
def PageFtlConfig.capacity (cfg : PageFtlConfig) : BitVec 32 := cfg.addressableBlocks * cfg.blockSize

/-- The layer, with the block at `Address(0, PAGE)`. -/
structure FtlImplPage (n : ℕ) where
  numPagesActive : BitVec 64
  trimMap : ℕ → Bool
  numFTLErase : ℕ
  firstBlock : Block n

inductive PageRequest
  | read
  | write
  | trim (logicalAddress : BitVec 64)

namespace FtlImplPage

variable {n : ℕ}

/-- The constructor, which leaves `trim_map` as it is. -/
def new (erases : ℕ) (junk : ℕ → Bool) : FtlImplPage n := ⟨0, junk, 0, .new erases⟩

/-- The erase of the block at `Address(0, PAGE)`; a failure is printed. -/
def eraseFirst (s : FtlImplPage n) : FtlImplPage n :=
  { s with
    firstBlock := s.firstBlock.erase.getD s.firstBlock
    numFTLErase := s.numFTLErase + 1 }

/-- `FtlImpl_Page::write`; the event itself is issued as one without effect. -/
def write (cfg : PageFtlConfig) (s : FtlImplPage n) : FtlImplPage n :=
  let s :=
    if s.numPagesActive = cfg.capacity.setWidth 64 then
      { s.eraseFirst with numPagesActive := s.numPagesActive - cfg.blockSize.setWidth 64 }
    else s
  { s with numPagesActive := s.numPagesActive + 1 }

/-- The pages of the block of an address. -/
def blockPages (cfg : PageFtlConfig) (dlpn : ℕ) : List ℕ :=
  List.range' (dlpn - dlpn % cfg.blockSize.toNat) cfg.blockSize.toNat

/-- The flag of a page that is trimmed is set, and then those of its block are looked at. -/
def allTrimmed (cfg : PageFtlConfig) (s : FtlImplPage n) (dlpn : ℕ) : Bool :=
  (blockPages cfg dlpn).all (Function.update s.trimMap dlpn true)

/-- `FtlImpl_Page::trim` -/
def trim (cfg : PageFtlConfig) (s : FtlImplPage n) (logicalAddress : BitVec 64) :
    Except Halt (FtlImplPage n) :=
  let dlpn := logicalAddress.toNat
  if dlpn < cfg.capacity.toNat then
    let marked := { s with trimMap := Function.update s.trimMap dlpn true }
    if s.allTrimmed cfg dlpn then
      .ok { marked.eraseFirst with
        trimMap := fun i => if i ∈ blockPages cfg dlpn then false else marked.trimMap i
        numPagesActive := s.numPagesActive - cfg.blockSize.setWidth 64 }
    else .ok marked
  else .error .outOfArray

/-- A request; a read is issued as an event without effect. -/
def serve (cfg : PageFtlConfig) (s : FtlImplPage n) : PageRequest → Except Halt (FtlImplPage n)
  | .read => .ok s
  | .write => .ok (s.write cfg)
  | .trim logicalAddress => s.trim cfg logicalAddress

def serveAll (cfg : PageFtlConfig) (s : FtlImplPage n) (requests : List PageRequest) :
    Except Halt (FtlImplPage n) :=
  requests.foldlM (serve cfg) s

end FtlImplPage

/-- How many of the requests are writes. -/
def numWrites (requests : List PageRequest) : ℕ :=
  requests.countP fun
    | .write => true
    | _ => false

/-! ## The ledger -/

namespace FtlImplPage

variable {n : ℕ} {cfg : PageFtlConfig} {erases writes : ℕ} {s t : FtlImplPage n}

/-- **What the counters say**, after some writes. -/
structure Ledger (cfg : PageFtlConfig) (erases writes : ℕ) (s : FtlImplPage n) : Prop where
  active : s.numPagesActive + BitVec.ofNat 64 (cfg.blockSize.toNat * s.numFTLErase) =
    BitVec.ofNat 64 writes
  worn : s.firstBlock.erasesRemaining = erases - s.numFTLErase

theorem worn_eraseFirst (h : s.firstBlock.erasesRemaining = erases - s.numFTLErase) :
    s.eraseFirst.firstBlock.erasesRemaining = erases - s.eraseFirst.numFTLErase := by
  unfold eraseFirst Block.erase
  dsimp only
  split_ifs with hworn
  · simp only [Option.getD_none]
    omega
  · simp only [Option.getD_some]
    omega

theorem active_eraseFirst
    (h : s.numPagesActive + BitVec.ofNat 64 (cfg.blockSize.toNat * s.numFTLErase) =
    BitVec.ofNat 64 writes) :
    s.numPagesActive - cfg.blockSize.setWidth 64 +
      BitVec.ofNat 64 (cfg.blockSize.toNat * s.eraseFirst.numFTLErase) = BitVec.ofNat 64 writes := by
  have hsize : cfg.blockSize.setWidth 64 = BitVec.ofNat 64 cfg.blockSize.toNat :=
    (BitVec.ofNat_toNat 64 cfg.blockSize).symm
  have hsucc : cfg.blockSize.toNat * s.eraseFirst.numFTLErase =
      cfg.blockSize.toNat + cfg.blockSize.toNat * s.numFTLErase := by
    show _ * (_ + 1) = _
    rw [Nat.mul_succ, Nat.add_comm]
  rw [hsucc, BitVec.ofNat_add, hsize, ← BitVec.add_assoc, BitVec.sub_add_cancel]
  exact h

theorem Ledger.serve (h : Ledger cfg erases writes s) {request : PageRequest}
    (hs : s.serve cfg request = .ok t) :
    Ledger cfg erases (writes + numWrites [request]) t := by
  cases request with
  | read =>
    obtain rfl := Except.ok.inj hs
    exact h
  | write =>
    obtain rfl := Except.ok.inj hs
    have hone : ∀ x y : BitVec 64, x + y = BitVec.ofNat 64 writes →
        x + 1 + y = BitVec.ofNat 64 (writes + numWrites [PageRequest.write]) := by
      intro x y hxy
      have hwrite : writes + numWrites [PageRequest.write] = writes + 1 := rfl
      rw [hwrite, BitVec.ofNat_add, ← hxy, BitVec.add_assoc, BitVec.add_comm 1, BitVec.add_assoc]
      rfl
    unfold write
    split_ifs with hfull
    · exact ⟨hone _ _ (active_eraseFirst h.active), worn_eraseFirst h.worn⟩
    · exact ⟨hone _ _ h.active, h.worn⟩
  | trim logicalAddress =>
    have hnone : writes + numWrites [PageRequest.trim logicalAddress] = writes := rfl
    rw [hnone]
    rw [FtlImplPage.serve, trim] at hs
    dsimp only at hs
    split_ifs at hs with hin hall
    · obtain rfl := Except.ok.inj hs
      exact ⟨active_eraseFirst h.active, worn_eraseFirst h.worn⟩
    · obtain rfl := Except.ok.inj hs
      exact ⟨h.active, h.worn⟩

theorem Ledger.serveAll {requests : List PageRequest} (h : Ledger cfg erases writes s)
    (hs : s.serveAll cfg requests = .ok t) : Ledger cfg erases (writes + numWrites requests) t := by
  induction requests generalizing s writes with
  | nil =>
    obtain rfl := Except.ok.inj hs
    exact h
  | cons request requests ih =>
    rw [FtlImplPage.serveAll, List.foldlM_cons] at hs
    obtain ⟨r, hr, hrest⟩ := Yields.bind_eq_ok.mp hs
    have hcount : numWrites ([request] ++ requests) = numWrites [request] + numWrites requests :=
      List.countP_append
    rw [List.singleton_append] at hcount
    rw [hcount, ← Nat.add_assoc]
    exact ih (h.serve hr) hrest

end FtlImplPage

/-- **The counters of the page-level layer.** After every run, `numPagesActive` is the number of writes
less a block for each erase, and the first block has lost an erase for each, until it has none left. -/
theorem page_ftl_ledger {n : ℕ} (cfg : PageFtlConfig) (erases : ℕ) (junk : ℕ → Bool)
    (requests : List PageRequest) (s : FtlImplPage n)
    (hs : (FtlImplPage.new erases junk).serveAll cfg requests = .ok s) :
    s.numPagesActive = BitVec.ofNat 64 (numWrites requests) -
        BitVec.ofNat 64 (cfg.blockSize.toNat * s.numFTLErase) ∧
      s.firstBlock.erasesRemaining = erases - s.numFTLErase := by
  have hstart : FtlImplPage.Ledger cfg erases 0 (FtlImplPage.new erases junk : FtlImplPage n) :=
    ⟨by simp [FtlImplPage.new], rfl⟩
  have hlast := hstart.serveAll hs
  rw [Nat.zero_add] at hlast
  exact ⟨BitVec.eq_sub_iff_add_eq.mpr hlast.active, hlast.worn⟩

/-- Two blocks of two pages. -/
def fourPages : PageFtlConfig := ⟨2, 2⟩

/-- The fifth write and the second trim erase. -/
def pageRequests : List PageRequest := [.write, .write, .write, .write, .write, .trim 2, .trim 3]

theorem page_ftl_ledger_pageRequests :
    ∃ s : FtlImplPage 2, (FtlImplPage.new 9 fun _ => false).serveAll fourPages pageRequests = .ok s ∧
      s.numPagesActive = 1 ∧ s.firstBlock.erasesRemaining = 7 := by
  refine ⟨_, rfl, ?_⟩
  obtain ⟨hactive, hworn⟩ := page_ftl_ledger fourPages 9 (fun _ => false) pageRequests _ rfl
  exact ⟨hactive.trans (by decide), hworn.trans (by decide)⟩

/-! ## The counter and the size of the device -/

/-- There are pages, and they can be numbered in 32 bits. -/
structure PageFtlConfig.Fits (cfg : PageFtlConfig) : Prop where
  blocks : 0 < cfg.addressableBlocks.toNat
  pages : 0 < cfg.blockSize.toNat
  lt : cfg.addressableBlocks.toNat * cfg.blockSize.toNat < 2 ^ 32

/-- **A trim that erases a block** while the counter holds fewer pages than a block. -/
def PageRequest.ErasesShort {n : ℕ} (cfg : PageFtlConfig) (s : FtlImplPage n) : PageRequest → Prop
  | .trim a => a.toNat < cfg.capacity.toNat ∧ s.allTrimmed cfg a.toNat = true ∧
      s.numPagesActive.toNat < cfg.blockSize.toNat
  | _ => False

instance {n : ℕ} (cfg : PageFtlConfig) (s : FtlImplPage n) (request : PageRequest) :
    Decidable (request.ErasesShort cfg s) :=
  match request with
  | .trim _ => inferInstanceAs (Decidable (_ ∧ _ ∧ _))
  | .read | .write => isFalse id

section Counter

variable {n : ℕ} {cfg : PageFtlConfig} {s t : FtlImplPage n}

theorem PageFtlConfig.Fits.capacity (h : cfg.Fits) :
    cfg.capacity.toNat = cfg.addressableBlocks.toNat * cfg.blockSize.toNat := by
  rw [PageFtlConfig.capacity, BitVec.toNat_mul, Nat.mod_eq_of_lt h.lt]

theorem PageFtlConfig.Fits.blockSize_le (h : cfg.Fits) :
    cfg.blockSize.toNat ≤ cfg.capacity.toNat := by
  rw [h.capacity]
  exact Nat.le_mul_of_pos_left _ h.blocks

theorem toNat_sub_blockSize (x : BitVec 64) (size : BitVec 32) :
    (x - size.setWidth 64).toNat =
      if size.toNat ≤ x.toNat then x.toNat - size.toNat else 2 ^ 64 + x.toNat - size.toNat := by
  have hx := x.isLt
  have hsize := size.isLt
  have hwide : (size.setWidth 64).toNat = size.toNat := by
    rw [BitVec.toNat_setWidth, Nat.mod_eq_of_lt (by omega)]
  rw [BitVec.toNat_sub, hwide]
  split_ifs <;> omega

/-- **One request** keeps the counter within the device, or takes too many pages from it. -/
theorem active_le_iff (hcfg : cfg.Fits) (hle : s.numPagesActive.toNat ≤ cfg.capacity.toNat)
    {request : PageRequest} (hs : s.serve cfg request = .ok t) :
    t.numPagesActive.toNat ≤ cfg.capacity.toNat ↔ ¬ request.ErasesShort cfg s := by
  have hblock := hcfg.blockSize_le
  have hpos := hcfg.pages
  have hcapacity := cfg.capacity.isLt
  cases request with
  | read =>
    obtain rfl := Except.ok.inj hs
    exact iff_of_true hle id
  | write =>
    obtain rfl := Except.ok.inj hs
    refine iff_of_true ?_ id
    -- a write counts one page, after a block was taken off at the full counter
    have hone : ∀ x : BitVec 64, x.toNat < cfg.capacity.toNat → (x + 1).toNat ≤ cfg.capacity.toNat := by
      intro x hx
      rw [BitVec.toNat_add]
      change (x.toNat + 1) % 2 ^ 64 ≤ _
      omega
    have hwide : (cfg.capacity.setWidth 64).toNat = cfg.capacity.toNat := by
      rw [BitVec.toNat_setWidth, Nat.mod_eq_of_lt (by omega)]
    unfold FtlImplPage.write
    split_ifs with hfull
    · apply hone
      rw [toNat_sub_blockSize, hfull, hwide, if_pos hblock]
      omega
    · apply hone
      rw [BitVec.toNat_eq, hwide] at hfull
      omega
  | trim a =>
    rw [FtlImplPage.serve, FtlImplPage.trim] at hs
    dsimp only at hs
    split_ifs at hs with hin hall
    · obtain rfl := Except.ok.inj hs
      show (s.numPagesActive - cfg.blockSize.setWidth 64).toNat ≤ _ ↔
        ¬ (_ ∧ _ ∧ s.numPagesActive.toNat < cfg.blockSize.toNat)
      rw [toNat_sub_blockSize]
      simp only [hin, hall, true_and, not_lt]
      split_ifs with henough
      · exact iff_of_true (by omega) henough
      -- below a block the difference wraps around
      · exact iff_of_false (by omega) henough
    · obtain rfl := Except.ok.inj hs
      exact iff_of_true hle fun h => hall h.2.1

end Counter

/-- **The pages that are counted.** In every state of a run `numPagesActive` is at most the number of
pages of the device exactly when no trim of the run erases a block while it holds less than a block: such
a trim wraps it around. -/
theorem page_ftl_counter_iff {n : ℕ} (cfg : PageFtlConfig) (hcfg : cfg.Fits) (erases : ℕ)
    (junk : ℕ → Bool) (requests : List PageRequest) :
    (∀ pre, pre <+: requests → ∀ s : FtlImplPage n,
        (FtlImplPage.new erases junk).serveAll cfg pre = .ok s →
          s.numPagesActive.toNat ≤ cfg.capacity.toNat) ↔
      Yields.Along (FtlImplPage.serve cfg) (fun s request => ¬ request.ErasesShort cfg s)
        (FtlImplPage.new erases junk : FtlImplPage n) requests := by
  refine Yields.forall_prefix_iff_along (fun s request t hs ht => active_le_iff hcfg hs ht)
    (fun s request e he => ?_) (Nat.zero_le _)
  cases request with
  | read => exact id
  | write => exact id
  | trim a =>
    rintro ⟨hin, -, -⟩
    rw [FtlImplPage.serve, FtlImplPage.trim, if_pos hin] at he
    dsimp only at he
    split_ifs at he

theorem page_ftl_counter_iff_fourPages :
    (∀ pre, pre <+: pageRequests → ∀ s : FtlImplPage 2,
        (FtlImplPage.new 9 fun _ => false).serveAll fourPages pre = .ok s → s.numPagesActive.toNat ≤ 4) ∧
      ¬ ∀ pre, pre <+: [PageRequest.trim 0, .trim 1] → ∀ s : FtlImplPage 2,
        (FtlImplPage.new 9 fun _ => false).serveAll fourPages pre = .ok s →
          s.numPagesActive.toNat ≤ fourPages.capacity.toNat := by
  have hfits : fourPages.Fits := ⟨by decide, by decide, by decide⟩
  constructor
  · exact (page_ftl_counter_iff fourPages hfits 9 (fun _ => false) pageRequests).mpr (by decide)
  · rw [page_ftl_counter_iff fourPages hfits]
    decide

end ZnsFlash
