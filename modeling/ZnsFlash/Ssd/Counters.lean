import ZnsFlash.Ssd.BlockManager

/-!
# The counters of the block manager

* `Counts`: `data_active` and `log_active` as numbers;
* `getFreeBlock_data_counts`, `getFreeBlock_log_counts`, `insertEvents_counts`,
  `invalidateBlock_data_counts`, `invalidateBlock_log_counts`, `eraseAndInvalidate_log_counts`: what the
  operations do to them;
* `getFreeBlock_halts`, `insertEvents_halts`, `eraseAndInvalidate_halts`: how they stop.
-/

namespace ZnsFlash

variable {size : ℕ} {π : Type} {ok : Halt → Prop} {m : Media size π} {d l : ℕ}

/-- The counters stand for these numbers, up to a wrap-around. -/
structure Counts (bm : BlockManager) (d l : ℕ) : Prop where
  data : bm.dataActive = BitVec.ofNat 64 d
  log : bm.logActive = BitVec.ofNat 64 l

theorem Counts.self (bm : BlockManager) : Counts bm bm.dataActive.toNat bm.logActive.toNat :=
  ⟨(BitVec.ofNat_toNat 64 _).symm ▸ (BitVec.setWidth_eq _).symm,
    (BitVec.ofNat_toNat 64 _).symm ▸ (BitVec.setWidth_eq _).symm⟩

theorem Counts.toNat {bm : BlockManager} (h : Counts bm d l) (hd : d < 2 ^ 64) (hl : l < 2 ^ 64) :
    bm.dataActive.toNat = d ∧ bm.logActive.toNat = l := by
  refine ⟨?_, ?_⟩
  · rw [h.data, BitVec.toNat_ofNat, Nat.mod_eq_of_lt hd]
  · rw [h.log, BitVec.toNat_ofNat, Nat.mod_eq_of_lt hl]

theorem ofNat_succ_sub_one (n : ℕ) : BitVec.ofNat 64 (n + 1) - 1 = BitVec.ofNat 64 n := by
  rw [BitVec.ofNat_add]
  exact BitVec.add_sub_cancel _ _

theorem Counts.released_data {bm : BlockManager} (h : Counts bm (d + 1) l) :
    Counts (bm.released .data) d l :=
  ⟨by rw [BlockManager.released, h.data, ofNat_succ_sub_one], h.log⟩

theorem Counts.released_log {bm : BlockManager} (h : Counts bm d (l + 1)) :
    Counts (bm.released .log) d l :=
  ⟨h.data, by rw [BlockManager.released, h.log, ofNat_succ_sub_one]⟩

theorem cleanInvalid_counts (hworn : ok .worn) (n : ℕ) (h : Counts m.bm d l) :
    Yields ok (m.cleanInvalid n) fun m' => Counts m'.bm d l := by
  induction n generalizing m with
  | zero => exact h
  | succ n ih =>
    rw [Media.cleanInvalid]
    cases m.bm.invalidList.getLast? with
    | none => exact h
    | some b => exact (Flash.erase_halts hworn b).bind fun g _ => ih ⟨h.data, h.log⟩

theorem insertEvents_counts (hworn : ok .worn) (cfg : SsdConfig) (h : Counts m.bm d l) :
    Yields ok (m.insertEvents cfg) fun m' => Counts m'.bm d l := by
  rw [Media.insertEvents]
  split_ifs
  · exact cleanInvalid_counts hworn 5 h
  · exact h

theorem getPageBlock_counts (hworn : ok .worn) (hnone : ok .noFreeBlock) (cfg : SsdConfig)
    (h : Counts m.bm d l) : Yields ok (m.getPageBlock cfg) fun r => Counts r.2.bm d l := by
  rw [Media.getPageBlock]
  split_ifs
  · exact ⟨h.data, h.log⟩
  · have hrefill : Yields ok (m.refill cfg) fun m' => Counts m'.bm d l := by
      rw [Media.refill]
      split_ifs
      · exact insertEvents_counts hworn cfg ⟨h.data, h.log⟩
      · exact h
    refine hrefill.bind fun m' hm' => ?_
    cases m'.bm.freeList with
    | nil => exact hnone
    | cons b rest => exact ⟨hm'.data, hm'.log⟩

theorem getFreeBlock_data_counts (hworn : ok .worn) (hnone : ok .noFreeBlock) (cfg : SsdConfig)
    (h : Counts m.bm d l) :
    Yields ok (m.getFreeBlock cfg .data) fun r => Counts r.2.bm (d + 1) l := by
  refine (getPageBlock_counts hworn hnone cfg h).bind fun r hr => ⟨?_, hr.log⟩
  rw [BitVec.ofNat_add, ← hr.data]
  rfl

theorem getFreeBlock_log_counts (hworn : ok .worn) (hnone : ok .noFreeBlock) (hbad : ok .badAlloc)
    (cfg : SsdConfig) (h : Counts m.bm d l) :
    Yields ok (m.getFreeBlock cfg .log) fun r => Counts r.2.bm d (l + 1) := by
  refine (getPageBlock_counts hworn hnone cfg h).bind fun r hr => ?_
  dsimp only
  split_ifs
  · exact hbad
  · refine ⟨hr.data, ?_⟩
    rw [BitVec.ofNat_add, ← hr.log]
    rfl

theorem invalidateBlock_data_counts (address : ℕ) (h : Counts m.bm (d + 1) l) :
    Counts (m.invalidateBlock address .data).bm d l := by
  have hlist : Counts { m.bm with invalidList := m.bm.invalidList ++ [address / size] } (d + 1) l :=
    ⟨h.data, h.log⟩
  exact hlist.released_data

theorem invalidateBlock_log_counts (address : ℕ) (h : Counts m.bm d (l + 1)) :
    Counts (m.invalidateBlock address .log).bm d l := by
  have hlist : Counts { m.bm with invalidList := m.bm.invalidList ++ [address / size] } d (l + 1) :=
    ⟨h.data, h.log⟩
  exact hlist.released_log

theorem eraseAndInvalidate_log_counts (hworn : ok .worn) (address : ℕ) (h : Counts m.bm d (l + 1)) :
    Yields ok (m.eraseAndInvalidate address .log) fun m' => Counts m'.bm d l := by
  refine (Flash.erase_halts hworn _).bind fun g _ => ?_
  have hlist : Counts { m.bm with freeList := m.bm.freeList ++ [address / size] } d (l + 1) :=
    ⟨h.data, h.log⟩
  exact hlist.released_log

theorem eraseAndInvalidate_halts (hworn : ok .worn) (m : Media size π) (address : ℕ)
    (type : BlockType) : Yields ok (m.eraseAndInvalidate address type) fun _ => True :=
  (Flash.erase_halts hworn _).bind fun _ _ => trivial

theorem insertEvents_halts (hworn : ok .worn) (cfg : SsdConfig) (m : Media size π) :
    Yields ok (m.insertEvents cfg) fun _ => True :=
  (insertEvents_counts hworn cfg (.self m.bm)).mono fun _ _ => trivial

theorem getFreeBlock_halts (hworn : ok .worn) (hnone : ok .noFreeBlock) (hbad : ok .badAlloc)
    (cfg : SsdConfig) (type : BlockType) (m : Media size π) :
    Yields ok (m.getFreeBlock cfg type) fun _ => True := by
  refine (getPageBlock_counts hworn hnone cfg (.self m.bm)).bind fun r _ => ?_
  cases type with
  | data => trivial
  | log =>
    dsimp only
    split_ifs
    · exact hbad
    · trivial
  | logSeq => trivial

end ZnsFlash
