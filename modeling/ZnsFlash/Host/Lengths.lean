import ZnsFlash.Host.Reach

/-!
# Writes of any length

The pointer of a zone moves by bytes, the table keeps page numbers rounded down.

* `Extent`, `noteStep`: where the accepted append of a write put its data;
* `Separate`: the data of different pages does not meet, and is read back;
* `StartsPage`: the write is at most a page long and starts one;
* **`separate_iff`**: along runs of accepted writes, the first exactly when the second.
-/

namespace ZnsFlash

open Runs

/-- The bytes on the disk that hold the data of a write. -/
structure Extent where
  start : ℕ
  data : List Byte

namespace Extent

/-- The first byte after the extent. -/
def stop (e : Extent) : ℕ := e.start + e.data.length

def Covers (e : Extent) (i : ℕ) : Prop := e.start ≤ i ∧ i < e.stop

end Extent

/-- By logical page, the last data written. -/
abbrev Extents := ℕ → Option Extent

namespace HostFtl

variable {δ : Type} {link : Link δ}

/-! ## Runs of writes -/

/-- One write; the append that was accepted ends at the pointer of what is the write zone now. -/
def noteStep (link : Link δ) (x : HostFtl δ × Extents) (w : ℕ × List Byte) : HostFtl δ × Extents :=
  match logicalWrite link w.1 w.2 x.1 with
  | (.ok _, s) =>
    (s, Function.update x.2 w.1 (some ⟨s.currentWriteZone * zoneSizeBytes +
      (s.zones s.currentWriteZone).writePointer - w.2.length, w.2⟩))
  | (_, s) => (s, x.2)

/-- The append of the write is accepted. -/
def Accepted (link : Link δ) (x : HostFtl δ × Extents) (w : ℕ × List Byte) : Prop :=
  ∃ zoneId n s', x.1.Selects w.1 zoneId ∧
    appendToZone link zoneId w.2 { x.1 with currentWriteZone := zoneId } = (.ok n, s')

/-- **The data of the pages is kept apart**, each within one zone, and the pages that are read start
with it. -/
structure Separate (link : Link δ) (x : HostFtl δ × Extents) : Prop where
  disjoint : ∀ l l' e e', l ≠ l' → x.2 l = some e → x.2 l' = some e' →
    x.1.l2pTable l ≠ none → x.1.l2pTable l' ≠ none → ∀ i, ¬ (e.Covers i ∧ e'.Covers i)
  one_zone : ∀ l e, x.2 l = some e → x.1.l2pTable l ≠ none →
    ∃ zoneId, zoneId < numZones ∧ zoneId * zoneSizeBytes ≤ e.start ∧
      e.stop ≤ (zoneId + 1) * zoneSizeBytes
  reads : ∀ l e, x.2 l = some e → x.1.l2pTable l ≠ none →
    ∃ page, (logicalRead link l x.1).1 = .ok page ∧ page.length = pageSize ∧
      page.take e.data.length = e.data

section Write

variable (A : Accepting link) {s : HostFtl δ} {x : HostFtl δ × Extents} {l zoneId : ℕ}
  {data : List Byte}

/-- **The write starts a page** of the zone it selects, and ends with it; or it repeats what the page
that has been started holds. -/
structure StartsPage (s : HostFtl δ) (l : ℕ) (data : List Byte) : Prop where
  short : data.length ≤ pageSize
  fits : ∀ zoneId, s.Selects l zoneId →
    (s.zones zoneId).writePointer + data.length ≤ zoneSizeBytes
  repeats : ∀ zoneId, s.Selects l zoneId →
    (readBytes (A.stored s.peer) (s.pageAt zoneId).byteOffset
      ((s.zones zoneId).writePointer % pageSize) ++ data).take data.length = data

theorem startsPage_of_aligned (hlen : data.length ≤ pageSize)
    (hroom : ∀ z, (s.zones z).isFull = false → (s.zones z).writePointer < zoneSizeBytes)
    (h : ∀ zoneId, s.Selects l zoneId → data = [] ∨ (s.zones zoneId).writePointer % pageSize = 0) :
    StartsPage A s l data where
  short := hlen
  fits zoneId hselects := by
    have hlt := hroom zoneId hselects.exists_zone.2
    rcases h zoneId hselects with rfl | haligned
    · exact hlt.le
    · unfold zoneSizeBytes pageSize at *
      omega
  repeats zoneId hselects := by
    rcases h zoneId hselects with rfl | haligned
    · rfl
    · rw [haligned]
      exact List.take_length

/-- The state after an append of `data` at the pointer of a zone. -/
abbrev written (s : HostFtl δ) (peer : δ) (l zoneId : ℕ) (data : List Byte) : HostFtl δ :=
  { appended { s with currentWriteZone := zoneId } peer zoneId data with
    l2pTable := s.l2pTable.set l (s.pageAt zoneId) }

theorem written_zone (s : HostFtl δ) (peer : δ) (l zoneId : ℕ) (data : List Byte) :
    (s.written peer l zoneId data).zones zoneId = ⟨(s.zones zoneId).writePointer + data.length,
      (s.zones zoneId).isFull || decide (zoneSizeBytes ≤ (s.zones zoneId).writePointer + data.length)⟩ :=
  Function.update_self _ _ _

/-- The bytes at the pointer of a zone. -/
abbrev nextExtent (s : HostFtl δ) (zoneId : ℕ) (data : List Byte) : Extent :=
  ⟨zoneId * zoneSizeBytes + (s.zones zoneId).writePointer, data⟩

theorem written_pointer_self (s : HostFtl δ) (peer : δ) (l zoneId : ℕ) (data : List Byte) :
    ((s.written peer l zoneId data).zones zoneId).writePointer =
      (s.zones zoneId).writePointer + data.length := by
  show (Function.update s.zones zoneId _ zoneId).writePointer = _
  rw [Function.update_self]

/-- **A write that is accepted** puts its data at the pointer. -/
theorem noteStep_accepted {n : ℕ} {peer : δ} {inbox : List Byte} (h : x.1.Selects l zoneId)
    (happend : appendToZone link zoneId data { x.1 with currentWriteZone := zoneId } =
      (.ok n, { appended { x.1 with currentWriteZone := zoneId } peer zoneId data with inbox })) :
    noteStep link x (l, data) = ({ x.1.written peer l zoneId data with inbox },
      Function.update x.2 l (some (x.1.nextExtent zoneId data))) := by
  have hrun : logicalWrite link l data x.1 =
      (.ok data, { x.1.written peer l zoneId data with inbox }) :=
    logicalWrite_ok h.page h.zone h.found happend
  have hstart : zoneId * zoneSizeBytes +
      ((x.1.written peer l zoneId data).zones zoneId).writePointer - data.length =
        zoneId * zoneSizeBytes + (x.1.zones zoneId).writePointer := by
    rw [written_pointer_self, ← Nat.add_assoc, Nat.add_sub_cancel]
  rw [noteStep]
  simp only [hrun]
  exact congrArg (fun start => (_, Function.update x.2 l (some ⟨start, data⟩))) hstart

theorem Accepted.noteStep_eq (h : Accepted link x (l, data)) :
    ∃ zoneId peer inbox, x.1.Selects l zoneId ∧
      noteStep link x (l, data) = ({ x.1.written peer l zoneId data with inbox },
        Function.update x.2 l (some (x.1.nextExtent zoneId data))) := by
  obtain ⟨zoneId, n, s', hselects, happend⟩ := h
  have houtcome : AppendOutcome link { x.1 with currentWriteZone := zoneId } zoneId data :=
    appendToZone_outcome _ hselects.exists_zone.1 data
  cases houtcome with
  | stopped o peer inbox why _ hrun =>
    cases happend.symm.trans hrun
    cases why
  | accepted peer inbox _ hrun =>
    exact ⟨zoneId, peer, inbox, hselects, noteStep_accepted hselects hrun⟩

/-- **A write that fits into its zone**, over an accepting device. -/
theorem noteStep_fits (hs : x.1.inbox = []) (h : x.1.Selects l zoneId)
    (hfit : (x.1.zones zoneId).writePointer + data.length ≤ zoneSizeBytes) :
    ∃ peer, noteStep link x (l, data) = (x.1.written peer l zoneId data,
        Function.update x.2 l (some (x.1.nextExtent zoneId data))) ∧
      A.stored peer = copyBytes (A.stored x.1.peer)
        (zoneId * zoneSizeBytes + (x.1.zones zoneId).writePointer) data := by
  obtain ⟨peer, happend, hstored⟩ := appendToZone_fits A
    (s := { x.1 with currentWriteZone := zoneId }) hs h.exists_zone.1 hfit
  exact ⟨peer, noteStep_accepted h happend, hstored⟩

/-! ## Where the data lies -/

/-- The data `e` of the page `l` lies in the zone of its address `p`, below the pointer, and is found
from the address on. -/
structure Lies (s : HostFtl δ) (l : ℕ) (e : Extent) (p : PhysicalAddress) : Prop where
  page : l < totalLogicalPages
  mapped : s.l2pTable l = some p
  zone : p.zoneId < numZones
  offset : p.pageOffset < 64
  starts : p.zoneId * zoneSizeBytes ≤ e.start
  stops : e.stop ≤ p.zoneId * zoneSizeBytes + (s.zones p.zoneId).writePointer
  short : e.data.length ≤ pageSize
  below : p.byteOffset + e.data.length ≤ p.zoneId * zoneSizeBytes + (s.zones p.zoneId).writePointer
  holds : readBytes (A.stored s.peer) p.byteOffset e.data.length = e.data

/-- **All data lies below the pointers**, and no two pieces meet. -/
structure Placed (x : HostFtl δ × Extents) : Prop where
  inbox : x.1.inbox = []
  zone : x.1.currentWriteZone < numZones
  room : ∀ z, (x.1.zones z).isFull = false → (x.1.zones z).writePointer < zoneSizeBytes
  le : ∀ z, (x.1.zones z).writePointer ≤ zoneSizeBytes
  lies : ∀ l e, x.2 l = some e → ∃ p, Lies A x.1 l e p
  disjoint : ∀ l l' e e', l ≠ l' → x.2 l = some e → x.2 l' = some e' →
    ∀ i, ¬ (e.Covers i ∧ e'.Covers i)

theorem placed_new (peer : δ) : Placed A (new peer, fun _ => none) where
  inbox := rfl
  zone := show 0 < 1024 by decide
  room _ _ := show 0 < 262144 by decide
  le _ := Nat.zero_le _
  lies _ _ h := nomatch h
  disjoint _ _ _ _ _ h := nomatch h

theorem pageAt_byteOffset (s : HostFtl δ) (zoneId : ℕ) :
    (s.pageAt zoneId).byteOffset + (s.zones zoneId).writePointer % pageSize =
      zoneId * zoneSizeBytes + (s.zones zoneId).writePointer := by
  unfold PhysicalAddress.byteOffset pageAt pageSize
  dsimp only
  omega

section Append

variable {peer : δ} {e : Extent} {p : PhysicalAddress}

theorem written_pointer (s : HostFtl δ) (peer : δ) (l zoneId : ℕ) (data : List Byte) (z : ℕ) :
    (s.zones z).writePointer ≤ ((s.written peer l zoneId data).zones z).writePointer := by
  show _ ≤ (Function.update s.zones zoneId _ z).writePointer
  by_cases hz : z = zoneId
  · subst hz
    rw [Function.update_self]
    exact Nat.le_add_right _ _
  · rw [Function.update_of_ne hz]

theorem Lies.written {l' : ℕ} (h : Lies A s l' e p) (hne : l' ≠ l)
    (hle : ∀ z, (s.zones z).writePointer ≤ zoneSizeBytes)
    (hfit : (s.zones zoneId).writePointer + data.length ≤ zoneSizeBytes)
    (hstored : A.stored peer =
      copyBytes (A.stored s.peer) (zoneId * zoneSizeBytes + (s.zones zoneId).writePointer) data) :
    Lies A (s.written peer l zoneId data) l' e p := by
  have hmoves := written_pointer s peer l zoneId data p.zoneId
  have hmapped : s.l2pTable.set l (s.pageAt zoneId) l' = some p := by
    rw [L2pTable.set]
    split_ifs
    · rw [Function.update_of_ne hne, h.mapped]
    · exact h.mapped
  have hstops := h.stops
  have hbelow := h.below
  refine ⟨h.page, hmapped, h.zone, h.offset, h.starts, by omega, h.short, by omega, ?_⟩
  show readBytes (A.stored peer) _ _ = _
  rw [hstored, readBytes_copyBytes_of_disjoint, h.holds]
  have hend := hle p.zoneId
  unfold PhysicalAddress.byteOffset zoneSizeBytes at *
  rcases Nat.lt_trichotomy p.zoneId zoneId with hlt | heq | hgt
  · omega
  · rw [heq] at hbelow
    omega
  · omega

theorem lies_written (hs : s.Selects l zoneId) (hstart : StartsPage A s l data)
    (hstored : A.stored peer =
      copyBytes (A.stored s.peer) (zoneId * zoneSizeBytes + (s.zones zoneId).writePointer) data)
    (hroom : (s.zones zoneId).writePointer < zoneSizeBytes) :
    Lies A (s.written peer l zoneId data) l (s.nextExtent zoneId data) (s.pageAt zoneId) := by
  have hpointer : ((s.written peer l zoneId data).zones (s.pageAt zoneId).zoneId).writePointer =
      (s.zones zoneId).writePointer + data.length := written_pointer_self s peer l zoneId data
  have hoffset := pageAt_byteOffset s zoneId
  have hmapped : s.l2pTable.set l (s.pageAt zoneId) l = some (s.pageAt zoneId) := by
    rw [L2pTable.set, if_pos hs.page, Function.update_self]
  refine ⟨hs.page, hmapped, hs.exists_zone.1, ?_, Nat.le_add_right _ _, ?_, hstart.short, ?_, ?_⟩
  · show (s.zones zoneId).writePointer / pageSize < 64
    unfold zoneSizeBytes pageSize at *
    omega
  · show _ + _ + data.length ≤ zoneId * zoneSizeBytes + _
    rw [hpointer, Nat.add_assoc]
  · show _ ≤ zoneId * zoneSizeBytes + _
    rw [hpointer]
    dsimp only
    omega
  · show readBytes (A.stored peer) _ _ = _
    rw [hstored, ← hoffset, readBytes_copyBytes_behind]
    exact hstart.repeats zoneId hs

theorem Lies.fresh {l' : ℕ} (h : Lies A s l' e p)
    (hle : ∀ z, (s.zones z).writePointer ≤ zoneSizeBytes)
    (hfit : (s.zones zoneId).writePointer + data.length ≤ zoneSizeBytes) (i : ℕ)
    (hi : e.Covers i) :
    ¬ (s.nextExtent zoneId data).Covers i := by
  have hstarts := h.starts
  have hstops := h.stops
  have hend := hle p.zoneId
  rintro ⟨hlo, hhi⟩
  have hlo : zoneId * zoneSizeBytes + (s.zones zoneId).writePointer ≤ i := hlo
  have hhi : i < zoneId * zoneSizeBytes + (s.zones zoneId).writePointer + data.length := hhi
  unfold Extent.Covers Extent.stop zoneSizeBytes at *
  rcases Nat.lt_trichotomy p.zoneId zoneId with hlt | heq | hgt
  · omega
  · rw [heq] at hstops
    omega
  · omega

end Append

/-- **A write that starts a page** keeps all data below the pointers. -/
theorem Placed.write (hx : Placed A x) (hs : x.1.Selects l zoneId)
    (hstart : StartsPage A x.1 l data) : Placed A (noteStep link x (l, data)) := by
  have hfit := hstart.fits zoneId hs
  have hroom := hx.room zoneId hs.exists_zone.2
  obtain ⟨peer, hstep, hstored⟩ := noteStep_fits A hx.inbox hs hfit
  rw [hstep]
  refine ⟨hx.inbox, hs.exists_zone.1, ?_, ?_, fun l' e he => ?_, fun l₁ l₂ e₁ e₂ hne h₁ h₂ i => ?_⟩
  · refine (Function.forall_update_iff x.1.zones fun _ d =>
      d.isFull = false → d.writePointer < zoneSizeBytes).mpr ⟨fun hfull => ?_, fun z _ => hx.room z⟩
    rw [Bool.or_eq_false_iff, decide_eq_false_iff_not, not_le] at hfull
    exact hfull.2
  · exact (Function.forall_update_iff x.1.zones fun _ d =>
      d.writePointer ≤ zoneSizeBytes).mpr ⟨hfit, fun z _ => hx.le z⟩
  · dsimp only at he
    by_cases hl : l' = l
    · subst hl
      rw [Function.update_self] at he
      cases he
      exact ⟨_, lies_written A hs hstart hstored hroom⟩
    · rw [Function.update_of_ne hl] at he
      obtain ⟨p, hp⟩ := hx.lies l' e he
      exact ⟨p, hp.written A hl hx.le hfit hstored⟩
  · dsimp only at h₁ h₂
    -- the new extent is behind the pointer of its zone, and all others are below
    have hfresh : ∀ l' e, x.2 l' = some e → e.Covers i →
        ¬ (x.1.nextExtent zoneId data).Covers i := by
      intro l' e he hcovers
      obtain ⟨p, hp⟩ := hx.lies l' e he
      exact hp.fresh A hx.le hfit i hcovers
    by_cases hl₁ : l₁ = l
    · subst hl₁
      rw [Function.update_self] at h₁
      rw [Function.update_of_ne hne.symm] at h₂
      cases h₁
      exact fun h => hfresh l₂ e₂ h₂ h.2 h.1
    by_cases hl₂ : l₂ = l
    · subst hl₂
      rw [Function.update_self] at h₂
      rw [Function.update_of_ne hl₁] at h₁
      cases h₂
      exact fun h => hfresh l₁ e₁ h₁ h.1 h.2
    · rw [Function.update_of_ne hl₁] at h₁
      rw [Function.update_of_ne hl₂] at h₂
      exact hx.disjoint l₁ l₂ e₁ e₂ hne h₁ h₂ i

/-! ## Reads -/

theorem logicalRead_accepting (hs : s.inbox = []) (hl : l < totalLogicalPages) {p : PhysicalAddress}
    (hp : s.l2pTable l = some p) (hz : p.zoneId < numZones) (hoff : p.pageOffset < 64) :
    (logicalRead link l s).1 = .ok (readBytes (A.stored s.peer) p.byteOffset pageSize) := by
  obtain ⟨peer, hrun, -⟩ := logicalRead_mapped (Q := fun d => A.stored d = A.stored s.peer) hs hl hp
    hz hoff (A.read s.peer)
  rw [hrun]

theorem Placed.separate (hx : Placed A x) : Separate link x where
  disjoint l l' e e' hne he he' _ _ := hx.disjoint l l' e e' hne he he'
  one_zone l e he _ := by
    obtain ⟨p, hp⟩ := hx.lies l e he
    have hstops := hp.stops
    have hend := hx.le p.zoneId
    refine ⟨p.zoneId, hp.zone, hp.starts, ?_⟩
    rw [Nat.succ_mul]
    omega
  reads l e he _ := by
    obtain ⟨p, hp⟩ := hx.lies l e he
    refine ⟨_, logicalRead_accepting A hx.inbox hp.page hp.mapped hp.zone hp.offset,
      length_readBytes _ _ _, ?_⟩
    rw [take_readBytes _ _ hp.short, hp.holds]

theorem Placed.startsPage (hx : Placed A x) (haccepted : Accepted link x (l, data))
    (h : Separate link (noteStep link x (l, data))) : StartsPage A x.1 l data := by
  obtain ⟨zoneId, peer, inbox, hs, hstep⟩ := haccepted.noteStep_eq
  have hroom := hx.room zoneId hs.exists_zone.2
  have hmapped : x.1.l2pTable.set l (x.1.pageAt zoneId) l = some (x.1.pageAt zoneId) := by
    rw [L2pTable.set, if_pos hs.page, Function.update_self]
  have hextent : (noteStep link x (l, data)).2 l = some (x.1.nextExtent zoneId data) := by
    rw [hstep]
    exact Function.update_self _ _ _
  have hlive : (noteStep link x (l, data)).1.l2pTable l ≠ none := by
    rw [hstep]
    exact ne_of_eq_of_ne hmapped (Option.some_ne_none _)
  obtain ⟨page, hread, hlen, htake⟩ := h.reads l _ hextent hlive
  change page.take data.length = data at htake
  -- a read returns a page, so no more than a page can come back
  have hshort : data.length ≤ pageSize := by
    have hmin := congrArg List.length htake
    rw [List.length_take, hlen] at hmin
    omega
  -- the extent lies in one zone, which is the one that was selected
  have hfit : (x.1.zones zoneId).writePointer + data.length ≤ zoneSizeBytes := by
    obtain ⟨z, hz, hlo, hhi⟩ := h.one_zone l _ hextent hlive
    change z * zoneSizeBytes ≤ zoneId * zoneSizeBytes + (x.1.zones zoneId).writePointer at hlo
    change zoneId * zoneSizeBytes + (x.1.zones zoneId).writePointer + data.length ≤ _ at hhi
    unfold zoneSizeBytes at *
    omega
  obtain ⟨peer', hstep', hstored⟩ := noteStep_fits A hx.inbox hs hfit
  have hoff : (x.1.pageAt zoneId).pageOffset < 64 := by
    show (x.1.zones zoneId).writePointer / pageSize < 64
    unfold zoneSizeBytes pageSize at *
    omega
  have hpage := logicalRead_accepting A (s := x.1.written peer' l zoneId data) hx.inbox hs.page hmapped
    hs.exists_zone.1 hoff
  rw [hstep', hpage] at hread
  rw [← Outcome.ok.inj hread] at htake
  -- the page starts before the data when the pointer is not aligned
  have hdata : (readBytes (A.stored x.1.peer) (x.1.pageAt zoneId).byteOffset
      ((x.1.zones zoneId).writePointer % pageSize) ++ data).take data.length = data := by
    rw [← readBytes_copyBytes_behind, pageAt_byteOffset, ← hstored, ← take_readBytes _ _ hshort]
    exact htake
  have hunique : ∀ z, x.1.Selects l z → z = zoneId := fun z hz =>
    Option.some.inj (hz.found.symm.trans hs.found)
  refine ⟨hshort, fun z hz => ?_, fun z hz => ?_⟩
  · rw [hunique z hz]
    exact hfit
  · rw [hunique z hz]
    exact hdata

theorem Placed.separate_noteStep_iff (hx : Placed A x) (haccepted : Accepted link x (l, data)) :
    Separate link (noteStep link x (l, data)) ↔ StartsPage A x.1 l data := by
  refine ⟨hx.startsPage A haccepted, fun hstart => ?_⟩
  obtain ⟨zoneId, n, s', hs, -⟩ := haccepted
  exact (hx.write A hs hstart).separate A

end Write

/-- **When are pages kept apart?** Along every run of accepted writes of any lengths over an accepting
device, the data of different pages is disjoint, each within one zone, and read back after every write,
exactly when every write starts a page. -/
theorem separate_iff (A : Accepting link) (peer : δ) (ws : List (ℕ × List Byte))
    (hws : Along (noteStep link) (Accepted link) (new peer, fun _ => none) ws) :
    Along (noteStep link) (fun x w => Separate link (noteStep link x w)) (new peer, fun _ => none) ws ↔
      Along (noteStep link) (fun x w => StartsPage A x.1 w.1 w.2) (new peer, fun _ => none) ws := by
  have hstep : ∀ (x : HostFtl δ × Extents) w, Placed A x →
      Accepted link x w ∧ StartsPage A x.1 w.1 w.2 → Placed A (noteStep link x w) := by
    rintro x ⟨l, data⟩ hx ⟨⟨zoneId, n, s', hs, -⟩, hstart⟩
    exact hx.write A hs hstart
  have hiff : ∀ (x : HostFtl δ × Extents) w, Placed A x →
      (Accepted link x w ∧ StartsPage A x.1 w.1 w.2 ↔
        Accepted link x w ∧ Separate link (noteStep link x w)) := by
    rintro x ⟨l, data⟩ hx
    exact and_congr_right fun haccepted => (hx.separate_noteStep_iff A haccepted).symm
  have hcongr := along_congr (Placed A) hstep hiff (placed_new A peer) ws
  rw [along_and, along_and] at hcongr
  exact ⟨fun h => (hcongr.mpr ⟨hws, h⟩).2, fun h => (hcongr.mp ⟨hws, h⟩).2⟩

theorem accepted_of_fits (A : Accepting link) {x : HostFtl δ × Extents} {l zoneId : ℕ}
    {data : List Byte} (hs : x.1.inbox = []) (h : x.1.Selects l zoneId)
    (hfit : (x.1.zones zoneId).writePointer + data.length ≤ zoneSizeBytes) :
    Accepted link x (l, data) := by
  obtain ⟨peer, happend, -⟩ := appendToZone_fits A (s := { x.1 with currentWriteZone := zoneId }) hs
    h.exists_zone.1 hfit
  exact ⟨zoneId, _, _, h, happend⟩

theorem new_selects (peer : δ) {l : ℕ} (hl : l < totalLogicalPages) : (new peer).Selects l 0 :=
  ⟨hl, show 0 < 1024 by decide, rfl⟩

/-- A client of an empty memory. -/
def blank : HostFtl (ℕ → Byte) × Extents := (new fun _ => 0, fun _ => none)

theorem placed_blank : Placed ramAccepting blank := placed_new ramAccepting fun _ => 0

/-- A page and a byte. -/
def pageAndByte : List (ℕ × List Byte) := [(3, filledPage 7), (4, [9])]

theorem separate_iff_pageAndByte :
    Along (noteStep ramLink) (fun x w => Separate ramLink (noteStep ramLink x w)) blank
      pageAndByte := by
  have hselects : blank.1.Selects 3 0 := new_selects _ (by decide)
  have hlen : (filledPage 7).length ≤ pageSize := (length_filledPage 7).le
  have hstart : StartsPage ramAccepting blank.1 3 (filledPage 7) :=
    startsPage_of_aligned ramAccepting hlen placed_blank.room fun _ _ => .inr rfl
  have hfit := hstart.fits 0 hselects
  have haccepted : Accepted ramLink blank (3, filledPage 7) :=
    accepted_of_fits ramAccepting rfl hselects hfit
  -- the byte goes to the second page of zone 0
  have hplaced := placed_blank.write ramAccepting hselects hstart
  obtain ⟨peer, hstep, -⟩ := noteStep_fits ramAccepting rfl hselects hfit
  obtain ⟨y, hy⟩ : ∃ y, y = noteStep ramLink blank (3, filledPage 7) := ⟨_, rfl⟩
  rw [← hy] at hstep hplaced
  have hcursor : y.1.currentWriteZone = 0 := by
    rw [hstep]
    rfl
  have hzone : y.1.zones 0 = ⟨4096, false⟩ := by
    rw [hstep, written_zone, length_filledPage]
    decide
  have hfound : writableZone y.1.zones numZones y.1.currentWriteZone = some 0 := by
    rw [hcursor]
    exact writableZone_self 1023 (by rw [hzone])
  have hselects' : y.1.Selects 4 0 := ⟨by decide, by rw [hcursor]; decide, hfound⟩
  have hstart' : StartsPage ramAccepting y.1 4 [9] := by
    refine startsPage_of_aligned ramAccepting (by decide) hplaced.room fun z hz => .inr ?_
    obtain rfl := Option.some.inj (hfound.symm.trans hz.found)
    rw [hzone]
    rfl
  have haccepted' : Accepted ramLink y (4, [9]) :=
    accepted_of_fits ramAccepting hplaced.inbox hselects' (hstart'.fits 0 hselects')
  rw [hy] at haccepted' hstart'
  have halong : Along (noteStep ramLink) (Accepted ramLink) blank pageAndByte :=
    ⟨haccepted, haccepted', trivial⟩
  exact (separate_iff ramAccepting _ _ halong).mpr ⟨hstart, hstart', trivial⟩

/-- One byte is written. -/
def shortWritten : HostFtl (ℕ → Byte) × Extents :=
  noteStep ramLink blank (0, [7])

/-- **The page of the second byte starts with the first.** -/
theorem short_writes_meet :
    ¬ ∀ ws, Along (noteStep ramLink) (Accepted ramLink) blank ws →
      Along (noteStep ramLink) (fun x w => Separate ramLink (noteStep ramLink x w))
        blank ws := by
  intro h
  have hfirst : blank.1.Selects 0 0 := new_selects _ (by decide)
  have hstart : StartsPage ramAccepting blank.1 0 [7] :=
    startsPage_of_aligned ramAccepting (by decide) placed_blank.room fun _ _ => .inr rfl
  have hwritten : Placed ramAccepting shortWritten := placed_blank.write ramAccepting hfirst hstart
  have hsecond : shortWritten.1.Selects 1 0 := ⟨by decide, by decide, rfl⟩
  have haccepted : Accepted ramLink shortWritten (1, [9]) :=
    accepted_of_fits ramAccepting hwritten.inbox hsecond (by decide)
  have hboth := h [(0, [7]), (1, [9])]
    ⟨accepted_of_fits ramAccepting rfl hfirst (by decide), haccepted, trivial⟩
  have hstarts := (hwritten.separate_noteStep_iff ramAccepting haccepted).mp hboth.2.1
  have hdata := hstarts.repeats 0 hsecond
  revert hdata
  decide

end HostFtl

end ZnsFlash
