import ZnsFlash.Host.Cursor
import ZnsFlash.Host.Memory
import ZnsFlash.Nbd.Writes

/-!
# Clients that only append

Pages are written, and other zones chosen; nothing is read or reset in between, and the automaton is
idle between the calls.

* `FtlOp.Appends`, `ZoneDescriptor.IsOpen`, `openDescriptors`: the zones that the client has open;
* `Appending`: the tracker counts the open zones of the client;
* `Taken`, `FewOpen`, **`taken_iff_few_open`**: every page lands exactly while the client never has
  more than four zones open, and then reads return what was written;
* `FilledTo`, `FilledWith`, **`device_fills`**: a client that only writes fills the device, zone by
  zone, and loses nothing.
-/

namespace ZnsFlash

open Runs Segments Zoned

/-- A page is written, or another zone chosen. -/
def FtlOp.Appends : FtlOp → Prop
  | .write _ data => data.length = pageSize
  | .assign zoneId => zoneId < numZones
  | .read _ | .reset _ => False

theorem FtlOp.Appends.allowed {op : FtlOp} (h : op.Appends) : op.Allowed := by
  cases op with
  | write l data => exact h
  | assign z => exact h
  | read l => trivial
  | reset z => trivial

/-- The zone has pages, and room for more. -/
def ZoneDescriptor.IsOpen (d : ZoneDescriptor) : Prop := 0 < d.writePointer ∧ d.isFull = false

instance : DecidablePred ZoneDescriptor.IsOpen := fun d =>
  inferInstanceAs (Decidable (0 < d.writePointer ∧ d.isFull = false))

/-- The number of open zones. -/
def openDescriptors (zones : ℕ → ZoneDescriptor) : ℕ :=
  (Finset.univ.filter fun z : Fin numZones => (zones z).IsOpen).card

theorem openDescriptors_update (zones : ℕ → ZoneDescriptor) {z : ℕ} (hz : z < numZones)
    (d : ZoneDescriptor) :
    openDescriptors (Function.update zones z d) + (if (zones z).IsOpen then 1 else 0) =
      openDescriptors zones + if d.IsOpen then 1 else 0 := by
  have h := card_filter_update ZoneDescriptor.IsOpen (fun y : Fin numZones => zones y) ⟨z, hz⟩ d
  rw [← Function.update_comp_eq_of_injective' zones Fin.val_injective] at h
  exact h

namespace HostFtl

/-! ## Open zones -/

/-- **A page that is written lands.** -/
def Taken (s : HostFtl Server) : FtlOp → Prop
  | .write l _ => l < totalLogicalPages → ∀ z,
    writableZone s.zones numZones s.currentWriteZone = some z →
      s.peer.Lands (appendRequest z (s.zones z).writePointer pageSize)
  | .read _ | .reset _ | .assign _ => True

/-- **The client has at most four zones open** after the call. -/
def FewOpen (s : HostFtl Server) (op : FtlOp) : Prop :=
  openDescriptors (next simulatorLink s op).zones ≤ 4

/-- **Between calls of a client that appends**, while every page landed: the tracker counts the zones
that the client has open. -/
structure Appending (s : HostFtl Server) : Prop where
  inbox : s.inbox = []
  zone : s.currentWriteZone < numZones
  valid : ∀ z, (s.zones z).Valid
  boundary : s.peer.bridge.Boundary
  idle : s.peer.bridge.fsm.currentState = .idle
  count : s.peer.openZonesCount.toNat = openDescriptors s.zones
  few : openDescriptors s.zones ≤ 4

theorem appending_new (junk : Validator) (addr : BitVec 32) :
    Appending (new (Server.powerUp junk addr)) := by
  obtain ⟨hready, hcore⟩ := Bridge.ready_powerUp junk addr none
  have hcount : (Server.powerUp junk addr).openZonesCount = 0 :=
    congrArg Bridge.Core.openZonesCount hcore
  have hopen : openDescriptors (fun _ => ⟨0, false⟩) = 0 :=
    Finset.card_eq_zero.mpr (Finset.filter_false_of_mem fun _ _ h => absurd h.1 (lt_irrefl 0))
  refine ⟨rfl, show 0 < 1024 by decide, fun _ => ZoneDescriptor.valid_empty,
    Server.boundary_powerUp junk addr, hready.idle, ?_, ?_⟩
  · change (Server.powerUp junk addr).openZonesCount.toNat = openDescriptors fun _ => ⟨0, false⟩
    rw [hcount, hopen]
    rfl
  · change openDescriptors (fun _ => ⟨0, false⟩) ≤ 4
    rw [hopen]
    exact Nat.zero_le 4

theorem targetPage_append {z w : ℕ} (hz : z < numZones) (hw : w + pageSize ≤ zoneSizeBytes)
    (page : BitVec 32) :
    targetPage (appendRequest z w pageSize).offset = page ↔ w / pageSize = page.toNat := by
  rw [BitVec.toNat_eq, targetPage_toNat, appendRequest_offset hz (Nat.le_of_add_right_le hw)]
  unfold zoneSizeBytes pageSize at *
  omega

/-- What an append of a page does to the number of open zones: the first page opens its zone, the last
closes it. -/
theorem openDescriptors_append {zones : ℕ → ZoneDescriptor} {z : ℕ} (hz : z < numZones)
    (hvalid : (zones z).Valid) (hroom : (zones z).isFull = false) :
    openDescriptors (Function.update zones z ⟨(zones z).writePointer + pageSize,
        (zones z).isFull || decide (zoneSizeBytes ≤ (zones z).writePointer + pageSize)⟩) =
      if (zones z).writePointer / pageSize = 63 then openDescriptors zones - 1
      else if (zones z).writePointer / pageSize = 0 then openDescriptors zones + 1
      else openDescriptors zones := by
  have hupd := openDescriptors_update zones hz ⟨(zones z).writePointer + pageSize,
    (zones z).isFull || decide (zoneSizeBytes ≤ (zones z).writePointer + pageSize)⟩
  have haligned := hvalid.aligned
  have hfit := hvalid.room hroom
  have hbefore : (zones z).IsOpen ↔ (zones z).writePointer / pageSize ≠ 0 := by
    rw [ZoneDescriptor.IsOpen, and_iff_left hroom]
    unfold pageSize at *
    omega
  have hafter : ZoneDescriptor.IsOpen ⟨(zones z).writePointer + pageSize,
      (zones z).isFull || decide (zoneSizeBytes ≤ (zones z).writePointer + pageSize)⟩ ↔
        (zones z).writePointer / pageSize ≠ 63 := by
    simp only [ZoneDescriptor.IsOpen, hroom, Bool.false_or, decide_eq_false_iff_not]
    unfold zoneSizeBytes pageSize at *
    omega
  simp only [hbefore, hafter] at hupd
  split_ifs at hupd ⊢ <;> omega

/-! ## One call -/

section Step

variable {s : HostFtl Server} (h : Appending s)

include h

theorem Appending.next_page {l z : ℕ} {data : List Byte} (hl : l < totalLogicalPages)
    (hfind : writableZone s.zones numZones s.currentWriteZone = some z)
    (hdata : data.length = pageSize) :
    next simulatorLink s (.write l data) =
      s.withPage l z (⟨s.peer.written (appendRequest z (s.zones z).writePointer pageSize),
        if s.peer.Lands (appendRequest z (s.zones z).writePointer pageSize) then
          copyBytes s.peer.userDiskStorage (z * zoneSizeBytes + (s.zones z).writePointer) data
        else s.peer.userDiskStorage⟩ : Server) :=
  congrArg Prod.snd (logicalWrite_simulator h.boundary h.inbox h.zone h.valid hl hfind hdata)

theorem Appending.page_iff {l z : ℕ} {data : List Byte} (hl : l < totalLogicalPages)
    (hfind : writableZone s.zones numZones s.currentWriteZone = some z)
    (hdata : data.length = pageSize) :
    s.peer.Lands (appendRequest z (s.zones z).writePointer pageSize) ↔ FewOpen s (.write l data) := by
  obtain ⟨hz, hroom⟩ := writableZone_some h.zone hfind
  have hfirst := targetPage_append hz ((h.valid z).room hroom) 0
  have hfew := h.few
  have hzones := congrArg HostFtl.zones (h.next_page hl hfind hdata)
  rw [withPage_zones] at hzones
  rw [FewOpen, hzones, Server.lands_idle h.idle, hfirst, h.count,
    openDescriptors_append hz (h.valid z) hroom]
  change ((s.zones z).writePointer / pageSize = 0 → _) ↔ _
  split_ifs <;> omega

theorem Appending.page {l z : ℕ} {data : List Byte} (hl : l < totalLogicalPages)
    (hfind : writableZone s.zones numZones s.currentWriteZone = some z)
    (hdata : data.length = pageSize)
    (hlands : s.peer.Lands (appendRequest z (s.zones z).writePointer pageSize)) :
    Appending (next simulatorLink s (.write l data)) := by
  have hnext := h.next_page hl hfind hdata
  have hfew' : openDescriptors (next simulatorLink s (.write l data)).zones ≤ 4 :=
    (h.page_iff hl hfind hdata).mp hlands
  obtain ⟨hz, hroom⟩ := writableZone_some h.zone hfind
  have hfit := (h.valid z).room hroom
  have hrange := appendRequest_inRange hz hfit hdata
  have hcount : s.peer.openZonesCount.toNat ≤ 4 := h.count.trans_le h.few
  obtain ⟨hidle, hcount'⟩ := Server.written_counts h.idle h.boundary hrange hcount
  rw [if_pos hlands] at hcount'
  have hboundary := (Server.write_eq h.boundary hrange.1 hrange.2.1 data).2
  simp only [targetPage_append hz hfit, h.count] at hcount'
  rw [hnext] at hfew' ⊢
  refine ⟨h.inbox, hz, ?_, hboundary, hidle, ?_, hfew'⟩
  · exact (Function.forall_update_iff s.zones fun _ d => d.Valid).mpr
      ⟨(h.valid z).append hroom, fun z' _ => h.valid z'⟩
  · change (s.peer.written _).fsm.openZonesCount.toNat = openDescriptors (Function.update s.zones z _)
    rw [hcount', openDescriptors_append hz (h.valid z) hroom]
    change (if (s.zones z).writePointer / pageSize = 63 ∧ _ then _
      else if (s.zones z).writePointer / pageSize = 0 then _ else _) = _
    split_ifs <;> omega

/-- How a call of a client that appends goes. -/
inductive AppendCase (s : HostFtl Server) (op : FtlOp) : Prop
  | page (l z : ℕ) (data : List Byte) (hop : op = .write l data) (hl : l < totalLogicalPages)
      (hfind : writableZone s.zones numZones s.currentWriteZone = some z)
      (hdata : data.length = pageSize)
  | still (z : ℕ) (hz : z < numZones)
      (hnext : next simulatorLink s op = { s with currentWriteZone := z })
      (htaken : Taken s op)

/-- **A call of a client that appends** writes a page where there is room, or changes no more than the
zone that is chosen. -/
theorem Appending.appendCase {op : FtlOp} (hop : op.Appends) : AppendCase s op := by
  cases op with
  | read l => exact hop.elim
  | reset z => exact hop.elim
  | assign z => exact .still z hop rfl trivial
  | write l data =>
    by_cases hl : l < totalLogicalPages
    · cases hfind : writableZone s.zones numZones s.currentWriteZone with
      | none =>
        have hfull : logicalWrite simulatorLink l data s = _ := logicalWrite_full hl h.zone hfind data
        refine .still s.currentWriteZone h.zone (congrArg Prod.snd hfull) fun _ z hz => ?_
        rw [hfind] at hz
        cases hz
      | some z => exact .page l z data rfl hl hfind hop
    · have hout : logicalWrite simulatorLink l data s = _ :=
        logicalWrite_outOfBounds (Nat.le_of_not_lt hl) data
      exact .still s.currentWriteZone h.zone (congrArg Prod.snd hout) fun h' => absurd h' hl

theorem Appending.taken_iff {op : FtlOp} (hop : op.Appends) : Taken s op ↔ FewOpen s op := by
  cases h.appendCase hop with
  | page l z data hwrite hl hfind hdata =>
    subst hwrite
    rw [← h.page_iff hl hfind hdata]
    refine ⟨fun ht => ht hl z hfind, fun hlands _ z' hz' => ?_⟩
    obtain rfl : z = z' := Option.some.inj (hfind.symm.trans hz')
    exact hlands
  | still z hz hnext htaken =>
    refine iff_of_true htaken ?_
    rw [FewOpen, hnext]
    exact h.few

theorem Appending.next {op : FtlOp} (hop : op.Appends) (ht : Taken s op) :
    Appending (HostFtl.next simulatorLink s op) := by
  cases h.appendCase hop with
  | page l z data hwrite hl hfind hdata =>
    subst hwrite
    exact h.page hl hfind hdata (ht hl z hfind)
  | still z hz hnext htaken =>
    rw [hnext]
    exact ⟨h.inbox, hz, h.valid, h.boundary, h.idle, h.count, h.few⟩

end Step

/-! ## Runs that append -/

theorem served_of_taken {s : HostFtl Server} {op : FtlOp} (hop : op.Appends) (ht : Taken s op) :
    Served s op := by
  cases op with
  | read l => exact hop.elim
  | reset z => exact hop.elim
  | assign z => trivial
  | write l data => exact fun hl z hz => .inl (ht hl z hz)

/-- **Four open zones.** Of any writes of pages and choices of a zone after start-up, every page lands
if and only if the client never has more than four zones open; then a read that follows returns the page
last written, or zeros. -/
theorem taken_iff_few_open (junk : Validator) (addr : BitVec 32) {ops : List FtlOp}
    (hops : ∀ op ∈ ops, op.Appends) :
    let s := new (Server.powerUp junk addr)
    let x := run (recordStep simulatorLink) (s, []) ops
    (Along (next simulatorLink) Taken s ops ↔ Along (next simulatorLink) FewOpen s ops) ∧
      (Along (next simulatorLink) FewOpen s ops → ∀ l, l < totalLogicalPages →
        (logicalRead simulatorLink l x.1).1 =
          .ok (((live x.2 l).map Prod.snd).getD (filledPage 0))) := by
  intro s x
  have hs : Appending s := appending_new junk addr
  have hall : Along (next simulatorLink) (fun _ op => op.Appends) s ops :=
    (along_const FtlOp.Appends _ _).mpr hops
  have hcongr := @along_congr _ _ (next simulatorLink) Appending
    (P := fun s op => op.Appends ∧ Taken s op) (Q := fun s op => op.Appends ∧ FewOpen s op)
    (fun s op h ha => h.next ha.1 ha.2)
    (fun s op h => and_congr_right fun hop => h.taken_iff hop) _ hs ops
  rw [along_and, along_and] at hcongr
  have hiff := (and_congr_right_iff.mp hcongr) hall
  refine ⟨hiff, fun hfew l hl => ?_⟩
  have htaken := (along_and (fun _ op => op.Appends) Taken _ _).mpr ⟨hall, hiff.mpr hfew⟩
  have hend : Appending (run (next simulatorLink) s ops) :=
    run_inv_of_along (fun s op h ha => h.next ha.1 ha.2) hs htaken
  have hserved : Along (recordStep simulatorLink) (fun x op => Served x.1 op) (s, []) ops :=
    (along_map (f := Prod.fst) (fun _ _ => rfl) Served (s, []) ops).mpr
      (along_of_inv (fun s op h ha => h.next ha.1 ha.2)
        (fun _ _ _ ha => served_of_taken ha.1 ha.2) hs htaken)
  have hpaired := paired_run junk addr (fun op hop => (hops op hop).allowed) hserved
  refine hpaired.read hl ?_
  have hx : x.1 = run (next simulatorLink) s ops :=
    run_map (f := Prod.fst) (fun _ _ => rfl) (s, []) ops
  change x.1.peer.bridge.fsm.currentState ≠ .error
  rw [hx, hend.idle]
  exact FsmState.noConfusion

theorem taken_iff_few_open_firstPage :
    (logicalRead simulatorLink 5 (run (recordStep simulatorLink) (new Server.start, [])
      [.assign 2, .write 5 (filledPage 7)]).1).1 = .ok (filledPage 7) := by
  have hops : ∀ op ∈ [FtlOp.assign 2, .write 5 (filledPage 7)], op.Appends :=
    List.forall_mem_cons.mpr
      ⟨show 2 < 1024 by decide, List.forall_mem_singleton.mpr (length_filledPage 7)⟩
  obtain ⟨hiff, hread⟩ := taken_iff_few_open ⟨.idle, 0, 0, false, 0, 0⟩ 0 hops
  have htwo : (FtlOp.assign 2).Appends := show 2 < 1024 by decide
  have ha : Appending { new Server.start with currentWriteZone := 2 } :=
    (appending_new ⟨.idle, 0, 0, false, 0, 0⟩ 0).next htwo trivial
  have hfind : writableZone (fun _ => ⟨0, false⟩) numZones 2 = some 2 := writableZone_self 1023 rfl
  have htaken : Taken { new Server.start with currentWriteZone := 2 } (.write 5 (filledPage 7)) := by
    intro _ z hz
    obtain rfl := Option.some.inj (hfind.symm.trans hz)
    decide
  have hrun : perform simulatorLink (.write 5 (filledPage 7))
      { new Server.start with currentWriteZone := 2 } = _ :=
    logicalWrite_simulator ha.boundary ha.inbox ha.zone ha.valid (by decide) hfind
      (length_filledPage 7)
  refine (hread (hiff.mp ⟨trivial, htaken, trivial⟩) 5 (by decide)).trans ?_
  have hhistory : (run (recordStep simulatorLink) (new Server.start, [])
      [.assign 2, .write 5 (filledPage 7)]).2 = [.stored 5 2 (filledPage 7)] := by
    have hassign : recordStep simulatorLink (new Server.start, []) (.assign 2) =
        ({ new Server.start with currentWriteZone := 2 }, []) := rfl
    rw [run, List.foldl_cons, List.foldl_cons, List.foldl_nil, hassign, recordStep_eq hrun]
    rfl
  change Outcome.ok (((live (run (recordStep simulatorLink) (new Server.start, []) _).2 5).map
    Prod.snd).getD _) = _
  rw [hhistory, live_stored_self, Option.map_some, Option.getD_some]

/-! ## The whole device -/

namespace FilledTo

variable {δ ε : Type} {s : HostFtl δ} {n : ℕ} (h : FilledTo n s)

include h

theorem openDescriptors_le : openDescriptors s.zones ≤ 1 := by
  refine Finset.card_le_one.mpr fun a ha b hb => ?_
  have hlast : ∀ z : Fin numZones,
      z ∈ Finset.univ.filter (fun z : Fin numZones => (s.zones z).IsOpen) → z.val = n / 64 := by
    intro z hz
    obtain ⟨hpos, hfull⟩ := (Finset.mem_filter.mp hz).2
    rw [h.zones] at hpos hfull
    have hpages := pos_of_mul_pos_left hpos (Nat.zero_le _)
    rw [decide_eq_false_iff_not] at hfull
    omega
  exact Fin.ext ((hlast a ha).trans (hlast b hb).symm)

theorem withPage (l : ℕ) (peer : ε) : FilledTo (n + 1) (s.withPage l (n / 64) peer) :=
  h.page rfl (withPage_zones s l (n / 64) peer)

end FilledTo

/-- The calls of a client that only writes. -/
def writeOps (writes : List (ℕ × List Byte)) : List FtlOp := writes.map fun w => .write w.1 w.2

/-- The page written last among the first `n` writes, or zeros. -/
def latestPage (n : ℕ) (writes : List (ℕ × List Byte)) (l : ℕ) : List Byte :=
  (((writes.take n).reverse.find? fun w => w.1 = l).map Prod.snd).getD (filledPage 0)

/-- **After the writes**: the first 65536 of them are on the device, one behind the other. -/
structure FilledWith (writes : List (ℕ × List Byte)) (x : Twins) : Prop where
  tables : FilledTo (min writes.length 65536) x.1.1
  appending : Appending x.1.1
  paired : Paired x
  latest : ∀ l, (live x.1.2 l).map Prod.snd =
    ((writes.take 65536).reverse.find? fun w => w.1 = l).map Prod.snd

theorem filledWith_twins (junk : Validator) (addr : BitVec 32) : FilledWith [] (twins junk addr) where
  tables := filledTo_new _
  appending := appending_new junk addr
  paired := paired_twins junk addr
  latest _ := rfl

section Write

variable {writes : List (ℕ × List Byte)} {x : Twins} (h : FilledWith writes x) {l : ℕ}
  {data : List Byte} (hl : l < totalLogicalPages) (hdata : data.length = pageSize)

include h hl hdata

theorem FilledWith.write_room (hroom : writes.length < 65536) :
    FilledWith (writes ++ [(l, data)]) (twinStep x (.write l data)) ∧
      (logicalWrite simulatorLink l data x.1.1).1 = .ok data := by
  have htables := h.tables
  rw [Nat.min_eq_left hroom.le] at htables
  have hfind := htables.found hroom
  have ha := h.appending
  have hrun := logicalWrite_simulator ha.boundary ha.inbox ha.zone ha.valid hl hfind hdata
  have hfilled : FilledTo (writes.length + 1) (next simulatorLink x.1.1 (.write l data)) := by
    rw [ha.next_page hl hfind hdata]
    exact htables.withPage l _
  -- one zone is open at most, so the page lands
  have hlands := (ha.page_iff hl hfind hdata).mpr (hfilled.openDescriptors_le.trans (by decide))
  have hserved : Served x.1.1 (.write l data) := by
    intro _ z hz
    obtain rfl := Option.some.inj (hfind.symm.trans hz)
    exact .inl hlands
  have hop : (FtlOp.write l data).Allowed := hdata
  have hagrees := (h.paired.agrees_iff hop).mpr hserved
  have hlen : (writes ++ [(l, data)]).length ≤ 65536 := by
    rw [List.length_append, List.length_singleton]
    exact hroom
  refine ⟨⟨?_, ha.page hl hfind hdata hlands, h.paired.step hop hagrees, fun l' => ?_⟩,
    congrArg Prod.fst hrun⟩
  · rw [Nat.min_eq_left hlen, List.length_append, List.length_singleton]
    exact hfilled
  · have hperform : perform simulatorLink (.write l data) x.1.1 = _ := hrun
    have hhistory : (twinStep x (.write l data)).1.2 = .stored l (writes.length / 64) data :: x.1.2 :=
      congrArg Prod.snd (recordStep_eq (h := x.1.2) hperform)
    rw [hhistory, List.take_of_length_le hlen, List.reverse_append]
    by_cases hll : l' = l
    · subst hll
      rw [live_stored_self]
      simp
    · rw [live_stored_of_ne hll, h.latest, List.take_of_length_le hroom.le]
      simp [Ne.symm hll]

theorem FilledWith.write_full (hfull : 65536 ≤ writes.length) :
    FilledWith (writes ++ [(l, data)]) (twinStep x (.write l data)) ∧
      (logicalWrite simulatorLink l data x.1.1).1 = .err .allZonesFull := by
  have htables := h.tables
  rw [Nat.min_eq_right hfull] at htables
  have hfind := htables.full rfl
  have hrun : logicalWrite simulatorLink l data x.1.1 = _ :=
    logicalWrite_full hl h.appending.zone hfind data
  have hserved : Served x.1.1 (.write l data) := by
    intro _ z hz
    rw [hfind] at hz
    cases hz
  have hop : (FtlOp.write l data).Allowed := hdata
  have hagrees := (h.paired.agrees_iff hop).mpr hserved
  have hperform : perform simulatorLink (.write l data) x.1.1 = _ := hrun
  have hsame : (twinStep x (.write l data)).1 = x.1 := recordStep_eq (h := x.1.2) hperform
  refine ⟨⟨?_, ?_, h.paired.step hop hagrees, fun l' => ?_⟩, congrArg Prod.fst hrun⟩
  · rw [hsame, List.length_append, Nat.min_eq_right (by omega)]
    exact htables
  · rw [hsame]
    exact h.appending
  · rw [hsame, h.latest, List.take_append_of_le_length hfull]

/-- **One more write** goes behind the others, or finds the device full. -/
theorem FilledWith.write :
    FilledWith (writes ++ [(l, data)]) (twinStep x (.write l data)) ∧
      (logicalWrite simulatorLink l data x.1.1).1 =
        if writes.length < 65536 then .ok data else .err .allZonesFull := by
  by_cases hroom : writes.length < 65536
  · rw [if_pos hroom]
    exact h.write_room hl hdata hroom
  · rw [if_neg hroom]
    exact h.write_full hl hdata (Nat.le_of_not_lt hroom)

end Write

theorem filledWith_run (junk : Validator) (addr : BitVec 32) {writes : List (ℕ × List Byte)}
    (hwrites : ∀ w ∈ writes, w.1 < totalLogicalPages ∧ w.2.length = pageSize) :
    FilledWith writes (run twinStep (twins junk addr) (writeOps writes)) := by
  induction writes using List.reverseRecOn with
  | nil => exact filledWith_twins junk addr
  | append_singleton writes w ih =>
    obtain ⟨hl, hdata⟩ := hwrites w (List.mem_append_right _ List.mem_cons_self)
    have hrest := ih fun v hv => hwrites v (List.mem_append_left _ hv)
    rw [writeOps, List.map_append, List.map_cons, List.map_nil, run_concat]
    exact (hrest.write hl hdata).1

/-- **A client that only writes fills the device.** After start-up and any writes of pages, the next
write succeeds if fewer than 65536 came before it and else finds all zones full, and a read returns the
page last written among the first 65536, or zeros. -/
theorem device_fills (junk : Validator) (addr : BitVec 32) {writes : List (ℕ × List Byte)}
    (hwrites : ∀ w ∈ writes, w.1 < totalLogicalPages ∧ w.2.length = pageSize) :
    let s := run (next simulatorLink) (new (Server.powerUp junk addr)) (writeOps writes)
    (∀ l data, l < totalLogicalPages → data.length = pageSize →
      (logicalWrite simulatorLink l data s).1 =
        if writes.length < 65536 then .ok data else .err .allZonesFull) ∧
    ∀ l, l < totalLogicalPages →
      (logicalRead simulatorLink l s).1 = .ok (latestPage 65536 writes l) := by
  intro s
  have h := filledWith_run junk addr hwrites
  have hs : (run twinStep (twins junk addr) (writeOps writes)).1.1 = s := by
    rw [twins, run_both]
    exact run_map (f := Prod.fst) (fun _ _ => rfl) (new (Server.powerUp junk addr), []) _
  rw [← hs]
  refine ⟨fun l data hl hdata => (h.write hl hdata).2, fun l hl => ?_⟩
  have hidle := h.appending.idle
  rw [h.paired.read hl fun he => FsmState.noConfusion (hidle.symm.trans he), h.latest]
  rfl

/-- The same page written twice. -/
theorem device_fills_twice :
    (logicalRead simulatorLink 5 (run (next simulatorLink) (new Server.start)
      (writeOps [(5, filledPage 7), (5, filledPage 8)]))).1 = .ok (filledPage 8) := by
  have hwrites : ∀ w ∈ [(5, filledPage 7), (5, filledPage 8)],
      w.1 < totalLogicalPages ∧ w.2.length = pageSize := by
    simp [totalLogicalPages]
  refine ((device_fills ⟨.idle, 0, 0, false, 0, 0⟩ 0 hwrites).2 5 (by decide)).trans ?_
  simp [latestPage]

end HostFtl

end ZnsFlash
