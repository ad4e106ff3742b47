import Mathlib.Data.List.GetD
import ZnsFlash.Host.Reach
import ZnsFlash.Host.Simulator

/-!
# The simulator in the place of a memory

The host FTL on the simulator beside the same client on a memory that does what it is told.

* `HostFtl.onto`: the tables of a client over another peer;
* `Served`: the automaton lets a call through; **`perform_simulator`**: what any call does on the
  simulator, beside the same call on the memory;
* `Twins`, `twinStep`, `Agrees`, `Paired`: both clients under the same calls;
* **`agrees_iff_served`**: the calls agree exactly while all of them are served; `Paired.read`: and
  then the simulator is a store of pages.
-/

namespace ZnsFlash

open Runs Segments

namespace HostFtl

variable {δ ε : Type}

/-- The tables of a client over another peer. -/
def onto (t : HostFtl δ) (peer : ε) : HostFtl ε :=
  ⟨peer, t.inbox, t.zones, t.l2pTable, t.currentWriteZone⟩

/-- The tables after a page was appended to a zone, over what the peer is then. -/
def withPage (s : HostFtl δ) (l z : ℕ) (peer : ε) : HostFtl ε where
  peer := peer
  inbox := s.inbox
  zones := Function.update s.zones z ⟨(s.zones z).writePointer + pageSize,
    (s.zones z).isFull || decide (zoneSizeBytes ≤ (s.zones z).writePointer + pageSize)⟩
  l2pTable := s.l2pTable.set l ⟨z, (s.zones z).writePointer / pageSize⟩
  currentWriteZone := z

theorem withPage_zones (s : HostFtl δ) (l z : ℕ) (peer : ε) : (s.withPage l z peer).zones =
    Function.update s.zones z ⟨(s.zones z).writePointer + pageSize,
      (s.zones z).isFull || decide (zoneSizeBytes ≤ (s.zones z).writePointer + pageSize)⟩ := rfl

/-! ## The calls on the simulator -/

section Calls

variable {s : HostFtl Server}

theorem appendRequest_inRange {z w : ℕ} (hz : z < numZones) (hfit : w + pageSize ≤ zoneSizeBytes)
    {data : List Byte} (hdata : data.length = pageSize) :
    (ServerInput.write (appendRequest z w pageSize) data).InRange := by
  have hin := appendRequest_inStorage hz hfit
  refine ⟨hin, ?_, hdata⟩
  rw [NbdRequest.InStorage] at hin
  change (appendRequest z w pageSize).offset.toNat + 4096 ≤ _ at hin
  omega

/-- **A write of a page** returns it, and moves the tables; the page is on the disk if it lands. -/
theorem logicalWrite_simulator (hb : s.peer.bridge.Boundary) (hs : s.inbox = [])
    (hzone : s.currentWriteZone < numZones) (hvalid : ∀ z, (s.zones z).Valid) {l z : ℕ}
    (hl : l < totalLogicalPages)
    (hfind : writableZone s.zones numZones s.currentWriteZone = some z) {data : List Byte}
    (hdata : data.length = pageSize) :
    logicalWrite simulatorLink l data s = (.ok data,
      s.withPage l z (⟨s.peer.written (appendRequest z (s.zones z).writePointer pageSize),
        if s.peer.Lands (appendRequest z (s.zones z).writePointer pageSize) then
          copyBytes s.peer.userDiskStorage (z * zoneSizeBytes + (s.zones z).writePointer) data
        else s.peer.userDiskStorage⟩ : Server)) := by
  obtain ⟨hz, hroom⟩ := writableZone_some hzone hfind
  have hfit := (hvalid z).room hroom
  obtain ⟨hin, hstart, -⟩ := appendRequest_inRange hz hfit hdata
  obtain ⟨hrun, -⟩ := Server.write_eq hb hin hstart data
  rw [appendRequest_offset hz (Nat.le_of_add_right_le hfit)] at hrun
  have happend := appendToZone_ok (s := { s with currentWriteZone := z }) hz hs
    (tcp_append hdata hrun) (NbdReply.length_encode _) (replyError_encode _)
  rw [logicalWrite_ok hl hzone hfind happend, hdata]
  rfl

/-- **A read of a mapped page** returns what is on the disk, and never returns in `ST_ERROR`. -/
theorem logicalRead_simulator (hb : s.peer.bridge.Boundary) (hs : s.inbox = []) {l : ℕ}
    {p : PhysicalAddress} (hl : l < totalLogicalPages) (hp : s.l2pTable l = some p)
    (hz : p.zoneId < numZones) (hoff : p.pageOffset < 64) :
    logicalRead simulatorLink l s =
      (if s.peer.bridge.fsm.currentState = .error then .blocks
        else .ok (readBytes s.peer.userDiskStorage p.byteOffset pageSize),
      { s with peer := { s.peer with
          bridge := s.peer.bridge.short ((readRequest p).simCmd 0) } }) := by
  obtain ⟨st, hrun⟩ := Server.read_eq hb (readRequest_inStorage hz hoff)
  have htcp := tcp_read hrun
  by_cases he : s.peer.bridge.fsm.currentState = .error
  · rw [if_pos he] at htcp ⊢
    exact logicalRead_blocks hl hp hs htcp (NbdReply.length_encode _)
  · rw [if_neg he] at htcp ⊢
    rw [readRequest_offset hz hoff] at htcp
    exact logicalRead_ok hl hp hs htcp (NbdReply.length_encode _) (length_readBytes _ _ _)

end Calls

/-! ## One call -/

/-- **The automaton lets a call through**: a page that is written lands, or is there already; a mapped
page is not read in `ST_ERROR`. -/
def Served (s : HostFtl Server) : FtlOp → Prop
  | .write l data => l < totalLogicalPages → ∀ z,
    writableZone s.zones numZones s.currentWriteZone = some z →
      s.peer.Lands (appendRequest z (s.zones z).writePointer pageSize) ∨
        readBytes s.peer.userDiskStorage (z * zoneSizeBytes + (s.zones z).writePointer) pageSize =
          data
  | .read l => s.l2pTable.get l ≠ none → s.peer.bridge.fsm.currentState ≠ .error
  | .reset _ | .assign _ => True

theorem copyBytes_eq_self_iff {storage : ℕ → Byte} {start : ℕ} {bytes : List Byte} :
    copyBytes storage start bytes = storage ↔ readBytes storage start bytes.length = bytes := by
  constructor
  · intro h
    have hread := readBytes_copyBytes storage start bytes
    rwa [h] at hread
  · intro h
    funext i
    unfold copyBytes
    split_ifs with hi
    · have hlt : i - start < bytes.length := by omega
      conv_lhs => rw [← h]
      have hlt' : i - start < (readBytes storage start bytes.length).length := by
        rwa [length_readBytes]
      rw [List.getD_eq_getElem _ _ hlt']
      simp only [readBytes, List.getElem_map, List.getElem_range]
      congr 1
      omega
    · rfl

/-- A call on the simulator and the same call on a memory. -/
structure Beside (t : HostFtl (ℕ → Byte)) (d : Server) (op : FtlOp) (d' : Server) : Prop where
  tables : (perform simulatorLink op (t.onto d)).2 = (perform ramLink op t).2.onto d'
  boundary : d'.bridge.Boundary
  served : Served (t.onto d) op ↔
    (perform simulatorLink op (t.onto d)).1 = (perform ramLink op t).1 ∧
      d'.userDiskStorage = (perform ramLink op t).2.peer

section Beside

variable {t : HostFtl (ℕ → Byte)} {h : PageHistory} {d : Server}
  (hc : t.Consistent ramAccepting h) (hb : d.bridge.Boundary) (hdisk : d.userDiskStorage = t.peer)

include hb hdisk

omit hb hdisk in
theorem beside_of_runs {op : FtlOp} {o o' : Outcome IoError (List Byte)} {tables : HostFtl (ℕ → Byte)}
    {d' : Server} (hram : perform ramLink op t = (o, tables))
    (hsim : perform simulatorLink op (t.onto d) = (o', tables.onto d')) (hb' : d'.bridge.Boundary)
    (hserved : Served (t.onto d) op ↔ o' = o ∧ d'.userDiskStorage = tables.peer) :
    Beside t d op d' := by
  refine ⟨?_, hb', ?_⟩
  · rw [hsim, hram]
  · rw [hsim, hram]
    exact hserved

theorem beside_of_same {op : FtlOp} {o : Outcome IoError (List Byte)}
    {tables : HostFtl (ℕ → Byte)} (hpeer : tables.peer = t.peer)
    (hram : perform ramLink op t = (o, tables))
    (hsim : perform simulatorLink op (t.onto d) = (o, tables.onto d))
    (hserved : Served (t.onto d) op) :
    Beside t d op d :=
  beside_of_runs hram hsim hb (iff_of_true hserved ⟨rfl, hdisk.trans hpeer.symm⟩)

theorem beside_reset (z : ℕ) : ∃ d', Beside t d (.reset z) d' := by
  by_cases hz : z < numZones
  · obtain ⟨st, hreset⟩ := Server.reset_eq (s := d) hz
    have hsim := Call.bind_of_ok (f := fun _ => (pure [] : FtlCall Server (List Byte)))
      (zoneReset_ok (s := t.onto d) hz (simulatorLink_mgmt hreset))
    have hram : perform ramLink (.reset z) t = (.ok [], t.emptied (clearBytes t.peer
        ((BitVec.ofNat 64 z).toNat * zoneSizeBytes) zoneSizeBytes) z) :=
      Call.bind_of_ok (zoneReset_ok hz rfl)
    refine ⟨_, beside_of_runs hram hsim (Server.boundary_cleared hb _)
      (iff_of_true trivial ⟨rfl, ?_⟩)⟩
    have hz' : (BitVec.ofNat 64 z).toNat = z := by
      unfold numZones at hz
      rw [BitVec.toNat_ofNat]
      exact Nat.mod_eq_of_lt (by omega)
    change clearBytes d.userDiskStorage _ _ = clearBytes t.peer _ _
    rw [hdisk, hz']
  · have hle := Nat.le_of_not_lt hz
    exact ⟨d, beside_of_same hb hdisk rfl (Call.bind_of_err (zoneReset_outOfRange hle))
      (Call.bind_of_err (zoneReset_outOfRange hle)) trivial⟩

include hc

theorem beside_write {l : ℕ} {data : List Byte} (hdata : data.length = pageSize) :
    ∃ d', Beside t d (.write l data) d' := by
  by_cases hl : l < totalLogicalPages
  swap
  · have hle := Nat.le_of_not_lt hl
    exact ⟨d, beside_of_same hb hdisk rfl (logicalWrite_outOfBounds hle data)
      (logicalWrite_outOfBounds hle data) fun h => absurd h hl⟩
  cases hfind : writableZone t.zones numZones t.currentWriteZone with
  | none =>
    refine ⟨d, beside_of_same hb hdisk rfl (logicalWrite_full hl hc.zone hfind data)
      (logicalWrite_full (s := t.onto d) hl hc.zone hfind data) fun _ z hz => ?_⟩
    exact absurd (hfind.symm.trans hz) (Option.some_ne_none z).symm
  | some z =>
    have hfit := (hc.valid z).room (writableZone_some hc.zone hfind).2
    have hrange := appendRequest_inRange (writableZone_some hc.zone hfind).1 hfit hdata
    obtain ⟨peer, hram, hstored⟩ := hc.logicalWrite_eq hl hfind hdata
    have hsim := logicalWrite_simulator (s := t.onto d) hb hc.inbox hc.zone hc.valid hl hfind hdata
    have hboundary := (Server.write_eq hb hrange.1 hrange.2.1 data).2
    -- a refused write is not noticed when the bytes were there already
    have hserved : Served (t.onto d) (.write l data) ↔
        d.Lands (appendRequest z (t.zones z).writePointer pageSize) ∨
          copyBytes d.userDiskStorage (z * zoneSizeBytes + (t.zones z).writePointer) data =
            d.userDiskStorage := by
      rw [copyBytes_eq_self_iff, hdata]
      refine ⟨fun h => h hl z hfind, fun h _ z' hz' => ?_⟩
      obtain rfl : z = z' := Option.some.inj (hfind.symm.trans hz')
      exact h
    have hram' : perform ramLink (.write l data) t = (.ok data, t.withPage l z peer) := hram
    refine ⟨_, beside_of_runs hram' hsim hboundary (hserved.trans ?_)⟩
    have hpeer : peer = copyBytes t.peer (z * zoneSizeBytes + (t.zones z).writePointer) data :=
      hstored
    rw [hpeer, ← hdisk, eq_self, true_and]
    change _ ↔ (if d.Lands (appendRequest z (t.zones z).writePointer pageSize) then
      copyBytes d.userDiskStorage (z * zoneSizeBytes + (t.zones z).writePointer) data
        else d.userDiskStorage) = _
    split_ifs with hlands
    · exact iff_of_true (.inl hlands) rfl
    · rw [or_iff_right hlands]
      exact eq_comm

theorem beside_read (l : ℕ) : ∃ d', Beside t d (.read l) d' := by
  by_cases hl : l < totalLogicalPages
  swap
  · have hle := Nat.le_of_not_lt hl
    refine ⟨d, beside_of_same hb hdisk rfl (logicalRead_outOfBounds hle)
      (logicalRead_outOfBounds hle) fun hne => absurd ?_ hne⟩
    exact if_neg hl
  cases hp : t.l2pTable l with
  | none =>
    refine ⟨d, beside_of_same hb hdisk rfl (logicalRead_unmapped hl hp)
      (logicalRead_unmapped (s := t.onto d) hl hp) fun hne => absurd ?_ hne⟩
    exact (if_pos hl).trans hp
  | some p =>
    have hz := hc.exists_zone l p hp
    have hoff := hc.pageOffset_lt hp
    obtain ⟨peer, hram, hpeer⟩ := logicalRead_mapped hc.inbox hl hp hz hoff (ramAccepting.read t.peer)
    have hsim := logicalRead_simulator (s := t.onto d) hb hc.inbox hl hp hz hoff
    have hserved : Served (t.onto d) (.read l) ↔ d.bridge.fsm.currentState ≠ .error := by
      have hsome : (t.onto d).l2pTable.get l ≠ none := by
        rw [L2pTable.get, if_pos hl]
        exact fun hnone => Option.some_ne_none p (hp.symm.trans hnone)
      exact ⟨fun h => h hsome, fun h _ => h⟩
    have hram' : perform ramLink (.read l) t =
        (.ok (readBytes t.peer p.byteOffset pageSize), { t with peer }) := hram
    refine ⟨_, beside_of_runs hram' hsim (Bridge.boundary_short _ hb).1 (hserved.trans ?_)⟩
    change _ ↔ (if d.bridge.fsm.currentState = .error then Outcome.blocks
      else .ok (readBytes d.userDiskStorage p.byteOffset pageSize)) = _ ∧ d.userDiskStorage = peer
    have hpeer' : peer = t.peer := hpeer
    rw [hpeer', hdisk]
    split_ifs with he
    · exact iff_of_false (not_not_intro he) fun h => h.1
    · exact iff_of_true he ⟨rfl, rfl⟩

/-- **Any call on the simulator**, beside the same call on the memory: the tables go the same way, and
the outcome and the bytes do exactly when the call is served. -/
theorem perform_simulator {op : FtlOp} (hop : op.Allowed) : ∃ d', Beside t d op d' := by
  cases op with
  | write l data => exact beside_write hc hb hdisk hop
  | read l => exact beside_read hc hb hdisk l
  | reset z => exact beside_reset hb hdisk z
  | assign z =>
    have hram : perform ramLink (.assign z) t = (.ok [], { t with currentWriteZone := z }) := rfl
    have hsim : perform simulatorLink (.assign z) (t.onto d) =
        (.ok [], onto { t with currentWriteZone := z } d) := rfl
    exact ⟨d, beside_of_runs hram hsim hb (iff_of_true trivial ⟨rfl, hdisk⟩)⟩

end Beside

/-! ## Runs of calls -/

/-- The client on the simulator and the client on a memory, with their histories. -/
abbrev Twins := (HostFtl Server × PageHistory) × (HostFtl (ℕ → Byte) × PageHistory)

/-- The twins at start-up. -/
def twins (junk : Validator) (addr : BitVec 32) : Twins :=
  ((new (Server.powerUp junk addr), []), (new fun _ => 0, []))

/-- The same call of both. -/
abbrev twinStep : Twins → FtlOp → Twins := both (recordStep simulatorLink) (recordStep ramLink)

/-- **The calls agree**: they end alike, and then the disk holds what the memory holds. -/
structure Agrees (x : Twins) (op : FtlOp) : Prop where
  outcome : (perform simulatorLink op x.1.1).1 = (perform ramLink op x.2.1).1
  disk : (perform simulatorLink op x.1.1).2.peer.userDiskStorage = (perform ramLink op x.2.1).2.peer

/-- **Between calls that agreed.** -/
structure Paired (x : Twins) : Prop where
  consistent : x.2.1.Consistent ramAccepting x.2.2
  tables : x.1.1 = x.2.1.onto x.1.1.peer
  history : x.1.2 = x.2.2
  disk : x.1.1.peer.userDiskStorage = x.2.1.peer
  boundary : x.1.1.peer.bridge.Boundary

theorem paired_twins (junk : Validator) (addr : BitVec 32) : Paired (twins junk addr) where
  consistent := consistent_new ramAccepting _
  tables := rfl
  history := rfl
  disk := rfl
  boundary := Server.boundary_powerUp junk addr

theorem eventsOf_onto (op : FtlOp) (o : Outcome IoError (List Byte)) (t : HostFtl δ) (peer : ε) :
    eventsOf op o (t.onto peer) = eventsOf op o t := by
  cases op <;> cases o <;> rfl

section Paired

variable {x : Twins} {op : FtlOp} (h : Paired x) (hop : op.Allowed)

include h hop

theorem Paired.agrees_iff : Agrees x op ↔ Served x.1.1 op := by
  obtain ⟨d', hbeside⟩ := perform_simulator h.consistent h.boundary h.disk hop
  have hserved := hbeside.served
  have htables := hbeside.tables
  rw [← h.tables] at hserved htables
  rw [hserved]
  constructor
  · intro ha
    refine ⟨ha.outcome, ?_⟩
    rw [← ha.disk, htables]
    rfl
  · rintro ⟨houtcome, hdisk⟩
    refine ⟨houtcome, ?_⟩
    rw [htables]
    exact hdisk

theorem Paired.step (ha : Agrees x op) : Paired (twinStep x op) := by
  obtain ⟨d', hbeside⟩ := perform_simulator h.consistent h.boundary h.disk hop
  have htables := hbeside.tables
  rw [← h.tables] at htables
  refine ⟨h.consistent.step hop, ?_, ?_, ha.disk, ?_⟩
  · change (perform simulatorLink op x.1.1).2 =
      onto (perform ramLink op x.2.1).2 (perform simulatorLink op x.1.1).2.peer
    rw [htables]
    rfl
  · change eventsOf op (perform simulatorLink op x.1.1).1 (perform simulatorLink op x.1.1).2 ++ x.1.2 =
      eventsOf op (perform ramLink op x.2.1).1 (perform ramLink op x.2.1).2 ++ x.2.2
    rw [ha.outcome, htables, eventsOf_onto, h.history]
  · change (perform simulatorLink op x.1.1).2.peer.bridge.Boundary
    rw [htables]
    exact hbeside.boundary

end Paired

theorem paired_run (junk : Validator) (addr : BitVec 32) {ops : List FtlOp}
    (hops : ∀ op ∈ ops, op.Allowed)
    (hserved : Along (recordStep simulatorLink) (fun x op => Served x.1 op)
      (new (Server.powerUp junk addr), []) ops) :
    Paired (run (recordStep simulatorLink) (new (Server.powerUp junk addr), []) ops,
      run (recordStep ramLink) (new fun _ => 0, []) ops) := by
  have halong := (along_both_fst (recordStep simulatorLink) (recordStep ramLink) _ _
    ((new fun _ => 0, []) : HostFtl (ℕ → Byte) × PageHistory) ops).mpr hserved
  rw [← run_both]
  refine run_inv_of_along (fun x op h hP => ?_) (paired_twins junk addr)
    ((along_and (fun _ op => op.Allowed) _ _ _).mpr ⟨(along_const _ _ _).mpr hops, halong⟩)
  exact h.step hP.1 ((h.agrees_iff hP.1).mpr hP.2)

/-- **A read that is served** returns the page last written, or zeros. -/
theorem Paired.read {x : Twins} (h : Paired x) {l : ℕ} (hl : l < totalLogicalPages)
    (he : x.1.1.peer.bridge.fsm.currentState ≠ .error) :
    (logicalRead simulatorLink l x.1.1).1 =
      .ok (((live x.1.2 l).map Prod.snd).getD (filledPage 0)) := by
  have hop : (FtlOp.read l).Allowed := trivial
  have hagree := (h.agrees_iff hop).mpr fun _ => he
  obtain ⟨peer, hread, -⟩ := h.consistent.logicalRead_eq hl
  have houtcome : (logicalRead simulatorLink l x.1.1).1 = (logicalRead ramLink l x.2.1).1 :=
    hagree.outcome
  rw [houtcome, hread, h.history]

/-- **The simulator does what a memory does, exactly while it serves every call.** Of any writes of
pages, reads, resets and choices of a zone after start-up, every call ends as it would over a memory,
and leaves the bytes that it would, if and only if every write lands, or finds its page there, and no
mapped page is read in `ST_ERROR`. -/
theorem agrees_iff_served (junk : Validator) (addr : BitVec 32) {ops : List FtlOp}
    (hops : ∀ op ∈ ops, op.Allowed) :
    Along twinStep Agrees (twins junk addr) ops ↔
      Along (recordStep simulatorLink) (fun x op => Served x.1 op)
        (new (Server.powerUp junk addr), []) ops := by
  have hcongr := @along_congr _ _ twinStep Paired (P := fun x op => op.Allowed ∧ Agrees x op)
    (Q := fun x op => op.Allowed ∧ Served x.1.1 op) (fun x op h ha => h.step ha.1 ha.2)
    (fun x op h => and_congr_right fun hop => h.agrees_iff hop) _ (paired_twins junk addr) ops
  rw [along_and, along_and, along_const] at hcongr
  exact ((and_congr_right_iff.mp hcongr) hops).trans (along_both_fst _ _
    (fun (y : HostFtl Server × PageHistory) op => Served y.1 op) _ _ _)

/-- A page is written, read back, and its zone reset. -/
def pageOps : List FtlOp := [.write 5 (filledPage 7), .read 5, .reset 0]

theorem agrees_iff_served_pageOps :
    Along twinStep Agrees (twins ⟨.idle, 0, 0, false, 0, 0⟩ 0) pageOps := by
  have hops : ∀ op ∈ pageOps, op.Allowed :=
    List.forall_mem_cons.mpr ⟨length_filledPage 7, List.forall_mem_cons.mpr
      ⟨trivial, List.forall_mem_singleton.mpr trivial⟩⟩
  obtain ⟨s, hs⟩ : ∃ s, s = new (Server.powerUp ⟨.idle, 0, 0, false, 0, 0⟩ 0) := ⟨_, rfl⟩
  have hfind : writableZone s.zones numZones s.currentWriteZone = some 0 := by
    rw [hs]
    exact writableZone_self 1023 rfl
  have hlands : s.peer.Lands (appendRequest 0 (s.zones 0).writePointer pageSize) := by
    rw [hs]
    decide
  have hboundary : s.peer.bridge.Boundary := by
    rw [hs]
    exact Server.boundary_powerUp _ _
  have hzones : ∀ z, s.zones z = ⟨0, false⟩ := fun z => by rw [hs]; rfl
  have hwrite := logicalWrite_simulator (l := 5) hboundary (by rw [hs]; rfl)
    (by rw [hs]; exact Nat.succ_pos _) (fun z => by rw [hzones]; exact ZoneDescriptor.valid_empty)
    (by decide)
    hfind (length_filledPage 7)
  have hperform : perform simulatorLink (.write 5 (filledPage 7)) s = _ := hwrite
  refine (agrees_iff_served _ 0 hops).mpr ⟨fun _ z hz => .inl ?_, fun _ => ?_, trivial, trivial⟩
  · rw [← hs] at hz ⊢
    obtain rfl := Option.some.inj (hfind.symm.trans hz)
    exact hlands
  · rw [← hs, recordStep_eq hperform]
    change (s.peer.written (appendRequest 0 (s.zones 0).writePointer pageSize)).fsm.currentState ≠ .error
    rw [hs]
    decide

end HostFtl

end ZnsFlash
