import ZnsFlash.Host.Simulator
import ZnsFlash.Library.Runs

/-!
# The framing of replies

A read that the server rejects is answered with a bare header, and the client waits for a page
behind it.

* `WireCall`, `requestBytes`, `wireStep`: the calls that use the TCP socket, among the requests of
  other clients;
* `Framed`: a call reads what was sent for it, and a reply with an error is an error;
* `OnDisk`, `ReadAnswered`: the requests inside the arrays, and the reads that are not rejected;
* **`framed_iff_reads_answered`**: replies stay in frame exactly when no read is rejected.
-/

namespace ZnsFlash

open Runs

/-- A call of the client that uses the TCP socket, or a request that the server gets from someone
else in between. -/
inductive WireCall
  | append (zoneId : ℕ) (data : List Byte)
  | read (logicalPageId : ℕ)
  | other (i : ServerInput)

namespace HostFtl

/-- The bytes that a call sends, if it sends any. -/
def requestBytes (s : HostFtl Server) : WireCall → Option (List Byte)
  | .append zoneId data =>
    if zoneId < numZones then
      some ((appendRequest zoneId (s.zones zoneId).writePointer data.length).encode ++ data)
    else none
  | .read l => (s.l2pTable.get l).map fun paddr => (readRequest paddr).encode
  | .other _ => none

/-- The call, with the data that it returns. -/
def wireCall : WireCall → FtlCall Server (List Byte)
  | .append zoneId data => do
    let _ ← appendToZone simulatorLink zoneId data
    pure []
  | .read l => logicalRead simulatorLink l
  | .other i => do
    Call.modify fun s => { s with peer := s.peer.next i }
    pure []

def wireStep (s : HostFtl Server) (c : WireCall) : HostFtl Server := (wireCall c s).2

/-- **The call is in frame**: it ends, the bytes that it has read are those that the server sent
for it, and it returns an error if the reply carries one. -/
def Framed (s : HostFtl Server) (c : WireCall) : Prop :=
  ∀ bytes, requestBytes s c = some bytes →
    ∀ peer out, simulatorLink.tcp s.peer bytes = (peer, .ok out) →
      (wireCall c s).1 ≠ .blocks ∧
        (s.inbox ++ out).length - (wireStep s c).inbox.length = out.length ∧
        (replyError out ≠ 0 → ∃ e, (wireCall c s).1 = .err e)

/-- The request lies on the disk; past it the server indexes its arrays out of bounds. -/
def OnDisk (s : HostFtl Server) : WireCall → Prop
  | .append zoneId data => zoneId < numZones →
    zoneId * zoneSizeBytes + (s.zones zoneId).writePointer < totalSizeBytes ∧
      zoneId * zoneSizeBytes + (s.zones zoneId).writePointer + data.length ≤ totalSizeBytes
  | .read l => ∀ paddr, s.l2pTable.get l = some paddr →
    paddr.zoneId < numZones ∧ paddr.pageOffset < 64
  | .other _ => True

/-- **A read of a mapped page does not find the automaton in `ST_ERROR`.** -/
def ReadAnswered (s : HostFtl Server) : WireCall → Prop
  | .read l => s.l2pTable.get l ≠ none → s.peer.bridge.fsm.currentState ≠ .error
  | .append _ _ | .other _ => True

/-- Between calls that were in frame. -/
structure InFrame (s : HostFtl Server) : Prop where
  inbox : s.inbox = []
  boundary : s.peer.bridge.Boundary

theorem framed_of_silent {s : HostFtl Server} {c : WireCall} (h : s.requestBytes c = none) :
    s.Framed c := by
  intro bytes hsent
  rw [h] at hsent
  cases hsent

/-- A call that returns data, with the inbox as before, is in frame when its reply has no error. -/
theorem framed_of_ok {s s' : HostFtl Server} {c : WireCall} {bytes data out : List Byte}
    {peer : Server} (hbytes : s.requestBytes c = some bytes)
    (htcp : simulatorLink.tcp s.peer bytes = (peer, .ok out)) (hrun : wireCall c s = (.ok data, s'))
    (hinbox : s'.inbox = s.inbox) (herr : replyError out = 0) : s.Framed c := by
  intro bytes' hsent peer' out' hanswer
  obtain rfl := Option.some.inj (hbytes.symm.trans hsent)
  have hsame := htcp.symm.trans hanswer
  obtain rfl := Except.ok.inj (congrArg Prod.snd hsame)
  have hlen : (s.inbox ++ out).length - s'.inbox.length = out.length := by
    rw [hinbox, List.length_append]
    omega
  rw [wireStep, hrun]
  exact ⟨nofun, hlen, fun hne => absurd herr hne⟩

section Append

variable {s : HostFtl Server} {zoneId : ℕ} {data : List Byte}

theorem tcp_append_onDisk (h : s.InFrame) (hz : zoneId < numZones)
    (hd : s.OnDisk (.append zoneId data)) :
    ∃ peer reply, simulatorLink.tcp s.peer
        ((appendRequest zoneId (s.zones zoneId).writePointer data.length).encode ++ data) =
          (peer, .ok reply) ∧
      reply.length = 16 ∧ replyError reply = 0 ∧ peer.bridge.Boundary := by
  obtain ⟨hstart, hend⟩ := hd hz
  have hoffset : (appendRequest zoneId (s.zones zoneId).writePointer data.length).offset.toNat =
      zoneId * zoneSizeBytes + (s.zones zoneId).writePointer := by
    change (BitVec.ofNat 64 _).toNat = _
    rw [BitVec.toNat_ofNat]
    refine Nat.mod_eq_of_lt ?_
    unfold totalSizeBytes at hstart
    omega
  have hlen : (appendRequest zoneId (s.zones zoneId).writePointer data.length).len.toNat =
      data.length := by
    change (BitVec.ofNat 32 _).toNat = _
    rw [BitVec.toNat_ofNat]
    refine Nat.mod_eq_of_lt ?_
    unfold totalSizeBytes at hend
    omega
  have hin : (appendRequest zoneId (s.zones zoneId).writePointer data.length).InStorage := by
    rw [NbdRequest.InStorage, hoffset, hlen]
    exact hend
  rw [← hoffset] at hstart
  obtain ⟨hrun, hb⟩ := Server.write_eq h.boundary hin hstart data
  refine ⟨_, _, tcp_append rfl hrun, NbdReply.length_encode _, replyError_encode _, ?_⟩
  exact hb

theorem framed_append (h : s.InFrame) (hd : s.OnDisk (.append zoneId data)) :
    s.Framed (.append zoneId data) ∧ (s.wireStep (.append zoneId data)).InFrame := by
  by_cases hz : zoneId < numZones
  · obtain ⟨peer, reply, htcp, hlen, herr, hb⟩ := tcp_append_onDisk h hz hd
    have hrun := appendToZone_ok hz h.inbox htcp hlen herr
    have hcall : wireCall (.append zoneId data) s = (.ok [], _) := Call.bind_of_ok hrun
    have hbytes : s.requestBytes (.append zoneId data) = some _ := if_pos hz
    refine ⟨framed_of_ok hbytes htcp hcall rfl herr, ?_⟩
    rw [wireStep, hcall]
    exact ⟨h.inbox, hb⟩
  · have hzone : zoneAt zoneId s = (.panics, s) := if_neg hz
    have hrun : appendToZone simulatorLink zoneId data s = (.panics, s) :=
      Call.bind_of_panics hzone
    have hcall : wireCall (.append zoneId data) s = (.panics, s) := Call.bind_of_panics hrun
    have hbytes : s.requestBytes (.append zoneId data) = none := if_neg hz
    refine ⟨framed_of_silent hbytes, ?_⟩
    rw [wireStep, hcall]
    exact h

end Append

section Read

variable {s : HostFtl Server} {l : ℕ} {paddr : PhysicalAddress}

theorem tcp_read_onDisk (h : s.InFrame) (hz : paddr.zoneId < numZones)
    (hp : paddr.pageOffset < 64) :
    ∃ peer bytes, simulatorLink.tcp s.peer (readRequest paddr).encode =
        (peer, .ok (if s.peer.bridge.fsm.currentState = .error then (readRequest paddr).reply eio
          else (readRequest paddr).reply 0 ++ bytes)) ∧
      bytes.length = pageSize ∧ peer.bridge.Boundary := by
  obtain ⟨st, hrun⟩ := Server.read_eq h.boundary (readRequest_inStorage hz hp)
  have hlen : (readRequest paddr).len.toNat = pageSize := rfl
  exact ⟨_, _, tcp_read hrun, by rw [length_readBytes, hlen],
    (Bridge.boundary_short _ h.boundary).1⟩

theorem read_silent (hget : s.l2pTable.get l = none) :
    s.requestBytes (.read l) = none ∧ s.wireStep (.read l) = s := by
  refine ⟨by rw [requestBytes, hget]; rfl, ?_⟩
  by_cases hl : l < totalLogicalPages
  · rw [L2pTable.get, if_pos hl] at hget
    rw [wireStep, wireCall, logicalRead_unmapped hl hget]
  · rw [wireStep, wireCall, logicalRead_outOfBounds (by omega)]

theorem framed_read (h : s.InFrame) (hd : s.OnDisk (.read l)) :
    (s.Framed (.read l) ↔ s.ReadAnswered (.read l)) ∧
      (s.Framed (.read l) → (s.wireStep (.read l)).InFrame) := by
  cases hget : s.l2pTable.get l with
  | none =>
    obtain ⟨hbytes, hstep⟩ := read_silent hget
    refine ⟨⟨fun _ hne => absurd hget hne, fun _ => framed_of_silent hbytes⟩, fun _ => ?_⟩
    rw [hstep]
    exact h
  | some paddr =>
    obtain ⟨hz, hp⟩ := hd paddr hget
    obtain ⟨peer, bytes, htcp, hlen, hb⟩ := tcp_read_onDisk h hz hp
    have hbytes : s.requestBytes (.read l) = some (readRequest paddr).encode := by
      rw [requestBytes, hget]
      rfl
    have hl : l < totalLogicalPages := by
      by_contra hl
      rw [L2pTable.get, if_neg hl] at hget
      cases hget
    have htable : s.l2pTable l = some paddr := by
      rw [L2pTable.get, if_pos hl] at hget
      exact hget
    have hmapped : s.l2pTable.get l ≠ none := by
      rw [hget]
      exact Option.some_ne_none _
    by_cases he : s.peer.bridge.fsm.currentState = .error
    -- in `ST_ERROR` the reply has no payload: the client waits for it in vain
    · rw [if_pos he] at htcp
      have hrun := logicalRead_blocks hl htable h.inbox htcp (NbdReply.length_encode _)
      have hnot : ¬ s.Framed (.read l) := fun hf =>
        (hf _ hbytes _ _ htcp).1 (congrArg Prod.fst hrun)
      exact ⟨⟨fun hf => absurd hf hnot, fun ha => absurd he (ha hmapped)⟩, fun hf => absurd hf hnot⟩
    · rw [if_neg he] at htcp
      have hrun : wireCall (.read l) s = (.ok bytes, { s with peer }) :=
        logicalRead_ok hl htable h.inbox htcp (NbdReply.length_encode _) hlen
      have herr : replyError ((readRequest paddr).reply 0 ++ bytes) = 0 :=
        replyError_encode_append _ _
      have hframed := framed_of_ok hbytes htcp hrun rfl herr
      refine ⟨⟨fun _ _ => he, fun _ => hframed⟩, fun _ => ?_⟩
      rw [wireStep, hrun]
      exact ⟨h.inbox, hb⟩

end Read

/-! ## Runs -/

theorem framed_iff {s : HostFtl Server} {c : WireCall} (h : s.InFrame) (hd : s.OnDisk c) :
    s.Framed c ↔ s.ReadAnswered c := by
  cases c with
  | append zoneId data => exact ⟨fun _ => trivial, fun _ => (framed_append h hd).1⟩
  | read l => exact (framed_read h hd).1
  | other i => exact ⟨fun _ => trivial, fun _ => framed_of_silent rfl⟩

theorem inFrame_wireStep {s : HostFtl Server} {c : WireCall} (h : s.InFrame) (hd : s.OnDisk c)
    (hf : s.Framed c) : (s.wireStep c).InFrame := by
  cases c with
  | append zoneId data => exact (framed_append h hd).2
  | read l => exact (framed_read h hd).2 hf
  | other i => exact ⟨h.inbox, Server.boundary_next h.boundary i⟩

/-- **Client and server agree on the framing of replies** along a run of calls on the disk, among any
requests of others, exactly when no read of a mapped page is rejected. -/
theorem framed_iff_reads_answered {s : HostFtl Server} (hs : s.inbox = []) (hr : s.peer.Reach)
    (cs : List WireCall) (hcs : Along wireStep OnDisk s cs) :
    Along wireStep Framed s cs ↔ Along wireStep ReadAnswered s cs := by
  have h := @along_congr _ _ wireStep InFrame
    (P := fun s c => s.OnDisk c ∧ s.Framed c) (Q := fun s c => s.OnDisk c ∧ s.ReadAnswered c)
    (fun s c hs hc => inFrame_wireStep hs hc.1 hc.2)
    (fun s c hs => and_congr_right fun hd => framed_iff hs hd) _ ⟨hs, hr.boundary⟩ cs
  rw [along_and, along_and] at h
  exact (and_congr_right_iff.mp h) hcs

/-- A client that has mapped page 0 to the first page of zone 0 and written it. -/
def mappedClient : HostFtl Server where
  peer := Server.start.next (.write (Server.firstPageWrite 0) [7])
  inbox := []
  zones := Function.update (fun _ => ⟨0, false⟩) 0 ⟨1, false⟩
  l2pTable := L2pTable.new.set 0 ⟨0, 0⟩
  currentWriteZone := 0

/-- Two reads of an unwritten page by someone else, then a read of page 0. -/
def readAfterOthers : List WireCall :=
  [.other (.read (Server.firstPageWrite 1)), .other (.read (Server.firstPageWrite 1)), .read 0]

theorem mappedClient_reach : mappedClient.peer.Reach := by
  have hstart : Server.start.Reach := .powerUp _ _
  exact hstart.next (.write (Server.firstPageWrite 0) [7])

theorem readAfterOthers_onDisk : Along wireStep OnDisk mappedClient readAfterOthers := by
  refine ⟨trivial, trivial, fun paddr h => ?_, trivial⟩
  obtain rfl : (⟨0, 0⟩ : PhysicalAddress) = paddr := Option.some.inj h
  decide

theorem framed_iff_reads_answered_readAfterOthers :
    mappedClient.inbox = [] ∧ mappedClient.peer.Reach ∧
      Along wireStep OnDisk mappedClient readAfterOthers ∧
      (Along wireStep Framed mappedClient readAfterOthers ↔
        Along wireStep ReadAnswered mappedClient readAfterOthers) :=
  ⟨rfl, mappedClient_reach, readAfterOthers_onDisk,
    framed_iff_reads_answered rfl mappedClient_reach _ readAfterOthers_onDisk⟩

/-- **The session blocks**: the server sends a bare header, the client waits for a page. -/
theorem rejected_read_blocks :
    ¬ ∀ (s : HostFtl Server) (cs : List WireCall), s.inbox = [] → s.peer.Reach →
      Along wireStep OnDisk s cs → Along wireStep Framed s cs := by
  intro h
  obtain ⟨-, -, hframed, -⟩ := h _ _ rfl mappedClient_reach readAfterOthers_onDisk
  let s := (mappedClient.wireStep (.other (.read (Server.firstPageWrite 1)))).wireStep
    (.other (.read (Server.firstPageWrite 1)))
  let i : ServerInput := .read (Server.firstPageWrite 1)
  have hs : s.InFrame := ⟨rfl, ((mappedClient_reach.next i).next i).boundary⟩
  have herror : s.peer.bridge.fsm.currentState = .error := by decide
  have hzone : (⟨0, 0⟩ : PhysicalAddress).zoneId < numZones := by decide
  obtain ⟨peer, bytes, htcp, -, -⟩ := tcp_read_onDisk hs hzone (by decide)
  have hblocks : (wireCall (.read 0) s).1 = .blocks := by decide
  exact (hframed _ rfl _ _ htcp).1 hblocks

end HostFtl

end ZnsFlash
