import ZnsFlash.Host.Reach

/-!
# Resets whose acknowledgement is lost

* `LossyReset`: a device that erases a zone when the request for it arrives, behind a management
  channel that may lose the request or the acknowledgement;
* `zoneReset_lossy`: how a reset ends;
* **`reset_effect`**: what host and device agree on afterwards.
-/

namespace ZnsFlash

/-- What a device holds: its bytes, and how many of them each zone has taken. -/
structure Contents where
  bytes : ℕ → Byte
  held : ℕ → ℕ

namespace Contents

/-- The zone is erased. -/
def erase (c : Contents) (zoneId : ℕ) : Contents :=
  ⟨clearBytes c.bytes (zoneId * zoneSizeBytes) zoneSizeBytes, Function.update c.held zoneId 0⟩

variable (c : Contents) {zoneId : ℕ}

@[simp] theorem erase_held_self : (c.erase zoneId).held zoneId = 0 := Function.update_self _ _ _

theorem erase_held_of_ne {z : ℕ} (hz : z ≠ zoneId) : (c.erase zoneId).held z = c.held z :=
  Function.update_of_ne hz _ _

end Contents

/-- **A device that erases a zone when the request arrives.** The request may be lost, and so may the
acknowledgement. -/
structure LossyReset {δ : Type} (link : Link δ) where
  contents : δ → Contents
  append : ∀ d (r : NbdRequest) (payload : List Byte), r.magic = requestMagic → r.type = 1 →
    (∃ d' e, link.tcp d (r.encode ++ payload) = (d', .error e)) ∨
    (∃ d' reply, link.tcp d (r.encode ++ payload) = (d', .ok reply) ∧ reply.length = 16)
  read : ∀ d (r : NbdRequest), r.magic = requestMagic → r.type = 0 → r.InStorage →
    ∃ d' reply, link.tcp d r.encode =
        (d', .ok (reply ++ readBytes (contents d).bytes r.offset.toNat r.len.toNat)) ∧
      reply.length = 16 ∧ contents d' = contents d
  reset : ∀ d zoneId, zoneId < numZones →
    (∃ d' e, link.mgmt d (BitVec.ofNat 64 zoneId) = (d', .error e) ∧ contents d' = contents d) ∨
    (∃ d' e, link.mgmt d (BitVec.ofNat 64 zoneId) = (d', .error e) ∧
      contents d' = (contents d).erase zoneId) ∨
    (∃ d' ack, link.mgmt d (BitVec.ofNat 64 zoneId) = (d', .ok ack) ∧
      contents d' = (contents d).erase zoneId)

theorem LossyReset.answering {δ : Type} {link : Link δ} (A : LossyReset link) : Answering link where
  append := A.append
  read d r hmagic htype hin := by
    obtain ⟨d', reply, htcp, h16, -⟩ := A.read d r hmagic htype hin
    exact .inr ⟨d', reply, _, htcp, h16, length_readBytes _ _ _⟩

namespace HostFtl

variable {δ : Type} {link : Link δ} (A : LossyReset link) {s s' : HostFtl δ} {l zoneId : ℕ}

/-- **A reset** does not reach the device, is not acknowledged, or is acknowledged. -/
inductive LossyEnds (s : HostFtl δ) (zoneId : ℕ) : Prop
  | unreached (peer : δ) (e : IoError) (run : zoneReset link zoneId s = (.err e, { s with peer }))
      (contents : A.contents peer = A.contents s.peer)
  | ackLost (peer : δ) (e : IoError) (run : zoneReset link zoneId s = (.err e, { s with peer }))
      (contents : A.contents peer = (A.contents s.peer).erase zoneId)
  | acked (peer : δ) (run : zoneReset link zoneId s = (.ok (), s.emptied peer zoneId))
      (contents : A.contents peer = (A.contents s.peer).erase zoneId)

theorem zoneReset_lossy (s : HostFtl δ) (zoneId : ℕ) : LossyEnds A s zoneId := by
  by_cases hz : zoneId < numZones
  swap
  · exact .unreached s.peer .zoneOutOfRange (zoneReset_outOfRange (Nat.le_of_not_lt hz)) rfl
  rcases A.reset s.peer zoneId hz with ⟨peer, e, hmgmt, hcontents⟩ |
    ⟨peer, e, hmgmt, hcontents⟩ | ⟨peer, ack, hmgmt, hcontents⟩
  · exact .unreached peer e (zoneReset_err hz hmgmt) hcontents
  · exact .ackLost peer e (zoneReset_err hz hmgmt) hcontents
  · exact .acked peer (zoneReset_ok hz hmgmt) hcontents

/-! ## Reads -/

theorem logicalRead_lossy (hs : s.Sound) (hl : l < totalLogicalPages) :
    (logicalRead link l s).1 = .ok (pageOf (A.contents s.peer).bytes s.l2pTable l) := by
  obtain ⟨peer, hrun, -⟩ := logicalRead_pageOf (Q := fun d => A.contents d = A.contents s.peer) hs hl
    rfl (A.read s.peer)
  rw [hrun]

theorem read_congr_lossy (hs : s.Sound) (hs' : s'.Sound)
    (hpage : pageOf (A.contents s'.peer).bytes s'.l2pTable l =
      pageOf (A.contents s.peer).bytes s.l2pTable l) :
    (logicalRead link l s').1 = (logicalRead link l s).1 :=
  logicalRead_congr (logicalRead_lossy A hs) (logicalRead_lossy A hs') hpage

theorem pageOf_erase_outside (hs : s.Sound) {c : Contents} {t : L2pTable}
    (htable : t l = s.l2pTable l) (hz : ∀ p, s.l2pTable l = some p → p.zoneId ≠ zoneId) :
    pageOf (c.erase zoneId).bytes t l = pageOf c.bytes s.l2pTable l := by
  refine pageOf_congr htable fun p hp k hk => clearBytes_outsideZone _ ?_
  rw [byteOffset_div (hs.exists_page l p hp).2 hk]
  exact hz p hp

theorem pageOf_erase_inside (hs : s.Sound) {c : Contents} {p : PhysicalAddress}
    (hp : s.l2pTable l = some p) (hz : p.zoneId = zoneId) :
    pageOf (c.erase zoneId).bytes s.l2pTable l = filledPage 0 := pageOf_cleared hs hp hz

/-! ## Host and device -/

/-- **What a reset does to host and device**, `s'` being the client after it. -/
structure ResetEffect (s : HostFtl δ) (zoneId : ℕ) (o : Outcome IoError Unit) (s' : HostFtl δ) :
    Prop where
  /-- It fails, with the device as it was or erased, or succeeds with the device erased. -/
  ends : ((∃ e, o = .err e) ∧ (A.contents s'.peer = A.contents s.peer ∨
      A.contents s'.peer = (A.contents s.peer).erase zoneId)) ∨
    (o = .ok () ∧ A.contents s'.peer = (A.contents s.peer).erase zoneId)
  /-- If it fails and the device is as it was, every page reads as before, and host and device agree
  on the zone if they did. -/
  unreached : (∃ e, o = .err e) → A.contents s'.peer = A.contents s.peer →
    (∀ l, (logicalRead link l s').1 = (logicalRead link l s).1) ∧
    ((s.zones zoneId).writePointer = (A.contents s.peer).held zoneId →
      (s'.zones zoneId).writePointer = (A.contents s'.peer).held zoneId)
  /-- If it fails and the device has erased the zone, the host keeps pointers and mappings, the device
  holds nothing there, and the pages mapped there read zeros. -/
  ackLost : (∃ e, o = .err e) → A.contents s'.peer = (A.contents s.peer).erase zoneId →
    s'.zones = s.zones ∧ s'.l2pTable = s.l2pTable ∧ (A.contents s'.peer).held zoneId = 0 ∧
    ∀ l p, l < totalLogicalPages → s.l2pTable l = some p → p.zoneId = zoneId →
      (logicalRead link l s').1 = .ok (filledPage 0)
  /-- If it succeeds, both sides see the zone empty. -/
  acked : o = .ok () →
    s'.zones zoneId = ⟨0, false⟩ ∧ (∀ l p, s'.l2pTable l = some p → p.zoneId ≠ zoneId) ∧
    (A.contents s'.peer).held zoneId = 0 ∧
    ∀ i, i / zoneSizeBytes = zoneId → (A.contents s'.peer).bytes i = 0
  /-- The pages of other zones read as before, their pointers stay, and so does what the device
  holds there. -/
  elsewhere :
    (∀ l, (∀ p, s.l2pTable l = some p → p.zoneId ≠ zoneId) →
      (logicalRead link l s').1 = (logicalRead link l s).1) ∧
    ∀ z, z ≠ zoneId → s'.zones z = s.zones z ∧
      (A.contents s'.peer).held z = (A.contents s.peer).held z

theorem ResetEffect.of_unreached (hs : s.Sound) {peer : δ} {e : IoError}
    (hcontents : A.contents peer = A.contents s.peer) :
    ResetEffect A s zoneId (.err e) { s with peer } := by
  have hread : ∀ l, (logicalRead link l { s with peer }).1 = (logicalRead link l s).1 := by
    intro l
    apply read_congr_lossy A hs (hs.congr_peer peer)
    rw [hcontents]
  refine ⟨.inl ⟨⟨e, rfl⟩, .inl hcontents⟩, fun _ _ => ⟨hread, fun hagree => ?_⟩, fun _ herased => ?_,
    (fun h => by cases h), fun l _ => hread l, fun z _ => ⟨rfl, by rw [hcontents]⟩⟩
  · rw [hcontents]
    exact hagree
  · refine ⟨rfl, rfl, by rw [herased, Contents.erase_held_self], fun l p hl hp hz => ?_⟩
    rw [logicalRead_lossy A (hs.congr_peer peer) hl, herased]
    exact congrArg Outcome.ok (pageOf_erase_inside hs hp hz)

theorem ResetEffect.of_ackLost (hs : s.Sound) {peer : δ} {e : IoError}
    (herased : A.contents peer = (A.contents s.peer).erase zoneId) :
    ResetEffect A s zoneId (.err e) { s with peer } := by
  have hs' := hs.congr_peer peer
  refine ⟨.inl ⟨⟨e, rfl⟩, .inr herased⟩, fun _ hcontents => ?_, fun _ _ => ?_,
    (fun h => by cases h), ?_, ?_⟩
  · refine ⟨fun l => read_congr_lossy A hs hs' (by rw [hcontents]), fun hagree => ?_⟩
    rw [hcontents]
    exact hagree
  · refine ⟨rfl, rfl, by rw [herased, Contents.erase_held_self], fun l p hl hp hz => ?_⟩
    rw [logicalRead_lossy A hs' hl, herased]
    exact congrArg Outcome.ok (pageOf_erase_inside hs hp hz)
  · intro l hz
    apply read_congr_lossy A hs hs'
    rw [herased]
    exact pageOf_erase_outside hs rfl hz
  · intro z hz
    exact ⟨rfl, by rw [herased, Contents.erase_held_of_ne _ hz]⟩

theorem ResetEffect.of_acked (hs : s.Sound) {peer : δ}
    (herased : A.contents peer = (A.contents s.peer).erase zoneId) :
    ResetEffect A s zoneId (.ok ()) (s.emptied peer zoneId) := by
  have hpeer : A.contents (s.emptied peer zoneId).peer = (A.contents s.peer).erase zoneId := herased
  refine ⟨.inr ⟨rfl, hpeer⟩, ?_, ?_, fun _ => ?_, ?_, ?_⟩
  · rintro ⟨e, he⟩
    cases he
  · rintro ⟨e, he⟩
    cases he
  · refine ⟨emptied_zone s peer zoneId, fun l p hp => ?_, ?_, fun i hi => ?_⟩
    · exact ((L2pTable.invalidateZone_eq_some s.l2pTable zoneId l p).mp hp).2
    · rw [hpeer, Contents.erase_held_self]
    · rw [hpeer]
      exact clearBytes_insideZone _ hi
  · intro l hz
    apply read_congr_lossy A hs (hs.emptied peer zoneId)
    rw [hpeer]
    exact pageOf_erase_outside hs (invalidateZone_elsewhere hz) hz
  · intro z hz
    exact ⟨Function.update_of_ne hz _ _, by rw [hpeer, Contents.erase_held_of_ne _ hz]⟩

/-- **A reset over a channel that loses messages.** In every reachable state and for every zone: a
reset that fails before the device acts changes nothing that is read; one whose acknowledgement is lost
leaves the host with mappings of an empty zone; one that succeeds empties the zone on both sides; and
other zones are not touched. -/
theorem reset_effect (hs : Reach link s) (zoneId : ℕ) :
    ResetEffect A s zoneId (zoneReset link zoneId s).1 (zoneReset link zoneId s).2 := by
  have hsound := hs.sound A.answering
  cases zoneReset_lossy A s zoneId with
  | unreached peer e hrun hcontents =>
    rw [hrun]
    exact .of_unreached A hsound hcontents
  | ackLost peer e hrun herased =>
    rw [hrun]
    exact .of_ackLost A hsound herased
  | acked peer hrun herased =>
    rw [hrun]
    exact .of_acked A hsound herased

end HostFtl

/-! ## A device that never acknowledges -/

/-- A disk that erases zones without a word. -/
def silentLink : Link Contents where
  tcp c bytes :=
    match NbdRequest.decode bytes with
    | none => (c, .ok [])
    | some r =>
      if r.type = 1 then
        (⟨copyBytes c.bytes r.offset.toNat (bytes.drop 28),
          Function.update c.held (r.offset.toNat / zoneSizeBytes)
            (c.held (r.offset.toNat / zoneSizeBytes) + (bytes.drop 28).length)⟩, .ok (r.reply 0))
      else (c, .ok (r.reply 0 ++ readBytes c.bytes r.offset.toNat r.len.toNat))
  mgmt c zoneId :=
    (c.erase zoneId.toNat, .error ⟨.other, "Resource temporarily unavailable"⟩)

theorem silentLink_append (c : Contents) (r : NbdRequest) (payload : List Byte) (htype : r.type = 1) :
    silentLink.tcp c (r.encode ++ payload) =
      (⟨copyBytes c.bytes r.offset.toNat payload,
        Function.update c.held (r.offset.toNat / zoneSizeBytes)
          (c.held (r.offset.toNat / zoneSizeBytes) + payload.length)⟩, .ok (r.reply 0)) := by
  simp only [silentLink, NbdRequest.decode_encode, htype, if_true, NbdRequest.drop_encode]

theorem silentLink_read (c : Contents) (r : NbdRequest) (htype : r.type = 0) :
    silentLink.tcp c r.encode =
      (c, .ok (r.reply 0 ++ readBytes c.bytes r.offset.toNat r.len.toNat)) := by
  have h0 : ¬ r.type = 1 := by
    rw [htype]
    decide
  simp only [silentLink, NbdRequest.decode_encode_self, h0, if_false]

theorem silentLink_reset (c : Contents) {zoneId : ℕ} (hz : zoneId < numZones) :
    silentLink.mgmt c (BitVec.ofNat 64 zoneId) =
      (c.erase zoneId, .error ⟨.other, "Resource temporarily unavailable"⟩) := by
  have hid : (BitVec.ofNat 64 zoneId).toNat = zoneId := by
    rw [BitVec.toNat_ofNat]
    unfold numZones at hz
    omega
  show (c.erase (BitVec.ofNat 64 zoneId).toNat, _) = _
  rw [hid]

def silentDevice : LossyReset silentLink where
  contents c := c
  append c r payload _ htype :=
    .inr ⟨_, _, silentLink_append c r payload htype, NbdReply.length_encode _⟩
  read c r _ htype _ := ⟨c, _, silentLink_read c r htype, NbdReply.length_encode _, rfl⟩
  reset c _ hz := .inr (.inl ⟨_, _, silentLink_reset c hz, rfl⟩)

namespace HostFtl

/-- One byte is written. -/
def byteStored : HostFtl Contents :=
  (perform silentLink (.write 0 [7]) (new ⟨fun _ => 0, fun _ => 0⟩)).2

theorem byteStored_reach : Reach silentLink byteStored := .call _ (.new _)

theorem reset_effect_byteStored : ResetEffect silentDevice byteStored 0
    (zoneReset silentLink 0 byteStored).1 (zoneReset silentLink 0 byteStored).2 :=
  reset_effect silentDevice byteStored_reach 0

/-- **The reset fails, the page is gone, and the host still counts its byte.** -/
theorem ack_lost_disagrees :
    ¬ ∀ (s : HostFtl Contents) (zoneId : ℕ), Reach silentLink s →
      (∃ e, (zoneReset silentLink zoneId s).1 = .err e) →
        (∀ l p, s.l2pTable l = some p → p.zoneId = zoneId →
          (logicalRead silentLink l (zoneReset silentLink zoneId s).2).1 =
            (logicalRead silentLink l s).1) ∧
        ((s.zones zoneId).writePointer = s.peer.held zoneId →
          ((zoneReset silentLink zoneId s).2.zones zoneId).writePointer =
            (zoneReset silentLink zoneId s).2.peer.held zoneId) := by
  intro h
  have hs := byteStored_reach.sound silentDevice.answering
  have hmapped : byteStored.l2pTable 0 = some ⟨0, 0⟩ := rfl
  have herased : silentDevice.contents (byteStored.peer.erase 0) = byteStored.peer.erase 0 := rfl
  have hsame := (h byteStored 0 byteStored_reach ⟨_, rfl⟩).1 0 _ hmapped rfl
  have hread := logicalRead_lossy silentDevice hs (show 0 < totalLogicalPages by decide)
  have hlost := ResetEffect.of_ackLost (e := ⟨.other, "Resource temporarily unavailable"⟩)
    silentDevice hs herased
  have hempty := (hlost.ackLost ⟨_, rfl⟩ herased).2.2.2 0 _ (by decide) hmapped rfl
  have hpage : filledPage 0 = pageOf byteStored.peer.bytes byteStored.l2pTable 0 :=
    Outcome.ok.inj ((hempty.symm.trans hsame).trans hread)
  have hfirst : (pageOf byteStored.peer.bytes byteStored.l2pTable 0).head? = some 7 :=
    (head?_readBytes _ _ (by decide)).trans (by decide)
  rw [← hpage] at hfirst
  cases hfirst

end HostFtl

end ZnsFlash
