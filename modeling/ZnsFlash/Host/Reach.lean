import ZnsFlash.Host.PageStore

/-!
# The client whatever its peer does

* `HostFtl.Reach`, `HostFtl.Sound`: the states of a client;
* `appendToZone_outcome`, `zoneReset_outcome`, **`logicalWrite_outcome`**: how the calls end, and what
  they leave in the tables, over any peer;
* `Answering`, **`Reach.sound`**: over a peer that answers in whole replies, every state is sound;
* `pageOf`, `logicalRead_pageOf`: what a read returns;
* `countdownLink`: a peer that refuses one append.
-/

namespace ZnsFlash

/-- **A peer that answers**: an append with an error of the socket or one reply, a read with an
error or one reply and the bytes. -/
structure Answering {δ : Type} (link : Link δ) : Prop where
  append : ∀ d (r : NbdRequest) (payload : List Byte), r.magic = requestMagic → r.type = 1 →
    (∃ d' e, link.tcp d (r.encode ++ payload) = (d', .error e)) ∨
    (∃ d' reply, link.tcp d (r.encode ++ payload) = (d', .ok reply) ∧ reply.length = 16)
  read : ∀ d (r : NbdRequest), r.magic = requestMagic → r.type = 0 → r.InStorage →
    (∃ d' e, link.tcp d r.encode = (d', .error e)) ∨
    (∃ d' reply bytes, link.tcp d r.encode = (d', .ok (reply ++ bytes)) ∧ reply.length = 16 ∧
      bytes.length = r.len.toNat)

namespace HostFtl

variable {δ : Type} {link : Link δ}

/-- **The states of a client** after any calls. -/
inductive Reach (link : Link δ) : HostFtl δ → Prop
  | new (peer : δ) : Reach link (new peer)
  | call {s : HostFtl δ} (op : FtlOp) (hs : Reach link s) : Reach link (perform link op s).2

/-- No reply is left over, mapped pages exist, and a zone that is not full has room. -/
structure Sound (s : HostFtl δ) : Prop where
  inbox : s.inbox = []
  exists_page : ∀ l p, s.l2pTable l = some p → p.zoneId < numZones ∧ p.pageOffset < 64
  room : ∀ z, (s.zones z).isFull = false → (s.zones z).writePointer < zoneSizeBytes

/-- The client after an append of `data` that the device `peer` stored. -/
def appended (s : HostFtl δ) (peer : δ) (zoneId : ℕ) (data : List Byte) : HostFtl δ :=
  { s with
    peer
    zones := Function.update s.zones zoneId ⟨(s.zones zoneId).writePointer + data.length,
      (s.zones zoneId).isFull ||
        decide (zoneSizeBytes ≤ (s.zones zoneId).writePointer + data.length)⟩ }

/-- The client after a reset that the device `peer` has done. -/
def emptied (s : HostFtl δ) (peer : δ) (zoneId : ℕ) : HostFtl δ :=
  { s with
    peer
    zones := Function.update s.zones zoneId ⟨0, false⟩
    l2pTable := s.l2pTable.invalidateZone zoneId }

theorem emptied_zone (s : HostFtl δ) (peer : δ) (zoneId : ℕ) :
    (s.emptied peer zoneId).zones zoneId = ⟨0, false⟩ := Function.update_self _ _ _

/-- The client after a call. -/
def next (link : Link δ) (s : HostFtl δ) (op : FtlOp) : HostFtl δ := (perform link op s).2

/-! ## How the calls end -/

/-- An error that comes from the peer. -/
inductive PeerError (link : Link δ) : IoError → Prop
  | tcp (d : δ) (bytes : List Byte) (e : IoError) (h : (link.tcp d bytes).2 = .error e) :
      PeerError link e
  | mgmt (d : δ) (zoneId : BitVec 64) (e : IoError) (h : (link.mgmt d zoneId).2 = .error e) :
      PeerError link e
  | blocked (code : BitVec 32) : PeerError link (.rtlBlocked code)

/-- The peer ends the call, or the call waits for it. -/
inductive Stopped (link : Link δ) {α : Type} : Outcome IoError α → Prop
  | err (e : IoError) (h : PeerError link e) : Stopped link (.err e)
  | blocks : Stopped link .blocks

section Calls

variable {s : HostFtl δ} {zoneId : ℕ} {data : List Byte}

/-- Over a peer that answers, no reply is left over. -/
def Drained (link : Link δ) (s : HostFtl δ) (inbox : List Byte) : Prop :=
  Answering link → s.inbox = [] → inbox = []

theorem appendToZone_drained (hz : zoneId < numZones) {o : Outcome IoError ℕ} {s' : HostFtl δ}
    (hrun : appendToZone link zoneId data s = (o, s')) : Drained link s s'.inbox := by
  intro A hs
  have hzone : zoneAt zoneId s = (.ok (s.zones zoneId), s) := if_pos hz
  rcases A.append s.peer (appendRequest zoneId (s.zones zoneId).writePointer data.length) data rfl
    rfl with ⟨peer, e, htcp⟩ | ⟨peer, reply, htcp, h16⟩
  · have hwrite : writeAll link ((appendRequest zoneId (s.zones zoneId).writePointer
        data.length).encode ++ data) s = (.err e, { s with peer }) := by
      rw [writeAll, htcp]
    rw [appendToZone, Call.bind_of_ok hzone, Call.bind_of_err hwrite] at hrun
    cases hrun
    exact hs
  · have hread : readExact 16 { s with peer, inbox := s.inbox ++ reply } =
        (.ok reply, { s with peer, inbox := [] }) :=
      readExact_append (by simp [hs]) h16
    rw [appendToZone, Call.bind_of_ok hzone, Call.bind_of_ok (writeAll_ok htcp),
      Call.bind_of_ok hread] at hrun
    split_ifs at hrun
    · cases hrun
      rfl
    · cases hrun
      rfl

/-- **An append** moves the pointer, or leaves the tables as they were. -/
inductive AppendOutcome (link : Link δ) (s : HostFtl δ) (zoneId : ℕ) (data : List Byte) : Prop
  | accepted (peer : δ) (inbox : List Byte) (drained : Drained link s inbox)
      (run : appendToZone link zoneId data s = (.ok ((s.zones zoneId).writePointer + data.length),
        { s.appended peer zoneId data with inbox }))
  | stopped (o : Outcome IoError ℕ) (peer : δ) (inbox : List Byte) (why : Stopped link o)
      (drained : Drained link s inbox)
      (run : appendToZone link zoneId data s = (o, { s with peer, inbox }))

theorem appendToZone_outcome (s : HostFtl δ) (hz : zoneId < numZones) (data : List Byte) :
    AppendOutcome link s zoneId data := by
  have hzone : zoneAt zoneId s = (.ok (s.zones zoneId), s) := if_pos hz
  rcases htcp : link.tcp s.peer ((appendRequest zoneId (s.zones zoneId).writePointer
    data.length).encode ++ data) with ⟨peer, e | reply⟩
  · have hwrite : writeAll link ((appendRequest zoneId (s.zones zoneId).writePointer
        data.length).encode ++ data) s = (.err e, { s with peer }) := by
      rw [writeAll, htcp]
    have hrun : appendToZone link zoneId data s = (.err e, { s with peer }) := by
      rw [appendToZone, Call.bind_of_ok hzone, Call.bind_of_err hwrite]
    exact .stopped (.err e) peer s.inbox (.err e (.tcp _ _ e (congrArg Prod.snd htcp)))
      (fun _ hs => hs) hrun
  by_cases hlen : 16 ≤ (s.inbox ++ reply).length
  swap
  · have hblock : readExact 16 { s with peer, inbox := s.inbox ++ reply } =
        (.blocks, { s with peer, inbox := s.inbox ++ reply }) :=
      readExact_short (Nat.lt_of_not_le hlen)
    have hrun : appendToZone link zoneId data s =
        (.blocks, { s with peer, inbox := s.inbox ++ reply }) := by
      rw [appendToZone, Call.bind_of_ok hzone, Call.bind_of_ok (writeAll_ok htcp)]
      exact Call.bind_of_blocks hblock
    exact .stopped .blocks peer (s.inbox ++ reply) .blocks (appendToZone_drained hz hrun) hrun
  have hread : readExact 16 { s with peer, inbox := s.inbox ++ reply } =
      (.ok ((s.inbox ++ reply).take 16), { s with peer, inbox := (s.inbox ++ reply).drop 16 }) :=
    if_pos hlen
  by_cases herr : replyError ((s.inbox ++ reply).take 16) = 0
  · have hrun : appendToZone link zoneId data s =
        (.ok ((s.zones zoneId).writePointer + data.length),
          { s.appended peer zoneId data with inbox := (s.inbox ++ reply).drop 16 }) := by
      rw [appendToZone, Call.bind_of_ok hzone, Call.bind_of_ok (writeAll_ok htcp),
        Call.bind_of_ok hread, if_neg (not_not_intro herr)]
      rfl
    exact .accepted peer ((s.inbox ++ reply).drop 16) (appendToZone_drained hz hrun) hrun
  · have hrun : appendToZone link zoneId data s =
        (.err (.rtlBlocked (replyError ((s.inbox ++ reply).take 16))),
          { s with peer, inbox := (s.inbox ++ reply).drop 16 }) := by
      rw [appendToZone, Call.bind_of_ok hzone, Call.bind_of_ok (writeAll_ok htcp),
        Call.bind_of_ok hread, if_pos herr]
      rfl
    exact .stopped (.err (.rtlBlocked (replyError ((s.inbox ++ reply).take 16)))) peer
      ((s.inbox ++ reply).drop 16) (.err _ (.blocked _)) (appendToZone_drained hz hrun) hrun

/-- **A reset** empties the zone, or leaves the tables as they were. -/
inductive ResetOutcome (link : Link δ) (s : HostFtl δ) (zoneId : ℕ) : Prop
  | done (peer : δ) (run : zoneReset link zoneId s = (.ok (), s.emptied peer zoneId))
  | failed (e : IoError) (peer : δ) (why : PeerError link e)
      (run : zoneReset link zoneId s = (.err e, { s with peer }))

theorem zoneReset_outcome (s : HostFtl δ) (hz : zoneId < numZones) : ResetOutcome link s zoneId := by
  rcases hmgmt : link.mgmt s.peer (BitVec.ofNat 64 zoneId) with ⟨peer, e | ack⟩
  · have hback : backendZoneReset link zoneId s = (.err e, { s with peer }) := by
      rw [backendZoneReset, if_neg (by omega), hmgmt]
    refine .failed e peer (.mgmt _ _ e (congrArg Prod.snd hmgmt)) ?_
    rw [zoneReset, if_neg (by omega), Call.bind_of_err hback]
  · exact .done peer (zoneReset_ok hz hmgmt)

/-- **A reset call** leaves the tables alone, or empties its zone. -/
theorem next_reset (s : HostFtl δ) (zoneId : ℕ) :
    (∃ peer, next link s (.reset zoneId) = { s with peer }) ∨
      ∃ peer, next link s (.reset zoneId) = s.emptied peer zoneId := by
  by_cases hz : zoneId < numZones
  swap
  · have hcall : perform link (.reset zoneId) s = _ :=
      Call.bind_of_err (zoneReset_outOfRange (Nat.le_of_not_lt hz))
    exact .inl ⟨s.peer, congrArg Prod.snd hcall⟩
  have houtcome : ResetOutcome link s zoneId := zoneReset_outcome s hz
  cases houtcome with
  | failed e peer _ hrun =>
    have hcall : perform link (.reset zoneId) s = _ := Call.bind_of_err hrun
    exact .inl ⟨peer, congrArg Prod.snd hcall⟩
  | done peer hrun =>
    have hcall : perform link (.reset zoneId) s = _ := Call.bind_of_ok hrun
    exact .inr ⟨peer, congrArg Prod.snd hcall⟩

theorem readExact_state (n : ℕ) (s : HostFtl δ) :
    ∃ inbox, (readExact n s).2 = { s with inbox } := by
  unfold readExact
  split_ifs
  · exact ⟨_, rfl⟩
  · exact ⟨s.inbox, rfl⟩

/-- What a write does after its append. -/
def finishWrite (l zoneId pageOffset : ℕ) (data : List Byte) : FtlCall δ (List Byte) := do
  Call.modify fun s => { s with l2pTable := s.l2pTable.set l ⟨zoneId, pageOffset⟩ }
  pure data

theorem logicalWrite_eq_append {l : ℕ} (hl : l < totalLogicalPages)
    (hz : s.currentWriteZone < numZones)
    (hfind : writableZone s.zones numZones s.currentWriteZone = some zoneId) (data : List Byte) :
    logicalWrite link l data s =
      (Call.recover (appendToZone link zoneId data)
          (zoneReset link zoneId >>= fun _ => appendToZone link zoneId data) >>= fun _ =>
        finishWrite l zoneId ((s.zones zoneId).writePointer / pageSize) data)
        { s with currentWriteZone := zoneId } := by
  have hget : (Call.get : FtlCall δ _) s = (.ok s, s) := rfl
  have hzone : zoneAt s.currentWriteZone s = (.ok (s.zones s.currentWriteZone), s) := if_pos hz
  have hmod : (Call.modify fun s => { s with currentWriteZone := zoneId } : FtlCall δ _) s =
      (.ok (), { s with currentWriteZone := zoneId }) := rfl
  rw [logicalWrite, if_neg (by omega), Call.bind_of_ok hget, Call.bind_of_ok hzone]
  simp only [hfind]
  rw [Call.bind_of_ok hmod]
  rfl

/-- The write comes to an append to the zone. -/
structure Selects (s : HostFtl δ) (l zoneId : ℕ) : Prop where
  page : l < totalLogicalPages
  zone : s.currentWriteZone < numZones
  found : writableZone s.zones numZones s.currentWriteZone = some zoneId

theorem Selects.exists_zone {l : ℕ} (h : s.Selects l zoneId) :
    zoneId < numZones ∧ (s.zones zoneId).isFull = false :=
  writableZone_some h.zone h.found

/-- **The append of a write is refused, the zone reset, and the second append accepted.** -/
structure Retried (link : Link δ) (s : HostFtl δ) (l : ℕ) (data : List Byte) (zoneId : ℕ)
    (s₁ s₂ s₃ : HostFtl δ) : Prop where
  selects : s.Selects l zoneId
  refused : ∃ e, appendToZone link zoneId data { s with currentWriteZone := zoneId } = (.err e, s₁)
  reset : zoneReset link zoneId s₁ = (.ok (), s₂)
  accepted : ∃ n, appendToZone link zoneId data s₂ = (.ok n, s₃)

/-- The address that a write computes before its append. -/
def pageAt (s : HostFtl δ) (zoneId : ℕ) : PhysicalAddress :=
  ⟨zoneId, (s.zones zoneId).writePointer / pageSize⟩

/-- **A write**: no append at all, an accepted append, or a refused one with what follows. -/
inductive WriteOutcome (link : Link δ) (s : HostFtl δ) (l : ℕ) (data : List Byte) : Prop
  | outOfBounds (h : totalLogicalPages ≤ l)
      (run : logicalWrite link l data s = (.err .logicalPageOutOfBounds, s))
  | noZone (h : numZones ≤ s.currentWriteZone) (run : logicalWrite link l data s = (.panics, s))
  | full (hl : l < totalLogicalPages) (hz : s.currentWriteZone < numZones)
      (h : writableZone s.zones numZones s.currentWriteZone = none)
      (run : logicalWrite link l data s = (.err .allZonesFull, s))
  | accepted (zoneId : ℕ) (h : s.Selects l zoneId) (peer : δ) (inbox : List Byte)
      (drained : Drained link s inbox)
      (run : logicalWrite link l data s = (.ok data,
        { appended { s with currentWriteZone := zoneId } peer zoneId data with
          inbox
          l2pTable := s.l2pTable.set l (s.pageAt zoneId) }))
  /-- Nothing is stored, and the zone is not reset. -/
  | stopped (zoneId : ℕ) (h : s.Selects l zoneId) (o : Outcome IoError (List Byte)) (peer : δ)
      (inbox : List Byte) (why : Stopped link o) (drained : Drained link s inbox)
      (run : logicalWrite link l data s =
        (o, { s with currentWriteZone := zoneId, peer, inbox }))
  /-- The zone is reset, and the second append fails as well. -/
  | emptied (zoneId : ℕ) (h : s.Selects l zoneId) (o : Outcome IoError (List Byte)) (peer : δ)
      (inbox : List Byte) (why : Stopped link o) (drained : Drained link s inbox)
      (run : logicalWrite link l data s =
        (o, { HostFtl.emptied { s with currentWriteZone := zoneId } peer zoneId with inbox }))
  /-- The zone is reset, and the second append is accepted. -/
  | retried (zoneId : ℕ) (h : ∃ s₁ s₂ s₃, Retried link s l data zoneId s₁ s₂ s₃) (peer : δ)
      (inbox : List Byte) (drained : Drained link s inbox)
      (run : logicalWrite link l data s = (.ok data,
        { appended (HostFtl.emptied { s with currentWriteZone := zoneId } peer zoneId) peer zoneId
            data with
          inbox
          l2pTable := (s.l2pTable.invalidateZone zoneId).set l (s.pageAt zoneId) }))

theorem Stopped.bind {α β : Type} {x : FtlCall δ α} {f : α → FtlCall δ β} {o : Outcome IoError α}
    {s' : HostFtl δ} (why : Stopped link o) (h : x s = (o, s')) :
    ∃ o' : Outcome IoError β, Stopped link o' ∧ (x >>= f) s = (o', s') := by
  cases why with
  | err e he => exact ⟨.err e, .err e he, Call.bind_of_err h⟩
  | blocks => exact ⟨.blocks, .blocks, Call.bind_of_blocks h⟩

theorem retry_outcome {l : ℕ} (h : s.Selects l zoneId) {peer : δ} {inbox : List Byte} {e : IoError}
    (hdrained : Drained link s inbox)
    (hrefused : appendToZone link zoneId data { s with currentWriteZone := zoneId } =
      (.err e, { s with currentWriteZone := zoneId, peer, inbox })) :
    WriteOutcome link s l data := by
  have hz := h.exists_zone.1
  have hwrite : logicalWrite link l data s = _ :=
    logicalWrite_eq_append h.page h.zone h.found data
  have hrecover : Call.recover (appendToZone link zoneId data)
      (zoneReset link zoneId >>= fun _ => appendToZone link zoneId data)
        { s with currentWriteZone := zoneId } = _ := Call.recover_of_err hrefused
  have hends : ResetOutcome link { s with currentWriteZone := zoneId, peer, inbox } zoneId :=
    zoneReset_outcome _ hz
  cases hends with
  | failed e' peer' why hreset =>
    rw [Call.bind_of_err hreset] at hrecover
    exact .stopped zoneId h (.err e') peer' inbox (.err e' why) hdrained
      (hwrite.trans (Call.bind_of_err hrecover))
  | done peer' hreset =>
    rw [Call.bind_of_ok hreset] at hrecover
    have hagain : AppendOutcome link
        (HostFtl.emptied { s with currentWriteZone := zoneId, peer, inbox } peer' zoneId) zoneId
          data := appendToZone_outcome _ hz data
    cases hagain with
    | accepted peer'' inbox'' hdrained'' happend =>
      exact .retried zoneId ⟨_, _, _, h, ⟨e, hrefused⟩, hreset, _, happend⟩ peer'' inbox''
        (fun A hs => hdrained'' A (hdrained A hs))
        (hwrite.trans (Call.bind_of_ok (hrecover.trans happend)))
    | stopped o peer'' inbox'' why hdrained'' happend =>
      obtain ⟨o', why', hbind⟩ := why.bind (f := fun _ =>
        finishWrite l zoneId ((s.zones zoneId).writePointer / pageSize) data)
          (hrecover.trans happend)
      exact .emptied zoneId h o' peer'' inbox'' why' (fun A hs => hdrained'' A (hdrained A hs))
        (hwrite.trans hbind)

theorem logicalWrite_outcome (s : HostFtl δ) (l : ℕ) (data : List Byte) :
    WriteOutcome link s l data := by
  by_cases hl : l < totalLogicalPages
  swap
  · exact .outOfBounds (Nat.le_of_not_lt hl) (logicalWrite_outOfBounds (Nat.le_of_not_lt hl) data)
  by_cases hzone : s.currentWriteZone < numZones
  swap
  · have hget : (Call.get : FtlCall δ _) s = (.ok s, s) := rfl
    have hpanic : zoneAt s.currentWriteZone s = (.panics, s) := if_neg hzone
    refine .noZone (Nat.le_of_not_lt hzone) ?_
    rw [logicalWrite, if_neg (by omega), Call.bind_of_ok hget, Call.bind_of_panics hpanic]
  cases hfind : writableZone s.zones numZones s.currentWriteZone with
  | none => exact .full hl hzone hfind (logicalWrite_full hl hzone hfind data)
  | some zoneId =>
    have h : s.Selects l zoneId := ⟨hl, hzone, hfind⟩
    have hwrite : logicalWrite link l data s = _ := logicalWrite_eq_append hl hzone hfind data
    have hfirst : AppendOutcome link { s with currentWriteZone := zoneId } zoneId data :=
      appendToZone_outcome _ h.exists_zone.1 data
    cases hfirst with
    | accepted peer inbox hdrained happend =>
      rw [Call.bind_of_ok (Call.recover_of_ok happend)] at hwrite
      exact .accepted zoneId h peer inbox hdrained hwrite
    | stopped o peer inbox why hdrained happend =>
      cases why with
      | err e he => exact retry_outcome h hdrained happend
      | blocks =>
        rw [Call.bind_of_blocks (Call.recover_of_blocks happend)] at hwrite
        exact .stopped zoneId h .blocks peer inbox .blocks hdrained hwrite

end Calls

/-! ## Sound states -/

section Sound

variable {s : HostFtl δ} {zoneId : ℕ} {data : List Byte}

theorem sound_new (peer : δ) : (new peer).Sound :=
  ⟨rfl, nofun, fun _ _ => show 0 < 262144 by decide⟩

theorem Sound.congr_peer (hs : s.Sound) (peer : δ) : Sound { s with peer } :=
  ⟨hs.inbox, hs.exists_page, hs.room⟩

theorem Sound.congr_zone (hs : s.Sound) (currentWriteZone : ℕ) :
    Sound { s with currentWriteZone } :=
  ⟨hs.inbox, hs.exists_page, hs.room⟩

theorem Sound.appended (hs : s.Sound) (peer : δ) (zoneId : ℕ) (data : List Byte) :
    (s.appended peer zoneId data).Sound := by
  refine ⟨hs.inbox, hs.exists_page, fun z hroom => ?_⟩
  by_cases hz : z = zoneId
  · subst hz
    simp only [HostFtl.appended, Function.update_self, Bool.or_eq_false_iff,
      decide_eq_false_iff_not, not_le] at hroom ⊢
    exact hroom.2
  · simp only [HostFtl.appended, Function.update_of_ne hz] at hroom ⊢
    exact hs.room z hroom

theorem Sound.emptied (hs : s.Sound) (peer : δ) (zoneId : ℕ) : (s.emptied peer zoneId).Sound := by
  refine ⟨hs.inbox, fun l p hp => ?_, fun z hroom => ?_⟩
  · exact hs.exists_page l p ((L2pTable.invalidateZone_eq_some _ _ _ _).mp hp).1
  · by_cases hz : z = zoneId
    · subst hz
      simp only [HostFtl.emptied, Function.update_self]
      decide
    · simp only [HostFtl.emptied, Function.update_of_ne hz] at hroom ⊢
      exact hs.room z hroom

theorem Sound.set (hs : s.Sound) (l : ℕ) {p : PhysicalAddress} (hz : p.zoneId < numZones)
    (hp : p.pageOffset < 64) : Sound { s with l2pTable := s.l2pTable.set l p } := by
  refine ⟨hs.inbox, fun l' q hq => ?_, hs.room⟩
  simp only [L2pTable.set] at hq
  split_ifs at hq
  · by_cases hl : l' = l
    · subst hl
      rw [Function.update_self] at hq
      cases hq
      exact ⟨hz, hp⟩
    · rw [Function.update_of_ne hl] at hq
      exact hs.exists_page l' q hq
  · exact hs.exists_page l' q hq

theorem Sound.pageAt (hs : s.Sound) {l : ℕ} (h : s.Selects l zoneId) :
    (s.pageAt zoneId).zoneId < numZones ∧ (s.pageAt zoneId).pageOffset < 64 := by
  obtain ⟨hz, hroom⟩ := h.exists_zone
  have hlt := hs.room zoneId hroom
  refine ⟨hz, ?_⟩
  show (s.zones zoneId).writePointer / pageSize < 64
  unfold zoneSizeBytes at hlt
  unfold pageSize
  omega

end Sound

theorem logicalRead_err {s : HostFtl δ} {l : ℕ} {p : PhysicalAddress} {peer : δ} {e : IoError}
    (hl : l < totalLogicalPages) (hp : s.l2pTable l = some p)
    (h : link.tcp s.peer (readRequest p).encode = (peer, .error e)) :
    logicalRead link l s = (.err e, { s with peer }) := by
  have hget : (Call.get : FtlCall δ _) s = (.ok s, s) := rfl
  have hsome : s.l2pTable.get l = some p := by rw [L2pTable.get, if_pos hl, hp]
  have hwrite : writeAll link (readRequest p).encode s = (.err e, { s with peer }) := by
    rw [writeAll, h]
  rw [logicalRead, if_neg (by omega), Call.bind_of_ok hget]
  simp only [hsome]
  rw [Call.bind_of_err hwrite]

theorem next_read (s : HostFtl δ) (l : ℕ) :
    ∃ peer inbox, next link s (.read l) = { s with peer, inbox } := by
  show ∃ peer inbox, (logicalRead link l s).2 = { s with peer, inbox }
  by_cases hl : l < totalLogicalPages
  swap
  · exact ⟨s.peer, s.inbox, congrArg Prod.snd (logicalRead_outOfBounds (Nat.le_of_not_lt hl))⟩
  cases hp : s.l2pTable l with
  | none => exact ⟨s.peer, s.inbox, congrArg Prod.snd (logicalRead_unmapped hl hp)⟩
  | some p =>
    rcases htcp : link.tcp s.peer (readRequest p).encode with ⟨peer, e | reply⟩
    · exact ⟨peer, s.inbox, congrArg Prod.snd (logicalRead_err hl hp htcp)⟩
    have hget : (Call.get : FtlCall δ _) s = (.ok s, s) := rfl
    have hsome : s.l2pTable.get l = some p := by rw [L2pTable.get, if_pos hl, hp]
    rw [logicalRead, if_neg (by omega), Call.bind_of_ok hget]
    simp only [hsome]
    rw [Call.bind_of_ok (writeAll_ok htcp)]
    by_cases hlen : 16 ≤ (s.inbox ++ reply).length
    · have hread : readExact 16 { s with peer, inbox := s.inbox ++ reply } =
          (.ok ((s.inbox ++ reply).take 16), { s with peer, inbox := (s.inbox ++ reply).drop 16 }) :=
        if_pos hlen
      rw [Call.bind_of_ok hread]
      obtain ⟨inbox, hstate⟩ :=
        readExact_state pageSize { s with peer, inbox := (s.inbox ++ reply).drop 16 }
      exact ⟨peer, inbox, hstate⟩
    · have hblock : readExact 16 { s with peer, inbox := s.inbox ++ reply } =
          (.blocks, { s with peer, inbox := s.inbox ++ reply }) :=
        readExact_short (Nat.lt_of_not_le hlen)
      rw [Call.bind_of_blocks hblock]
      exact ⟨peer, s.inbox ++ reply, rfl⟩

/-! ## Reachable states -/

section Reach

variable {s : HostFtl δ} (A : Answering link)

include A

theorem Sound.write (hs : s.Sound) (l : ℕ) (data : List Byte) :
    (logicalWrite link l data s).2.Sound := by
  have houtcome : WriteOutcome link s l data := logicalWrite_outcome s l data
  cases houtcome with
  | outOfBounds _ hrun | noZone _ hrun | full _ _ _ hrun =>
    rw [hrun]
    exact hs
  | accepted zoneId h peer inbox hdrained hrun =>
    obtain rfl := hdrained A hs.inbox
    obtain ⟨hz, hp⟩ := hs.pageAt h
    have happended := ((hs.congr_zone zoneId).appended peer zoneId data).set l hz hp
    rw [hrun]
    exact ⟨rfl, happended.exists_page, happended.room⟩
  | stopped zoneId h o peer inbox why hdrained hrun =>
    rw [hrun]
    exact ⟨hdrained A hs.inbox, hs.exists_page, hs.room⟩
  | emptied zoneId h o peer inbox why hdrained hrun =>
    have hemptied := (hs.congr_zone zoneId).emptied peer zoneId
    rw [hrun]
    exact ⟨hdrained A hs.inbox, hemptied.exists_page, hemptied.room⟩
  | retried zoneId h peer inbox hdrained hrun =>
    obtain ⟨s₁, s₂, s₃, h⟩ := h
    obtain ⟨hz, hp⟩ := hs.pageAt h.selects
    have hretried :=
      (((hs.congr_zone zoneId).emptied peer zoneId).appended peer zoneId data).set l hz hp
    rw [hrun]
    exact ⟨hdrained A hs.inbox, hretried.exists_page, hretried.room⟩

theorem Sound.read (hs : s.Sound) (l : ℕ) : (logicalRead link l s).2.Sound := by
  by_cases hl : l < totalLogicalPages
  swap
  · rw [logicalRead_outOfBounds (Nat.le_of_not_lt hl)]
    exact hs
  cases hp : s.l2pTable l with
  | none =>
    rw [logicalRead_unmapped hl hp]
    exact hs
  | some p =>
    obtain ⟨hz, hoff⟩ := hs.exists_page l p hp
    rcases A.read s.peer (readRequest p) rfl rfl (readRequest_inStorage hz hoff) with
      ⟨peer, e, htcp⟩ | ⟨peer, reply, bytes, htcp, h16, hbytes⟩
    · rw [logicalRead_err hl hp htcp]
      exact hs.congr_peer peer
    · rw [logicalRead_ok hl hp hs.inbox htcp h16 hbytes]
      exact hs.congr_peer peer

theorem Sound.perform (hs : s.Sound) (op : FtlOp) : (perform link op s).2.Sound := by
  cases op with
  | write l data => exact hs.write A l data
  | read l => exact hs.read A l
  | reset zoneId =>
    show (next link s (.reset zoneId)).Sound
    rcases next_reset s zoneId with ⟨peer, hcall⟩ | ⟨peer, hcall⟩
    · rw [hcall]
      exact hs.congr_peer peer
    · rw [hcall]
      exact hs.emptied peer zoneId
  | assign zoneId => exact hs.congr_zone zoneId

theorem Reach.sound (h : Reach link s) : s.Sound := by
  induction h with
  | new peer => exact sound_new peer
  | call op _ ih => exact ih.perform A op

end Reach

/-! ## Reads -/

/-- The page that a device with these bytes returns. -/
def pageOf (stored : ℕ → Byte) (t : L2pTable) (l : ℕ) : List Byte :=
  match t l with
  | none => filledPage 0
  | some p => readBytes stored p.byteOffset pageSize

/-- **A read** returns the page, when the device answers with the bytes it stores; `Q` says what else
is known of the device. -/
theorem logicalRead_pageOf {s : HostFtl δ} (hs : s.Sound) {l : ℕ} (hl : l < totalLogicalPages)
    {stored : ℕ → Byte} {Q : δ → Prop} (hQ : Q s.peer)
    (hread : ∀ r : NbdRequest, r.magic = requestMagic → r.type = 0 → r.InStorage →
      ∃ d' reply, link.tcp s.peer r.encode =
          (d', .ok (reply ++ readBytes stored r.offset.toNat r.len.toNat)) ∧
        reply.length = 16 ∧ Q d') :
    ∃ peer, logicalRead link l s = (.ok (pageOf stored s.l2pTable l), { s with peer }) ∧ Q peer := by
  cases hp : s.l2pTable l with
  | none =>
    refine ⟨s.peer, ?_, hQ⟩
    rw [logicalRead_unmapped hl hp, pageOf, hp]
  | some p =>
    obtain ⟨hz, hoff⟩ := hs.exists_page l p hp
    obtain ⟨peer, hrun, hpeer⟩ := logicalRead_mapped hs.inbox hl hp hz hoff hread
    refine ⟨peer, ?_, hpeer⟩
    rw [hrun, pageOf, hp]

/-- Reads of equal pages return the same. -/
theorem logicalRead_congr {s s' : HostFtl δ} {l : ℕ} {page page' : List Byte}
    (h : l < totalLogicalPages → (logicalRead link l s).1 = .ok page)
    (h' : l < totalLogicalPages → (logicalRead link l s').1 = .ok page') (hpage : page' = page) :
    (logicalRead link l s').1 = (logicalRead link l s).1 := by
  by_cases hl : l < totalLogicalPages
  · rw [h hl, h' hl, hpage]
  · rw [logicalRead_outOfBounds (Nat.le_of_not_lt hl), logicalRead_outOfBounds (Nat.le_of_not_lt hl)]

theorem pageOf_congr {stored stored' : ℕ → Byte} {t t' : L2pTable} {l : ℕ} (htable : t' l = t l)
    (hstored : ∀ p, t l = some p → ∀ k < pageSize,
      stored' (p.byteOffset + k) = stored (p.byteOffset + k)) :
    pageOf stored' t' l = pageOf stored t l := by
  unfold pageOf
  rw [htable]
  cases hp : t l with
  | none => rfl
  | some p =>
    unfold readBytes
    exact List.map_congr_left fun k hk => hstored p hp k (List.mem_range.mp hk)

theorem pageOf_cleared {s : HostFtl δ} (hs : s.Sound) {l zoneId : ℕ} {p : PhysicalAddress}
    {stored : ℕ → Byte} (hp : s.l2pTable l = some p) (hz : p.zoneId = zoneId) :
    pageOf (clearBytes stored (zoneId * zoneSizeBytes) zoneSizeBytes) s.l2pTable l = filledPage 0 := by
  unfold pageOf
  rw [hp]
  refine List.eq_replicate_iff.mpr ⟨length_readBytes _ _ _, fun b hb => ?_⟩
  obtain ⟨k, hk, rfl⟩ := List.mem_map.mp hb
  apply clearBytes_insideZone
  rw [byteOffset_div (hs.exists_page l p hp).2 (List.mem_range.mp hk)]
  exact hz

theorem invalidateZone_elsewhere {t : L2pTable} {l zoneId : ℕ}
    (h : ∀ p, t l = some p → p.zoneId ≠ zoneId) : t.invalidateZone zoneId l = t l := by
  cases hp : t l with
  | none => rw [L2pTable.invalidateZone, hp]
  | some p => exact (L2pTable.invalidateZone_eq_some t zoneId l p).mpr ⟨hp, h p hp⟩

end HostFtl

/-! ## A peer that refuses one append -/

/-- A peer that stores nothing; it answers a countdown of appends, the last one with an error, and
every append after it. -/
def countdownLink : Link ℕ where
  tcp n _ := (n - 1, .ok (NbdReply.encode ⟨replyMagic, if n = 1 then eio else 0, 0⟩))
  mgmt n _ := (n, .ok 1)

namespace HostFtl

variable {s : HostFtl ℕ} {zoneId : ℕ}

theorem countdown_accepts (hz : zoneId < numZones) (hs : s.inbox = []) (hn : s.peer ≠ 1)
    (data : List Byte) :
    appendToZone countdownLink zoneId data s =
      (.ok ((s.zones zoneId).writePointer + data.length), s.appended (s.peer - 1) zoneId data) := by
  refine appendToZone_ok hz hs rfl (NbdReply.length_encode _) ?_
  rw [replyError_encode, if_neg hn]

theorem countdown_refuses (hz : zoneId < numZones) (hs : s.inbox = []) (hn : s.peer = 1)
    (data : List Byte) :
    appendToZone countdownLink zoneId data s = (.err (.rtlBlocked eio), { s with peer := 0 }) := by
  obtain ⟨reply, hreply⟩ : ∃ reply, reply = NbdReply.encode ⟨replyMagic, eio, 0⟩ := ⟨_, rfl⟩
  have herr : replyError reply = eio := by rw [hreply, replyError_encode]
  have htcp : countdownLink.tcp s.peer ((appendRequest zoneId (s.zones zoneId).writePointer
      data.length).encode ++ data) = (0, .ok reply) := by
    rw [hn, hreply]
    rfl
  have hne : replyError reply ≠ 0 := by
    rw [herr]
    decide
  rw [appendToZone_refused hz hs htcp (by rw [hreply, NbdReply.length_encode]) hne, herr]

theorem countdown_write (hs : s.inbox = []) (hn : s.peer ≠ 1) {l : ℕ} (h : s.Selects l zoneId)
    (data : List Byte) :
    next countdownLink s (.write l data) =
      { appended { s with currentWriteZone := zoneId } (s.peer - 1) zoneId data with
        l2pTable := s.l2pTable.set l (s.pageAt zoneId) } := by
  have happend := countdown_accepts (s := { s with currentWriteZone := zoneId }) h.exists_zone.1 hs
    hn data
  exact congrArg Prod.snd (logicalWrite_ok h.page h.zone h.found happend)

end HostFtl

end ZnsFlash
