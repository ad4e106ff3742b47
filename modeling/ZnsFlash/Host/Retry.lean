import ZnsFlash.Host.Reach

/-!
# The address that a retried write records

A write computes the page offset before its first append; the reset before the second one moves the
pointer to the start of the zone.

* `Recorded`: the entry of a retried write designates the bytes that were sent;
* `recorded_iff`, `TidyTables.next`: one call;
* **`retry_kept_iff`**: retried writes record their address, and no page is mapped twice later,
  exactly when the pointer was within the first page.
-/

namespace ZnsFlash

open Runs

namespace HostFtl

variable {δ : Type} {link : Link δ}

/-! ## One retried write -/

section Retried

variable {s s₁ s₂ s₃ : HostFtl δ} {l zoneId : ℕ} {data : List Byte}

theorem Retried.zone_lt (h : Retried link s l data zoneId s₁ s₂ s₃) : zoneId < numZones :=
  h.selects.exists_zone.1

theorem Retried.emptied (h : Retried link s l data zoneId s₁ s₂ s₃) :
    s₂.zones zoneId = ⟨0, false⟩ := by
  have houtcome : ResetOutcome link s₁ zoneId := zoneReset_outcome s₁ h.zone_lt
  cases houtcome with
  | done peer hrun =>
    have hs₂ : s₂ = s₁.emptied peer zoneId := congrArg Prod.snd (h.reset.symm.trans hrun)
    rw [hs₂, emptied_zone]
  | failed e peer _ hrun => cases h.reset.symm.trans hrun

/-- **A retried write** succeeds, and maps its page to the address of before. -/
theorem Retried.logicalWrite_eq (h : Retried link s l data zoneId s₁ s₂ s₃) :
    logicalWrite link l data s =
      (.ok data, { s₃ with l2pTable := s₃.l2pTable.set l (s.pageAt zoneId) }) := by
  obtain ⟨e, hrefused⟩ := h.refused
  obtain ⟨n, haccepted⟩ := h.accepted
  have hwrite : logicalWrite link l data s = _ :=
    logicalWrite_eq_append h.selects.page h.selects.zone h.selects.found data
  have hrecover : Call.recover (appendToZone link zoneId data)
      (zoneReset link zoneId >>= fun _ => appendToZone link zoneId data)
        { s with currentWriteZone := zoneId } = _ := Call.recover_of_err hrefused
  rw [Call.bind_of_ok h.reset, haccepted] at hrecover
  exact hwrite.trans (Call.bind_of_ok hrecover)

/-- The entry of the page designates the bytes that the append sent from the state `s₂` carries. -/
def Recorded (link : Link δ) (s : HostFtl δ) (l zoneId : ℕ) (data : List Byte) (s₂ : HostFtl δ) :
    Prop :=
  ∃ p, (logicalWrite link l data s).2.l2pTable l = some p ∧
    p.byteOffset =
      (appendRequest zoneId (s₂.zones zoneId).writePointer data.length).offset.toNat

/-- **A retried write records where its data went** exactly when the pointer was within the first
page of the zone. -/
theorem recorded_iff (h : Retried link s l data zoneId s₁ s₂ s₃) :
    Recorded link s l zoneId data s₂ ↔ (s.zones zoneId).writePointer < pageSize := by
  have hentry : (logicalWrite link l data s).2.l2pTable l = some (s.pageAt zoneId) := by
    rw [h.logicalWrite_eq]
    show L2pTable.set _ l _ l = _
    rw [L2pTable.set, if_pos h.selects.page, Function.update_self]
  have hsent := appendRequest_offset h.zone_lt (Nat.zero_le zoneSizeBytes) data.length
  rw [Recorded, h.emptied, hsent, hentry]
  constructor
  · rintro ⟨p, hp, hoffset⟩
    cases hp
    unfold PhysicalAddress.byteOffset pageAt pageSize at *
    dsimp only at hoffset
    omega
  · intro hlt
    refine ⟨_, rfl, ?_⟩
    unfold PhysicalAddress.byteOffset pageAt pageSize at *
    dsimp only
    omega

end Retried

/-! ## Tables of whole pages -/

section Tidy

variable {s : HostFtl δ}

/-- A retried write of the call found the pointer within the first page. -/
def RetriesFirstPage (link : Link δ) (s : HostFtl δ) (op : FtlOp) : Prop :=
  ∀ l data zoneId s₁ s₂ s₃, op = .write l data → Retried link s l data zoneId s₁ s₂ s₃ →
    (s.zones zoneId).writePointer < pageSize

/-- The tables of the client are tidy. -/
def TidyTables (s : HostFtl δ) : Prop := Tidy s.zones s.l2pTable

theorem TidyTables.appended (hs : s.TidyTables) {zoneId : ℕ} {data : List Byte}
    (hroom : (s.zones zoneId).isFull = false) (hdata : data.length = pageSize) (peer : δ) (l : ℕ) :
    Tidy (s.appended peer zoneId data).zones (s.l2pTable.set l (s.pageAt zoneId)) := by
  unfold HostFtl.appended
  rw [hdata]
  exact hs.append hroom l

theorem TidyTables.write (hs : s.TidyTables) {l : ℕ} {data : List Byte}
    (hdata : data.length = pageSize) (hfirst : RetriesFirstPage link s (.write l data)) :
    (logicalWrite link l data s).2.TidyTables := by
  have houtcome : WriteOutcome link s l data := logicalWrite_outcome s l data
  cases houtcome with
  | outOfBounds _ hrun | noZone _ hrun | full _ _ _ hrun | stopped _ _ _ _ _ _ _ hrun =>
    rw [hrun]
    exact hs
  | accepted zoneId h peer inbox _ hrun =>
    rw [hrun]
    exact hs.appended h.exists_zone.2 hdata peer l
  | emptied zoneId h o peer inbox _ _ hrun =>
    rw [hrun]
    exact hs.erase zoneId
  | retried zoneId h peer inbox _ hrun =>
    obtain ⟨s₁, s₂, s₃, h⟩ := h
    have hpage : s.pageAt zoneId = (s.emptied peer zoneId).pageAt zoneId := by
      rw [pageAt, pageAt, emptied_zone, Nat.div_eq_of_lt (hfirst l data zoneId s₁ s₂ s₃ rfl h),
        Nat.zero_div]
    have hempty : (s.emptied peer zoneId).TidyTables := hs.erase zoneId
    rw [hrun, hpage]
    exact hempty.appended (by rw [emptied_zone]) hdata peer l

/-- **Every allowed call** keeps tables of whole pages tidy, if it does not retry a write from beyond
the first page. -/
theorem TidyTables.next (hs : s.TidyTables) {op : FtlOp} (hop : op.Allowed)
    (hfirst : RetriesFirstPage link s op) : (next link s op).TidyTables := by
  cases op with
  | write l data => exact hs.write hop hfirst
  | read l =>
    obtain ⟨peer, inbox, hcall⟩ := next_read s l
    rw [hcall]
    exact hs
  | reset zoneId =>
    rcases next_reset s zoneId with ⟨peer, hcall⟩ | ⟨peer, hcall⟩
    · rw [hcall]
      exact hs
    · rw [hcall]
      exact hs.erase zoneId
  | assign zoneId => exact hs

/-- A write of a page whose append is accepted. -/
def AcceptedWrite (link : Link δ) (s : HostFtl δ) (op : FtlOp) : Prop :=
  ∃ l data zoneId n s', op = .write l data ∧ data.length = pageSize ∧ s.Selects l zoneId ∧
    appendToZone link zoneId data { s with currentWriteZone := zoneId } = (.ok n, s')

theorem TidyTables.next_accepted (hs : s.TidyTables) {op : FtlOp} (hop : AcceptedWrite link s op) :
    (HostFtl.next link s op).TidyTables := by
  obtain ⟨l, data, zoneId, n, s', rfl, hdata, hselects, happend⟩ := hop
  refine hs.next hdata ?_
  rintro l' data' zoneId' s₁ s₂ s₃ heq h
  cases heq
  have hzone : zoneId' = zoneId := Option.some.inj (h.selects.found.symm.trans hselects.found)
  obtain ⟨e, hrefused⟩ := h.refused
  rw [hzone, happend] at hrefused
  cases hrefused

/-- **Retried writes record where their data went**, and after any further accepted writes no two
pages share an address. -/
def RetryKept (link : Link δ) (s : HostFtl δ) (op : FtlOp) : Prop :=
  ∀ l data zoneId s₁ s₂ s₃, op = .write l data → Retried link s l data zoneId s₁ s₂ s₃ →
    Recorded link s l zoneId data s₂ ∧
    ∀ more, Along (HostFtl.next link) (AcceptedWrite link) (HostFtl.next link s op) more →
      (run (HostFtl.next link) (HostFtl.next link s op) more).l2pTable.Injective

theorem retryKept_iff (hs : s.TidyTables) {op : FtlOp} (hop : op.Allowed) :
    RetryKept link s op ↔ RetriesFirstPage link s op := by
  constructor
  · intro h l data zoneId s₁ s₂ s₃ hwrite hretried
    exact (recorded_iff hretried).mp (h l data zoneId s₁ s₂ s₃ hwrite hretried).1
  · intro hfirst l data zoneId s₁ s₂ s₃ hwrite hretried
    refine ⟨(recorded_iff hretried).mpr (hfirst l data zoneId s₁ s₂ s₃ hwrite hretried), ?_⟩
    intro more hmore
    have htidy : (run (HostFtl.next link) (HostFtl.next link s op) more).TidyTables :=
      run_inv_of_along (fun _ _ ht ho => ht.next_accepted ho) (hs.next hop hfirst) hmore
    exact htidy.injective

end Tidy

/-- **When do retried writes keep the table?** A retried write records the address of its data exactly
when the pointer was within the first page of the zone; and along every run of calls with whole
pages, the retried writes record their addresses and share none with any page later, exactly when
all of them found the pointer there. -/
theorem retry_kept_iff (link : Link δ) (peer : δ) :
    (∀ (s : HostFtl δ) (l zoneId : ℕ) (data : List Byte) (s₁ s₂ s₃ : HostFtl δ),
      Retried link s l data zoneId s₁ s₂ s₃ →
        (Recorded link s l zoneId data s₂ ↔ (s.zones zoneId).writePointer < pageSize)) ∧
    ∀ ops : List FtlOp, (∀ op ∈ ops, op.Allowed) →
      (Along (next link) (RetryKept link) (new peer) ops ↔
        Along (next link) (RetriesFirstPage link) (new peer) ops) := by
  refine ⟨fun s l zoneId data s₁ s₂ s₃ h => recorded_iff h, fun ops hops => ?_⟩
  have hallowed : Along (next link) (fun _ op => op.Allowed) (new peer) ops :=
    (along_const FtlOp.Allowed _ _).mpr hops
  have hcongr := along_congr TidyTables
    (P := fun s op => op.Allowed ∧ RetryKept link s op)
    (Q := fun s op => op.Allowed ∧ RetriesFirstPage link s op)
    (fun s op hs h => hs.next h.1 ((retryKept_iff hs h.1).mp h.2))
    (fun s op hs => and_congr_right fun hop => retryKept_iff hs hop) (s := new peer) Tidy.new ops
  rw [along_and, along_and] at hcongr
  exact ⟨fun h => (hcongr.mp ⟨hallowed, h⟩).2, fun h => (hcongr.mpr ⟨hallowed, h⟩).2⟩

/-! ## A write retried from the first page -/

/-- The client after its first append was refused and the zone reset. -/
def firstRefused : HostFtl ℕ := emptied { new 1 with peer := 0 } 0 0

theorem firstRefused_retried : Retried countdownLink (new 1) 0 (filledPage 0) 0
    { new 1 with peer := 0 } firstRefused (firstRefused.appended 0 0 (filledPage 0)) where
  selects := ⟨by decide, by decide, rfl⟩
  refused := ⟨_, countdown_refuses (s := new 1) (by decide) rfl rfl _⟩
  reset := zoneReset_ok (by decide) rfl
  accepted := ⟨_, countdown_accepts (s := firstRefused) (by decide) rfl (by decide) _⟩

theorem retry_kept_first_page :
    Recorded countdownLink (new 1) 0 0 (filledPage 0) firstRefused ∧
      Along (next countdownLink) (RetryKept countdownLink) (new 1) [.write 0 (filledPage 0)] := by
  have hops : ∀ op ∈ [FtlOp.write 0 (filledPage 0)], op.Allowed := by simp [FtlOp.Allowed]
  have hpointer : ∀ zoneId, ((new 1).zones zoneId).writePointer < pageSize :=
    fun _ => show 0 < 4096 by decide
  refine ⟨((retry_kept_iff countdownLink 1).1 _ _ _ _ _ _ _ firstRefused_retried).mpr
    (hpointer 0), ((retry_kept_iff countdownLink 1).2 _ hops).mpr ⟨?_, trivial⟩⟩
  exact fun _ _ zoneId _ _ _ _ _ => hpointer zoneId

/-! ## A write retried from the second page -/

/-- The first page is written, and the next append will be refused. -/
def pageWritten : HostFtl ℕ := next countdownLink (new 2) (.write 0 (filledPage 0))

theorem pageWritten_eq : pageWritten =
    { appended (new 2) 1 0 (filledPage 0) with l2pTable := L2pTable.new.set 0 ⟨0, 0⟩ } :=
  countdown_write rfl (by decide) ⟨by decide, by decide, rfl⟩ _

theorem appended_empty {s : HostFtl ℕ} {zoneId : ℕ} (h : s.zones zoneId = ⟨0, false⟩) (peer : ℕ) :
    (s.appended peer zoneId (filledPage 0)).zones zoneId = ⟨pageSize, false⟩ := by
  have hroom : decide (zoneSizeBytes ≤ pageSize) = false := by decide
  simp only [appended, Function.update_self, length_filledPage, h, Nat.zero_add, Bool.false_or, hroom]

theorem pageWritten_zone : pageWritten.zones 0 = ⟨pageSize, false⟩ := by
  rw [pageWritten_eq]
  have hzone : ((new 2).appended 1 0 (filledPage 0)).zones 0 = ⟨pageSize, false⟩ :=
    appended_empty rfl 1
  exact hzone

theorem pageWritten_inbox : pageWritten.inbox = [] := by
  rw [pageWritten_eq]
  rfl

theorem pageWritten_peer : pageWritten.peer = 1 := by
  rw [pageWritten_eq]
  rfl

theorem pageWritten_selects (l : ℕ) (hl : l < totalLogicalPages) : pageWritten.Selects l 0 := by
  have hzone : pageWritten.currentWriteZone = 0 := by rw [pageWritten_eq]; rfl
  refine ⟨hl, by rw [hzone]; decide, ?_⟩
  rw [hzone]
  exact writableZone_self _ (by rw [pageWritten_zone])

/-- The client after the zone was reset. -/
def zoneEmptied : HostFtl ℕ := emptied { pageWritten with currentWriteZone := 0, peer := 0 } 0 0

theorem pageWritten_retried : Retried countdownLink pageWritten 1 (filledPage 0) 0
    { pageWritten with currentWriteZone := 0, peer := 0 } zoneEmptied
      (zoneEmptied.appended 0 0 (filledPage 0)) where
  selects := pageWritten_selects 1 (by decide)
  refused := ⟨_, countdown_refuses (by decide) pageWritten_inbox pageWritten_peer _⟩
  reset := zoneReset_ok (by decide) rfl
  accepted := ⟨_, countdown_accepts (s := zoneEmptied) (by decide) pageWritten_inbox (by decide) _⟩

/-- The client after the retried write of page `1`. -/
def pageRetried : HostFtl ℕ :=
  { zoneEmptied.appended 0 0 (filledPage 0) with
    l2pTable := zoneEmptied.l2pTable.set 1 ⟨0, 1⟩ }

theorem pageRetried_eq :
    next countdownLink pageWritten (.write 1 (filledPage 0)) = pageRetried := by
  have hpage : pageWritten.pageAt 0 = ⟨0, 1⟩ := by
    rw [pageAt, pageWritten_zone]
    rfl
  have hrun := congrArg Prod.snd pageWritten_retried.logicalWrite_eq
  rw [hpage] at hrun
  exact hrun

theorem pageRetried_zone : pageRetried.zones 0 = ⟨pageSize, false⟩ :=
  appended_empty (s := zoneEmptied) (emptied_zone _ _ _) 0

/-- **Two pages share an address** after a write retried from the second page and one more write. -/
theorem retried_page_aliased :
    ¬ ∀ ops : List FtlOp, (∀ op ∈ ops, op.Allowed) →
      Along (next countdownLink) (RetryKept countdownLink) (new 2) ops := by
  intro h
  have hops : ∀ op ∈ [FtlOp.write 0 (filledPage 0), .write 1 (filledPage 0)], op.Allowed := by
    simp [FtlOp.Allowed]
  have hkept : RetryKept countdownLink pageWritten (.write 1 (filledPage 0)) := (h _ hops).2.1
  have hinjective := (hkept 1 _ 0 _ _ _ rfl pageWritten_retried).2 [.write 2 (filledPage 0)]
  rw [pageRetried_eq, run, List.foldl_cons, List.foldl_nil] at hinjective
  have hzone : pageRetried.currentWriteZone = 0 := rfl
  have hselects : pageRetried.Selects 2 0 := by
    refine ⟨by decide, by rw [hzone]; decide, ?_⟩
    rw [hzone]
    exact writableZone_self _ (by rw [pageRetried_zone])
  have hnext := countdown_write (s := pageRetried) pageWritten_inbox (by decide) hselects
    (filledPage 0)
  have hpage : pageRetried.pageAt 0 = ⟨0, 1⟩ := by
    rw [pageAt, pageRetried_zone]
    rfl
  rw [hnext, hpage] at hinjective
  have haccepted := countdown_accepts (s := { pageRetried with currentWriteZone := 0 })
    (show 0 < numZones by decide) pageWritten_inbox (by decide) (filledPage 0)
  have halias := hinjective
    ⟨⟨2, _, 0, _, _, rfl, length_filledPage 0, hselects, haccepted⟩, trivial⟩ 1 2 ⟨0, 1⟩ rfl rfl
  cases halias

end HostFtl

end ZnsFlash
