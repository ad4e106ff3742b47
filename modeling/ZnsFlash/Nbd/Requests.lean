import ZnsFlash.Nbd.Phases

/-!
# What a request does

* `copyBytes`, `readBytes`: what is copied is read back, the rest stays;
* `alignedWord_eq`: the word that a write puts under the checker;
* **`Server.write_outcome`**: every write is acknowledged; stored, or without effect on the disk;
* `Server.OwnTransaction`, **`Server.own_transactions_iff_writes`**: which requests run their own
  transaction to its end.
-/

namespace ZnsFlash

open Runs

/-! ## Bytes of the disk -/

section Bytes

variable (storage : ℕ → Byte) (start : ℕ)

@[simp] theorem length_readBytes (len : ℕ) : (readBytes storage start len).length = len := by
  simp [readBytes]

theorem head?_readBytes {len : ℕ} (h : 0 < len) :
    (readBytes storage start len).head? = some (storage start) := by
  obtain ⟨n, rfl⟩ := Nat.exists_eq_add_of_lt h
  simp [readBytes, List.range_succ_eq_map]

theorem readBytes_copyBytes (bytes : List Byte) :
    readBytes (copyBytes storage start bytes) start bytes.length = bytes := by
  apply List.ext_getElem
  · rw [length_readBytes]
  · intro k _ hk
    simp [readBytes, copyBytes, hk]

theorem readBytes_copyBytes_of_disjoint {bytes : List Byte} {from' len : ℕ}
    (h : from' + len ≤ start ∨ start + bytes.length ≤ from') :
    readBytes (copyBytes storage start bytes) from' len = readBytes storage from' len := by
  unfold readBytes
  apply List.map_congr_left
  intro k hk
  have hk := List.mem_range.mp hk
  exact if_neg (by omega)

theorem readBytes_add (m n : ℕ) :
    readBytes storage start (m + n) =
      readBytes storage start m ++ readBytes storage (start + m) n := by
  simp only [readBytes, List.range_add, List.map_append, List.map_map]
  congr 1
  apply List.map_congr_left
  intro k _
  simp only [Function.comp_apply, Nat.add_assoc]

theorem take_readBytes {m n : ℕ} (h : m ≤ n) :
    (readBytes storage start n).take m = readBytes storage start m := by
  obtain ⟨k, rfl⟩ := Nat.exists_eq_add_of_le h
  rw [readBytes_add]
  exact List.take_left' (length_readBytes _ _ _)

theorem readBytes_copyBytes_behind {bytes : List Byte} (gap : ℕ) :
    readBytes (copyBytes storage (start + gap) bytes) start bytes.length =
      (readBytes storage start gap ++ bytes).take bytes.length := by
  rw [← take_readBytes _ _ (Nat.le_add_left bytes.length gap), readBytes_add, readBytes_copyBytes,
    readBytes_copyBytes_of_disjoint _ _ (.inl le_rfl)]

theorem copyBytes_outside {bytes : List Byte} {i : ℕ} (h : i < start ∨ start + bytes.length ≤ i) :
    copyBytes storage start bytes i = storage i :=
  if_neg (by omega)

end Bytes

/-! ## Geometry of a request -/

section Geometry

variable {offset : BitVec 64}

theorem targetZoneId_toNat (h : offset.toNat < totalSizeBytes) :
    (targetZoneId offset).toNat = offset.toNat / 262144 := by
  unfold totalSizeBytes at h
  rw [targetZoneId, BitVec.toNat_ofNat]
  exact Nat.mod_eq_of_lt (by unfold zoneSizeBytes; omega)

theorem targetZoneId_lt (h : offset.toNat < totalSizeBytes) : targetZoneId offset < 1024 := by
  refine BitVec.lt_def.mpr ?_
  rw [targetZoneId_toNat h]
  unfold totalSizeBytes at h
  change _ < 1024
  omega

theorem targetPage_toNat (offset : BitVec 64) :
    (targetPage offset).toNat = offset.toNat % 262144 / 4096 := by
  rw [targetPage, BitVec.toNat_ofNat]
  unfold zoneSizeBytes pageSize
  omega

theorem targetPage_lt (offset : BitVec 64) : (targetPage offset).toNat < 64 := by
  rw [targetPage_toNat]
  omega

end Geometry

/-! ## The aligned word -/

theorem getLsbD_wptrMask {i : ℕ} (hi : i < 32) : (0x7F#32).getLsbD i = decide (i < 7) := by
  revert i
  decide

theorem getLsbD_byteMask {i : ℕ} (hi : i < 32) : (0xFF#32).getLsbD i = decide (i < 8) := by
  revert i
  decide

/-- The handler keeps the erase count, clears the full flag and sets the pointer to the page. -/
theorem alignedWord_eq (w page : BitVec 32) :
    alignedWord w page = packWord (zoneEraseCnt w) false (page.setWidth 7) := by
  apply BitVec.eq_of_getLsbD_eq
  intro i hi
  simp only [alignedWord, packWord, zoneEraseCnt, BitVec.getLsbD_or, BitVec.getLsbD_and,
    BitVec.getLsbD_shiftLeft, BitVec.getLsbD_ushiftRight, BitVec.getLsbD_append,
    BitVec.getLsbD_extractLsb', BitVec.getLsbD_setWidth, BitVec.getLsbD_ofBool,
    BitVec.getLsbD_zero, getLsbD_wptrMask hi, getLsbD_byteMask (show i - 16 < 32 by omega)]
  grind

section Aligned

variable {w page : BitVec 32} (hp : page.toNat < 64)

include hp

theorem setWidth_page : (page.setWidth 7).toNat = page.toNat := by
  rw [BitVec.toNat_setWidth]
  exact Nat.mod_eq_of_lt (by omega)

theorem zoneWptr_alignedWord : (zoneWptr (alignedWord w page)).toNat = page.toNat := by
  rw [alignedWord_eq, zoneWptr_packWord, setWidth_page hp]

theorem zoneWptr_alignedWord_eq_zero : zoneWptr (alignedWord w page) = 0 ↔ page = 0 := by
  rw [BitVec.toNat_eq, zoneWptr_alignedWord hp, BitVec.toNat_eq]
  rfl

theorem executeWord_alignedWord (d : BitVec 32) :
    executeWord 1 (alignedWord w page) d =
      packWord (zoneEraseCnt w) (page = 63) (page.setWidth 7 + 1) := by
  have h63 : page.setWidth 7 = 63 ↔ page = 63 := by
    rw [BitVec.toNat_eq, setWidth_page hp, BitVec.toNat_eq]
    rfl
  rw [executeWord, if_pos rfl, alignedWord_eq, zoneWptr_packWord, zoneEraseCnt_packWord]
  by_cases h : page = 63
  · subst h
    rfl
  · rw [if_neg (mt h63.mp h), decide_eq_false h]

end Aligned

theorem zoneIsFull_alignedWord (w page : BitVec 32) : zoneIsFull (alignedWord w page) = false := by
  rw [alignedWord_eq, zoneIsFull_packWord]

/-! ## Writes -/

namespace Server

variable {s : Server} {r : NbdRequest}

theorem aligned_mock (s : Server) (r : NbdRequest) :
    (s.aligned r).mockBramStorage = Function.update s.bridge.mockBramStorage
      (cell (targetZoneId r.offset))
      (packWord (zoneEraseCnt (s.bridge.mockBramStorage (cell (targetZoneId r.offset)))) false
        ((targetPage r.offset).setWidth 7)) := by
  rw [← alignedWord_eq]
  rfl

theorem word_aligned (hz : targetZoneId r.offset < 1024) :
    ((s.aligned r).raise (r.simCmd 1)).word =
      alignedWord (s.bridge.mockBramStorage (cell (targetZoneId r.offset)))
        (targetPage r.offset) := by
  have hpins : ((s.aligned r).raise (r.simCmd 1)).validatedZoneId = targetZoneId r.offset := rfl
  rw [Bridge.word, hpins, if_pos hz]
  exact Function.update_self _ _ _

theorem stored_aligned (hz : targetZoneId r.offset < 1024) :
    ((s.aligned r).raise (r.simCmd 1)).stored = Function.update s.bridge.mockBramStorage
      (cell (targetZoneId r.offset))
      (packWord (zoneEraseCnt (s.bridge.mockBramStorage (cell (targetZoneId r.offset))))
        (targetPage r.offset = 63) ((targetPage r.offset).setWidth 7 + 1)) := by
  rw [← executeWord_alignedWord (targetPage_lt r.offset) s.bridge.fsm.bramWdata, ← word_aligned hz]
  have hpins : ((s.aligned r).raise (r.simCmd 1)).validatedZoneId = targetZoneId r.offset := rfl
  rw [Bridge.stored, hpins, if_pos hz]
  exact Function.update_idem _ _ _

/-- The bridge that a write leaves. -/
def written (s : Server) (r : NbdRequest) : Bridge :=
  (pollWrite 10 0 ((s.aligned r).raise (r.simCmd 1))).1.drop

/-- **What the handler of a write does**, given how the command ends. -/
theorem write_of_ends (hin : r.InStorage) (hz : targetZoneId r.offset < 1024) {st : BitVec 8}
    {mock : BitVec 10 → BitVec 32} (hends : ((s.aligned r).raise (r.simCmd 1)).Ends st mock)
    (payload : List Byte) : s.write r payload = some ⟨⟨s.written r, if st = 1 then s.userDiskStorage
        else copyBytes s.userDiskStorage r.offset.toNat payload⟩, st, r.reply 0⟩ ∧
      (s.written r).Ready ∧ (s.written r).mockBramStorage = mock ∧
      (s.written r).globalControllerPtr = s.bridge.globalControllerPtr := by
  obtain ⟨hst, hready, hmock, hptr⟩ := pollWrite_of_ends hends
  refine ⟨?_, hready, hmock, hptr⟩
  simp only [write, if_pos hz, hst]
  by_cases h1 : st = 1
  · rw [if_pos h1, if_pos h1]
    rfl
  · rw [if_neg h1, if_neg h1, if_pos hin]
    rfl

/-- **Every write is acknowledged.** If the status is `1`, the disk is as before and only the
target word was aligned to the page; otherwise the payload is on the disk, and the target word
records the page, unless the automaton stood in `ST_EXECUTE` when the request came. -/
theorem write_outcome (hs : s.Reach) (payload : List Byte) (hin : r.InStorage)
    (hstart : r.offset.toNat < totalSizeBytes) (hlen : payload.length = r.len.toNat) :
    ∃ h, s.handle (.write r payload) = some h ∧ replyError h.out = 0 ∧
      (h.status = 1 →
        h.server.userDiskStorage = s.userDiskStorage ∧
        h.server.bridge.mockBramStorage = Function.update s.bridge.mockBramStorage
          (cell (targetZoneId r.offset))
          (packWord (zoneEraseCnt (s.bridge.mockBramStorage (cell (targetZoneId r.offset)))) false
            ((targetPage r.offset).setWidth 7))) ∧
      (h.status ≠ 1 →
        readBytes h.server.userDiskStorage r.offset.toNat r.len.toNat = payload ∧
        (∀ i, i < r.offset.toNat ∨ r.offset.toNat + r.len.toNat ≤ i →
          h.server.userDiskStorage i = s.userDiskStorage i) ∧
        (s.bridge.fsm.currentState ≠ .execute →
          h.server.bridge.mockBramStorage = Function.update s.bridge.mockBramStorage
            (cell (targetZoneId r.offset))
            (packWord (zoneEraseCnt (s.bridge.mockBramStorage (cell (targetZoneId r.offset))))
              (targetPage r.offset = 63) ((targetPage r.offset).setWidth 7 + 1)))) := by
  have hz := targetZoneId_lt hstart
  have three_ne_one : (3 : BitVec 8) ≠ 1 := by decide
  have hreply : replyError (r.reply 0) = 0 := replyError_encode _
  have hkept : readBytes (copyBytes s.userDiskStorage r.offset.toNat payload) r.offset.toNat
      r.len.toNat = payload := by
    rw [← hlen]
    exact readBytes_copyBytes _ _ _
  have hout : ∀ i, i < r.offset.toNat ∨ r.offset.toNat + r.len.toNat ≤ i →
      copyBytes s.userDiskStorage r.offset.toNat payload i = s.userDiskStorage i := by
    intro i hi
    rw [← hlen] at hi
    exact copyBytes_outside _ _ hi
  -- rejected; executed on the aligned word; or executed while the automaton was in `ST_EXECUTE`
  rcases ends_write hs.boundary hz with hends | hends | ⟨hexec, mock, hends⟩
  · obtain ⟨hrun, -, hmock, -⟩ := write_of_ends hin hz hends payload
    refine ⟨_, hrun, hreply, fun _ => ⟨rfl, ?_⟩, fun hne => absurd rfl hne⟩
    rw [← aligned_mock]
    exact hmock
  · obtain ⟨hrun, -, hmock, -⟩ := write_of_ends hin hz hends payload
    refine ⟨_, hrun, hreply, fun h1 => absurd h1 three_ne_one, fun _ =>
      ⟨hkept, hout, fun _ => ?_⟩⟩
    rw [← stored_aligned hz]
    exact hmock
  · obtain ⟨hrun, -, -, -⟩ := write_of_ends hin hz hends payload
    exact ⟨_, hrun, hreply, fun h1 => absurd h1 three_ne_one,
      fun _ => ⟨hkept, hout, fun hne => absurd hexec hne⟩⟩

/-- A start-up state to run from. -/
def start : Server := powerUp ⟨.idle, 0, 0, false, 0, 0⟩ 0

/-- A write of one byte to the first page of a zone. -/
def firstPageWrite (zone : ℕ) : NbdRequest :=
  ⟨requestMagic, 1, 0, BitVec.ofNat 64 (zone * zoneSizeBytes), 1⟩

theorem write_outcome_first_write :
    ∃ h, start.handle (.write (firstPageWrite 3) [7]) = some h ∧ replyError h.out = 0 := by
  obtain ⟨h, hrun, hreply, -⟩ := write_outcome (s := start) (r := firstPageWrite 3)
    (.powerUp _ _) [7] (by decide) (by decide) rfl
  exact ⟨h, hrun, hreply⟩

/-! ## Runs of requests -/

/-- The state after a request; one outside the arrays has none, and leaves the state. -/
def next (s : Server) (i : ServerInput) : Server := (s.handle i).elim s Handled.server

theorem next_of_handle {i : ServerInput} {h : Handled} (hi : s.handle i = some h) :
    s.next i = h.server := by
  rw [next, hi]
  rfl

theorem boundary_next (hb : s.bridge.Boundary) (i : ServerInput) : (s.next i).bridge.Boundary := by
  cases hi : s.handle i with
  | none =>
    rw [Server.next, hi]
    exact hb
  | some h =>
    rw [next_of_handle hi]
    exact boundary_handle hb hi

theorem Reach.next (h : s.Reach) (i : ServerInput) : (s.next i).Reach := by
  cases hi : s.handle i with
  | none =>
    rw [Server.next, hi]
    exact h
  | some h' =>
    rw [next_of_handle hi]
    exact .handle h hi

theorem Reach.run (h : s.Reach) (is : List ServerInput) : (run Server.next s is).Reach :=
  run_inv (fun _ i h => h.next i) h is

/-- The fifth zone is refused by the open limit, acknowledged and lost. -/
theorem refused_write_acknowledged :
    ¬ ∀ (s : Server) (r : NbdRequest) (payload : List Byte) (h : Handled), s.Reach → r.InStorage →
      payload.length = r.len.toNat → s.handle (.write r payload) = some h →
      (replyError h.out = 0 →
        readBytes h.server.userDiskStorage r.offset.toNat r.len.toNat = payload ∧
        (zoneWptr (h.server.bridge.mockBramStorage (cell (targetZoneId r.offset)))).toNat =
          (targetPage r.offset).toNat + 1) ∧
      (h.status = 1 → replyError h.out ≠ 0 ∧ h.server.userDiskStorage = s.userDiskStorage ∧
        h.server.bridge.mockBramStorage = s.bridge.mockBramStorage) := by
  intro hall
  let fill : List ServerInput := [0, 1, 2, 3].map fun z => .write (firstPageWrite z) [7]
  have hreach : (run Server.next start fill).Reach := Reach.run (.powerUp _ _) fill
  have hlost : ((run Server.next start fill).handle (.write (firstPageWrite 4) [7])).map
      (fun h => (replyError h.out, readBytes h.server.userDiskStorage 1048576 1)) =
        some (0, [0]) := by
    decide
  obtain ⟨h, hrun, hh⟩ := Option.map_eq_some_iff.mp hlost
  have hpayload := ((hall _ _ _ h hreach (by decide) rfl hrun).1 (congrArg Prod.fst hh)).1
  exact absurd ((congrArg Prod.snd hh).symm.trans hpayload) (by decide)

/-! ## Own transactions -/

/-- The bridge with the command of a request on its pins. -/
def issued (s : Server) : ServerInput → Bridge
  | .read r => s.bridge.raise (r.simCmd 0)
  | .write r _ => (s.aligned r).raise (r.simCmd 1)
  | .trim r => s.bridge.raise ⟨2, targetZoneId r.offset, s.bridge.validatedTargetPage⟩
  | .reset zoneId => s.bridge.raise ⟨2, zoneId.setWidth 32, s.bridge.validatedTargetPage⟩

/-- **The request ran its own transaction**: the automaton is idle again with the trigger low, the
status is the verdict on the own command and word, a read is refused exactly at or past the
pointer, and a reset was executed. -/
structure OwnTransaction (s : Server) (i : ServerInput) (h : Handled) : Prop where
  idle : h.server.bridge.fsm.currentState = .idle
  ioTrigger : h.server.bridge.ioTrigger = false
  status : h.status = if (s.issued i).verdict.hasError then 1 else 3
  read : ∀ r, i = .read r →
    (replyError h.out = eio ↔
      (zoneWptr (s.issued i).word).toNat ≤ (targetPage r.offset).toNat)
  reset : ∀ zoneId, i = .reset zoneId →
    h.server.bridge.fsm.bramWdata =
        executeWord 2 (s.issued i).word (s.issued i).fsm.bramWdata ∧
      h.server.bridge.fsm.openZonesCount = znsResourcesTracker false 2 true
        (zoneWptr (s.issued i).word) (zoneIsFull (s.issued i).word) s.bridge.fsm.openZonesCount

end Server

/-- A request inside the arrays of the server, with its whole payload. -/
def ServerInput.InRange : ServerInput → Prop
  | .read r | .trim r => r.InStorage
  | .write r payload =>
    r.InStorage ∧ r.offset.toNat < totalSizeBytes ∧ payload.length = r.len.toNat
  | .reset zoneId => zoneId.toNat < 1024

instance : DecidablePred ServerInput.InRange
  | .read r | .trim r => inferInstanceAs (Decidable r.InStorage)
  | .write _ _ => inferInstanceAs (Decidable (_ ∧ _ ∧ _))
  | .reset _ => inferInstanceAs (Decidable (_ < _))

namespace Server

variable {s : Server} {i : ServerInput}

/-- From idle, whatever is not a write leaves the automaton waiting for the memory. -/
theorem bramWait_of_not_write (hb : s.bridge.Boundary) (hi : s.bridge.fsm.currentState = .idle)
    (hw : ¬ i.IsWrite) {h : Handled} (hrun : s.handle i = some h) :
    h.server.bridge.fsm.currentState = .bramWait := by
  cases i with
  | read r =>
    change s.read r = some h at hrun
    simp only [Server.read] at hrun
    split_ifs at hrun <;> cases hrun <;> exact (Bridge.short_idle _ hb hi).2.2
  | write r payload => exact absurd trivial hw
  | trim r =>
    change s.trim r = some h at hrun
    simp only [trim] at hrun
    split_ifs at hrun
    cases hrun
    exact (Bridge.short_idle _ hb hi).2.2
  | reset zoneId =>
    change s.managementReset zoneId = some h at hrun
    simp only [managementReset] at hrun
    split_ifs at hrun
    cases hrun
    exact (Bridge.short_idle _ hb hi).2.2

theorem ownTransaction_write {r : NbdRequest} {payload : List Byte} (hb : s.bridge.Boundary)
    (hi : s.bridge.fsm.currentState = .idle) (hr : (ServerInput.write r payload).InRange) :
    ∃ h, s.handle (.write r payload) = some h ∧ s.OwnTransaction (.write r payload) h := by
  obtain ⟨hin, hstart, -⟩ := hr
  obtain ⟨hrun, hready, -, -⟩ := write_of_ends hin (targetZoneId_lt hstart)
    (Bridge.ends_idle (raised_write hb) hi) payload
  refine ⟨_, hrun, hready.idle, hready.ioTrigger, rfl, ?_, ?_⟩
  · intro r' h
    exact ServerInput.noConfusion h
  · intro zoneId h
    exact ServerInput.noConfusion h

theorem ownTransaction_iff (hb : s.bridge.Boundary) (hi : s.bridge.fsm.currentState = .idle)
    (hr : i.InRange) :
    (∃ h, s.handle i = some h ∧ s.OwnTransaction i h) ↔ i.IsWrite := by
  constructor
  · rintro ⟨h, hrun, hown⟩
    by_contra hw
    have hwait := bramWait_of_not_write hb hi hw hrun
    rw [hown.idle] at hwait
    exact FsmState.noConfusion hwait
  · intro hw
    cases i with
    | write r payload => exact ownTransaction_write hb hi hr
    | read r => exact hw.elim
    | trim r => exact hw.elim
    | reset zoneId => exact hw.elim

/-- **Exactly the writes run their own transaction**: of the requests in range after start-up, all
run their own transaction to its end if and only if all are writes. -/
theorem own_transactions_iff_writes (junk : Validator) (addr : BitVec 32)
    {is : List ServerInput} (hr : ∀ i ∈ is, i.InRange) :
    Along Server.next (fun s i => ∃ h, s.handle i = some h ∧ s.OwnTransaction i h)
      (powerUp junk addr) is ↔ ∀ i ∈ is, i.IsWrite := by
  have hidle : (powerUp junk addr).bridge.fsm.currentState = .idle :=
    (Bridge.ready_powerUp junk addr none).1.idle
  have hcongr :
      Along Server.next
          (fun s i => i.InRange ∧ ∃ h, s.handle i = some h ∧ s.OwnTransaction i h)
          (powerUp junk addr) is ↔
        Along Server.next (fun _ i => i.InRange ∧ i.IsWrite) (powerUp junk addr) is := by
    refine along_congr (fun s => s.bridge.Boundary ∧ s.bridge.fsm.currentState = .idle) ?_ ?_
      ⟨boundary_powerUp junk addr, hidle⟩ is
    · rintro s i ⟨hb, -⟩ ⟨-, h, hrun, hown⟩
      rw [next_of_handle hrun]
      exact ⟨boundary_handle hb hrun, hown.idle⟩
    · rintro s i ⟨hb, hi⟩
      exact and_congr_right fun hr => ownTransaction_iff hb hi hr
  rw [along_and, along_const, along_const] at hcongr
  constructor
  · intro h i hi
    exact (hcongr.mp ⟨hr, h⟩ i hi).2
  · intro h
    exact (hcongr.mpr fun i hi => ⟨hr i hi, h i hi⟩).2

theorem own_transactions_iff_writes_two_zones :
    Along Server.next (fun s i => ∃ h, s.handle i = some h ∧ s.OwnTransaction i h) start
      [.write (firstPageWrite 0) [7], .write (firstPageWrite 1) [9]] :=
  (own_transactions_iff_writes _ _ (by decide)).mpr (by decide)

/-- The first read of all: no page is written, and yet it is answered without error. -/
theorem read_unwritten_answered :
    ¬ ∀ is : List ServerInput, (∀ i ∈ is, i.InRange) →
      Along Server.next (fun s i => ∃ h, s.handle i = some h ∧ s.OwnTransaction i h) start is := by
  intro hall
  have hin : ∀ i ∈ [ServerInput.read (firstPageWrite 0)], i.InRange := by decide
  obtain ⟨⟨h, hrun, hown⟩, -⟩ := hall _ hin
  have hreply : (start.handle (.read (firstPageWrite 0))).map (fun h => replyError h.out) =
      some 0 := by
    decide
  rw [hrun] at hreply
  have herror := (hown.read _ rfl).mpr (by decide)
  exact absurd ((Option.some.inj hreply).symm.trans herror) (by decide)

end Server

end ZnsFlash
