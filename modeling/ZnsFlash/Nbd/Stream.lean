import ZnsFlash.Library.Reader
import ZnsFlash.Nbd.Outcomes
import Mathlib.Logic.Relation

/-!
# Requests cut out of a byte stream

`handle_nbd_transmission_loop` takes each header with one read, and each payload with a loop of
reads that may stop early.

* `Server.transmissionLoop`: the loop, on a stream that arrives in pieces;
* `requestsIn`, `Server.serve`: the complete requests that a byte string contains, and the server
  that handles them one after another;
* `HeaderWhole`, `PayloadWhole`, `Server.Round`: a header that one read returns in full, a payload
  that is not cut by the end of the stream, and a request that had both;
* **`Server.executes_contained_iff`**: the loop executes the complete requests of the stream exactly
  when every header and payload up to there comes whole.
-/

namespace ZnsFlash

open Reader Relation

/-- The payload bytes that a header announces: `len`, for a write only. -/
def NbdRequest.payloadLength (r : NbdRequest) : ℕ := if r.type = 1 then r.len.toNat else 0

/-- A request that was executed: the bytes that were read as its header, the fields in the buffer
behind them, and the payload. -/
@[ext] structure Executed where
  header : List Byte
  request : NbdRequest
  payload : List Byte

/-- A connection that has ended: what was executed, and the server. It is `none` after an access
outside an array. -/
@[ext] structure Session where
  executed : List Executed
  server : Option Server

def Session.after (e : Executed) (t : Session) : Session := { t with executed := e :: t.executed }

/-- `write_buf`: what was received, and behind it what `new char[len]` has found in memory. -/
def writeBuf (heap : ℕ → Byte) (len : ℕ) (received : List Byte) : List Byte :=
  received ++ ((List.range len).drop received.length).map heap

namespace Server

/-- `handle_nbd_transmission_loop`. The struct `request` keeps the bytes that a short read does not
reach. A payload is cut by the end of the stream only, so at most one in a connection shows some
of the `heap`. -/
def transmissionLoop (heap : ℕ → Byte) :
    ℕ → Server → List Byte → Incoming Byte → Option Session
  | 0, _, _, _ => none
  | fuel + 1, s, buffer, c =>
    let (got, c') := c.read 28
    if got.length = 0 then some ⟨[], some s⟩
    else
      let buffer' := got ++ buffer.drop got.length
      match NbdRequest.decode buffer' with
      | none => some ⟨[], some s⟩ -- not reached, the struct has 28 bytes
      | some r =>
        if r.magic ≠ requestMagic then some ⟨[], some s⟩
        else
          let (received, c'') := c'.readLoop r.payloadLength r.payloadLength
          let payload := writeBuf heap r.payloadLength received
          match s.transmission r payload with
          | none => some ⟨[⟨got, r, payload⟩], if r.type = 2 then some s else none⟩
          | some (s', _) =>
            (transmissionLoop heap fuel s' buffer' c'').map (Session.after ⟨got, r, payload⟩)

end Server

/-! ## What the stream contains -/

/-- The complete requests at the front of a byte string. -/
def requestsIn (bytes : List Byte) : List Executed :=
  match NbdRequest.decode (bytes.take 28) with
  | none => []
  | some r =>
    if r.magic ≠ requestMagic then []
    else if bytes.length < 28 + r.payloadLength then []
    else
      ⟨bytes.take 28, r, (bytes.drop 28).take r.payloadLength⟩ ::
        requestsIn (bytes.drop (28 + r.payloadLength))
termination_by bytes.length
decreasing_by
  rw [List.length_drop]
  omega

/-- Requests handled one after another, until the client disconnects. -/
def Server.serve : Server → List Executed → Session
  | s, [] => ⟨[], some s⟩
  | s, e :: es =>
    match s.transmission e.request e.payload with
    | none => ⟨[e], if e.request.type = 2 then some s else none⟩
    | some (s', _) => (serve s' es).after e

/-! ## Headers and payloads that come whole -/

/-- The bytes of `ZNS_NBD_REQUEST_MAGIC` -/
def magicBytes : List Byte := BigEndian.encode 4 requestMagic.toNat

/-- A header read that returns the start of a request returns 28 bytes. -/
def HeaderWhole (c : Incoming Byte) : Prop :=
  (c.read 28).1.length ≠ 0 → (c.read 28).1.take 4 <+: magicBytes → (c.read 28).1.length = 28

/-- The payload behind a header is not cut by the end of the stream. -/
def PayloadWhole (c : Incoming Byte) : Prop :=
  ∀ r, NbdRequest.decode (c.read 28).1 = some r → r.magic = requestMagic →
    r.payloadLength ≤ (c.read 28).2.rest.length

/-- A request that came whole is handled, and the loop goes on. -/
inductive Server.Round : Server × Incoming Byte → Server × Incoming Byte → Prop
  | mk {s s' : Server} {c : Incoming Byte} {r : NbdRequest} {out : List Byte}
      (header : NbdRequest.decode (c.read 28).1 = some r) (magic : r.magic = requestMagic)
      (whole : r.payloadLength ≤ (c.read 28).2.rest.length)
      (handled : s.transmission r ((c.read 28).2.rest.take r.payloadLength) = some (s', out)) :
      Round (s, c) (s', ((c.read 28).2.readLoop r.payloadLength r.payloadLength).2)

/-! ## One round -/

section Fields

variable {bs : List Byte} {r : NbdRequest}

theorem decode_of_length (h : 28 ≤ bs.length) : ∃ r, NbdRequest.decode bs = some r :=
  ⟨_, if_neg (by omega)⟩

theorem length_of_decode (h : NbdRequest.decode bs = some r) : 28 ≤ bs.length := by
  by_contra hlt
  rw [NbdRequest.decode, if_pos (by omega)] at h
  cases h

theorem magic_iff (h : NbdRequest.decode bs = some r) :
    r.magic = requestMagic ↔ bs.take 4 = magicBytes := by
  have hlen := length_of_decode h
  have hfour : (bs.take 4).length = 4 := by
    rw [List.length_take]
    omega
  have hmagic : r.magic = BitVec.ofNat 32 (BigEndian.decode (bs.take 4)) := by
    rw [NbdRequest.decode, if_neg (by omega)] at h
    rw [← Option.some.inj h]
    rfl
  have h32 : (2 : ℕ) ^ 32 = 256 ^ 4 := by norm_num
  rw [hmagic]
  constructor
  · intro heq
    have hlt := BigEndian.decode_lt (bs.take 4)
    have hround := BigEndian.encode_decode (bs.take 4)
    rw [hfour] at hlt hround
    rw [magicBytes, ← heq, BitVec.toNat_ofNat, h32, Nat.mod_eq_of_lt hlt, hround]
  · intro heq
    rw [heq]
    exact ofNat_decode_encode h32 requestMagic

end Fields

theorem writeBuf_of_whole (heap : ℕ → Byte) {len : ℕ} {received : List Byte}
    (h : received.length = len) : writeBuf heap len received = received := by
  rw [writeBuf, h, List.drop_eq_nil_of_le (List.length_range.le), List.map_nil, List.append_nil]

namespace Server

variable {heap : ℕ → Byte} {fuel : ℕ} {s : Server} {buffer : List Byte} {c : Incoming Byte}
  {r : NbdRequest}

theorem transmissionLoop_ended (h : (c.read 28).1.length = 0) :
    s.transmissionLoop heap (fuel + 1) buffer c = some ⟨[], some s⟩ := by
  rw [transmissionLoop]
  exact if_pos h

theorem transmissionLoop_refused
    (hr : NbdRequest.decode ((c.read 28).1 ++ buffer.drop (c.read 28).1.length) = some r)
    (hm : r.magic ≠ requestMagic) :
    s.transmissionLoop heap (fuel + 1) buffer c = some ⟨[], some s⟩ := by
  rw [transmissionLoop]
  simp only [hr, if_pos hm, ite_self]

theorem transmissionLoop_round (h : (c.read 28).1.length ≠ 0)
    (hr : NbdRequest.decode ((c.read 28).1 ++ buffer.drop (c.read 28).1.length) = some r)
    (hm : r.magic = requestMagic) {payload : List Byte}
    (hpayload : writeBuf heap r.payloadLength ((c.read 28).2.rest.take r.payloadLength) = payload) :
    s.transmissionLoop heap (fuel + 1) buffer c =
      match s.transmission r payload with
      | none => some ⟨[⟨(c.read 28).1, r, payload⟩], if r.type = 2 then some s else none⟩
      | some (s', _) =>
        (s'.transmissionLoop heap fuel ((c.read 28).1 ++ buffer.drop (c.read 28).1.length)
          ((c.read 28).2.readLoop r.payloadLength r.payloadLength).2).map
            (Session.after ⟨(c.read 28).1, r, payload⟩) := by
  subst hpayload
  rw [transmissionLoop, ← ((c.read 28).2.readLoop_eq _ le_rfl).1]
  simp only [h, hr, hm, if_false, ne_eq, not_true_eq_false]

end Server

theorem requestsIn_head {bytes : List Byte} {e : Executed} (h : (requestsIn bytes).head? = some e) :
    ∃ r, NbdRequest.decode (bytes.take 28) = some r ∧ 28 + r.payloadLength ≤ bytes.length ∧
      e = ⟨bytes.take 28, r, (bytes.drop 28).take r.payloadLength⟩ := by
  rw [requestsIn] at h
  cases hr : NbdRequest.decode (bytes.take 28) with
  | none =>
    rw [hr] at h
    cases h
  | some r =>
    rw [hr] at h
    dsimp only at h
    split_ifs at h with hm hlen
    · cases h
    · cases h
    · exact ⟨r, rfl, by omega, (Option.some.inj h).symm⟩

theorem requestsIn_eq_nil {bytes : List Byte}
    (h : ∀ r, NbdRequest.decode (bytes.take 28) = some r → r.magic ≠ requestMagic) :
    requestsIn bytes = [] := by
  rw [requestsIn]
  cases hr : NbdRequest.decode (bytes.take 28) with
  | none => rfl
  | some r => exact if_pos (h r hr)

theorem requestsIn_nil : requestsIn [] = [] := by
  refine requestsIn_eq_nil fun r hr => ?_
  have hlen := length_of_decode hr
  simp at hlen

section Whole

variable {c : Incoming Byte} {r : NbdRequest}

theorem read_of_decode (hr : NbdRequest.decode (c.read 28).1 = some r) :
    (c.read 28).1 = c.rest.take 28 ∧ (c.read 28).2.rest = c.rest.drop 28 ∧
      (c.read 28).1.length = 28 := by
  have hfull : (c.read 28).1.length = 28 := le_antisymm (c.length_read_le 28) (length_of_decode hr)
  have htake := c.read_eq_take 28
  have hdrop := c.read_rest 28
  rw [hfull] at htake hdrop
  exact ⟨htake, hdrop, hfull⟩

theorem requestsIn_of_whole (hr : NbdRequest.decode (c.read 28).1 = some r)
    (hm : r.magic = requestMagic) (hwhole : r.payloadLength ≤ (c.read 28).2.rest.length) :
    requestsIn c.rest =
      ⟨(c.read 28).1, r, (c.read 28).2.rest.take r.payloadLength⟩ ::
        requestsIn ((c.read 28).2.readLoop r.payloadLength r.payloadLength).2.rest := by
  obtain ⟨htake, hdrop, hfull⟩ := read_of_decode hr
  have hlen : ¬ c.rest.length < 28 + r.payloadLength := by
    rw [htake, List.length_take] at hfull
    rw [hdrop, List.length_drop] at hwhole
    omega
  rw [((c.read 28).2.readLoop_eq _ le_rfl).2, hdrop, List.drop_drop, htake, requestsIn, ← htake, hr]
  simp only [ne_eq, hm, not_true_eq_false, if_false, hlen]

end Whole

namespace Server

theorem serve_head (s : Server) (es : List Executed) :
    (s.serve es).executed.head? = es.head? := by
  cases es with
  | nil => rfl
  | cons e es =>
    rw [serve]
    cases s.transmission e.request e.payload <;> rfl

variable {heap : ℕ → Byte} {fuel : ℕ} {s : Server} {buffer : List Byte} {c : Incoming Byte}

/-! ## Whole headers and payloads are enough -/

theorem requestsIn_of_refused {r : NbdRequest} (hbuf : buffer.length = 28) (hheader : HeaderWhole c)
    (hend : (c.read 28).1.length ≠ 0)
    (hr : NbdRequest.decode ((c.read 28).1 ++ buffer.drop (c.read 28).1.length) = some r)
    (hm : r.magic ≠ requestMagic) : requestsIn c.rest = [] := by
  refine requestsIn_eq_nil fun r' hr' hm' => ?_
  have hmagic := (magic_iff hr').mp hm'
  have hfull : (c.read 28).1.length = 28 := by
    refine hheader hend ?_
    rw [← hmagic, c.read_eq_take 28, List.take_take, List.take_take]
    exact List.take_prefix_take_left (by omega)
  have htake := c.read_eq_take 28
  have hstale : buffer.drop (c.read 28).1.length = [] :=
    List.drop_eq_nil_of_le (by rw [hbuf, hfull])
  rw [hfull] at htake
  rw [hstale, List.append_nil, htake, hr'] at hr
  exact hm (Option.some.inj hr ▸ hm')

theorem executes_of_whole (hbuf : buffer.length = 28) (hfuel : c.rest.length < fuel)
    (hwhole : ∀ t d, ReflTransGen Round (s, c) (t, d) → HeaderWhole d ∧ PayloadWhole d) :
    s.transmissionLoop heap fuel buffer c = some (s.serve (requestsIn c.rest)) := by
  induction fuel generalizing s buffer c with
  | zero => omega
  | succ fuel ih =>
    obtain ⟨hheader, hpayload⟩ := hwhole s c .refl
    by_cases hend : (c.read 28).1.length = 0
    · have hnil : c.rest = [] := (c.length_read_eq_zero (by decide)).mp hend
      rw [transmissionLoop_ended hend, hnil, requestsIn_nil]
      rfl
    have hle := c.length_read_le 28
    have hlen : 28 ≤ ((c.read 28).1 ++ buffer.drop (c.read 28).1.length).length := by
      rw [List.length_append, List.length_drop]
      omega
    obtain ⟨r, hr⟩ := decode_of_length hlen
    by_cases hm : r.magic = requestMagic
    -- a header that starts with the magic number comes whole, so nothing stale is decoded
    · have hstart : (c.read 28).1.take 4 <+: magicBytes := by
        rw [← (magic_iff hr).mp hm, List.take_append]
        exact List.prefix_append _ _
      have hfull := hheader hend hstart
      have hstale : buffer.drop (c.read 28).1.length = [] :=
        List.drop_eq_nil_of_le (by rw [hbuf, hfull])
      have hr' := hr
      rw [hstale, List.append_nil] at hr'
      have hcome := hpayload r hr' hm
      have hbody := writeBuf_of_whole heap (List.length_take_of_le hcome)
      rw [transmissionLoop_round hend hr hm hbody, requestsIn_of_whole hr' hm hcome, serve, hstale,
        List.append_nil]
      cases hrun : s.transmission r ((c.read 28).2.rest.take r.payloadLength) with
      | none => rfl
      | some handled =>
        obtain ⟨s', out⟩ := handled
        have hround : Round (s, c) (s', _) := .mk hr' hm hcome hrun
        -- the fuel: each round takes at least the header from the stream
        have hshort : ((c.read 28).2.readLoop r.payloadLength r.payloadLength).2.rest.length <
            fuel := by
          rw [((c.read 28).2.readLoop_eq _ le_rfl).2, (read_of_decode hr').2.1, List.drop_drop,
            List.length_drop]
          have hrest := congrArg List.length (c.read_append 28)
          rw [List.length_append] at hrest
          omega
        have hnext := ih hfull hshort fun t d h => hwhole t d (.head hround h)
        dsimp only
        rw [hnext]
        rfl
    · rw [transmissionLoop_refused hr hm, requestsIn_of_refused hbuf hheader hend hr hm]
      rfl

/-! ## A cut header or payload is executed -/

theorem take_overwritten {got : List Byte} (hbuf : buffer.take 4 = magicBytes)
    (hstart : got.take 4 <+: magicBytes) :
    (got ++ buffer.drop got.length).take 4 = magicBytes := by
  have hfour : magicBytes.length = 4 := BigEndian.length_encode 4 _
  by_cases hlen : 4 ≤ got.length
  · rw [List.take_append_of_le_length hlen]
    exact hstart.eq_of_length (by rw [List.length_take_of_le hlen, hfour])
  · have hgot : got = buffer.take got.length := by
      rw [List.take_of_length_le (by omega)] at hstart
      have htake := List.prefix_iff_eq_take.mp hstart
      rw [← hbuf, List.take_take, min_eq_left (by omega)] at htake
      exact htake
    rw [hgot, List.length_take, min_eq_left, List.take_append_drop, hbuf]
    have hle := congrArg List.length hgot
    rw [List.length_take] at hle
    omega

/-- The loop executes the requests of the stream from here, with the magic number left in the
struct. -/
structure Served (heap : ℕ → Byte) (s : Server) (buffer : List Byte) (c : Incoming Byte) : Prop where
  length : buffer.length = 28
  magic : buffer.take 4 = magicBytes
  served : ∃ fuel, c.rest.length ≤ fuel ∧
    s.transmissionLoop heap (fuel + 1) buffer c = some (s.serve (requestsIn c.rest))

/-- A read that returns the start of a request makes the loop execute one: it is the first of the
stream. -/
theorem Served.first (h : Served heap s buffer c) (hne : (c.read 28).1.length ≠ 0)
    (hstart : (c.read 28).1.take 4 <+: magicBytes) :
    ∃ r, NbdRequest.decode ((c.read 28).1 ++ buffer.drop (c.read 28).1.length) = some r ∧
      r.magic = requestMagic ∧ (c.read 28).1 = c.rest.take 28 ∧
      NbdRequest.decode (c.rest.take 28) = some r ∧ 28 + r.payloadLength ≤ c.rest.length := by
  have hlen : 28 ≤ ((c.read 28).1 ++ buffer.drop (c.read 28).1.length).length := by
    have hle := c.length_read_le 28
    rw [List.length_append, List.length_drop, h.length]
    omega
  obtain ⟨r, hr⟩ := decode_of_length hlen
  have hm : r.magic = requestMagic := (magic_iff hr).mpr (take_overwritten h.magic hstart)
  obtain ⟨fuel, -, hrun⟩ := h.served
  rw [transmissionLoop_round hne hr hm rfl] at hrun
  have hhead := congrArg (fun t : Option Session => t.bind fun t => t.executed.head?) hrun
  rw [Option.bind_some, serve_head] at hhead
  cases htrans : s.transmission r _ with
  | none =>
    rw [htrans] at hhead
    obtain ⟨r', hr', hle, he⟩ := requestsIn_head hhead.symm
    obtain ⟨hgot, rfl, -⟩ := Executed.mk.inj he
    exact ⟨r, hr, hm, hgot, hr', hle⟩
  | some handled =>
    rw [htrans] at hhead hrun
    obtain ⟨t, ht, -⟩ := Option.map_eq_some_iff.mp hrun
    dsimp only at hhead
    rw [ht] at hhead
    obtain ⟨r', hr', hle, he⟩ := requestsIn_head hhead.symm
    obtain ⟨hgot, rfl, -⟩ := Executed.mk.inj he
    exact ⟨r, hr, hm, hgot, hr', hle⟩

theorem Served.headerWhole (h : Served heap s buffer c) : HeaderWhole c := by
  intro hne hstart
  obtain ⟨r, -, -, hgot, hr, -⟩ := h.first hne hstart
  rw [← hgot] at hr
  exact (read_of_decode hr).2.2

theorem Served.payloadWhole (h : Served heap s buffer c) : PayloadWhole c := by
  intro r hr hm
  obtain ⟨-, hdrop, hfull⟩ := read_of_decode hr
  have hstart : (c.read 28).1.take 4 <+: magicBytes := by
    rw [(magic_iff hr).mp hm]
  obtain ⟨r', -, -, hgot, hr', hle⟩ := h.first (by omega) hstart
  rw [← hgot, hr] at hr'
  obtain rfl := Option.some.inj hr'
  rw [hdrop, List.length_drop]
  omega

theorem Served.round {s' : Server} {c' : Incoming Byte} (h : Served heap s buffer c)
    (hround : Round (s, c) (s', c')) : Served heap s' (c.read 28).1 c' := by
  cases hround with
  | @mk _ _ _ r out hr hm hcome hrun =>
    obtain ⟨htake, hdrop, hfull⟩ := read_of_decode hr
    refine ⟨hfull, (magic_iff hr).mp hm, ?_⟩
    obtain ⟨fuel, hfuel, hserved⟩ := h.served
    have hstale : buffer.drop (c.read 28).1.length = [] :=
      List.drop_eq_nil_of_le (by rw [h.length, hfull])
    have hr' : NbdRequest.decode ((c.read 28).1 ++ buffer.drop (c.read 28).1.length) = some r := by
      rw [hstale, List.append_nil]
      exact hr
    have hbody := writeBuf_of_whole heap (List.length_take_of_le hcome)
    rw [transmissionLoop_round (by omega) hr' hm hbody, requestsIn_of_whole hr hm hcome, serve,
      hstale, List.append_nil] at hserved
    dsimp only at hserved
    rw [hrun] at hserved
    obtain ⟨t, ht, hafter⟩ := Option.map_eq_some_iff.mp hserved
    have hrest := congrArg List.length (c.read_append 28)
    have hshort := ((c.read 28).2.readLoop_eq r.payloadLength le_rfl).2
    rw [List.length_append] at hrest
    obtain ⟨fuel, rfl⟩ : ∃ k, fuel = k + 1 := ⟨fuel - 1, by omega⟩
    refine ⟨fuel, ?_, ?_⟩
    · rw [hshort, List.length_drop]
      omega
    · rw [ht]
      have hlist := congrArg Session.executed hafter
      have hserver := congrArg Session.server hafter
      exact congrArg some (Session.ext (List.cons.inj hlist).2 hserver)

theorem Served.whole (h : Served heap s buffer c) {t : Server} {d : Incoming Byte}
    (hrun : ReflTransGen Round (s, c) (t, d)) : HeaderWhole d ∧ PayloadWhole d := by
  have hend : ∃ buffer', Served heap t buffer' d := by
    generalize hx : (s, c) = x at hrun
    generalize hy : (t, d) = y at hrun
    induction hrun using ReflTransGen.head_induction_on generalizing s c buffer with
    | refl =>
      obtain ⟨rfl, rfl⟩ := Prod.mk.inj (hx.trans hy.symm)
      exact ⟨buffer, h⟩
    | head hround _ ih =>
      subst hx
      exact ih (h.round hround) rfl
  obtain ⟨buffer', hd⟩ := hend
  exact ⟨hd.headerWhole, hd.payloadWhole⟩

/-! ## Requests and the byte stream -/

/-- **The loop executes the complete requests of the stream**, whatever is left in memory, exactly
when every header and payload that it comes to is received whole. -/
theorem executes_contained_iff (s : Server) (c : Incoming Byte) :
    (∀ heap buffer fuel, buffer.length = 28 → c.rest.length < fuel →
      s.transmissionLoop heap fuel buffer c = some (s.serve (requestsIn c.rest))) ↔
    ∀ t d, ReflTransGen Round (s, c) (t, d) → HeaderWhole d ∧ PayloadWhole d := by
  constructor
  · intro h t d hrun
    let r : NbdRequest := ⟨requestMagic, 0, 0, 0, 0⟩
    have hlen : r.encode.length = 28 := r.length_encode
    have hmagic : r.encode.take 4 = magicBytes := (magic_iff r.decode_encode_self).mp rfl
    have hserved : Served (fun _ => 0) s r.encode c :=
      ⟨hlen, hmagic, c.rest.length, le_rfl, h _ _ _ hlen (Nat.lt_succ_self _)⟩
    exact hserved.whole hrun
  · intro h heap buffer fuel hbuf hfuel
    exact executes_of_whole hbuf hfuel h

/-- The header of a write of one byte to page 0 of zone 0, and the connection ends. -/
def cutWrite : Incoming Byte := ⟨(firstPageWrite 0).encode, fun _ => 27⟩

theorem cutWrite_read :
    (cutWrite.read 28).1 = (firstPageWrite 0).encode ∧ (cutWrite.read 28).2.rest = [] :=
  ⟨List.take_of_length_le (NbdRequest.length_encode _).le,
    List.drop_eq_nil_of_le (NbdRequest.length_encode _).le⟩

/-- **A write without its payload is executed** with what the heap holds. -/
theorem cut_write_executed :
    ¬ ∀ (s : Server) (c : Incoming Byte) (heap : ℕ → Byte) (buffer : List Byte) (fuel : ℕ),
      s.Reach → buffer.length = 28 → c.rest.length < fuel →
        s.transmissionLoop heap fuel buffer c = some (s.serve (requestsIn c.rest)) := by
  intro h
  let r := firstPageWrite 0
  have hlen : r.encode.length = 28 := r.length_encode
  have hmagic : r.encode.take 4 = magicBytes := (magic_iff r.decode_encode_self).mp rfl
  have hserved : Served (fun _ => 7) start r.encode cutWrite :=
    ⟨hlen, hmagic, 28, hlen.le, h _ _ _ _ _ (.powerUp _ _) hlen (hlen.trans_lt (by decide))⟩
  obtain ⟨hgot, hrest⟩ := cutWrite_read
  have hwhole := hserved.payloadWhole r (hgot ▸ r.decode_encode_self) rfl
  rw [hrest] at hwhole
  exact absurd hwhole (by decide)

end Server

end ZnsFlash
