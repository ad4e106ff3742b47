import ZnsFlash.Nbd.Disk
import ZnsFlash.Nbd.Stream

/-!
# The server behind its sockets

`start_nbd_server_mod` takes one connection after another and runs the transmission loop on each;
`management_socket_thread` of `sim_main.cpp` does the same for zone resets. The two threads alternate
between requests: a round of the loop and a reset are taken as a whole, though no lock makes them so.

* `transmissionRound`: one round of the loop; `transmissionLoop_eq_round`: the loop makes such rounds;
* `SocketServer`, `SocketEvent`, `SocketServer.step`: both threads, on streams that arrive in pieces;
* `MessageServer`, `MessageEvent`, `MessageServer.step`: the same on whole messages;
* `WholeStream`: every header and payload of a stream comes whole; `transmissionRound_of_whole`;
* **`sockets_refine_messages`**: the pieces do not matter, in any order of the two threads;
* `MessageServer.inputs`, **`sockets_keep_latest`**: what is on the disk after any such run.
-/

namespace ZnsFlash

open Reader Relation Runs

/-! ## One round of the loop -/

/-- A connection: the struct `request` and what is still to come. -/
structure Connection where
  request : List Byte
  stream : Incoming Byte

/-- How a round ends: the loop is left; an access outside an array; or a request was handled. -/
inductive RoundEnd
  | left (executed : Option Executed)
  | crashed (executed : Executed)
  | handled (executed : Executed) (server : Server) (out : List Byte) (connection : Connection)

/-- One round of `handle_nbd_transmission_loop`. -/
def Server.transmissionRound (heap : ℕ → Byte) (s : Server) (c : Connection) : RoundEnd :=
  let (got, stream) := c.stream.read 28
  if got.length = 0 then .left none
  else
    let request := got ++ c.request.drop got.length
    match NbdRequest.decode request with
    | none => .left none
    | some r =>
      if r.magic ≠ requestMagic then .left none
      else
        let (received, stream) := stream.readLoop r.payloadLength r.payloadLength
        let e : Executed := ⟨got, r, writeBuf heap r.payloadLength received⟩
        match s.transmission r e.payload with
        | none => if r.type = 2 then .left (some e) else .crashed e
        | some (s', out) => .handled e s' out ⟨request, stream⟩

theorem Server.transmissionLoop_eq_round (heap : ℕ → Byte) (fuel : ℕ) (s : Server) (c : Connection) :
    s.transmissionLoop heap (fuel + 1) c.request c.stream =
      match s.transmissionRound heap c with
      | .left e => some ⟨e.toList, some s⟩
      | .crashed e => some ⟨[e], none⟩
      | .handled e s' _ c' => (s'.transmissionLoop heap fuel c'.request c'.stream).map (Session.after e) := by
  rw [transmissionLoop, transmissionRound]
  dsimp only
  split_ifs with hend
  · rfl
  · cases NbdRequest.decode ((c.stream.read 28).1 ++ c.request.drop (c.stream.read 28).1.length) with
    | none => rfl
    | some r =>
      dsimp only
      by_cases hm : r.magic ≠ requestMagic
      · rw [if_pos hm, if_pos hm]
        rfl
      · rw [if_neg hm, if_neg hm]
        cases s.transmission r _ with
        | none =>
          dsimp only
          split_ifs <;> rfl
        | some handled => rfl

/-! ## Both threads -/

/-- The server, the connection of the transmission loop, and the replies so far. There is no server
after an access outside an array. -/
structure SocketServer where
  server : Option Server
  connection : Option Connection
  sent : List (List Byte)

/-- What happens next: a client connects to the transmission loop, with whatever the stack holds in
`request`; the loop makes a round; or a client of the management socket is served. -/
inductive SocketEvent
  | accept (request : List Byte) (stream : Incoming Byte)
  | round (heap : ℕ → Byte)
  | manage (stream : Incoming Byte)

/-- `zone_id`, a number of the host. -/
def zoneIdOf (bytes : List Byte) : BitVec 64 := BitVec.ofNat 64 (BigEndian.decode bytes.reverse)

/-- The server after a zone reset, with its acknowledgement. -/
def resetServer (sent : List (List Byte)) : Option Handled → Option Server × List (List Byte)
  | none => (none, sent)
  | some h => (some h.server, sent ++ [h.out])

/-- A zone reset, if its number came whole. -/
def manageServer (s : Option Server) (sent : List (List Byte)) (zoneId : Option (BitVec 64)) :
    Option Server × List (List Byte) :=
  match s, zoneId with
  | some s, some z => resetServer sent (s.managementReset z)
  | s, _ => (s, sent)

namespace SocketServer

/-- After `main` has reset the design. -/
def start (junk : Validator) (addr : BitVec 32) : SocketServer := ⟨some (.powerUp junk addr), none, []⟩

def step (t : SocketServer) : SocketEvent → SocketServer
  -- while a connection is open, further clients wait in the backlog
  | .accept request stream => { t with connection := t.connection.or (some ⟨request, stream⟩) }
  | .round heap =>
    match t.server, t.connection with
    | some s, some c =>
      match s.transmissionRound heap c with
      | .left _ => { t with connection := none }
      | .crashed _ => { t with server := none }
      | .handled _ s' out c' => ⟨some s', some c', t.sent ++ [out]⟩
    | _, _ => t
  | .manage stream =>
    let (received, _) := stream.readLoop 8 8
    let r := manageServer t.server t.sent (if received.length = 8 then some (zoneIdOf received) else none)
    { t with server := r.1, sent := r.2 }

end SocketServer

/-! ## The same on messages -/

/-- The server with the requests that are still to come on the connection. -/
structure MessageServer where
  server : Option Server
  requests : Option (List Executed)
  sent : List (List Byte)

inductive MessageEvent
  | accept (requests : List Executed)
  | round
  | manage (zoneId : Option (BitVec 64))

/-- What the bytes of a client say. -/
def SocketEvent.message : SocketEvent → MessageEvent
  | .accept _ stream => .accept (requestsIn stream.rest)
  | .round _ => .round
  | .manage stream =>
    .manage (if 8 ≤ stream.rest.length then some (zoneIdOf (stream.rest.take 8)) else none)

namespace MessageServer

def start (junk : Validator) (addr : BitVec 32) : MessageServer := ⟨some (.powerUp junk addr), none, []⟩

def step (m : MessageServer) : MessageEvent → MessageServer
  | .accept requests => { m with requests := m.requests.or (some requests) }
  | .round =>
    match m.server, m.requests with
    | some _, some [] => { m with requests := none }
    | some s, some (e :: es) =>
      match s.transmission e.request e.payload with
      | none => if e.request.type = 2 then { m with requests := none } else { m with server := none }
      | some (s', out) => ⟨some s', some es, m.sent ++ [out]⟩
    | _, _ => m
  | .manage zoneId =>
    let r := manageServer m.server m.sent zoneId
    { m with server := r.1, sent := r.2 }

end MessageServer

/-! ## Whole streams -/

/-- What follows a request of a stream. -/
inductive NextRequest : Incoming Byte → Incoming Byte → Prop
  | mk {c : Incoming Byte} {r : NbdRequest} (header : NbdRequest.decode (c.read 28).1 = some r)
      (magic : r.magic = requestMagic) (whole : r.payloadLength ≤ (c.read 28).2.rest.length) :
      NextRequest c ((c.read 28).2.readLoop r.payloadLength r.payloadLength).2

/-- **Every header and payload of the stream comes whole.** -/
def WholeStream (c : Incoming Byte) : Prop :=
  ∀ d, ReflTransGen NextRequest c d → HeaderWhole d ∧ PayloadWhole d

/-- Clients of the transmission loop send whole streams, and the struct has 28 bytes. -/
def SocketEvent.Whole : SocketEvent → Prop
  | .accept request stream => request.length = 28 ∧ WholeStream stream
  | _ => True

/-- The requests of a connection. -/
structure Connection.Carries (c : Connection) (es : List Executed) : Prop where
  length : c.request.length = 28
  whole : WholeStream c.stream
  requests : requestsIn c.stream.rest = es

theorem WholeStream.next {c d : Incoming Byte} (h : WholeStream c) (hnext : NextRequest c d) :
    WholeStream d :=
  fun _ hrun => h _ (.head hnext hrun)

section Round

variable {c : Connection} {es : List Executed} (heap : ℕ → Byte) (s : Server)

/-- What a round does with the requests still to come. -/
def RoundTakes (heap : ℕ → Byte) (s : Server) (c : Connection) : List Executed → Prop
  | [] => s.transmissionRound heap c = .left none
  | e :: es => ∃ c' : Connection, c'.Carries es ∧ s.transmissionRound heap c =
      match s.transmission e.request e.payload with
      | none => if e.request.type = 2 then .left (some e) else .crashed e
      | some (s', out) => .handled e s' out c'

/-- **A round takes the next request** of a whole stream, and leaves the loop when there is none. -/
theorem transmissionRound_of_whole (h : c.Carries es) : RoundTakes heap s c es := by
  obtain ⟨hheader, hpayload⟩ := h.whole _ .refl
  by_cases hend : (c.stream.read 28).1.length = 0
  · have hnil : c.stream.rest = [] := (c.stream.length_read_eq_zero (by decide)).mp hend
    have hes : es = [] := by rw [← h.requests, hnil, requestsIn_nil]
    subst hes
    show s.transmissionRound heap c = .left none
    rw [Server.transmissionRound]
    exact if_pos hend
  have hle := c.stream.length_read_le 28
  have hlen : 28 ≤ ((c.stream.read 28).1 ++ c.request.drop (c.stream.read 28).1.length).length := by
    rw [List.length_append, List.length_drop, h.length]
    omega
  obtain ⟨r, hr⟩ := decode_of_length hlen
  by_cases hm : r.magic = requestMagic
  -- as in the loop: the header is whole, and the struct holds nothing stale
  · have hstart : (c.stream.read 28).1.take 4 <+: magicBytes := by
      rw [← (magic_iff hr).mp hm, List.take_append]
      exact List.prefix_append _ _
    have hfull := hheader hend hstart
    have hstale : c.request.drop (c.stream.read 28).1.length = [] :=
      List.drop_eq_nil_of_le (by rw [h.length, hfull])
    have hr' := hr
    rw [hstale, List.append_nil] at hr'
    have hcome := hpayload r hr' hm
    have hrequests := requestsIn_of_whole hr' hm hcome
    rw [h.requests] at hrequests
    subst hrequests
    have hnext : NextRequest c.stream _ := .mk hr' hm hcome
    refine ⟨⟨(c.stream.read 28).1, _⟩, ⟨hfull, h.whole.next hnext, rfl⟩, ?_⟩
    have hreceived := ((c.stream.read 28).2.readLoop_eq r.payloadLength le_rfl).1
    have hbody := writeBuf_of_whole heap (List.length_take_of_le hcome)
    rw [Server.transmissionRound]
    simp only [hend, hstale, List.append_nil, hr', hm, hreceived, hbody, if_false, ne_eq, not_true_eq_false]
  · have hes : es = [] := by
      rw [← h.requests]
      exact Server.requestsIn_of_refused h.length hheader hend hr hm
    subst hes
    show s.transmissionRound heap c = .left none
    rw [Server.transmissionRound]
    simp only [hr, if_pos hm, ite_self]

end Round

/-! ## The refinement -/

/-- **The two servers agree**: the open connection carries the requests. -/
structure Relays (t : SocketServer) (m : MessageServer) : Prop where
  server : t.server = m.server
  connection : Option.Rel Connection.Carries t.connection m.requests
  sent : t.sent = m.sent

theorem relays_start (junk : Validator) (addr : BitVec 32) :
    Relays (.start junk addr) (.start junk addr) := ⟨rfl, .none, rfl⟩

section Steps

variable {t : SocketServer} {m : MessageServer}

theorem Relays.accept (h : Relays t m) {request : List Byte} {stream : Incoming Byte}
    (hrequest : request.length = 28) (hstream : WholeStream stream) :
    Relays (t.step (.accept request stream)) (m.step (.accept (requestsIn stream.rest))) := by
  obtain ⟨server, connection, sent⟩ := t
  obtain ⟨server', requests, sent'⟩ := m
  obtain ⟨hserver, hconnection, hsent⟩ := h
  cases hconnection with
  | none => exact ⟨hserver, .some ⟨hrequest, hstream, rfl⟩, hsent⟩
  | some hc => exact ⟨hserver, .some hc, hsent⟩

theorem Relays.manage (h : Relays t m) (stream : Incoming Byte) :
    Relays (t.step (.manage stream)) (m.step (SocketEvent.message (.manage stream))) := by
  have hreceived := (stream.readLoop_eq 8 le_rfl).1
  have hlength : (stream.rest.take 8).length = 8 ↔ 8 ≤ stream.rest.length := by
    rw [List.length_take]
    omega
  refine ⟨?_, h.connection, ?_⟩ <;>
    simp only [SocketServer.step, MessageServer.step, SocketEvent.message, hreceived, hlength, h.server,
      h.sent]

theorem Relays.round (h : Relays t m) (heap : ℕ → Byte) :
    Relays (t.step (.round heap)) (m.step .round) := by
  obtain ⟨server, connection, sent⟩ := t
  obtain ⟨server', requests, sent'⟩ := m
  obtain ⟨hserver, hconnection, hsent⟩ := h
  dsimp only at hserver hsent
  subst hserver hsent
  cases server with
  | none => exact ⟨rfl, hconnection, rfl⟩
  | some s =>
    cases hconnection with
    | none => exact ⟨rfl, .none, rfl⟩
    | @some c es hc =>
      have htakes := transmissionRound_of_whole heap s hc
      cases es with
      | nil =>
        have hleft : s.transmissionRound heap c = .left none := htakes
        simp only [SocketServer.step, MessageServer.step, hleft]
        exact ⟨rfl, .none, rfl⟩
      | cons e es =>
        obtain ⟨c', hc', hround⟩ := htakes
        simp only [SocketServer.step, MessageServer.step, hround]
        cases s.transmission e.request e.payload with
        | some handled => exact ⟨rfl, .some hc', rfl⟩
        | none =>
          dsimp only
          split_ifs
          · exact ⟨rfl, .none, rfl⟩
          · exact ⟨rfl, .some hc, rfl⟩

theorem Relays.step (h : Relays t m) {e : SocketEvent} (he : e.Whole) :
    Relays (t.step e) (m.step e.message) := by
  cases e with
  | accept request stream => exact h.accept he.1 he.2
  | round heap => exact h.round heap
  | manage stream => exact h.manage stream

theorem Relays.run (h : Relays t m) {es : List SocketEvent} (hes : ∀ e ∈ es, e.Whole) :
    Relays (run SocketServer.step t es) (run MessageServer.step m (es.map SocketEvent.message)) := by
  induction es generalizing t m with
  | nil => exact h
  | cons e es ih =>
    exact ih (h.step (hes e List.mem_cons_self)) fun e' he' => hes e' (List.mem_cons_of_mem e he')

end Steps

/-- **The pieces do not matter.** In any order in which clients connect, the loop makes its rounds and
zone resets come in, a server whose clients send whole requests is in the state of a server that is
handed the messages, and has sent the same replies, whatever was left in memory and however the
streams were cut. -/
theorem sockets_refine_messages (junk : Validator) (addr : BitVec 32) (es : List SocketEvent)
    (hes : ∀ e ∈ es, e.Whole) :
    let t := run SocketServer.step (.start junk addr) es
    let m := run MessageServer.step (.start junk addr) (es.map SocketEvent.message)
    t.server = m.server ∧ t.sent = m.sent ∧ t.connection.isSome = m.requests.isSome := by
  intro t m
  have h : Relays t m := (relays_start junk addr).run hes
  refine ⟨h.server, h.sent, ?_⟩
  have hconnection := h.connection
  generalize t.connection = connection, m.requests = requests at hconnection ⊢
  cases hconnection <;> rfl

/-! ## Clients that send whole messages -/

/-- What a client sends for a request. -/
def Executed.encode (e : Executed) : List Byte := e.request.encode ++ e.payload

/-- The fields of the header are right, and the payload has the length that they say. -/
structure Executed.Formed (e : Executed) : Prop where
  header : e.header = e.request.encode
  magic : e.request.magic = requestMagic
  payload : e.payload.length = e.request.payloadLength

/-- The stream of a client. -/
def encodeAll (es : List Executed) : List Byte := es.flatMap Executed.encode

section Encode

variable {e : Executed} {es : List Executed} {c d : Incoming Byte}

theorem requestsIn_encode (he : e.Formed) (rest : List Byte) :
    requestsIn (e.encode ++ rest) = e :: requestsIn rest := by
  have hbytes : e.encode ++ rest = e.request.encode ++ (e.payload ++ rest) := List.append_assoc _ _ _
  have htake : (e.encode ++ rest).take 28 = e.request.encode := by
    rw [hbytes]
    exact List.take_left' e.request.length_encode
  have hdrop : (e.encode ++ rest).drop 28 = e.payload ++ rest := by
    rw [hbytes]
    exact e.request.drop_encode _
  have hpayload : (e.payload ++ rest).take e.request.payloadLength = e.payload := List.take_left' he.payload
  have hrest : (e.encode ++ rest).drop (28 + e.request.payloadLength) = rest := by
    rw [← List.drop_drop, hdrop]
    exact List.drop_left' he.payload
  have hlen : ¬ (e.encode ++ rest).length < 28 + e.request.payloadLength := by
    rw [hbytes, List.length_append, List.length_append, e.request.length_encode, he.payload]
    omega
  rw [requestsIn, htake, e.request.decode_encode_self]
  dsimp only
  rw [if_neg (not_not_intro he.magic), if_neg hlen, hdrop, hpayload, hrest, ← he.header]

/-- **Round trip**: the server finds the requests that were sent, whatever follows them. -/
theorem requestsIn_encodeAll (hes : ∀ e ∈ es, e.Formed) (rest : List Byte) :
    requestsIn (encodeAll es ++ rest) = es ++ requestsIn rest := by
  induction es with
  | nil => rfl
  | cons e es ih =>
    have hbytes : encodeAll (e :: es) ++ rest = e.encode ++ (encodeAll es ++ rest) := by
      simp [encodeAll]
    rw [hbytes, requestsIn_encode (hes e List.mem_cons_self),
      ih fun e' he' => hes e' (List.mem_cons_of_mem e he')]
    rfl

/-- The pieces of a stream have room for a header. -/
def HeaderPieces (c : Incoming Byte) : Prop := ∀ i, 27 ≤ c.most i

theorem HeaderPieces.read (h : HeaderPieces c) (n : ℕ) : HeaderPieces (c.read n).2 := fun i => h (i + 1)

theorem HeaderPieces.readLoop (h : HeaderPieces c) (fuel n : ℕ) : HeaderPieces (c.readLoop fuel n).2 := by
  induction fuel generalizing n c with
  | zero => exact h
  | succ fuel ih =>
    rw [Incoming.readLoop]
    split_ifs
    · exact h
    · dsimp only
      split_ifs
      · exact h.read n
      · exact ih (h.read n) _

theorem HeaderPieces.header (h : HeaderPieces c) (hc : c.rest = encodeAll (e :: es)) :
    (c.read 28).1 = e.request.encode ∧ (c.read 28).2.rest = e.payload ++ encodeAll es := by
  have hmost : min 28 (c.most 0 + 1) = 28 := min_eq_left (by have := h 0; omega)
  have hbytes : c.rest = e.request.encode ++ (e.payload ++ encodeAll es) := by
    rw [hc]
    simp [encodeAll, Executed.encode]
  rw [Incoming.read, hmost, hbytes]
  exact ⟨List.take_left' e.request.length_encode, e.request.drop_encode _⟩

theorem HeaderPieces.next (h : HeaderPieces c) (hc : c.rest = encodeAll es) (hes : ∀ e ∈ es, e.Formed)
    (hnext : NextRequest c d) :
    ∃ es', HeaderPieces d ∧ d.rest = encodeAll es' ∧ ∀ e ∈ es', e.Formed := by
  cases hnext with
  | @mk r header magic whole =>
    cases es with
    | nil =>
      have hlen := length_of_decode header
      rw [c.read_eq_take, hc] at hlen
      simp [encodeAll] at hlen
    | cons e es =>
      obtain ⟨hgot, hrest⟩ := h.header hc
      rw [hgot, e.request.decode_encode_self] at header
      obtain rfl := Option.some.inj header
      refine ⟨es, (h.read 28).readLoop _ _, ?_, fun e' he' => hes e' (List.mem_cons_of_mem e he')⟩
      rw [((c.read 28).2.readLoop_eq _ le_rfl).2, hrest]
      exact List.drop_left' (hes e List.mem_cons_self).payload

/-- **Whole messages in pieces with room for a header** are a whole stream. -/
theorem wholeStream_of_encodeAll (h : HeaderPieces c) (hc : c.rest = encodeAll es)
    (hes : ∀ e ∈ es, e.Formed) : WholeStream c := by
  intro d hrun
  have hinv : ∃ es', HeaderPieces d ∧ d.rest = encodeAll es' ∧ ∀ e ∈ es', e.Formed := by
    induction hrun with
    | refl => exact ⟨es, h, hc, hes⟩
    | tail _ hnext ih =>
      obtain ⟨es', h', hc', hes'⟩ := ih
      exact h'.next hc' hes' hnext
  obtain ⟨es', h', hd, hes'⟩ := hinv
  cases es' with
  | nil =>
    have hnil : (d.read 28).1 = [] := by
      rw [d.read_eq_take, hd]
      exact List.take_nil
    refine ⟨fun hne => absurd (congrArg List.length hnil) hne, fun r hr => ?_⟩
    have hlen := length_of_decode hr
    rw [hnil] at hlen
    exact absurd hlen (by decide)
  | cons e es' =>
    obtain ⟨hgot, hrest⟩ := h'.header hd
    refine ⟨fun _ _ => by rw [hgot, e.request.length_encode], fun r hr _ => ?_⟩
    rw [hgot, e.request.decode_encode_self] at hr
    rw [← Option.some.inj hr, hrest, List.length_append, (hes' e List.mem_cons_self).payload]
    omega

end Encode

/-- The header of a write of one byte to page 0 of zone 3, with its payload, and a disconnect. -/
def writeAndLeave : List Executed :=
  [⟨(Server.firstPageWrite 3).encode, Server.firstPageWrite 3, [7]⟩,
    ⟨NbdRequest.encode ⟨requestMagic, 2, 0, 0, 0⟩, ⟨requestMagic, 2, 0, 0, 0⟩, []⟩]

theorem writeAndLeave_formed : ∀ e ∈ writeAndLeave, e.Formed := by
  intro e he
  simp only [writeAndLeave, List.mem_cons, List.not_mem_nil, or_false] at he
  rcases he with rfl | rfl
  · exact ⟨rfl, rfl, rfl⟩
  · exact ⟨rfl, rfl, rfl⟩

/-- The two requests, with a reset of zone 4 between them that comes byte by byte. -/
def twoThreads : List SocketEvent :=
  [.accept (List.replicate 28 0) ⟨encodeAll writeAndLeave, fun _ => 27⟩, .round fun _ => 0,
    .manage ⟨[4, 0, 0, 0, 0, 0, 0, 0], fun _ => 0⟩, .round fun _ => 0]

theorem twoThreads_whole : ∀ e ∈ twoThreads, e.Whole := by
  have hstream := wholeStream_of_encodeAll (c := ⟨encodeAll writeAndLeave, fun _ => 27⟩)
    (fun _ => le_rfl) rfl writeAndLeave_formed
  intro e he
  simp only [twoThreads, List.mem_cons, List.not_mem_nil, or_false] at he
  rcases he with rfl | rfl | rfl | rfl
  · exact ⟨rfl, hstream⟩
  · trivial
  · trivial
  · trivial

theorem sockets_refine_messages_twoThreads :
    (run SocketServer.step (.start ⟨.idle, 0, 0, false, 0, 0⟩ 0) twoThreads).sent =
      (run MessageServer.step (.start ⟨.idle, 0, 0, false, 0, 0⟩ 0)
        (twoThreads.map SocketEvent.message)).sent :=
  (sockets_refine_messages _ _ twoThreads twoThreads_whole).2.1

/-! ## The disk -/

/-- The request that drives the automaton, if it is one. -/
def Executed.input (e : Executed) : Option ServerInput :=
  if e.request.type = 0 then some (.read e.request)
  else if e.request.type = 1 then some (.write e.request e.payload)
  else if e.request.type = 5 then some (.trim e.request)
  else none

namespace MessageServer

/-- What the next step drives the automaton with. -/
def input (m : MessageServer) : MessageEvent → Option ServerInput
  | .accept _ => none
  | .round => m.requests.bind fun es => es.head?.bind Executed.input
  | .manage zoneId => zoneId.map .reset

/-- The requests of a run, in the order in which the two threads come to them. -/
def inputs : MessageServer → List MessageEvent → List ServerInput
  | _, [] => []
  | m, e :: es => (m.input e).toList ++ inputs (m.step e) es

end MessageServer

/-- The message stays inside the arrays. -/
structure Executed.InRange (e : Executed) : Prop where
  magic : e.request.magic = requestMagic
  input : ∀ i ∈ e.input, i.InRange

def MessageEvent.InRange : MessageEvent → Prop
  | .accept es => ∀ e ∈ es, e.InRange
  | .round => True
  | .manage zoneId => ∀ z ∈ zoneId, z.toNat < 1024

section Disk

variable {s : Server} {m : MessageServer} {is : List ServerInput}

/-- **A request in range** is handled, or leaves the server as it is. -/
theorem transmission_inRange (hb : s.bridge.Boundary) {e : Executed} (he : e.InRange) :
    (s.transmission e.request e.payload = none ∧ e.request.type = 2 ∧ e.input = none) ∨
      ∃ out, s.transmission e.request e.payload = some (run Server.next s e.input.toList, out) := by
  have hhandle : ∀ i, e.input = some i → ∃ h, s.handle i = some h := by
    intro i hi
    obtain ⟨h, hrun, -⟩ := Server.handle_disk hb (he.input i hi)
    exact ⟨h, hrun⟩
  rw [Executed.input] at hhandle ⊢
  rw [Server.transmission, if_neg (not_not_intro he.magic)]
  by_cases h0 : e.request.type = 0
  · simp only [if_pos h0] at hhandle ⊢
    obtain ⟨h, hrun⟩ := hhandle _ rfl
    have hread : s.read e.request = some h := hrun
    exact .inr ⟨h.out, by simp [hread, Server.next_of_handle hrun]⟩
  by_cases h1 : e.request.type = 1
  · simp only [if_neg h0, if_pos h1] at hhandle ⊢
    obtain ⟨h, hrun⟩ := hhandle _ rfl
    have hwrite : s.write e.request e.payload = some h := hrun
    exact .inr ⟨h.out, by simp [hwrite, Server.next_of_handle hrun]⟩
  by_cases h5 : e.request.type = 5
  · simp only [if_neg h0, if_neg h1, if_pos h5] at hhandle ⊢
    obtain ⟨h, hrun⟩ := hhandle _ rfl
    have htrim : s.trim e.request = some h := hrun
    exact .inr ⟨h.out, by simp [htrim, Server.next_of_handle hrun]⟩
  simp only [if_neg h0, if_neg h1, if_neg h5]
  by_cases h2 : e.request.type = 2
  · exact .inl ⟨if_pos h2, h2, trivial⟩
  · rw [if_neg h2]
    split_ifs
    · exact .inr ⟨_, rfl⟩
    · exact .inr ⟨_, rfl⟩

theorem manageServer_some {sent : List (List Byte)} {z : BitVec 64} {handled : Handled}
    (h : s.managementReset z = some handled) :
    manageServer (some s) sent (some z) = (some handled.server, sent ++ [handled.out]) := by
  show resetServer sent (s.managementReset z) = _
  rw [h]
  rfl

/-- A server that has not crashed, and the requests in range that are still to come. -/
structure Serving (m : MessageServer) (s : Server) : Prop where
  server : m.server = some s
  boundary : s.bridge.Boundary
  requests : ∀ es ∈ m.requests, ∀ e ∈ es, e.InRange

theorem Serving.step (h : Serving m s) {e : MessageEvent} (he : e.InRange) :
    Serving (m.step e) (run Server.next s (m.input e).toList) ∧ ∀ i ∈ m.input e, i.InRange := by
  obtain ⟨server, requests, sent⟩ := m
  obtain ⟨hserver, hb, hrequests⟩ := h
  dsimp only at hserver hrequests
  subst hserver
  cases e with
  | accept es =>
    refine ⟨⟨rfl, hb, ?_⟩, nofun⟩
    -- a connection waits while another one is served
    cases requests with
    | none =>
      rintro _ ⟨⟩
      exact he
    | some es' => exact hrequests
  | round =>
    cases requests with
    | none => exact ⟨⟨rfl, hb, hrequests⟩, nofun⟩
    | some es =>
      cases es with
      | nil => exact ⟨⟨rfl, hb, nofun⟩, nofun⟩
      | cons e es =>
        have hes := hrequests _ rfl
        have hin := hes e List.mem_cons_self
        have hinput : MessageServer.input ⟨some s, some (e :: es), sent⟩ .round = e.input := rfl
        rw [hinput]
        refine ⟨?_, hin.input⟩
        rcases transmission_inRange hb hin with ⟨hend, htype, hnone⟩ | ⟨out, hrun⟩
        -- a disconnect: no input, and the connection is closed
        · simp only [MessageServer.step, hend, if_pos htype, hnone]
          exact ⟨rfl, hb, nofun⟩
        · simp only [MessageServer.step, hrun]
          refine ⟨rfl, Server.boundary_run hb e.input.toList, ?_⟩
          rintro _ ⟨⟩ e' he'
          exact hes e' (List.mem_cons_of_mem e he')
  | manage zoneId =>
    cases zoneId with
    | none => exact ⟨⟨rfl, hb, hrequests⟩, nofun⟩
    | some z =>
      have hz : (ServerInput.reset z).InRange := he z rfl
      obtain ⟨handled, hrun, -⟩ := Server.handle_disk hb hz
      have hreset : s.managementReset z = some handled := hrun
      have hnext : run Server.next s [.reset z] = handled.server := by
        rw [run, List.foldl_cons, List.foldl_nil, Server.next_of_handle hrun]
      refine ⟨?_, ?_⟩
      · show Serving ⟨(manageServer (some s) sent (some z)).1, requests,
          (manageServer (some s) sent (some z)).2⟩ (run Server.next s [.reset z])
        have hbound := Server.boundary_run hb [.reset z]
        rw [hnext] at hbound ⊢
        rw [manageServer_some hreset]
        exact ⟨rfl, hbound, hrequests⟩
      · rintro _ ⟨⟩
        exact hz

/-- **A run in range** never leaves the arrays: the server has handled its requests. -/
theorem Serving.run (h : Serving m s) {es : List MessageEvent} (hes : ∀ e ∈ es, e.InRange) :
    Serving (run MessageServer.step m es) (run Server.next s (m.inputs es)) ∧
      ∀ i ∈ m.inputs es, i.InRange := by
  induction es generalizing m s with
  | nil => exact ⟨h, nofun⟩
  | cons e es ih =>
    obtain ⟨hstep, hfirst⟩ := h.step (hes e List.mem_cons_self)
    obtain ⟨hrun, hrest⟩ := ih hstep fun e' he' => hes e' (List.mem_cons_of_mem e he')
    rw [MessageServer.inputs]
    constructor
    · show Serving _ (List.foldl Server.next s (_ ++ _))
      rw [List.foldl_append]
      exact hrun
    · intro i hi
      rcases List.mem_append.mp hi with hi | hi
      · exact hfirst i (Option.mem_toList.mp hi)
      · exact hrest i hi

theorem serving_start (junk : Validator) (addr : BitVec 32) :
    Serving (.start junk addr) (.powerUp junk addr) :=
  ⟨rfl, (Server.Reach.powerUp junk addr).boundary, nofun⟩

end Disk

/-- **The disk behind the sockets.** When all clients send whole messages that stay inside the arrays, then
in any order of whole rounds and whole resets, and however the streams are cut, the server keeps running,
and every byte of the disk is the one that the last message has stored or cleared there. -/
theorem sockets_keep_latest (junk : Validator) (addr : BitVec 32) (es : List SocketEvent)
    (hes : ∀ e ∈ es, e.Whole ∧ e.message.InRange) :
    ∃ s, (run SocketServer.step (.start junk addr) es).server = some s ∧
      s.userDiskStorage = Server.latestByte junk addr
        ((MessageServer.start junk addr).inputs (es.map SocketEvent.message)) := by
  have hmessages : ∀ e ∈ es.map SocketEvent.message, e.InRange := by
    intro e he
    obtain ⟨e', he', rfl⟩ := List.mem_map.mp he
    exact (hes e' he').2
  obtain ⟨hserving, hinputs⟩ := (serving_start junk addr).run hmessages
  have hrelays := (relays_start junk addr).run fun e he => (hes e he).1
  exact ⟨_, hrelays.server.trans hserving.server, Server.run_latestByte junk addr hinputs⟩

theorem message_twoThreads :
    twoThreads.map SocketEvent.message = [.accept writeAndLeave, .round, .manage (some 4), .round] := by
  have hrequests : requestsIn (encodeAll writeAndLeave) = writeAndLeave := by
    have hround := requestsIn_encodeAll writeAndLeave_formed []
    rwa [requestsIn_nil, List.append_nil, List.append_nil] at hround
  simp [twoThreads, SocketEvent.message, hrequests, zoneIdOf, BigEndian.decode]

theorem twoThreads_inRange : ∀ e ∈ twoThreads.map SocketEvent.message, e.InRange := by
  rw [message_twoThreads]
  intro e he
  simp only [List.mem_cons, List.not_mem_nil, or_false] at he
  rcases he with rfl | rfl | rfl | rfl
  · intro e he
    simp only [writeAndLeave, List.mem_cons, List.not_mem_nil, or_false] at he
    rcases he with rfl | rfl
    · exact ⟨rfl, by decide⟩
    · exact ⟨rfl, by decide⟩
  · trivial
  · rintro _ ⟨⟩
    decide
  · trivial

theorem sockets_keep_latest_twoThreads :
    ∃ s, (run SocketServer.step (.start ⟨.idle, 0, 0, false, 0, 0⟩ 0) twoThreads).server = some s ∧
      s.userDiskStorage (3 * zoneSizeBytes) = 7 := by
  have hinputs : (MessageServer.start ⟨.idle, 0, 0, false, 0, 0⟩ 0).inputs
      [.accept writeAndLeave, .round, .manage (some 4), .round] =
        [.write (Server.firstPageWrite 3) [7], .reset 4] := rfl
  obtain ⟨s, hs, hdisk⟩ := sockets_keep_latest ⟨.idle, 0, 0, false, 0, 0⟩ 0 twoThreads fun e he =>
    ⟨twoThreads_whole e he, twoThreads_inRange _ (List.mem_map_of_mem he)⟩
  rw [message_twoThreads, hinputs] at hdisk
  have hbyte := congrFun hdisk (3 * zoneSizeBytes)
  exact ⟨s, hs, hbyte.trans (by decide +kernel)⟩

end ZnsFlash
