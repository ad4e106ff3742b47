import ZnsFlash.Host.Ftl
import ZnsFlash.Nbd.Outcomes

/-!
# The simulator as the peer of the FTL

* `simulatorLink`: one round of the transmission loop and of the management thread, behind sockets;
* `HostFtl.tcp_append`, `HostFtl.tcp_read`: what the requests of the FTL become.
-/

namespace ZnsFlash

/-- The error of `read_exact` on a connection that has ended. -/
def IoError.unexpectedEof : IoError := ⟨.unexpectedEof, "failed to fill whole buffer"⟩

/-- What comes back from a server that answers, or that ends the connection. -/
def answer {α : Type} (s : Server) : Option (Server × α) → Server × Except IoError α
  | some (s', a) => (s', .ok a)
  | none => (s, .error .unexpectedEof)

/-- The server behind both sockets. An incomplete header is waited for. -/
def simulatorLink : Link Server where
  tcp s bytes :=
    match NbdRequest.decode bytes with
    | none => (s, .ok [])
    | some r => answer s (s.transmission r (bytes.drop 28))
  mgmt s zoneId := answer s ((s.managementReset zoneId).map fun h => (h.server, h.out.headD 0))

/-! ## The requests of the FTL -/

namespace HostFtl

variable {s : Server}

theorem simulatorLink_mgmt_eq (s : Server) : simulatorLink.mgmt s = fun zoneId =>
    answer s ((s.managementReset zoneId).map fun h => (h.server, h.out.headD 0)) := rfl

theorem simulatorLink_mgmt {zoneId : BitVec 64} {h : Handled}
    (hrun : s.managementReset zoneId = some h) :
    simulatorLink.mgmt s zoneId = (h.server, .ok (h.out.headD 0)) := by
  rw [simulatorLink_mgmt_eq]
  dsimp only
  rw [hrun]
  rfl

theorem simulatorLink_tcp {s' : Server} {bytes out : List Byte} {r : NbdRequest}
    (hdecode : NbdRequest.decode bytes = some r)
    (htrans : s.transmission r (bytes.drop 28) = some (s', out)) :
    simulatorLink.tcp s bytes = (s', .ok out) := by
  simp only [simulatorLink, hdecode, htrans, answer]

theorem tcp_append {zoneId writePointer len : ℕ} {data : List Byte} {h : Handled}
    (hlen : data.length = len)
    (hrun : s.write (appendRequest zoneId writePointer len) data = some h) :
    simulatorLink.tcp s ((appendRequest zoneId writePointer data.length).encode ++ data) =
      (h.server, .ok h.out) := by
  subst hlen
  refine simulatorLink_tcp (NbdRequest.decode_encode _ _) ?_
  rw [NbdRequest.drop_encode]
  exact Server.transmission_write rfl rfl hrun

theorem tcp_read {paddr : PhysicalAddress} {h : Handled}
    (hrun : s.read (readRequest paddr) = some h) :
    simulatorLink.tcp s (readRequest paddr).encode = (h.server, .ok h.out) :=
  simulatorLink_tcp (NbdRequest.decode_encode_self _) (Server.transmission_read rfl rfl hrun _)

end HostFtl

end ZnsFlash
