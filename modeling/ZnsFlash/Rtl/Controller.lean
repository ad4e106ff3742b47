import ZnsFlash.Rtl.Validator
import ZnsFlash.Library.Runs

/-!
# The RTL controller

`zns_address_resolver`, `zns_metadata_bram` and `zns_fsm_validator` on one clock, wired as in
`zns_controller_top.v`.

* `Resolver`, `Bram`: the two registered neighbours of the automaton;
* `HostIn`, `Controller`, `Controller.pins`, `Controller.clock`: the composition;
* `Controller.Ready`: between transactions.
-/

namespace ZnsFlash

/-! ## The address resolver -/

/-- The geometry inputs of `zns_address_resolver`. -/
structure Geometry where
  cfgZoneShift : BitVec 6
  cfgZoneSizeMask : BitVec 32
  cfgTotalZones : BitVec 32
  deriving DecidableEq

/-- The values `zns_controller_top.v` ties the geometry to. -/
def topGeometry : Geometry := ⟨6, 63, 4096⟩

/-- The registers of `zns_address_resolver`. -/
structure Resolver where
  outZoneId : BitVec 32
  outTargetPage : BitVec 32
  outErrorOutOfBounds : Bool
  deriving DecidableEq

/-- `zns_address_resolver.v` at a clock edge. -/
def Resolver.posedge (g : Geometry) (rst : Bool) (ioLba : BitVec 64) : Resolver :=
  if rst then ⟨0, 0, false⟩
  else
    let zoneIdCalc := ioLba >>> g.cfgZoneShift.toNat
    let targetPageCalc := ioLba &&& g.cfgZoneSizeMask.setWidth 64
    ⟨zoneIdCalc.setWidth 32, targetPageCalc.setWidth 32,
      decide (g.cfgTotalZones.setWidth 64 ≤ zoneIdCalc)⟩

/-! ## The metadata memory -/

/-- `zns_metadata_bram`: 4096 words and a registered read port. -/
structure Bram where
  ram : BitVec 12 → BitVec 32
  rdata : BitVec 32

/-- `zns_metadata_bram.v` at a clock edge; a write does not show in the word read with it. -/
def Bram.posedge (b : Bram) (addr : BitVec 12) (wdata : BitVec 32) (we : Bool) : Bram where
  ram := if we then Function.update b.ram addr wdata else b.ram
  rdata := b.ram addr

/-! ## The composition -/

/-- What the host drives, with the thermal flag. -/
structure HostIn where
  ioTrigger : Bool
  ioCmd : BitVec 8
  ioLba : BitVec 64
  thermalShutdownTripped : Bool
  deriving DecidableEq

/-- The registers of the controller. -/
structure Controller where
  resolver : Resolver
  fsm : Validator
  bram : Bram

namespace Controller

/-- The pins of the automaton before the next edge. -/
def pins (s : Controller) (rst : Bool) (i : HostIn) : ValidatorPins where
  rst := rst
  ioTrigger := i.ioTrigger
  ioCmd := i.ioCmd
  validatedZoneId := s.resolver.outZoneId
  validatedTargetPage := s.resolver.outTargetPage
  addrBoundError := s.resolver.outErrorOutOfBounds
  thermalShutdownTripped := i.thermalShutdownTripped
  bramRdata := s.bram.rdata

/-- One edge of the common clock. -/
def posedge (s : Controller) (rst : Bool) (i : HostIn) : Controller where
  resolver := Resolver.posedge topGeometry rst i.ioLba
  fsm := s.fsm.posedge (s.pins rst i)
  bram := s.bram.posedge ((s.fsm.bramAddr (s.pins rst i)).setWidth 12) s.fsm.bramWdata s.fsm.bramWe

/-- **One clock cycle** with `rst` low. -/
abbrev clock (s : Controller) (i : HostIn) : Controller := s.posedge false i

/-- The word of a zone. -/
abbrev word (s : Controller) (a : BitVec 12) : BitVec 32 := s.bram.ram a

/-- Between transactions: idle, with nothing left to write. -/
def Ready (s : Controller) : Prop := s.fsm.currentState = .idle ∧ s.fsm.bramWe = false

/-- The controller once it is powered up and left alone. -/
def quiet : Controller :=
  ⟨⟨0, 0, false⟩, ⟨.idle, 0, 0, false, 0, 0⟩, ⟨fun _ => 0, 0⟩⟩

/-- Power-up: zeroed memory, `rst` raised and seen by one clock edge. The registers before it do
not matter. -/
def powerUp (junk : Controller) (i : HostIn) : Controller :=
  { junk with fsm := junk.fsm.asyncReset, bram := ⟨fun _ => 0, junk.bram.rdata⟩ }.posedge true i

end Controller

/-- The zone of an address, as the resolver cuts it. -/
def lbaZone (lba : BitVec 64) : BitVec 64 := lba >>> 6

/-- The page of an address in its zone. -/
def lbaPage (lba : BitVec 64) : BitVec 64 := lba &&& 63

/-- The memory row of an address: `out_zone_id` cut to the address pins of the memory. -/
def lbaRow (lba : BitVec 64) : BitVec 12 := ((lbaZone lba).setWidth 32).setWidth 12

end ZnsFlash
