import ZnsFlash.Library.Lockstep
import ZnsFlash.Ssd.Bookkeeping
import ZnsFlash.Ssd.Plane

/-!
# The hardware tree

`ssd_ssd.cpp`, `ssd_package.cpp`, `ssd_die.cpp` and `ssd_plane.cpp`: how an event finds its block. The wear
statistics above the planes, times and the counter of free blocks are left out.

* `DeviceEvent`, `Ssd.write`, `Ssd.replace`, `Ssd.erase`, `Ssd.getState`: events on their way down;
* `FlashDevice`, `FlashDevice.serve`: the tree with `page_data`, and requests at linear addresses;
* `Stepped`: one block has made a call, and nothing else has changed; `Stepped.lift`: one level up;
  `Ssd.write_stepped`, `Ssd.replace_stepped`, `Ssd.erase_stepped`;
* `DeviceSizes.path`, `path_injOn`, `blockPath_of`: the way to a block;
* `FlashDevice.Represents`, **`device_refines_flash`**: the tree does what the flat `Flash` does.
-/

namespace ZnsFlash

open Lockstep MixedRadix

/-- The addresses of an event, and its flag. -/
structure DeviceEvent where
  address : Address
  replaceAddress : Address
  noop : Bool

variable {n : ℕ}

/-! ## Planes -/

namespace Plane

/-- A block makes a call. -/
def onBlock (p : Plane n) (i : BitVec 32) (call : BlockCall) : Except Halt (Status × Plane n) := do
  let (status, b) ← (p.data i.toNat).perform call
  .ok (status, p.setBlock i.toNat b)

/-- `Plane::write` -/
def write (p : Plane n) (e : DeviceEvent) : Except Halt (Status × Plane n) :=
  if e.address.block.toNat < p.size.toNat ∧ AddressValid.plane.level < e.address.valid.level then
    p.onBlock e.address.block (.write e.address.page.toNat e.noop)
  else .error .badAddress

/-- `Plane::replace`; the assertion looks at the address of the event only. -/
def replace (p : Plane n) (e : DeviceEvent) : Except Halt (Status × Plane n) :=
  if e.address.block.toNat < p.size.toNat then
    if e.replaceAddress.block.toNat < p.size.toNat then
      p.onBlock e.replaceAddress.block (.replace e.replaceAddress.page.toNat)
    else .error .outOfArray
  else .error .badAddress

/-- `Plane::erase`, with its status. -/
def eraseEvent (p : Plane n) (e : DeviceEvent) : Except Halt (Status × Plane n) :=
  if e.address.block.toNat < p.size.toNat ∧ AddressValid.plane.level < e.address.valid.level then
    match p.erase ⟨e.address, e.noop⟩ with
    | none => .ok (.failure, p)
    | some q => .ok (.success, q)
  else .error .badAddress

/-- `Plane::get_state` -/
def getState (p : Plane n) (a : Address) : Except Halt PageState :=
  if a.block.toNat < p.size.toNat ∧ AddressValid.plane.level ≤ a.valid.level then
    if a.page.toNat < n ∧ AddressValid.block.level ≤ a.valid.level then
      .ok ((p.data a.block.toNat).pages a.page.toNat)
    else .error .badAddress
  else .error .badAddress

end Plane

/-! ## Dies -/

namespace Die

/-- `data[i]` handles an event. -/
def onPlane (d : Die n) (i : BitVec 32) (f : Plane n → Except Halt (Status × Plane n)) :
    Except Halt (Status × Die n) :=
  if i.toNat < d.size.toNat then do
    let (status, p) ← f (d.data i.toNat)
    .ok (status, { d with data := Function.update d.data i.toNat p })
  else .error .outOfArray

/-- `Die::write` -/
def write (d : Die n) (e : DeviceEvent) : Except Halt (Status × Die n) :=
  if e.address.plane.toNat < d.size.toNat ∧ AddressValid.die.level < e.address.valid.level then
    d.onPlane e.address.plane (·.write e)
  else .error .badAddress

/-- `Die::replace`; the assertion looks at the address of the event only. -/
def replace (d : Die n) (e : DeviceEvent) : Except Halt (Status × Die n) :=
  if e.address.plane.toNat < d.size.toNat then d.onPlane e.replaceAddress.plane (·.replace e)
  else .error .badAddress

/-- `Die::erase` -/
def erase (d : Die n) (e : DeviceEvent) : Except Halt (Status × Die n) :=
  if e.address.plane.toNat < d.size.toNat ∧ AddressValid.die.level < e.address.valid.level then
    d.onPlane e.address.plane (·.eraseEvent e)
  else .error .badAddress

/-- `Die::get_state` -/
def getState (d : Die n) (a : Address) : Except Halt PageState :=
  if a.plane.toNat < d.size.toNat ∧ AddressValid.die.level ≤ a.valid.level then
    (d.data a.plane.toNat).getState a
  else .error .badAddress

end Die

/-! ## Packages -/

namespace Package

/-- `data[i]` handles an event. -/
def onDie (p : Package n) (i : BitVec 32) (f : Die n → Except Halt (Status × Die n)) :
    Except Halt (Status × Package n) :=
  if i.toNat < p.size.toNat then do
    let (status, d) ← f (p.data i.toNat)
    .ok (status, { p with data := Function.update p.data i.toNat d })
  else .error .outOfArray

/-- `Package::write` -/
def write (p : Package n) (e : DeviceEvent) : Except Halt (Status × Package n) :=
  if e.address.die.toNat < p.size.toNat ∧ AddressValid.package.level < e.address.valid.level then
    p.onDie e.address.die (·.write e)
  else .error .badAddress

/-- `Package::replace`, with no assertion on an address. -/
def replace (p : Package n) (e : DeviceEvent) : Except Halt (Status × Package n) :=
  p.onDie e.replaceAddress.die (·.replace e)

/-- `Package::erase` -/
def erase (p : Package n) (e : DeviceEvent) : Except Halt (Status × Package n) :=
  if e.address.die.toNat < p.size.toNat ∧ AddressValid.package.level < e.address.valid.level then
    p.onDie e.address.die (·.erase e)
  else .error .badAddress

/-- `Package::get_state` -/
def getState (p : Package n) (a : Address) : Except Halt PageState :=
  if a.die.toNat < p.size.toNat ∧ AddressValid.package.level ≤ a.valid.level then
    (p.data a.die.toNat).getState a
  else .error .badAddress

end Package

/-! ## The device -/

namespace Ssd

/-- `data[i]` handles an event. -/
def onPackage (s : Ssd n) (i : BitVec 32) (f : Package n → Except Halt (Status × Package n)) :
    Except Halt (Status × Ssd n) :=
  if i.toNat < s.size.toNat then do
    let (status, p) ← f (s.data i.toNat)
    .ok (status, { s with data := Function.update s.data i.toNat p })
  else .error .outOfArray

/-- `Ssd::write` -/
def write (s : Ssd n) (e : DeviceEvent) : Except Halt (Status × Ssd n) :=
  if e.address.package.toNat < s.size.toNat ∧ AddressValid.package.level ≤ e.address.valid.level then
    s.onPackage e.address.package (·.write e)
  else .error .badAddress

/-- `Ssd::replace`: only pages are replaced. -/
def replace (s : Ssd n) (e : DeviceEvent) : Except Halt (Status × Ssd n) :=
  if e.replaceAddress.valid = .none then .ok (.success, s)
  else if e.replaceAddress.package.toNat < s.size.toNat then
    if e.replaceAddress.valid = .page then s.onPackage e.replaceAddress.package (·.replace e)
    else .ok (.success, s)
  else .error .badAddress

/-- `Ssd::erase` -/
def erase (s : Ssd n) (e : DeviceEvent) : Except Halt (Status × Ssd n) :=
  if e.address.package.toNat < s.size.toNat ∧ AddressValid.package.level ≤ e.address.valid.level then
    s.onPackage e.address.package (·.erase e)
  else .error .badAddress

/-- `Ssd::get_state` -/
def getState (s : Ssd n) (a : Address) : Except Halt PageState :=
  if a.package.toNat < s.size.toNat ∧ AddressValid.package.level ≤ a.valid.level then
    (s.data a.package.toNat).getState a
  else .error .badAddress

end Ssd

/-- `set_linear_address(address, valid)` of a new address. -/
def Address.of (g : DeviceSizes) (address : BitVec 64) (valid : AddressValid) : Address :=
  { (Address.new 0).setLinearAddress g address with valid }

/-- The tree, and `page_data` by linear address. -/
structure FlashDevice (g : DeviceSizes) (π : Type) where
  ssd : Ssd g.blockSize.toNat
  pageData : ℕ → π

/-- What the translation layers issue: a write, with the page that it replaces, or an erase. -/
inductive DeviceOp (π : Type)
  | write (address : BitVec 64) (payload : π) (replaced : Option (BitVec 64))
  | erase (address : BitVec 64)

/-- The addresses are pages of the device. -/
def DeviceOp.InRange {π : Type} (g : DeviceSizes) : DeviceOp π → Prop
  | .write address _ replaced =>
    address.toNat < g.radices.prod ∧ ∀ r ∈ replaced, r.toNat < g.radices.prod
  | .erase address => address.toNat < g.radices.prod

/-- The event of a write. -/
def writeEvent (g : DeviceSizes) (address : BitVec 64) (replaced : Option (BitVec 64)) : DeviceEvent :=
  ⟨.of g address .page, replaced.elim (.new 0) fun r => .of g r .page, false⟩

/-- The event of an erase. -/
def eraseEvent (g : DeviceSizes) (address : BitVec 64) : DeviceEvent :=
  ⟨.of g address .block, .new 0, false⟩

namespace FlashDevice

variable {g : DeviceSizes} {π : Type}

def new (g : DeviceSizes) (erases : ℕ) (junk : ℕ → π) : FlashDevice g π := ⟨.new g erases g.ssdSize, junk⟩

/-- A write goes to `Ssd::write` and then to `Ssd::replace`; the callers assert that an erase succeeds. -/
def serve (d : FlashDevice g π) : DeviceOp π → Except Halt (FlashDevice g π)
  | .write address payload replaced => do
    let (_, s) ← d.ssd.write (writeEvent g address replaced)
    let (_, s) ← s.replace (writeEvent g address replaced)
    .ok ⟨s, Function.update d.pageData address.toNat payload⟩
  | .erase address => do
    let (status, s) ← d.ssd.erase (eraseEvent g address)
    if status = .success then .ok { d with ssd := s } else .error .worn

def serveAll (d : FlashDevice g π) (ops : List (DeviceOp π)) : Except Halt (FlashDevice g π) :=
  ops.foldlM serve d

end FlashDevice

/-- The same on the flat flash. -/
def Flash.serve {π : Type} (f : Flash n π) : DeviceOp π → Except Halt (Flash n π)
  | .write address payload replaced => do
    let g ← f.write address.toNat payload
    .ok (replaced.elim g fun r => g.invalidate r.toNat)
  | .erase address => f.erase (address.toNat / n)

def Flash.serveAll {π : Type} (f : Flash n π) (ops : List (DeviceOp π)) : Except Halt (Flash n π) :=
  ops.foldlM Flash.serve f

/-! ## One block makes a call -/

/-- The blocks of a plane by their numbers, and so on upwards. -/
def Plane.blocks (p : Plane n) (i : ℕ) : Block n := (p.data i).toBlock

def Die.blocks (d : Die n) (i : ℕ × ℕ) : Block n := (d.data i.1).blocks i.2

def Package.blocks (p : Package n) (i : ℕ × ℕ × ℕ) : Block n := (p.data i.1).blocks i.2

def Ssd.blocks (s : Ssd n) (i : ℕ × ℕ × ℕ × ℕ) : Block n := (s.data i.1).blocks i.2

/-- The sizes of the parts. -/
def Die.sizes (d : Die n) : BitVec 32 × (ℕ → BitVec 32) := (d.size, fun i => (d.data i).size)

def Package.sizes (p : Package n) : BitVec 32 × (ℕ → BitVec 32 × (ℕ → BitVec 32)) :=
  (p.size, fun i => (p.data i).sizes)

def Ssd.sizes (s : Ssd n) : BitVec 32 × (ℕ → BitVec 32 × (ℕ → BitVec 32 × (ℕ → BitVec 32))) :=
  (s.size, fun i => (s.data i).sizes)

section Stepped

variable {α κ σ : Type} [DecidableEq κ] {sizes : α → σ} {blocks : α → κ → Block n}

/-- **A block of a part has made a call**: the part has its status, and nothing else has changed. -/
structure Stepped (sizes : α → σ) (blocks : α → κ → Block n) (x : α) (k : κ) (q : Status × α)
    (r : Status × Block n) : Prop where
  status : q.1 = r.1
  sizes : sizes q.2 = sizes x
  blocks : blocks q.2 = Function.update (blocks x) k r.2

theorem Stepped.lift {x : ℕ → α} {i : ℕ} {k : κ} {q : Status × α} {r : Status × Block n}
    (h : Stepped sizes blocks (x i) k q r) :
    (fun j => sizes (Function.update x i q.2 j)) = (fun j => sizes (x j)) ∧
      (fun z : ℕ × κ => blocks (Function.update x i q.2 z.1) z.2) =
        Function.update (fun z : ℕ × κ => blocks (x z.1) z.2) (i, k) r.2 := by
  constructor
  · funext j
    by_cases hj : j = i
    · rw [hj, Function.update_self, h.sizes]
    · rw [Function.update_of_ne hj]
  · funext ⟨j, l⟩
    by_cases hj : j = i
    · subst hj
      dsimp only
      rw [Function.update_self, h.blocks]
      by_cases hl : l = k
      · rw [hl, Function.update_self, Function.update_self]
      · have hne : (j, l) ≠ (j, k) := fun heq => hl (Prod.mk.inj heq).2
        rw [Function.update_of_ne hl, Function.update_of_ne hne]
    · have hne : (j, l) ≠ (i, k) := fun heq => hj (Prod.mk.inj heq).1
      rw [Function.update_of_ne hne]
      dsimp only
      rw [Function.update_of_ne hj]

theorem Stepped.agree_lift {β ρ : Type} (sizes' : β → ρ × (ℕ → σ)) (blocks' : β → ℕ × κ → Block n) {c : ρ}
    (mk : (ℕ → α) → β) (hsizes : ∀ y, sizes' (mk y) = (c, fun j => sizes (y j)))
    (hblocks : ∀ y, blocks' (mk y) = fun z => blocks (y z.1) z.2) {x : ℕ → α} {i : ℕ} {k : κ}
    {f : α → Except Halt (Status × α)} {r : Except Halt (Status × Block n)}
    (hf : Agree (Stepped sizes blocks (x i) k) (f (x i)) r) :
    Agree (Stepped sizes' blocks' (mk x) (i, k))
      (f (x i) >>= fun q => .ok (q.1, mk (Function.update x i q.2))) r := by
  cases hq : f (x i) with
  | error e =>
    rw [hq] at hf
    cases r with
    | error e' => exact hf
    | ok r => exact hf.elim
  | ok q =>
    obtain ⟨r, rfl, h⟩ := hf.of_left hq
    refine ⟨h.status, ?_, ?_⟩
    · rw [hsizes, hsizes, h.lift.1]
    · rw [hblocks, hblocks]
      exact h.lift.2

end Stepped

section Levels

variable {x : Except Halt (Status × Block n)}

theorem Plane.onBlock_stepped (p : Plane n) (i : BitVec 32) (call : BlockCall) :
    Agree (Stepped Plane.size Plane.blocks p i.toNat) (p.onBlock i call)
      ((p.blocks i.toNat).perform call) := by
  rw [Plane.onBlock, Plane.blocks]
  cases (p.data i.toNat).perform call with
  | error e => exact rfl
  | ok r =>
    refine ⟨rfl, rfl, ?_⟩
    funext j
    by_cases hj : j = i.toNat
    · rw [hj, Function.update_self]
      exact p.toBlock_setBlock_self _ _
    · rw [Function.update_of_ne hj]
      exact p.toBlock_setBlock_of_ne _ hj

theorem Die.onPlane_stepped (d : Die n) {i : BitVec 32} (hi : i.toNat < d.size.toNat) {k : ℕ}
    {f : Plane n → Except Halt (Status × Plane n)}
    (hf : Agree (Stepped Plane.size Plane.blocks (d.data i.toNat) k) (f (d.data i.toNat)) x) :
    Agree (Stepped Die.sizes Die.blocks d (i.toNat, k)) (d.onPlane i f) x := by
  rw [Die.onPlane, if_pos hi]
  exact Stepped.agree_lift Die.sizes Die.blocks (fun y => { d with data := y }) (fun _ => rfl)
    (fun _ => rfl) hf

theorem Package.onDie_stepped (p : Package n) {i : BitVec 32} (hi : i.toNat < p.size.toNat) {k : ℕ × ℕ}
    {f : Die n → Except Halt (Status × Die n)}
    (hf : Agree (Stepped Die.sizes Die.blocks (p.data i.toNat) k) (f (p.data i.toNat)) x) :
    Agree (Stepped Package.sizes Package.blocks p (i.toNat, k)) (p.onDie i f) x := by
  rw [Package.onDie, if_pos hi]
  exact Stepped.agree_lift Package.sizes Package.blocks (fun y => { p with data := y }) (fun _ => rfl)
    (fun _ => rfl) hf

theorem Ssd.onPackage_stepped (s : Ssd n) {i : BitVec 32} (hi : i.toNat < s.size.toNat) {k : ℕ × ℕ × ℕ}
    {f : Package n → Except Halt (Status × Package n)}
    (hf : Agree (Stepped Package.sizes Package.blocks (s.data i.toNat) k) (f (s.data i.toNat)) x) :
    Agree (Stepped Ssd.sizes Ssd.blocks s (i.toNat, k)) (s.onPackage i f) x := by
  rw [Ssd.onPackage, if_pos hi]
  exact Stepped.agree_lift Ssd.sizes Ssd.blocks (fun y => { s with data := y }) (fun _ => rfl)
    (fun _ => rfl) hf

theorem Plane.eraseEvent_stepped (p : Plane n) {e : DeviceEvent}
    (h : e.address.block.toNat < p.size.toNat ∧ AddressValid.plane.level < e.address.valid.level) :
    Agree (Stepped Plane.size Plane.blocks p e.address.block.toNat) (p.eraseEvent e)
      ((p.blocks e.address.block.toNat).perform (.erase e.noop)) := by
  rw [Plane.eraseEvent, if_pos h, Plane.erase, if_pos h, Block.perform, Plane.blocks]
  cases e.noop with
  | true => exact ⟨rfl, rfl, (Function.update_eq_self _ _).symm⟩
  | false =>
    rw [if_neg Bool.false_ne_true, if_neg Bool.false_ne_true]
    cases (p.data e.address.block.toNat).erase with
    | none => exact ⟨rfl, rfl, (Function.update_eq_self _ _).symm⟩
    | some b =>
      refine ⟨rfl, rfl, ?_⟩
      funext j
      by_cases hj : j = e.address.block.toNat
      · rw [hj, Function.update_self]
        exact p.toBlock_setBlock_self _ _
      · rw [Function.update_of_ne hj]
        exact p.toBlock_setBlock_of_ne _ hj

end Levels

/-! ## Events of the device -/

/-- The way to the block of an address. -/
def Address.blockPath (a : Address) : ℕ × ℕ × ℕ × ℕ :=
  (a.package.toNat, a.die.toNat, a.plane.toNat, a.block.toNat)

/-- The sizes of all parts. -/
def DeviceSizes.shape (g : DeviceSizes) :
    BitVec 32 × (ℕ → BitVec 32 × (ℕ → BitVec 32 × (ℕ → BitVec 32))) :=
  (g.ssdSize, fun _ => (g.packageSize, fun _ => (g.dieSize, fun _ => g.planeSize)))

/-- The indices of a block are in range. -/
structure Address.InTree (g : DeviceSizes) (a : Address) : Prop where
  package : a.package.toNat < g.ssdSize.toNat
  die : a.die.toNat < g.packageSize.toNat
  plane : a.plane.toNat < g.dieSize.toNat
  block : a.block.toNat < g.planeSize.toNat

section Events

variable {g : DeviceSizes} {s : Ssd n} {e : DeviceEvent}

theorem Ssd.sizes_eq (hs : s.sizes = g.shape) (i j k : ℕ) :
    s.size = g.ssdSize ∧ (s.data i).size = g.packageSize ∧ ((s.data i).data j).size = g.dieSize ∧
      (((s.data i).data j).data k).size = g.planeSize := by
  have hpackage := congrFun (congrArg Prod.snd hs) i
  have hdie := congrFun (congrArg Prod.snd hpackage) j
  have hplane := congrFun (congrArg Prod.snd hdie) k
  exact ⟨congrArg Prod.fst hs, congrArg Prod.fst hpackage, congrArg Prod.fst hdie, hplane⟩

theorem Ssd.write_stepped (hs : s.sizes = g.shape) (ha : e.address.InTree g)
    (hvalid : AddressValid.plane.level < e.address.valid.level) :
    Agree (Stepped Ssd.sizes Ssd.blocks s e.address.blockPath) (s.write e)
      ((s.blocks e.address.blockPath).perform (.write e.address.page.toNat e.noop)) := by
  obtain ⟨hssd, hpackage, hdie, hplane⟩ :=
    s.sizes_eq hs e.address.package.toNat e.address.die.toNat e.address.plane.toNat
  have hlevels : 3 < e.address.valid.level := hvalid
  rw [Ssd.write, if_pos ⟨by rw [hssd]; exact ha.package, show 1 ≤ _ by omega⟩]
  apply s.onPackage_stepped (by rw [hssd]; exact ha.package)
  rw [Package.write, if_pos ⟨by rw [hpackage]; exact ha.die, show 1 < _ by omega⟩]
  apply (s.data _).onDie_stepped (by rw [hpackage]; exact ha.die)
  rw [Die.write, if_pos ⟨by rw [hdie]; exact ha.plane, show 2 < _ by omega⟩]
  apply ((s.data _).data _).onPlane_stepped (by rw [hdie]; exact ha.plane)
  rw [Plane.write, if_pos ⟨by rw [hplane]; exact ha.block, hvalid⟩]
  exact (((s.data _).data _).data _).onBlock_stepped _ _

/-- The page that is replaced is in another block; the assertions look at both addresses. -/
theorem Ssd.replace_stepped (hs : s.sizes = g.shape) (ha : e.address.InTree g)
    (hr : e.replaceAddress.InTree g) (hvalid : e.replaceAddress.valid = .page) :
    Agree (Stepped Ssd.sizes Ssd.blocks s e.replaceAddress.blockPath) (s.replace e)
      ((s.blocks e.replaceAddress.blockPath).perform (.replace e.replaceAddress.page.toNat)) := by
  obtain ⟨hssd, hpackage, hdie, hplane⟩ := s.sizes_eq hs e.replaceAddress.package.toNat
    e.replaceAddress.die.toNat e.replaceAddress.plane.toNat
  have hnone : ¬ e.replaceAddress.valid = .none := by simp [hvalid]
  rw [Ssd.replace, if_neg hnone, if_pos (by rw [hssd]; exact hr.package), if_pos hvalid]
  apply s.onPackage_stepped (by rw [hssd]; exact hr.package)
  rw [Package.replace]
  apply (s.data _).onDie_stepped (by rw [hpackage]; exact hr.die)
  rw [Die.replace, if_pos (by rw [hdie]; exact ha.plane)]
  apply ((s.data _).data _).onPlane_stepped (by rw [hdie]; exact hr.plane)
  rw [Plane.replace, if_pos (by rw [hplane]; exact ha.block), if_pos (by rw [hplane]; exact hr.block)]
  exact (((s.data _).data _).data _).onBlock_stepped _ _

theorem Ssd.erase_stepped (hs : s.sizes = g.shape) (ha : e.address.InTree g)
    (hvalid : AddressValid.plane.level < e.address.valid.level) :
    Agree (Stepped Ssd.sizes Ssd.blocks s e.address.blockPath) (s.erase e)
      ((s.blocks e.address.blockPath).perform (.erase e.noop)) := by
  obtain ⟨hssd, hpackage, hdie, hplane⟩ :=
    s.sizes_eq hs e.address.package.toNat e.address.die.toNat e.address.plane.toNat
  have hlevels : 3 < e.address.valid.level := hvalid
  rw [Ssd.erase, if_pos ⟨by rw [hssd]; exact ha.package, show 1 ≤ _ by omega⟩]
  apply s.onPackage_stepped (by rw [hssd]; exact ha.package)
  rw [Package.erase, if_pos ⟨by rw [hpackage]; exact ha.die, show 1 < _ by omega⟩]
  apply (s.data _).onDie_stepped (by rw [hpackage]; exact ha.die)
  rw [Die.erase, if_pos ⟨by rw [hdie]; exact ha.plane, show 2 < _ by omega⟩]
  apply ((s.data _).data _).onPlane_stepped (by rw [hdie]; exact ha.plane)
  exact (((s.data _).data _).data _).eraseEvent_stepped ⟨by rw [hplane]; exact ha.block, hvalid⟩

end Events

/-! ## Blocks by number -/

/-- The sizes above the pages. -/
def DeviceSizes.blockRadices (g : DeviceSizes) : List ℕ :=
  [g.planeSize.toNat, g.dieSize.toNat, g.packageSize.toNat, g.ssdSize.toNat]

/-- The way to block `b`. -/
def DeviceSizes.path (g : DeviceSizes) (b : ℕ) : ℕ × ℕ × ℕ × ℕ :=
  let planes := b / g.planeSize.toNat
  let dies := planes / g.dieSize.toNat
  (dies / g.packageSize.toNat % g.ssdSize.toNat, dies % g.packageSize.toNat, planes % g.dieSize.toNat,
    b % g.planeSize.toNat)

section Path

variable {g : DeviceSizes} {b b' : ℕ}

theorem DeviceSizes.path_injOn (hb : b < g.blockRadices.prod) (hb' : b' < g.blockRadices.prod)
    (h : g.path b = g.path b') : b = b' := by
  apply digits_injOn hb hb'
  simp only [DeviceSizes.path, Prod.mk.injEq] at h
  obtain ⟨hpackage, hdie, hplane, hblock⟩ := h
  simp only [DeviceSizes.blockRadices, digits, hpackage, hdie, hplane, hblock]

theorem div_lt_blockRadices {a : ℕ} (ha : a < g.radices.prod) :
    a / g.blockSize.toNat < g.blockRadices.prod := by
  apply Nat.div_lt_of_lt_mul
  rwa [DeviceSizes.radices, List.prod_cons] at ha

variable (hg : g.Fits) (a : BitVec 64) (valid : AddressValid)

include hg

/-- **The division of an address** is the way to its block. -/
theorem blockPath_of : (Address.of g a valid).blockPath = g.path (a.toNat / g.blockSize.toNat) := by
  have hindices := indices_setLinearAddress hg (Address.new 0) a
  simp only [Address.indices, DeviceSizes.radices, digits, List.cons.injEq, and_true] at hindices
  obtain ⟨-, hblock, hplane, hdie, hpackage⟩ := hindices
  simp only [Address.blockPath, Address.of, DeviceSizes.path, hblock, hplane, hdie, hpackage]

theorem page_of : (Address.of g a valid).page.toNat = a.toNat % g.blockSize.toNat :=
  (List.cons.inj (indices_setLinearAddress hg (Address.new 0) a)).1

theorem inTree_of : (Address.of g a valid).InTree g := by
  have hlt := digits_lt hg.pos a.toNat
  rw [← indices_setLinearAddress hg (Address.new 0) a] at hlt
  simp only [Address.indices, DeviceSizes.radices, List.forall₂_cons, List.forall₂_nil_left_iff,
    and_true] at hlt
  obtain ⟨-, hblock, hplane, hdie, hpackage⟩ := hlt
  exact ⟨hpackage, hdie, hplane, hblock⟩

end Path

/-! ## The tree and the flat flash -/

/-- Block `b` of the flash is the one at `path b` of the tree. -/
structure FlashDevice.Represents {g : DeviceSizes} {π : Type} (d : FlashDevice g π)
    (f : Flash g.blockSize.toNat π) : Prop where
  sizes : d.ssd.sizes = g.shape
  blocks : ∀ b < g.blockRadices.prod, d.ssd.blocks (g.path b) = f.block b
  pageData : d.pageData = f.pageData

/-- The flash with every block erased. -/
def Flash.new {π : Type} (erases : ℕ) (junk : ℕ → π) : Flash n π := ⟨fun _ => .new erases, junk⟩

section Calls

variable {π : Type} (f : Flash n π) (a : ℕ) (payload : π)

theorem Flash.write_eq_bind (hn : 0 < n) :
    f.write a payload = (f.block (a / n)).perform (.write (a % n) false) >>= fun r =>
      .ok ⟨Function.update f.block (a / n) r.2, Function.update f.pageData a payload⟩ := by
  have hpage : ¬ n ≤ a % n := not_le.mpr (Nat.mod_lt a hn)
  rw [Flash.write, Flash.stateAt, Block.perform, if_neg hpage, if_neg Bool.false_ne_true]
  split_ifs <;> rfl

theorem Flash.erase_eq_bind (b : ℕ) :
    f.erase b = (f.block b).perform (.erase false) >>= fun r =>
      if r.1 = .success then .ok { f with block := Function.update f.block b r.2 } else .error .worn := by
  rw [Flash.erase, Block.perform, if_neg Bool.false_ne_true]
  cases (f.block b).erase <;> rfl

theorem Flash.invalidate_perform (hn : 0 < n) :
    (f.block (a / n)).perform (.replace (a % n)) =
      .ok (.success, (f.block (a / n)).invalidatePage (a % n)) := by
  rw [Block.perform, if_pos (Nat.mod_lt a hn)]

end Calls

section Refinement

variable {g : DeviceSizes} {π : Type} {d : FlashDevice g π} {f : Flash g.blockSize.toNat π}

theorem FlashDevice.Represents.update (h : d.Represents f) {b : ℕ} (hb : b < g.blockRadices.prod)
    {q : Status × Ssd g.blockSize.toNat} {r : Status × Block g.blockSize.toNat}
    (hq : Stepped Ssd.sizes Ssd.blocks d.ssd (g.path b) q r) (data : ℕ → π) :
    FlashDevice.Represents ⟨q.2, data⟩ ⟨Function.update f.block b r.2, data⟩ where
  sizes := hq.sizes.trans h.sizes
  blocks := by
    intro c hc
    show q.2.blocks (g.path c) = Function.update f.block b r.2 c
    rw [hq.blocks]
    by_cases hcb : c = b
    · rw [hcb, Function.update_self, Function.update_self]
    · have hne : g.path c ≠ g.path b := fun heq => hcb (DeviceSizes.path_injOn hc hb heq)
      rw [Function.update_of_ne hne, Function.update_of_ne hcb]
      exact h.blocks c hc
  pageData := rfl

theorem represents_new (erases : ℕ) (junk : ℕ → π) :
    (FlashDevice.new g erases junk).Represents (Flash.new erases junk) :=
  ⟨rfl, fun _ _ => rfl, rfl⟩

theorem FlashDevice.Represents.replace (hg : g.Fits) (h : d.Represents f) (address r : BitVec 64)
    (hr : r.toNat < g.radices.prod) :
    ∃ q, d.ssd.replace (writeEvent g address (some r)) = .ok q ∧
      FlashDevice.Represents ⟨q.2, d.pageData⟩ (f.invalidate r.toNat) := by
  have hn : 0 < g.blockSize.toNat := hg.pos _ List.mem_cons_self
  have hblock := div_lt_blockRadices hr
  have hstep := Ssd.replace_stepped (e := writeEvent g address (some r)) h.sizes (inTree_of hg address _)
    (inTree_of hg r _) rfl
  change Agree (Stepped _ _ _ (Address.of g r .page).blockPath) _
    ((d.ssd.blocks (Address.of g r .page).blockPath).perform (.replace (Address.of g r .page).page.toNat))
    at hstep
  rw [blockPath_of hg, page_of hg, h.blocks _ hblock, f.invalidate_perform _ hn] at hstep
  obtain ⟨q, hq, hstepped⟩ := hstep.of_right rfl
  refine ⟨q, hq, ?_⟩
  rw [h.pageData]
  exact h.update hblock hstepped _

theorem FlashDevice.Represents.serve (hg : g.Fits) (h : d.Represents f) {op : DeviceOp π}
    (hop : op.InRange g) :
    Agree FlashDevice.Represents (d.serve op) (f.serve op) := by
  have hn : 0 < g.blockSize.toNat := hg.pos _ List.mem_cons_self
  cases op with
  | write address payload replaced =>
    obtain ⟨haddress, hreplaced⟩ := hop
    have hblock := div_lt_blockRadices haddress
    -- the way through the tree comes to one block; the flash calls the same block by its number
    have hstep := Ssd.write_stepped (e := writeEvent g address replaced) h.sizes (inTree_of hg address _)
      (show 3 < 5 by decide)
    change Agree (Stepped _ _ _ (Address.of g address .page).blockPath) _
      ((d.ssd.blocks (Address.of g address .page).blockPath).perform
        (.write (Address.of g address .page).page.toNat false)) at hstep
    rw [blockPath_of hg, page_of hg, h.blocks _ hblock] at hstep
    rw [FlashDevice.serve, Flash.serve, f.write_eq_bind _ _ hn, bind_assoc]
    apply hstep.bind
    intro q r hq
    have hwritten := h.update hblock hq (Function.update d.pageData address.toNat payload)
    rw [h.pageData] at hwritten
    cases replaced with
    | none =>
      rw [h.pageData]
      exact hwritten
    | some r' =>
      obtain ⟨q', hq', hrep⟩ := hwritten.replace hg address r' (hreplaced r' rfl)
      show Agree _ (q.2.replace (writeEvent g address (some r')) >>= _) _
      rw [hq', h.pageData]
      exact hrep
  | erase address =>
    have hblock := div_lt_blockRadices hop
    have hstep := Ssd.erase_stepped (e := eraseEvent g address) h.sizes (inTree_of hg address _)
      (show 3 < 4 by decide)
    change Agree (Stepped _ _ _ (Address.of g address .block).blockPath) _
      ((d.ssd.blocks (Address.of g address .block).blockPath).perform (.erase false)) at hstep
    rw [blockPath_of hg, h.blocks _ hblock] at hstep
    rw [FlashDevice.serve, Flash.serve, f.erase_eq_bind]
    apply hstep.bind
    intro q r hq
    dsimp only
    -- a worn block answers a failure, at which the layers halt
    rw [hq.status]
    split_ifs
    · have hupdated := h.update hblock hq d.pageData
      rw [h.pageData] at hupdated
      show FlashDevice.Represents ⟨q.2, d.pageData⟩ _
      rw [h.pageData]
      exact hupdated
    · exact rfl

theorem FlashDevice.Represents.serveAll (hg : g.Fits) (h : d.Represents f) {ops : List (DeviceOp π)}
    (hops : ∀ op ∈ ops, op.InRange g) : Agree FlashDevice.Represents (d.serveAll ops) (f.serveAll ops) :=
  Agree.foldlM (fun _ _ op hop hr => hr.serve hg (hops op hop)) h

theorem FlashDevice.Represents.getState (hg : g.Fits) (h : d.Represents f) {a : BitVec 64}
    (ha : a.toNat < g.radices.prod) : d.ssd.getState (.of g a .page) = .ok (f.stateAt a.toNat) := by
  have hn : 0 < g.blockSize.toNat := hg.pos _ List.mem_cons_self
  have htree := inTree_of hg a .page
  have hpath := blockPath_of hg a .page
  have hpage := page_of hg a .page
  obtain ⟨hssd, hpackage, hdie, hplane⟩ := d.ssd.sizes_eq h.sizes (Address.of g a .page).package.toNat
    (Address.of g a .page).die.toNat (Address.of g a .page).plane.toNat
  rw [Ssd.getState, if_pos ⟨by rw [hssd]; exact htree.package, show 1 ≤ 5 by decide⟩, Package.getState,
    if_pos ⟨by rw [hpackage]; exact htree.die, show 1 ≤ 5 by decide⟩, Die.getState,
    if_pos ⟨by rw [hdie]; exact htree.plane, show 2 ≤ 5 by decide⟩, Plane.getState,
    if_pos ⟨by rw [hplane]; exact htree.block, show 3 ≤ 5 by decide⟩,
    if_pos ⟨by rw [hpage]; exact Nat.mod_lt _ hn, show 4 ≤ 5 by decide⟩, hpage]
  have hblock := h.blocks _ (div_lt_blockRadices ha)
  rw [← hpath] at hblock
  rw [Flash.stateAt, ← hblock]
  rfl

end Refinement

/-- **The tree refines the flat flash.** Requests at addresses of the device, sent down the packages, the
dies and the planes, go as they do on blocks numbered by division: both halt alike or neither does. In the
end the tree has at every address the block, the page state and the data of the flat flash. -/
theorem device_refines_flash (g : DeviceSizes) (hg : g.Fits) {π : Type} (erases : ℕ) (junk : ℕ → π)
    (ops : List (DeviceOp π)) (hops : ∀ op ∈ ops, op.InRange g) :
    Agree (fun (d : FlashDevice g π) (f : Flash g.blockSize.toNat π) => d.pageData = f.pageData ∧
        ∀ a : BitVec 64, a.toNat < g.radices.prod →
          (d.ssd.getBlockPointer (.of g a .page)).toBlock = f.block (a.toNat / g.blockSize.toNat) ∧
          d.ssd.getState (.of g a .page) = .ok (f.stateAt a.toNat))
      ((FlashDevice.new g erases junk).serveAll ops) ((Flash.new erases junk).serveAll ops) := by
  apply ((represents_new erases junk).serveAll hg hops).mono
  intro d f h
  refine ⟨h.pageData, fun a ha => ⟨?_, h.getState hg ha⟩⟩
  have hblock := h.blocks _ (div_lt_blockRadices ha)
  rw [← blockPath_of hg a .page] at hblock
  exact hblock

/-- A write, its replacement in another package, and an erase of the first block. -/
def deviceOps : List (DeviceOp ℕ) := [.write 3 7 none, .write 719 8 (some 3), .erase 0]

theorem device_refines_flash_deviceOps :
    ∃ d, (FlashDevice.new smallDevice 9 fun _ => 0).serveAll deviceOps = .ok d ∧
      d.ssd.getState (.of smallDevice 719 .page) = .ok .valid ∧ d.pageData 719 = 8 := by
  have hops : ∀ op ∈ deviceOps, op.InRange smallDevice := by
    intro op hop
    simp only [deviceOps, List.mem_cons, List.not_mem_nil, or_false] at hop
    rcases hop with rfl | rfl | rfl
    · exact ⟨by decide, by simp⟩
    · refine ⟨by decide, ?_⟩
      rintro r ⟨⟩
      decide
    · show (0 : BitVec 64).toNat < _
      decide
  have hagree := device_refines_flash smallDevice ⟨by decide, by decide⟩ 9 (fun _ => 0) deviceOps hops
  obtain ⟨d, hd, hdata, hblocks⟩ := hagree.of_right rfl
  refine ⟨d, hd, (hblocks 719 (by decide)).2, ?_⟩
  rw [hdata]
  rfl

end ZnsFlash
