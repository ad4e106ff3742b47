import ZnsFlash.Library.MixedRadix
import ZnsFlash.Ssd.Flash
import Mathlib.Tactic.Ring

/-!
# Linear addresses and the hardware tree

`ssd_address.cpp`, and the constructors of `Ssd`, `Package`, `Die`, `Plane` and `Block`, which hand
out the physical addresses. `uint` is `BitVec 32`; `long` and `ulong` are `BitVec 64`.

* `DeviceSizes`, `Address`, `Address.setLinearAddress`: the sizes and the division of an address;
* `PlacedBlock`, `Plane`, `Die`, `Package`, `Ssd`: the tree, `Ssd.getBlockPointer`;
* `PlacedBlock.getNextPage`, `Plane.getFreePage`: the two searches for a page;
* `indices_setLinearAddress`: the division gives the digits of the address;
* **`linear_addresses_agree`**: the path of an address leads to its block.
-/

namespace ZnsFlash

open MixedRadix

/-- `SSD_SIZE`, `PACKAGE_SIZE`, `DIE_SIZE`, `PLANE_SIZE`, `BLOCK_SIZE`. -/
structure DeviceSizes where
  ssdSize : BitVec 32
  packageSize : BitVec 32
  dieSize : BitVec 32
  planeSize : BitVec 32
  blockSize : BitVec 32

/-- The sizes from the page upwards. -/
def DeviceSizes.radices (g : DeviceSizes) : List ℕ :=
  [g.blockSize.toNat, g.planeSize.toNat, g.dieSize.toNat, g.packageSize.toNat, g.ssdSize.toNat]

/-- All sizes are positive, and the pages can be numbered in 32 bits. -/
structure DeviceSizes.Fits (g : DeviceSizes) : Prop where
  pos : ∀ b ∈ g.radices, 0 < b
  lt : g.radices.prod < 2 ^ 32

/-- `enum address_valid` -/
inductive AddressValid
  | none
  | package
  | die
  | plane
  | block
  | page
  deriving DecidableEq

/-- The value of the enumerator. -/
def AddressValid.level : AddressValid → ℕ
  | none => 0
  | package => 1
  | die => 2
  | plane => 3
  | block => 4
  | page => 5

structure Address where
  package : BitVec 32
  die : BitVec 32
  plane : BitVec 32
  block : BitVec 32
  page : BitVec 32
  realAddress : BitVec 64
  valid : AddressValid
  deriving DecidableEq

namespace Address

/-- The default constructor; `real_address` is left as it is. -/
def new (junk : BitVec 64) : Address := ⟨0, 0, 0, 0, 0, junk, .none⟩

/-- `set_linear_address` -/
def setLinearAddress (g : DeviceSizes) (a : Address) (address : BitVec 64) : Address :=
  let page := address % g.blockSize.setWidth 64
  let blocks := address / g.blockSize.setWidth 64
  let block := blocks % g.planeSize.setWidth 64
  let planes := blocks / g.planeSize.setWidth 64
  let plane := planes % g.dieSize.setWidth 64
  let dies := planes / g.dieSize.setWidth 64
  let die := dies % g.packageSize.setWidth 64
  let packages := dies / g.packageSize.setWidth 64
  let package := packages % g.ssdSize.setWidth 64
  { a with
    realAddress := address
    page := page.setWidth 32
    block := block.setWidth 32
    plane := plane.setWidth 32
    die := die.setWidth 32
    package := package.setWidth 32 }

/-- The fields from the page upwards. -/
def indices (a : Address) : List ℕ :=
  [a.page.toNat, a.block.toNat, a.plane.toNat, a.die.toNat, a.package.toNat]

/-- Two addresses lead to one block. -/
def SameBlock (a a' : Address) : Prop :=
  a.package = a'.package ∧ a.die = a'.die ∧ a.plane = a'.plane ∧ a.block = a'.block

/-- `compare` -/
def compare (a a' : Address) : AddressValid :=
  let both := fun v : AddressValid => v.level ≤ a.valid.level ∧ v.level ≤ a'.valid.level
  if a.package = a'.package ∧ both .package then
    if a.die = a'.die ∧ both .die then
      if a.plane = a'.plane ∧ both .plane then
        if a.block = a'.block ∧ both .block then
          if a.page = a'.page ∧ both .page then .page else .block
        else .plane
      else .die
    else .package
  else .none

end Address

/-! ## The tree -/

/-- A block with its `physical_address`. -/
structure PlacedBlock (n : ℕ) extends Block n where
  physicalAddress : BitVec 64

/-- `next_page` and `free_blocks` are left out: the first is never used, and the second only counts. -/
structure Plane (n : ℕ) where
  size : BitVec 32
  data : ℕ → PlacedBlock n
  leastWorn : ℕ
  erasesRemaining : ℕ

structure Die (n : ℕ) where
  size : BitVec 32
  data : ℕ → Plane n

structure Package (n : ℕ) where
  size : BitVec 32
  data : ℕ → Die n

structure Ssd (n : ℕ) where
  size : BitVec 32
  data : ℕ → Package n

section Constructors

variable (g : DeviceSizes) (erases : ℕ)

/-- The constructor; `erases` is `BLOCK_ERASES`. -/
def Plane.new (planeSize : BitVec 32) (physicalAddress : BitVec 64) : Plane g.blockSize.toNat :=
  ⟨planeSize,
    fun i => ⟨.new erases, physicalAddress + (BitVec.ofNat 32 i * g.blockSize).setWidth 64⟩, 0, erases⟩

def Die.new (dieSize : BitVec 32) (physicalAddress : BitVec 64) : Die g.blockSize.toNat :=
  ⟨dieSize, fun i => .new g erases g.planeSize
    (physicalAddress + (g.planeSize * g.blockSize * BitVec.ofNat 32 i).setWidth 64)⟩

def Package.new (packageSize : BitVec 32) (physicalAddress : BitVec 64) :
    Package g.blockSize.toNat :=
  ⟨packageSize, fun i => .new g erases g.dieSize
    (physicalAddress + (g.dieSize * g.planeSize * g.blockSize * BitVec.ofNat 32 i).setWidth 64)⟩

def Ssd.new (ssdSize : BitVec 32) : Ssd g.blockSize.toNat :=
  ⟨ssdSize, fun i => .new g erases g.packageSize
    ((g.packageSize * g.dieSize * g.planeSize * g.blockSize * BitVec.ofNat 32 i).setWidth 64)⟩

end Constructors

section Paths

variable {n : ℕ}

def Plane.getBlockPointer (p : Plane n) (a : Address) : PlacedBlock n := p.data a.block.toNat

def Die.getBlockPointer (d : Die n) (a : Address) : PlacedBlock n :=
  (d.data a.plane.toNat).getBlockPointer a

def Package.getBlockPointer (p : Package n) (a : Address) : PlacedBlock n :=
  (p.data a.die.toNat).getBlockPointer a

def Ssd.getBlockPointer (s : Ssd n) (a : Address) : PlacedBlock n :=
  (s.data a.package.toNat).getBlockPointer a

/-- `Block::get_next_page`; `none` is `FAILURE`. -/
def PlacedBlock.getNextPage (g : DeviceSizes) (b : PlacedBlock n) (a : Address) : Option Address :=
  ((List.range n).find? fun i => b.pages i = .empty).map fun i =>
    { a.setLinearAddress g (BitVec.ofNat 64 i + b.physicalAddress -
        b.physicalAddress % g.blockSize.setWidth 64) with valid := .page }

/-- `Plane::get_free_page`; `none` is the assertion. -/
def Plane.getFreePage (g : DeviceSizes) (p : Plane n) (a : Address) : Option Address :=
  let page := (p.data a.block.toNat).pagesValid
  if page < g.blockSize.toNat then
    some ({ a with page := BitVec.ofNat 32 page, valid := .page }.setLinearAddress g
      (a.realAddress + BitVec.ofNat 64 page - a.realAddress % g.blockSize.setWidth 64))
  else none

end Paths

/-! ## Indices and physical addresses -/

section Agreement

variable {g : DeviceSizes}

theorem toNat_widened (size : BitVec 32) : (size.setWidth 64).toNat = size.toNat := by
  have hsize := size.isLt
  rw [BitVec.toNat_setWidth, Nat.mod_eq_of_lt (by omega)]

theorem toNat_digit (x : BitVec 64) {size : BitVec 32} (hpos : 0 < size.toNat) :
    ((x % size.setWidth 64).setWidth 32).toNat = x.toNat % size.toNat := by
  have hlt := (Nat.mod_lt x.toNat hpos).trans size.isLt
  rw [BitVec.toNat_setWidth, BitVec.toNat_umod, toNat_widened, Nat.mod_eq_of_lt hlt]

theorem toNat_rest (x : BitVec 64) (size : BitVec 32) :
    (x / size.setWidth 64).toNat = x.toNat / size.toNat := by
  rw [BitVec.toNat_udiv, toNat_widened]

theorem indices_setLinearAddress (hg : g.Fits) (x : Address) (a : BitVec 64) :
    (x.setLinearAddress g a).indices = digits g.radices a.toNat := by
  have hpos := hg.pos
  simp only [DeviceSizes.radices, List.forall_mem_cons] at hpos
  obtain ⟨hblock, hplane, hdie, hpackage, hssd, -⟩ := hpos
  simp only [Address.indices, Address.setLinearAddress, DeviceSizes.radices, digits, toNat_rest,
    toNat_digit _ hblock, toNat_digit _ hplane, toNat_digit _ hdie, toNat_digit _ hpackage,
    toNat_digit _ hssd]

theorem toNat_offset {base : BitVec 64} {offset : BitVec 32} {n : ℕ} (hoffset : offset.toNat = n)
    (hlt : base.toNat + n < 2 ^ 64) : (base + offset.setWidth 64).toNat = base.toNat + n := by
  rw [BitVec.toNat_add, toNat_widened, hoffset, Nat.mod_eq_of_lt hlt]

theorem toNat_product {x : BitVec 32} {n : ℕ} (hn : x.toNat = n % 2 ^ 32) (y : BitVec 32) :
    (x * y).toNat = n * y.toNat % 2 ^ 32 := by
  rw [BitVec.toNat_mul, hn, Nat.mod_mul_mod]

theorem toNat_stride {stride i : BitVec 32} {n : ℕ} (hn : stride.toNat = n % 2 ^ 32)
    (hlt : n * i.toNat < 2 ^ 32) : (stride * BitVec.ofNat 32 i.toNat).toNat = n * i.toNat := by
  rw [BitVec.ofNat_toNat, BitVec.setWidth_eq, toNat_product hn, Nat.mod_eq_of_lt hlt]

/-- **The physical address of a block** is what its indices stand for, without the page. -/
theorem physicalAddress_new (g : DeviceSizes) (erases : ℕ) (a : Address)
    (hlt : value g.radices a.indices < 2 ^ 32) :
    ((Ssd.new g erases g.ssdSize).getBlockPointer a).physicalAddress.toNat =
      value g.radices a.indices - a.page.toNat := by
  have hvalue : value g.radices a.indices = a.page.toNat +
      (g.packageSize.toNat * g.dieSize.toNat * g.planeSize.toNat * g.blockSize.toNat * a.package.toNat +
        g.dieSize.toNat * g.planeSize.toNat * g.blockSize.toNat * a.die.toNat +
        g.planeSize.toNat * g.blockSize.toNat * a.plane.toNat +
        g.blockSize.toNat * a.block.toNat) := by
    simp only [DeviceSizes.radices, Address.indices, value]
    ring
  have hplane := BitVec.toNat_mul g.planeSize g.blockSize
  have hdie := toNat_product (BitVec.toNat_mul g.dieSize g.planeSize) g.blockSize
  have hpackage := toNat_product
    (toNat_product (BitVec.toNat_mul g.packageSize g.dieSize) g.planeSize) g.blockSize
  have hblock : g.blockSize.toNat = g.blockSize.toNat % 2 ^ 32 :=
    (Nat.mod_eq_of_lt g.blockSize.isLt).symm
  have hpackages := toNat_stride (i := a.package) hpackage (by omega)
  have hdies := toNat_stride (i := a.die) hdie (by omega)
  have hplanes := toNat_stride (i := a.plane) hplane (by omega)
  have hblocks := toNat_stride (i := a.block) hblock (by omega)
  rw [BitVec.mul_comm] at hblocks
  simp only [Ssd.getBlockPointer, Package.getBlockPointer, Die.getBlockPointer,
    Plane.getBlockPointer, Ssd.new, Package.new, Die.new, Plane.new]
  have hbase := (toNat_widened _).trans hpackages
  have hbase₂ := toNat_offset hdies (by rw [hbase]; omega)
  rw [hbase] at hbase₂
  have hbase₃ := toNat_offset hplanes (by rw [hbase₂]; omega)
  rw [hbase₂] at hbase₃
  have hbase₄ := toNat_offset hblocks (by rw [hbase₃]; omega)
  rw [hbase₄, hbase₃]
  omega

theorem getBlockPointer_spec (hg : g.Fits) (erases : ℕ) (x : Address) {a : BitVec 64}
    (ha : a.toNat < g.radices.prod) :
    ((Ssd.new g erases g.ssdSize).getBlockPointer (x.setLinearAddress g a)).physicalAddress.toNat =
        a.toNat - a.toNat % g.blockSize.toNat ∧
      (x.setLinearAddress g a).page.toNat = a.toNat % g.blockSize.toNat := by
  have hindices := indices_setLinearAddress hg x a
  have hpage : (x.setLinearAddress g a).page.toNat = a.toNat % g.blockSize.toNat :=
    (List.cons.inj hindices).1
  have hvalue : value g.radices (x.setLinearAddress g a).indices = a.toNat := by
    rw [hindices, value_digits ha]
  refine ⟨?_, hpage⟩
  rw [physicalAddress_new g erases _ (hvalue.trans_lt (ha.trans hg.lt)), hvalue, hpage]

theorem sameBlock_page (hg : g.Fits) (x y : Address) {a a' : BitVec 64} {i : ℕ}
    (hi : i < g.blockSize.toNat) (ha' : a'.toNat = a.toNat - a.toNat % g.blockSize.toNat + i) :
    (y.setLinearAddress g a').SameBlock (x.setLinearAddress g a) ∧
      (y.setLinearAddress g a').page.toNat = i := by
  have hindices := indices_setLinearAddress hg x a
  have hindices' := indices_setLinearAddress hg y a'
  rw [ha', DeviceSizes.radices, digits_cons_add hi] at hindices'
  obtain ⟨hpage, hrest⟩ := List.cons.inj hindices'
  have hsame := hrest.trans (List.cons.inj hindices).2.symm
  simp only [List.cons.injEq, and_true] at hsame
  obtain ⟨hblock, hplane, hdie, hpackage⟩ := hsame
  exact ⟨⟨BitVec.eq_of_toNat_eq hpackage, BitVec.eq_of_toNat_eq hdie, BitVec.eq_of_toNat_eq hplane,
    BitVec.eq_of_toNat_eq hblock⟩, hpage⟩

end Agreement

/-- **Linear addresses and the tree agree.** The indices of an address are in range and lead to the
block with its base, at the page of its offset; different addresses have different indices; and the
pages that `get_next_page` and `get_free_page` name are in the block that they were asked about. -/
theorem linear_addresses_agree (g : DeviceSizes) (hg : g.Fits) (erases : ℕ) (x : Address)
    (a : BitVec 64) (ha : a.toNat < g.radices.prod) :
    let addr := x.setLinearAddress g a
    let block := (Ssd.new g erases g.ssdSize).getBlockPointer addr
    List.Forall₂ (· < ·) addr.indices g.radices ∧
      block.physicalAddress.toNat = a.toNat - a.toNat % g.blockSize.toNat ∧
      addr.page.toNat = a.toNat % g.blockSize.toNat ∧
      (∀ (y : Address) a', a'.toNat < g.radices.prod → (y.setLinearAddress g a').indices = addr.indices →
        a' = a) ∧
      (∀ (b : PlacedBlock g.blockSize.toNat) y r, b.physicalAddress = block.physicalAddress →
        b.getNextPage g y = some r → r.SameBlock addr ∧ b.pages r.page.toNat = .empty) ∧
      ∀ (p : Plane g.blockSize.toNat) r, p.getFreePage g addr = some r →
        r.SameBlock addr ∧ r.page.toNat = (p.data addr.block.toNat).pagesValid := by
  intro addr block
  obtain ⟨hbase, hpage⟩ := getBlockPointer_spec hg erases x ha
  have hindices : addr.indices = digits g.radices a.toNat := indices_setLinearAddress hg x a
  have hlt := ha.trans hg.lt
  have hpos : 0 < g.blockSize.toNat := hg.pos _ List.mem_cons_self
  refine ⟨?_, hbase, hpage, fun y a' ha' hsame => ?_, fun b y r hb hr => ?_, fun p r hr => ?_⟩
  · rw [hindices]
    exact digits_lt hg.pos _
  -- the digits of an address determine it
  · rw [indices_setLinearAddress hg, hindices] at hsame
    exact BitVec.eq_of_toNat_eq (digits_injOn ha' ha hsame)
  -- `get_next_page` adds to the aligned address of its block, so nothing is subtracted
  · obtain ⟨i, hfind, rfl⟩ := Option.map_eq_some_iff.mp hr
    have hi : i < g.blockSize.toNat := List.mem_range.mp (List.mem_of_find?_eq_some hfind)
    have hempty := List.find?_some hfind
    rw [decide_eq_true_iff] at hempty
    have haligned : b.physicalAddress % g.blockSize.setWidth 64 = 0#64 := by
      refine BitVec.eq_of_toNat_eq ?_
      rw [BitVec.toNat_umod, toNat_widened, hb, hbase]
      exact Nat.sub_mod_eq_zero_of_mod_eq (Nat.mod_mod _ _).symm
    have hlinear : (BitVec.ofNat 64 i + b.physicalAddress -
        b.physicalAddress % g.blockSize.setWidth 64).toNat =
          a.toNat - a.toNat % g.blockSize.toNat + i := by
      have hsize := g.blockSize.isLt
      rw [haligned, BitVec.sub_zero, BitVec.toNat_add, BitVec.toNat_ofNat, hb, hbase]
      omega
    obtain ⟨hsame, hnum⟩ := sameBlock_page hg x y hi hlinear
    refine ⟨hsame, ?_⟩
    show b.pages (y.setLinearAddress g _).page.toNat = .empty
    rw [hnum]
    exact hempty
  -- `get_free_page` adds to the address itself and takes its page off again
  · rw [Plane.getFreePage] at hr
    split_ifs at hr with hfree
    have hlinear : (addr.realAddress + BitVec.ofNat 64 (p.data addr.block.toNat).pagesValid -
        addr.realAddress % g.blockSize.setWidth 64).toNat =
          a.toNat - a.toNat % g.blockSize.toNat + (p.data addr.block.toNat).pagesValid := by
      have hsize := g.blockSize.isLt
      have hoffset := Nat.mod_le a.toNat g.blockSize.toNat
      have hsum : (a + BitVec.ofNat 64 (p.data addr.block.toNat).pagesValid).toNat =
          a.toNat + (p.data addr.block.toNat).pagesValid := by
        rw [BitVec.toNat_add, BitVec.toNat_ofNat]
        omega
      have hrest : (a % g.blockSize.setWidth 64).toNat = a.toNat % g.blockSize.toNat := by
        rw [BitVec.toNat_umod, toNat_widened]
      show (a + BitVec.ofNat 64 (p.data addr.block.toNat).pagesValid -
        a % g.blockSize.setWidth 64).toNat = _
      rw [BitVec.toNat_sub_of_le (BitVec.le_def.mpr (by omega)), hsum, hrest]
      omega
    rw [← Option.some.inj hr]
    exact sameBlock_page hg x _ hfree hlinear

/-- Two packages of three dies, with four planes of five blocks of six pages. -/
def smallDevice : DeviceSizes := ⟨2, 3, 4, 5, 6⟩

theorem linear_addresses_agree_smallDevice :
    ((Ssd.new smallDevice 9 2).getBlockPointer
      ((Address.new 0).setLinearAddress smallDevice 719)).physicalAddress.toNat = 714 :=
  (linear_addresses_agree smallDevice ⟨by decide, by decide⟩ 9 (Address.new 0) 719 (by decide)).2.1

end ZnsFlash
