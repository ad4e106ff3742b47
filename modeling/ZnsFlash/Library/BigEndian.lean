import Mathlib.Data.List.Induction
import Mathlib.Tactic.NormNum

/-!
# Big-endian numbers in byte strings

* `encode n x`: the `n` low bytes of `x`, highest first;
* `decode`: the number a byte string spells, **`decode_encode`**, **`encode_decode`**: the round
  trips;
* `field bs i n`: the number spelled by `n` bytes from position `i`; `field_front`, `field_skip`.
-/

namespace BigEndian

/-- The `n` low bytes of `x`, highest first. -/
def encode : ℕ → ℕ → List (BitVec 8)
  | 0, _ => []
  | n + 1, x => encode n (x / 256) ++ [BitVec.ofNat 8 x]

/-- The number spelled by a byte string. -/
def decode (bs : List (BitVec 8)) : ℕ := bs.foldl (fun acc b => acc * 256 + b.toNat) 0

/-- The number spelled by the `n` bytes from position `i`. -/
def field (bs : List (BitVec 8)) (i n : ℕ) : ℕ := decode ((bs.drop i).take n)

variable {n : ℕ}

@[simp] theorem length_encode (n x : ℕ) : (encode n x).length = n := by
  induction n generalizing x with
  | zero => rfl
  | succ n ih => rw [encode, List.length_append, ih, List.length_singleton]

theorem decode_append_singleton (bs : List (BitVec 8)) (b : BitVec 8) :
    decode (bs ++ [b]) = decode bs * 256 + b.toNat := by
  rw [decode, List.foldl_append]
  rfl

theorem decode_encode (n x : ℕ) : decode (encode n x) = x % 256 ^ n := by
  induction n generalizing x with
  | zero => rw [Nat.pow_zero, Nat.mod_one]; rfl
  | succ n ih =>
    have hmod : x % 256 ^ (n + 1) = x % 256 + 256 * (x / 256 % 256 ^ n) := by
      rw [Nat.pow_succ, Nat.mul_comm, Nat.mod_mul]
    rw [encode, decode_append_singleton, ih, BitVec.toNat_ofNat, hmod]
    change x / 256 % 256 ^ n * 256 + x % 256 = _
    omega

theorem decode_lt (bs : List (BitVec 8)) : decode bs < 256 ^ bs.length := by
  induction bs using List.reverseRecOn with
  | nil => exact Nat.one_pos
  | append_singleton bs b ih =>
    have hb : b.toNat < 256 := b.isLt
    rw [decode_append_singleton, List.length_append, List.length_singleton, Nat.pow_succ]
    omega

theorem encode_decode (bs : List (BitVec 8)) : encode bs.length (decode bs) = bs := by
  induction bs using List.reverseRecOn with
  | nil => rfl
  | append_singleton bs b ih =>
    have hb : b.toNat < 256 := b.isLt
    have hhigh : (decode bs * 256 + b.toNat) / 256 = decode bs := by omega
    have hlow : BitVec.ofNat 8 (decode bs * 256 + b.toNat) = b := by
      apply BitVec.eq_of_toNat_eq
      rw [BitVec.toNat_ofNat]
      omega
    rw [decode_append_singleton, List.length_append, List.length_singleton, encode, hhigh, hlow, ih]

theorem field_front {bs : List (BitVec 8)} (h : bs.length = n) (cs : List (BitVec 8)) :
    field (bs ++ cs) 0 n = decode bs := by
  subst h
  rw [field, List.drop_zero, List.take_left]

theorem field_skip {as : List (BitVec 8)} {k : ℕ} (h : as.length = k) (i : ℕ)
    (bs : List (BitVec 8)) : field (as ++ bs) (k + i) n = field bs i n := by
  subst h
  rw [field, List.drop_append, Nat.add_sub_cancel_left, List.drop_eq_nil_of_le (Nat.le_add_right _ _),
    List.nil_append]
  rfl

end BigEndian
