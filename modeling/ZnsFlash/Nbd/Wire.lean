import ZnsFlash.Library.BigEndian
import Mathlib.Tactic.NormNum

/-!
# The wire format of the server

`nbd_protocol.h`: packed headers in network byte order, 28 bytes for a request and 16 for a reply.

* `NbdRequest`, `NbdRequest.encode`, `NbdRequest.decode`, **`NbdRequest.decode_encode`**;
* `NbdReply`, `NbdReply.encode`, `replyError`: the error field as a client cuts it out.
-/

namespace ZnsFlash

open BigEndian

abbrev Byte := BitVec 8

/-- `ZNS_NBD_REQUEST_MAGIC` -/
def requestMagic : BitVec 32 := 0x25609513

/-- `ZNS_NBD_REPLY_MAGIC` -/
def replyMagic : BitVec 32 := 0x67446698

/-- `struct nbd_request_t`; `offset` is its field `from`. -/
@[ext] structure NbdRequest where
  magic : BitVec 32
  type : BitVec 32
  handle : BitVec 64
  offset : BitVec 64
  len : BitVec 32
  deriving DecidableEq

/-- `struct nbd_reply_t` -/
structure NbdReply where
  magic : BitVec 32
  error : BitVec 32
  handle : BitVec 64
  deriving DecidableEq

def NbdRequest.encode (r : NbdRequest) : List Byte :=
  BigEndian.encode 4 r.magic.toNat ++ (BigEndian.encode 4 r.type.toNat ++
    (BigEndian.encode 8 r.handle.toNat ++ (BigEndian.encode 8 r.offset.toNat ++
      BigEndian.encode 4 r.len.toNat)))

/-- The header at the front of a byte string, when it is complete. -/
def NbdRequest.decode (bs : List Byte) : Option NbdRequest :=
  if bs.length < 28 then none
  else some
    { magic := BitVec.ofNat 32 (field bs 0 4)
      type := BitVec.ofNat 32 (field bs 4 4)
      handle := BitVec.ofNat 64 (field bs 8 8)
      offset := BitVec.ofNat 64 (field bs 16 8)
      len := BitVec.ofNat 32 (field bs 24 4) }

def NbdReply.encode (r : NbdReply) : List Byte :=
  BigEndian.encode 4 r.magic.toNat ++ (BigEndian.encode 4 r.error.toNat ++
    BigEndian.encode 8 r.handle.toNat)

/-- Bytes 4 to 8 of a reply. -/
def replyError (bs : List Byte) : BitVec 32 := BitVec.ofNat 32 (field bs 4 4)

@[simp] theorem NbdRequest.length_encode (r : NbdRequest) : r.encode.length = 28 := by
  simp [NbdRequest.encode]

@[simp] theorem NbdReply.length_encode (r : NbdReply) : r.encode.length = 16 := by
  simp [NbdReply.encode]

theorem ofNat_decode_encode {k n : ℕ} (h : 2 ^ k = 256 ^ n) (x : BitVec k) :
    BitVec.ofNat k (BigEndian.decode (BigEndian.encode n x.toNat)) = x := by
  apply BitVec.eq_of_toNat_eq
  rw [BigEndian.decode_encode, BitVec.toNat_ofNat, ← h, Nat.mod_mod]
  exact Nat.mod_eq_of_lt x.isLt

/-- **Round trip of a request header**, whatever follows it. -/
theorem NbdRequest.decode_encode (r : NbdRequest) (rest : List Byte) :
    NbdRequest.decode (r.encode ++ rest) = some r := by
  have hlen : ¬ (r.encode ++ rest).length < 28 := by
    rw [List.length_append, r.length_encode]
    omega
  have h32 : (2 : ℕ) ^ 32 = 256 ^ 4 := by norm_num
  have h64 : (2 : ℕ) ^ 64 = 256 ^ 8 := by norm_num
  have l4 := BigEndian.length_encode 4
  have l8 := BigEndian.length_encode 8
  rw [NbdRequest.decode, if_neg hlen]
  congr 1
  simp only [NbdRequest.encode, List.append_assoc]
  ext1 <;> dsimp only
  · rw [field_front (l4 _), ofNat_decode_encode h32]
  · rw [field_skip (l4 _) 0, field_front (l4 _), ofNat_decode_encode h32]
  · rw [field_skip (l4 _) 4, field_skip (l4 _) 0, field_front (l8 _), ofNat_decode_encode h64]
  · rw [field_skip (l4 _) 12, field_skip (l4 _) 8, field_skip (l8 _) 0, field_front (l8 _),
      ofNat_decode_encode h64]
  · rw [field_skip (l4 _) 20, field_skip (l4 _) 16, field_skip (l8 _) 8, field_skip (l8 _) 0,
      field_front (l4 _), ofNat_decode_encode h32]

theorem NbdRequest.decode_encode_self (r : NbdRequest) : NbdRequest.decode r.encode = some r := by
  have h := r.decode_encode []
  rwa [List.append_nil] at h

theorem NbdRequest.drop_encode (r : NbdRequest) (rest : List Byte) :
    (r.encode ++ rest).drop 28 = rest :=
  List.drop_left' r.length_encode

theorem replyError_encode_append (r : NbdReply) (rest : List Byte) :
    replyError (r.encode ++ rest) = r.error := by
  have h32 : (2 : ℕ) ^ 32 = 256 ^ 4 := by norm_num
  have l4 := BigEndian.length_encode 4
  rw [replyError, NbdReply.encode, List.append_assoc, List.append_assoc, field_skip (l4 _) 0,
    field_front (l4 _), ofNat_decode_encode h32]

theorem replyError_encode (r : NbdReply) : replyError r.encode = r.error := by
  have h := replyError_encode_append r []
  rwa [List.append_nil] at h

end ZnsFlash
