import ZnsFlash.Rtl.Crypto

/-!
# What the crypto engine computes

The 14 stages as a pipeline, and the two things asked of it.

* `encrypt`: the block function of the stages under fixed keys;
* `CryptoEngine.flows`, **`out_eq`**: what a stream of inputs gives 14 clocks later;
* **`stream_iff`**: a block of a stream is encrypted like the same block held on the inputs exactly
  when the address on the pins is its own again 14 clocks later;
* `shiftRows_flipByte`, **`encrypt_never_injective`**: blocks that differ in byte 11 are encrypted alike.
-/

namespace ZnsFlash

open Pipeline Function

/-- **The block function**: a block and its address, through the 14 stages under fixed keys. -/
def encrypt (k : Keys) (ioLba : BitVec 64) (ioDataIn : BitVec 128) : BitVec 128 :=
  through (fun _ => roundInst k) 0 (firstData k ioDataIn ioLba) (Fin.last 14) ^^^ tweakMask k ioLba

namespace CryptoEngine

variable {last : KeyBlock} {s : CryptoEngine} {is : ℕ → CryptoIn} {k : Keys}

/-! ## Streams -/

theorem flows (last : KeyBlock) (s : CryptoEngine) (is : ℕ → CryptoIn) :
    Flows (fun t => roundInst (s.after last is t).keys)
      (fun t => firstData (s.after last is t).keys (is t).ioDataIn (is t).ioLba)
      (fun t => (s.after last is t).outData) :=
  fun _ _ => rfl

/-- **The output 14 clocks later**: the block of clock `t`, under the mask of the present address. -/
theorem out_eq (last : KeyBlock) (s : CryptoEngine) (is : ℕ → CryptoIn) (t : ℕ) :
    (s.after last is (t + 14)).outDataEncrypted (is (t + 14)) =
      through (fun t => roundInst (s.after last is t).keys) t
          (firstData (s.after last is t).keys (is t).ioDataIn (is t).ioLba) (Fin.last 14) ^^^
        tweakMask (s.after last is (t + 14)).keys (is (t + 14)).ioLba :=
  congrArg (· ^^^ _) ((flows last s is).reaches t (Fin.last 14))

theorem out_constant (hkeys : ∀ n, (s.after last is n).keys = k) (t : ℕ) :
    (s.after last is (t + 14)).outDataEncrypted (is (t + 14)) =
      encrypt k (is t).ioLba (is t).ioDataIn ^^^ tweakMask k (is t).ioLba ^^^
        tweakMask k (is (t + 14)).ioLba := by
  rw [out_eq, encrypt, BitVec.xor_assoc (through _ _ _ _), BitVec.xor_self, BitVec.xor_zero]
  simp only [hkeys]
  rfl

theorem after_keys (hk : s.keys.keyData ≠ 0) (his : ∀ n, (is n).rst = false ∧ (is n).cryptoClear = false)
    (n : ℕ) : (s.after last is n).keys = s.keys := by
  induction n with
  | zero => rfl
  | succ n ih =>
    rw [after, keys_posedge, ih]
    exact Keys.posedge_kept hk (his n)

/-- What the engine puts out once an input has been held for 14 clocks. -/
def held (last : KeyBlock) (s : CryptoEngine) (i : CryptoIn) : BitVec 128 :=
  (s.after last (fun _ => i) 14).outDataEncrypted i

theorem after_held_keys {i : CryptoIn} (h : s.keys.posedge last i = s.keys) (n : ℕ) :
    (s.after last (fun _ => i) n).keys = s.keys := by
  induction n with
  | zero => rfl
  | succ n ih =>
    rw [after, keys_posedge, ih]
    exact h

/-- **The engine computes the block function** of an input that is held. -/
theorem held_eq_encrypt {i : CryptoIn} (h : s.keys.posedge last i = s.keys) :
    s.held last i = encrypt s.keys i.ioLba i.ioDataIn := by
  have hout := out_constant (after_held_keys h) 0
  rwa [BitVec.xor_assoc, BitVec.xor_self, BitVec.xor_zero] at hout

theorem tweakMask_inj (k : Keys) : Injective (tweakMask k) := by
  intro a b h
  have hcat : a ++ a = b ++ b := (BitVec.xor_left_inj _).mp h
  calc a = (a ++ a).setWidth 64 := BitVec.setWidth_append_eq_right.symm
    _ = (b ++ b).setWidth 64 := congrArg _ hcat
    _ = b := BitVec.setWidth_append_eq_right

/-- **When a stream is encrypted like its blocks.** With the keys constant, what the engine puts out
14 clocks after the input of clock `t` is what holding that input would give exactly when the
addresses on the pins at the two clocks are the same. -/
theorem stream_iff (last : KeyBlock) (s : CryptoEngine) (is : ℕ → CryptoIn)
    (hkeys : ∀ n, (s.after last is n).keys = s.keys) (t : ℕ) :
    (s.after last is (t + 14)).outDataEncrypted (is (t + 14)) =
        (s.after last is t).held last (is t) ↔
      (is (t + 14)).ioLba = (is t).ioLba := by
  have hkeep : (s.after last is t).keys.posedge last (is t) = (s.after last is t).keys :=
    (hkeys (t + 1)).trans (hkeys t).symm
  rw [held_eq_encrypt hkeep, out_constant hkeys, hkeys t, BitVec.xor_assoc]
  constructor
  · intro h
    have hmask := BitVec.xor_eq_zero_iff.mp ((BitVec.xor_right_inj _).mp (h.trans (BitVec.xor_zero).symm))
    exact (tweakMask_inj s.keys hmask).symm
  · intro h
    rw [h, BitVec.xor_self, BitVec.xor_zero]

/-- A stream of zero blocks whose address changes once. -/
def stray (n : ℕ) : CryptoIn := ⟨false, false, 0, if n = 14 then 1 else 0⟩

theorem stream_iff_stray :
    ((⟨.initial, fun _ => 0⟩ : CryptoEngine).after .init stray 14).outDataEncrypted (stray 14) =
        held .init ⟨.initial, fun _ => 0⟩ (stray 0) ↔ (stray 14).ioLba = (stray 0).ioLba :=
  stream_iff .init ⟨.initial, fun _ => 0⟩ stray
    (after_keys (by decide) fun _ => ⟨rfl, rfl⟩) 0

/-- The block of clock 0 leaves under the mask of clock 14. -/
theorem stray_mask : ¬ ∀ last s is, (∀ n, (after last s is n).keys = s.keys) → ∀ t,
    (s.after last is (t + 14)).outDataEncrypted (is (t + 14)) =
      (s.after last is t).held last (is t) := by
  intro h
  have hout := h .init ⟨.initial, fun _ => 0⟩ stray
    (after_keys (by decide) fun _ => ⟨rfl, rfl⟩) 0
  exact absurd hout (by decide +kernel)

end CryptoEngine

/-! ## Lost bytes -/

/-- A word with byte 11 changed by `b`. -/
def flipByte (b : BitVec 8) (x : BitVec 128) : BitVec 128 := x ^^^ b.setWidth 128 <<< 88

theorem flipByte_xor (b : BitVec 8) (x y : BitVec 128) :
    flipByte b x ^^^ y = flipByte b (x ^^^ y) := by
  rw [flipByte, flipByte, BitVec.xor_assoc, BitVec.xor_comm _ y, ← BitVec.xor_assoc]

theorem extractLsb_flipByte (b : BitVec 8) (x : BitVec 128) {hi lo : ℕ} (hle : lo ≤ hi)
    (h : hi < 88 ∨ 96 ≤ lo) : (flipByte b x).extractLsb hi lo = x.extractLsb hi lo := by
  ext j hj
  have hout : 8 ≤ lo + j - 88 ∨ lo + j < 88 := by omega
  rcases hout with hout | hout
  · simp [flipByte, hout, BitVec.getLsbD_of_ge]
  · simp [flipByte, hout]

theorem shiftRows_flipByte (b : BitVec 8) (x : BitVec 128) :
    shiftRows (flipByte b x) = shiftRows x := by
  rw [shiftRows, extractLsb_flipByte, extractLsb_flipByte, extractLsb_flipByte, extractLsb_flipByte,
    shiftRows] <;> omega

theorem aesRound_flipByte (skip : Bool) (key : BitVec 128) (b : BitVec 8) (x : BitVec 128) :
    aesRound skip key (flipByte b x) = aesRound skip key x := by
  have hsub : subBytes (flipByte b x) = flipByte b (subBytes x) := flipByte_xor b x _
  rw [aesRound, hsub, shiftRows_flipByte, aesRound]

theorem firstData_flipByte (k : Keys) (ioLba : BitVec 64) (b : BitVec 8) (x : BitVec 128) :
    firstData k (flipByte b x) ioLba = flipByte b (firstData k x ioLba) := by
  rw [firstData, flipByte_xor, flipByte_xor, firstData]

/-- **Blocks that differ in byte 11 are encrypted alike**, whatever the keys and the address. -/
theorem encrypt_flipByte (k : Keys) (ioLba : BitVec 64) (b : BitVec 8) (x : BitVec 128) :
    encrypt k ioLba (flipByte b x) = encrypt k ioLba x := by
  have hround : roundInst k 0 (flipByte b (firstData k x ioLba)) =
      roundInst k 0 (firstData k x ioLba) := aesRound_flipByte ..
  rw [encrypt, firstData_flipByte]
  exact congrArg (· ^^^ _) (through_congr hround (Fin.last 13))

theorem flipByte_ne (x : BitVec 128) : flipByte 1 x ≠ x := by
  intro h
  have hbit := congrArg (BitVec.getLsbD · 88) h
  simp [flipByte] at hbit

namespace CryptoEngine

theorem after_keys_data (last : KeyBlock) (s : CryptoEngine) (i : CryptoIn) (x : BitVec 128) (n : ℕ) :
    (s.after last (fun _ => { i with ioDataIn := x }) n).keys =
      (s.after last (fun _ => i) n).keys := by
  induction n with
  | zero => rfl
  | succ n ih =>
    rw [after, after, keys_posedge, keys_posedge, ih]
    rfl

theorem held_flipByte (last : KeyBlock) (s : CryptoEngine) (i : CryptoIn) (b : BitVec 8)
    (x : BitVec 128) : s.held last { i with ioDataIn := flipByte b x } =
      s.held last { i with ioDataIn := x } := by
  have hout (y : BitVec 128) := out_eq last s (fun _ => { i with ioDataIn := y }) 0
  simp only [after_keys_data] at hout
  rw [held, held, hout, hout, firstData_flipByte]
  exact congrArg (· ^^^ _) (through_congr (aesRound_flipByte ..) (Fin.last 13))

end CryptoEngine

/-- **Encryption is never injective**: not the block function of any keys and address, and not the
engine on blocks held at its input, from any state. -/
theorem encrypt_never_injective (k : Keys) (ioLba : BitVec 64) :
    ¬ Injective (encrypt k ioLba) ∧
      ∀ last outData rst cryptoClear, ¬ Injective fun ioDataIn =>
        CryptoEngine.held last ⟨k, outData⟩ ⟨rst, cryptoClear, ioDataIn, ioLba⟩ := by
  constructor
  · intro h
    exact flipByte_ne 0 (h (encrypt_flipByte k ioLba 1 0))
  · intro last outData rst cryptoClear h
    exact flipByte_ne 0
      (h (CryptoEngine.held_flipByte last ⟨k, outData⟩ ⟨rst, cryptoClear, 0, ioLba⟩ 1 0))

/-- Two blocks with one ciphertext under the keys of a reset. -/
theorem blocks_collide : ¬ ∀ k ioLba, Injective (encrypt k ioLba) := by
  intro h
  have hsame : encrypt .initial 0 0 = encrypt .initial 0 0x10000000000000000000000 := by decide +kernel
  exact absurd (h .initial 0 hsame) (by decide)

end ZnsFlash
