import ZnsFlash.Library.Pipeline
import ZnsFlash.Library.Runs
import Mathlib.Data.List.Chain

/-!
# The crypto engine

`aes_round.v` and `zns_crypto_engine.v`.

* `aesRound`, `Keys`, `CryptoEngine`: the round, the key registers, the engine with its 14 stages;
* `KeyBlock`, `Keys.posedge`: the two blocks that drive the keys;
* `CryptoEngine.posedge`, `after`, `outDataEncrypted`: the engine on a stream of inputs;
* **`erased_for_good_iff`**: a crypto-erase is permanent exactly when `crypto_clear` is never released.
-/

namespace ZnsFlash

open Runs Pipeline

/-! ## One round -/

/-- `sb_data`: the stand-in for SubBytes. -/
def subBytes (inData : BitVec 128) : BitVec 128 :=
  inData ^^^ 0x63636363_63636363_63636363_63636363

/-- `sr_data`. -/
def shiftRows (sbData : BitVec 128) : BitVec 128 :=
  -- 32 + 24 + 32 + 32 bits: the assignment pads the concatenation with zeros
  (sbData.extractLsb 127 96 ++ sbData.extractLsb 23 0 ++ sbData.extractLsb 55 24 ++
    sbData.extractLsb 87 56).setWidth 128

/-- `mc_data` when the round mixes. -/
def mixColumns (srData : BitVec 128) : BitVec 128 :=
  srData ^^^ (srData.extractLsb 63 0 ++ srData.extractLsb 127 64)

/-- `state_next` of `aes_round`. -/
def aesRound (skipMixCol : Bool) (roundKey inData : BitVec 128) : BitVec 128 :=
  let srData := shiftRows (subBytes inData)
  (if skipMixCol then srData else mixColumns srData) ^^^ roundKey

/-! ## The keys -/

/-- `key_data` and `key_tweak`. -/
@[ext]
structure Keys where
  keyData : BitVec 256
  keyTweak : BitVec 256
  deriving DecidableEq

/-- The keys after a crypto-erase. -/
def Keys.erased : Keys := ⟨0, 0⟩

/-- The keys the engine loads by itself. -/
def Keys.initial : Keys where
  keyData := 0xA5A5A5A5_B4B4B4B4_C3C3C3C3_D2D2D2D2_E1E1E1E1_F0F0F0F0_0F0F0F0F_1E1E1E1E
  keyTweak := 0x11223344_55667788_99A0A0A0_B0B0B0B0_C0C0C0C0_D0D0D0D0_E0E0E0E0_F0F0F0F0

/-- The inputs of the engine. `io_valid_in` is read by no block. -/
structure CryptoIn where
  rst : Bool
  cryptoClear : Bool
  ioDataIn : BitVec 128
  ioLba : BitVec 64
  deriving DecidableEq

/-- What the block at the top of the file assigns to the keys at a clock edge. -/
def initAssigns (k : Keys) (i : CryptoIn) : Option Keys :=
  if i.rst || i.cryptoClear then some .erased
  else if k.keyData = 0 then some .initial
  else none

/-- What the block at its end assigns to them. -/
def clearAssigns (i : CryptoIn) : Option Keys :=
  if i.rst then some .initial
  else if i.cryptoClear then some .erased
  else none

/-- Which of the two blocks assigns last; the language leaves it open. -/
inductive KeyBlock
  | init
  | clear
  deriving DecidableEq

/-- The keys at a clock edge. -/
def Keys.posedge (last : KeyBlock) (k : Keys) (i : CryptoIn) : Keys :=
  match last with
  | .init => (initAssigns k i).getD ((clearAssigns i).getD k)
  | .clear => (clearAssigns i).getD ((initAssigns k i).getD k)

/-! ## The engine -/

/-- The registers of `zns_crypto_engine`; `outData` are those of its 14 instances of `aes_round`. -/
structure CryptoEngine where
  keys : Keys
  outData : Fin 14 → BitVec 128

/-- `tweak_mask`. -/
def tweakMask (k : Keys) (ioLba : BitVec 64) : BitVec 128 :=
  (ioLba ++ ioLba) ^^^ k.keyTweak.extractLsb 127 0

/-- `r_data[0]`: the tweaked input with the first key. -/
def firstData (k : Keys) (ioDataIn : BitVec 128) (ioLba : BitVec 64) : BitVec 128 :=
  let xtsInput := ioDataIn ^^^ tweakMask k ioLba
  xtsInput ^^^ k.keyData.extractLsb 127 0

/-- The instances of `aes_round`: thirteen that mix, and the final one. -/
def roundInst (k : Keys) (i : Fin 14) : BitVec 128 → BitVec 128 :=
  if i = 13 then aesRound true (k.keyData.extractLsb 255 128)
  else aesRound false (k.keyData.extractLsb 127 0 ^^^ BitVec.ofNat 128 (i + 1))

namespace CryptoEngine

/-- The wires `r_data[0:14]`. -/
def rData (s : CryptoEngine) (i : CryptoIn) : Fin 15 → BitVec 128 :=
  wires (firstData s.keys i.ioDataIn i.ioLba) s.outData

/-- `out_data_encrypted`. -/
def outDataEncrypted (s : CryptoEngine) (i : CryptoIn) : BitVec 128 :=
  s.rData i 14 ^^^ tweakMask s.keys i.ioLba

/-- **One clock edge.** -/
def posedge (last : KeyBlock) (s : CryptoEngine) (i : CryptoIn) : CryptoEngine where
  keys := s.keys.posedge last i
  outData := fun j => roundInst s.keys j (s.rData i j.castSucc)

/-- The engine after `n` edges of a stream of inputs. -/
def after (last : KeyBlock) (s : CryptoEngine) (is : ℕ → CryptoIn) : ℕ → CryptoEngine
  | 0 => s
  | n + 1 => (s.after last is n).posedge last (is n)

end CryptoEngine

/-! ## Crypto-erase -/

/-- The edge that erases the keys: `crypto_clear` sampled high, `rst` low. -/
abbrev CryptoIn.Clears (i : CryptoIn) : Prop := i.rst = false ∧ i.cryptoClear = true

variable {last : KeyBlock} {k : Keys} {i : CryptoIn}

@[simp] theorem Keys.posedge_clears (h : i.Clears) : k.posedge last i = .erased := by
  cases last <;> simp [Keys.posedge, initAssigns, clearAssigns, h.1, h.2]

/-- **The keys come back.** The first edge with both inputs low loads the keys over the erased ones. -/
theorem Keys.erased_posedge (h : i.rst = false) :
    Keys.posedge last .erased i = if i.cryptoClear then .erased else .initial := by
  cases hc : i.cryptoClear with
  | true => simpa using Keys.posedge_clears ⟨h, hc⟩
  | false => cases last <;> simp [Keys.posedge, initAssigns, clearAssigns, h, hc, Keys.erased]

theorem Keys.posedge_kept (hk : k.keyData ≠ 0) (h : i.rst = false ∧ i.cryptoClear = false) :
    k.posedge last i = k := by
  have hinit : initAssigns k i = none := by
    rw [initAssigns, h.1, h.2]
    exact if_neg hk
  cases last <;> simp [Keys.posedge, hinit, clearAssigns, h]

theorem Keys.initial_ne_erased : Keys.initial ≠ .erased := by decide

namespace CryptoEngine

@[simp] theorem keys_posedge (s : CryptoEngine) (i : CryptoIn) :
    (s.posedge last i).keys = s.keys.posedge last i := rfl

/-- The keys are zero from every crypto-erase of the run up to the next `rst`. -/
def ErasedForGood (last : KeyBlock) (s : CryptoEngine) (is : List CryptoIn) : Prop :=
  ∀ before c since after, is = before ++ c :: (since ++ after) → c.Clears →
    (∀ i ∈ since, i.rst = false) →
    (run (posedge last) s (before ++ c :: since)).keys = .erased

/-- `crypto_clear` is not released before the next `rst`. -/
def ClearHeld (is : List CryptoIn) : Prop :=
  is.IsChain fun c i => c.Clears → i.rst = false → i.cryptoClear = true

theorem run_erased {s : CryptoEngine} {is : List CryptoIn} (hs : s.keys = .erased)
    (his : ∀ i ∈ is, i.Clears) : (run (posedge last) s is).keys = .erased := by
  induction is generalizing s with
  | nil => exact hs
  | cons i is ih =>
    have hi : i.Clears := his i List.mem_cons_self
    exact ih (Keys.posedge_clears hi) fun j hj => his j (List.mem_cons_of_mem i hj)

/-- Held from an erase on, `crypto_clear` erases at every edge before the next `rst`. -/
theorem ClearHeld.clears {c : CryptoIn} {since : List CryptoIn} (h : ClearHeld (c :: since))
    (hc : c.Clears) (hrst : ∀ i ∈ since, i.rst = false) : ∀ i ∈ since, i.Clears := by
  induction since generalizing c with
  | nil => simp
  | cons i since ih =>
    obtain ⟨hi, hchain⟩ := List.isChain_cons_cons.mp h
    have hclear : i.Clears := ⟨hrst i List.mem_cons_self, hi hc (hrst i List.mem_cons_self)⟩
    have hrest := ih hchain hclear fun j hj => hrst j (List.mem_cons_of_mem i hj)
    exact List.forall_mem_cons.mpr ⟨hclear, hrest⟩

/-- **When a crypto-erase is permanent.** -/
theorem erased_for_good_iff (last : KeyBlock) (s : CryptoEngine) (is : List CryptoIn) :
    ErasedForGood last s is ↔ ClearHeld is := by
  constructor
  · intro h
    refine List.isChain_iff_forall_rel_of_append_cons_cons.mpr ?_
    intro c i before after his hc hrst
    have hkeys := h before c [i] after his hc (by simpa using hrst)
    by_contra hclear
    rw [run, List.foldl_append] at hkeys
    have hback : (posedge last (posedge last (run (posedge last) s before) c) i).keys = .initial := by
      rw [keys_posedge, keys_posedge, Keys.posedge_clears hc, Keys.erased_posedge hrst, if_neg hclear]
    exact Keys.initial_ne_erased (hback.symm.trans hkeys)
  · rintro h before c since after rfl hc hrst
    have hheld : ClearHeld (c :: since) :=
      List.IsChain.left_of_append (List.IsChain.right_of_append h)
    rw [run, List.foldl_append, List.foldl_cons]
    exact run_erased (Keys.posedge_clears hc) (hheld.clears hc hrst)

/-- One edge with `crypto_clear`, one without: the keys are loaded again. -/
theorem clear_released : ¬ ∀ last s is, ErasedForGood last s is := by
  intro h
  have hkeys := h .init ⟨.initial, fun _ => 0⟩ [⟨false, true, 0, 0⟩, ⟨false, false, 0, 0⟩] []
    ⟨false, true, 0, 0⟩ [⟨false, false, 0, 0⟩] [] rfl ⟨rfl, rfl⟩ (by simp)
  exact Keys.initial_ne_erased hkeys

end CryptoEngine

end ZnsFlash
