import ZnsFlash.Nbd.Stream

/-!
# The handshake of the server

`run_nbd_negotiation` of `nbd_negotiation.cpp`: a greeting, the flags of the client, and its options, until
one asks for the export.

* `OptHeader`, `Negotiation`, `negotiationLoop`, `runNbdNegotiation`: the handshake, on a stream that
  arrives in pieces;
* `converse`: what the handshake makes of a byte string;
* `OptionWhole`, `Exchange`, **`runNbdNegotiation_eq`**: with headers that come whole, nothing else
  matters;
* `NbdOption`: an option that is refused; **`converse_accepted_iff`**, **`converse_overrun_iff`**: the byte
  strings that end in an export, and outside `opt_data`;
* **`negotiates_iff`**: the handshake from the greeting on.
-/

namespace ZnsFlash

open Reader Relation BigEndian

/-- `ZNS_NBD_INIT_MAGIC` -/
def initMagic : BitVec 64 := 0x4e42444d41474943

/-- The number that is sent for "IHAVEOPT". -/
def optsMagic : BitVec 64 := 0x444d41474943

/-- `NBD_REP_MAGIC` -/
def repMagic : BitVec 64 := 0x3e889045565a9

/-- `NBD_REP_ERR_UNSUP` -/
def repErrUnsup : BitVec 32 := 0x80000001

/-- `greeting`, with `NBD_FLAG_FIXED_NEWSTYLE`. -/
def greeting : List Byte :=
  BigEndian.encode 8 initMagic.toNat ++ (BigEndian.encode 8 optsMagic.toNat ++ BigEndian.encode 2 1)

/-- `export_reply`, with `NBD_FLAG_HAS_FLAGS`. -/
def exportReply : List Byte := BigEndian.encode 8 totalSizeBytes ++ BigEndian.encode 2 1

/-- `opt_reply` -/
def optReply (option : BitVec 32) : List Byte :=
  BigEndian.encode 8 repMagic.toNat ++ (BigEndian.encode 4 option.toNat ++
    (BigEndian.encode 4 repErrUnsup.toNat ++ BigEndian.encode 4 0))

/-- `opt_header`; the magic number is never looked at. -/
@[ext] structure OptHeader where
  magic : BitVec 64
  option : BitVec 32
  optLen : BitVec 32
  deriving DecidableEq

namespace OptHeader

def encode (h : OptHeader) : List Byte :=
  BigEndian.encode 8 h.magic.toNat ++ (BigEndian.encode 4 h.option.toNat ++
    BigEndian.encode 4 h.optLen.toNat)

/-- The header at the front of a byte string, when it is complete. -/
def decode (bs : List Byte) : Option OptHeader :=
  if bs.length < 16 then none
  else some
    { magic := BitVec.ofNat 64 (field bs 0 8)
      option := BitVec.ofNat 32 (field bs 8 4)
      optLen := BitVec.ofNat 32 (field bs 12 4) }

/-- The size of `opt_data`: `opt_len + 1` in 32 bits. -/
def bufferSize (h : OptHeader) : ℕ := (h.optLen + 1).toNat

end OptHeader

/-- How the handshake ends: with `true`, with `false`, or with a byte stored past `opt_data`. -/
inductive NegotiationEnd
  | accepted
  | refused
  | overrun
  deriving DecidableEq

/-- A handshake that has ended: the bytes sent, the end, and what is left of the stream. -/
@[ext] structure Negotiation (ρ : Type) where
  sent : List Byte
  ending : NegotiationEnd
  rest : ρ

namespace Negotiation

variable {ρ σ : Type}

def after (bytes : List Byte) (n : Negotiation ρ) : Negotiation ρ := { n with sent := bytes ++ n.sent }

def map (f : ρ → σ) (n : Negotiation ρ) : Negotiation σ := ⟨n.sent, n.ending, f n.rest⟩

end Negotiation

/-- The loop of `run_nbd_negotiation`. The struct `opt_header` is not set before it is read into: `stack`
is what it holds in the round with so many rounds to come. -/
def negotiationLoop (stack : ℕ → List Byte) :
    ℕ → Incoming Byte → Option (Negotiation (Incoming Byte))
  | 0, _ => none
  | fuel + 1, c =>
    let (got, c') := c.read 16
    if got.length = 0 then some ⟨[], .refused, c'⟩
    else
      match OptHeader.decode (got ++ (stack fuel).drop got.length) with
      | none => some ⟨[], .refused, c'⟩ -- not reached, the struct has 16 bytes
      | some h =>
        let (data, c'') := c'.readLoop h.optLen.toNat h.optLen.toNat
        if h.bufferSize < data.length then some ⟨[], .overrun, c''⟩
        else if h.option = 1 then some ⟨exportReply, .accepted, c''⟩
        else (negotiationLoop stack fuel c'').map (Negotiation.after (optReply h.option))

/-- `run_nbd_negotiation`; `wrote` is what the first `write` returns. The flags of the client are read and
not looked at. An error there is the end of the stream, which the next read finds too. -/
def runNbdNegotiation (stack : ℕ → List Byte) (fuel : ℕ) (wrote : ℤ) (c : Incoming Byte) :
    Option (Negotiation (Incoming Byte)) :=
  if wrote ≠ 18 then some ⟨greeting.take wrote.toNat, .refused, c⟩
  else (negotiationLoop stack fuel (c.read 4).2).map (Negotiation.after greeting)

/-! ## The handshake with a byte string -/

/-- What the loop makes of the bytes behind the flags. -/
def converse (bytes : List Byte) : Negotiation (List Byte) :=
  match OptHeader.decode (bytes.take 16) with
  | none => ⟨[], .refused, []⟩
  | some h =>
    if h.bufferSize < ((bytes.drop 16).take h.optLen.toNat).length then
      ⟨[], .overrun, bytes.drop (16 + h.optLen.toNat)⟩
    else if h.option = 1 then ⟨exportReply, .accepted, bytes.drop (16 + h.optLen.toNat)⟩
    else if bytes = [] then ⟨[], .refused, []⟩ -- not reached, the header has 16 bytes
    else (converse (bytes.drop (16 + h.optLen.toNat))).after (optReply h.option)
termination_by bytes.length
decreasing_by
  rename_i hne
  have hpos := List.length_pos_of_ne_nil hne
  rw [List.length_drop]
  omega

/-- A header read returns nothing, or the whole header. -/
def OptionWhole (c : Incoming Byte) : Prop :=
  (c.read 16).1.length ≠ 0 → (c.read 16).1.length = 16

/-- An option that is refused, and what is read next. -/
inductive Exchange : Incoming Byte → Incoming Byte → Prop
  | mk {c : Incoming Byte} {h : OptHeader} (header : OptHeader.decode (c.read 16).1 = some h)
      (unsupported : h.option ≠ 1) :
      Exchange c ((c.read 16).2.readLoop h.optLen.toNat h.optLen.toNat).2

namespace OptHeader

variable {bs : List Byte} {h : OptHeader}

theorem length_encode (h : OptHeader) : h.encode.length = 16 := by simp [encode]

theorem length_of_decode (hd : decode bs = some h) : 16 ≤ bs.length := by
  by_contra hlt
  rw [decode, if_pos (by omega)] at hd
  cases hd

theorem decode_of_length (hlen : 16 ≤ bs.length) : ∃ h, decode bs = some h :=
  ⟨_, if_neg (by omega)⟩

theorem decode_eq_none (hlen : bs.length < 16) : decode bs = none := if_pos hlen

theorem decode_encode (h : OptHeader) (rest : List Byte) : decode (h.encode ++ rest) = some h := by
  have hlen : ¬ (h.encode ++ rest).length < 16 := by
    rw [List.length_append, h.length_encode]
    omega
  have h32 : (2 : ℕ) ^ 32 = 256 ^ 4 := by norm_num
  have h64 : (2 : ℕ) ^ 64 = 256 ^ 8 := by norm_num
  have l4 := BigEndian.length_encode 4
  have l8 := BigEndian.length_encode 8
  rw [decode, if_neg hlen]
  congr 1
  simp only [encode, List.append_assoc]
  ext1 <;> dsimp only
  · rw [field_front (l8 _), ofNat_decode_encode h64]
  · rw [field_skip (l8 _) 0, field_front (l4 _), ofNat_decode_encode h32]
  · rw [field_skip (l8 _) 4, field_skip (l4 _) 0, field_front (l4 _), ofNat_decode_encode h32]

theorem encode_of_decode (hlen : bs.length = 16) (hd : decode bs = some h) : h.encode = bs := by
  have hfield : ∀ (i k n : ℕ), i + n ≤ 16 → (2 : ℕ) ^ k = 256 ^ n →
      BigEndian.encode n (BitVec.ofNat k (field bs i n)).toNat = (bs.drop i).take n := by
    intro i k n hin hk
    have hn : ((bs.drop i).take n).length = n := by simp; omega
    have hlt := BigEndian.decode_lt ((bs.drop i).take n)
    have hround := BigEndian.encode_decode ((bs.drop i).take n)
    rw [hn] at hlt hround
    rw [BitVec.toNat_ofNat, hk, field, Nat.mod_eq_of_lt hlt, hround]
  rw [decode, if_neg (by omega)] at hd
  rw [← Option.some.inj hd, encode, hfield 0 64 8 (by omega) (by norm_num),
    hfield 8 32 4 (by omega) (by norm_num), hfield 12 32 4 (by omega) (by norm_num)]
  calc (bs.drop 0).take 8 ++ ((bs.drop 8).take 4 ++ (bs.drop 12).take 4)
      = bs.take 8 ++ ((bs.drop 8).take 4 ++ ((bs.drop 8).drop 4).take 4) := by simp
    _ = bs.take 8 ++ (bs.drop 8).take 8 := by rw [← List.take_add]
    _ = bs.take 16 := by rw [← List.take_add]
    _ = bs := List.take_of_length_le hlen.le

theorem overruns_iff (h : OptHeader) (bytes : List Byte) :
    h.bufferSize < (bytes.take h.optLen.toNat).length ↔ h.optLen = BitVec.allOnes 32 ∧ bytes ≠ [] := by
  have hlt := h.optLen.isLt
  have hones : h.optLen = BitVec.allOnes 32 ↔ h.optLen.toNat = 2 ^ 32 - 1 := by
    rw [← BitVec.toNat_inj, BitVec.toNat_allOnes]
  have hsize : h.bufferSize = (h.optLen.toNat + 1) % 2 ^ 32 := BitVec.toNat_add _ _
  have hne : bytes ≠ [] ↔ 0 < bytes.length := List.length_pos_iff.symm
  rw [hones, hsize, hne, List.length_take]
  omega

end OptHeader

/-! ## Headers that come whole -/

section Whole

variable {stack : ℕ → List Byte} {fuel : ℕ} {c : Incoming Byte} {h : OptHeader}

theorem read_of_header (hr : OptHeader.decode (c.read 16).1 = some h) :
    (c.read 16).1 = c.rest.take 16 ∧ (c.read 16).2.rest = c.rest.drop 16 := by
  have hfull : (c.read 16).1.length = 16 :=
    le_antisymm (c.length_read_le 16) (OptHeader.length_of_decode hr)
  have htake := c.read_eq_take 16
  have hdrop := c.read_rest 16
  rw [hfull] at htake hdrop
  exact ⟨htake, hdrop⟩

theorem negotiationLoop_eq (hstack : ∀ k, (stack k).length = 16) (hfuel : c.rest.length < fuel)
    (hwhole : ∀ d, ReflTransGen Exchange c d → OptionWhole d) :
    (negotiationLoop stack fuel c).map (Negotiation.map Incoming.rest) = some (converse c.rest) := by
  induction fuel generalizing c with
  | zero => omega
  | succ fuel ih =>
    by_cases hend : (c.read 16).1.length = 0
    · have hnil : c.rest = [] := (c.length_read_eq_zero (by decide)).mp hend
      have hrest := c.read_rest 16
      rw [hnil, List.drop_nil] at hrest
      simp [negotiationLoop, hend, hnil, hrest, converse, OptHeader.decode, Negotiation.map]
    have hfull := hwhole c .refl hend
    obtain ⟨h, hr⟩ := OptHeader.decode_of_length hfull.ge
    obtain ⟨htake, hdrop⟩ := read_of_header hr
    -- the header comes whole, so nothing is left of what the stack held
    have hstale : (c.read 16).1 ++ (stack fuel).drop (c.read 16).1.length = (c.read 16).1 := by
      rw [hfull, List.drop_eq_nil_of_le (hstack fuel).le, List.append_nil]
    have hloop := (c.read 16).2.readLoop_eq h.optLen.toNat le_rfl
    have hdata := hloop.1
    have hnext := hloop.2
    rw [hdrop] at hdata hnext
    rw [List.drop_drop] at hnext
    have hlen : 16 ≤ c.rest.length := by
      have := c.read_append 16
      have := congrArg List.length this
      rw [List.length_append] at this
      omega
    have hne : c.rest ≠ [] := fun hnil => by
      rw [hnil, List.length_nil] at hlen
      omega
    rw [negotiationLoop, converse, ← htake, hr]
    dsimp only
    rw [if_neg hend, hstale, hr]
    dsimp only
    rw [hdata]
    -- the option overruns the buffer, is the export, or is skipped
    split_ifs with hover hexport
    · simp [Negotiation.map, hnext]
    · simp [Negotiation.map, hnext]
    · have hshort : ((c.read 16).2.readLoop h.optLen.toNat h.optLen.toNat).2.rest.length < fuel := by
        rw [hnext, List.length_drop]
        omega
      have hrun := ih hshort fun d hd => hwhole d (.head (.mk hr hexport) hd)
      rw [hnext] at hrun
      obtain ⟨n, hn, hbytes⟩ := Option.map_eq_some_iff.mp hrun
      rw [hn, ← hbytes]
      rfl

/-- **The handshake** depends on the bytes of the stream only, when the flags and the headers come
whole: not on the pieces that option data come in, and not on what the stack holds. -/
theorem runNbdNegotiation_eq (hstack : ∀ k, (stack k).length = 16) (hfuel : c.rest.length < fuel)
    (hflags : (c.read 4).1.length ≠ 0 → (c.read 4).1.length = 4)
    (hwhole : ∀ d, ReflTransGen Exchange (c.read 4).2 d → OptionWhole d) :
    (runNbdNegotiation stack fuel 18 c).map (Negotiation.map Incoming.rest) =
      some ((converse (c.rest.drop 4)).after greeting) := by
  have hrest : (c.read 4).2.rest = c.rest.drop 4 := by
    rw [c.read_rest 4]
    by_cases hend : (c.read 4).1.length = 0
    · have hnil : c.rest = [] := (c.length_read_eq_zero (by decide)).mp hend
      rw [hnil, List.drop_nil, List.drop_nil]
    · rw [hflags hend]
  have hshort : (c.read 4).2.rest.length < fuel := by
    rw [hrest, List.length_drop]
    omega
  have hrun := negotiationLoop_eq hstack hshort hwhole
  rw [hrest] at hrun
  obtain ⟨n, hn, hbytes⟩ := Option.map_eq_some_iff.mp hrun
  simp only [runNbdNegotiation, ne_eq, not_true_eq_false, if_false, hn, ← hbytes]
  rfl

end Whole

/-! ## The byte strings of clients -/

/-- **An option that is refused**, with as much data as it announces. -/
structure NbdOption where
  header : OptHeader
  data : List Byte
  unsupported : header.option ≠ 1
  complete : data.length = header.optLen.toNat
  fits : header.optLen ≠ BitVec.allOnes 32

def NbdOption.encode (o : NbdOption) : List Byte := o.header.encode ++ o.data

/-- Options as a client sends them, one after another. -/
def encodeOptions (opts : List NbdOption) : List Byte := opts.flatMap NbdOption.encode

/-- What is sent back for them. -/
def repliesTo (opts : List NbdOption) : List Byte := opts.flatMap fun o => optReply o.header.option

section Converse

variable {h : OptHeader} {bytes body : List Byte}

theorem Negotiation.after_after {ρ : Type} (xs ys : List Byte) (n : Negotiation ρ) :
    (n.after ys).after xs = n.after (xs ++ ys) := by
  simp [Negotiation.after]

theorem converse_short (hlen : bytes.length < 16) : converse bytes = ⟨[], .refused, []⟩ := by
  have hcut : (bytes.take 16).length < 16 := by simp; omega
  rw [converse, OptHeader.decode_eq_none hcut]

theorem converse_header (h : OptHeader) (body : List Byte) :
    converse (h.encode ++ body) =
      if h.optLen = BitVec.allOnes 32 ∧ body ≠ [] then ⟨[], .overrun, body.drop h.optLen.toNat⟩
      else if h.option = 1 then ⟨exportReply, .accepted, body.drop h.optLen.toNat⟩
      else (converse (body.drop h.optLen.toNat)).after (optReply h.option) := by
  have hlen := h.length_encode
  have htake : (h.encode ++ body).take 16 = h.encode := List.take_left' hlen
  have hdrop : (h.encode ++ body).drop 16 = body := List.drop_left' hlen
  have hself := h.decode_encode []
  rw [List.append_nil] at hself
  have hne : h.encode ++ body ≠ [] := fun hnil => by
    have hzero := congrArg List.length hnil
    rw [List.length_append, hlen, List.length_nil] at hzero
    omega
  have hrest : (h.encode ++ body).drop (16 + h.optLen.toNat) = body.drop h.optLen.toNat := by
    rw [← List.drop_drop, hdrop]
  rw [converse, htake, hself]
  simp only [hrest, hdrop, h.overruns_iff, hne, if_false]

theorem converse_option (o : NbdOption) (rest : List Byte) :
    converse (o.encode ++ rest) = (converse rest).after (optReply o.header.option) := by
  have hrest : (o.data ++ rest).drop o.header.optLen.toNat = rest := List.drop_left' o.complete
  rw [NbdOption.encode, List.append_assoc, converse_header, if_neg fun hover => o.fits hover.1,
    if_neg o.unsupported, hrest]

theorem converse_options (opts : List NbdOption) (rest : List Byte) :
    converse (encodeOptions opts ++ rest) = (converse rest).after (repliesTo opts) := by
  induction opts with
  | nil => rfl
  | cons o opts ih =>
    rw [encodeOptions, repliesTo, List.flatMap_cons, List.flatMap_cons, List.append_assoc,
      converse_option, ← Negotiation.after_after]
    exact congrArg _ ih

/-- Where the options that are refused have ended: at a header that is cut or absent, that overruns, that
asks for the export, or whose data are cut. -/
inductive OptionsEnd : List Byte → Prop
  | short {tail : List Byte} (hlen : tail.length < 16) : OptionsEnd tail
  | overrun {h : OptHeader} {body : List Byte} (hmax : h.optLen = BitVec.allOnes 32)
      (hbody : body ≠ []) : OptionsEnd (h.encode ++ body)
  | export {h : OptHeader} {body : List Byte} (hopt : h.option = 1)
      (hmax : h.optLen = BitVec.allOnes 32 → body = []) : OptionsEnd (h.encode ++ body)
  | cut {h : OptHeader} {body : List Byte} (hopt : h.option ≠ 1)
      (hmax : h.optLen = BitVec.allOnes 32 → body = []) (hlen : body.length < h.optLen.toNat) :
      OptionsEnd (h.encode ++ body)

/-- **Every byte string** is some options that are refused, and the end of them. -/
theorem exists_options (bytes : List Byte) :
    ∃ opts tail, bytes = encodeOptions opts ++ tail ∧ OptionsEnd tail := by
  induction hn : bytes.length using Nat.strong_induction_on generalizing bytes with
  | _ n ih =>
    subst hn
    by_cases hlen : bytes.length < 16
    · exact ⟨[], bytes, rfl, .short hlen⟩
    have htake : (bytes.take 16).length = 16 := by simp; omega
    obtain ⟨h, hr⟩ := OptHeader.decode_of_length htake.ge
    have hsplit : bytes = h.encode ++ bytes.drop 16 := by
      rw [OptHeader.encode_of_decode htake hr, List.take_append_drop]
    by_cases hover : h.optLen = BitVec.allOnes 32 ∧ bytes.drop 16 ≠ []
    · exact ⟨[], bytes, rfl, hsplit ▸ .overrun hover.1 hover.2⟩
    have hmax : h.optLen = BitVec.allOnes 32 → bytes.drop 16 = [] := fun heq =>
      not_not.mp fun hne => hover ⟨heq, hne⟩
    by_cases hopt : h.option = 1
    · exact ⟨[], bytes, rfl, hsplit ▸ .export hopt hmax⟩
    by_cases hcut : (bytes.drop 16).length < h.optLen.toNat
    · exact ⟨[], bytes, rfl, hsplit ▸ .cut hopt hmax hcut⟩
    have hshort : ((bytes.drop 16).drop h.optLen.toNat).length < bytes.length := by
      simp only [List.length_drop]
      omega
    obtain ⟨opts, tail, htail, hend⟩ := ih _ hshort _ rfl
    have hfits : h.optLen ≠ BitVec.allOnes 32 := fun heq => by
      have hlt := congrArg BitVec.toNat heq
      rw [hmax heq, List.length_nil, hlt, BitVec.toNat_allOnes] at hcut
      omega
    let o : NbdOption := ⟨h, (bytes.drop 16).take h.optLen.toNat, hopt,
      List.length_take_of_le (by omega), hfits⟩
    refine ⟨o :: opts, tail, ?_, hend⟩
    rw [encodeOptions, List.flatMap_cons, List.append_assoc, ← encodeOptions, ← htail]
    show bytes = (h.encode ++ (bytes.drop 16).take h.optLen.toNat) ++ _
    rw [List.append_assoc, List.take_append_drop, ← hsplit]

theorem converse_accepted_iff {sent rest : List Byte} :
    converse bytes = ⟨sent, .accepted, rest⟩ ↔ ∃ opts, ∃ h : OptHeader, ∃ body,
      bytes = encodeOptions opts ++ (h.encode ++ body) ∧ h.option = 1 ∧
        (h.optLen = BitVec.allOnes 32 → body = []) ∧ sent = repliesTo opts ++ exportReply ∧
        rest = body.drop h.optLen.toNat := by
  constructor
  · intro hconv
    obtain ⟨opts, tail, rfl, hend⟩ := exists_options bytes
    rw [converse_options] at hconv
    cases hend with
    | short hlen =>
      rw [converse_short hlen] at hconv
      cases hconv
    | @overrun h body hmax hbody =>
      rw [converse_header, if_pos ⟨hmax, hbody⟩] at hconv
      cases hconv
    | @«export» h body hopt hmax =>
      rw [converse_header, if_neg fun hover => hover.2 (hmax hover.1), if_pos hopt] at hconv
      obtain ⟨hsent, -, hrest⟩ := Negotiation.mk.inj hconv
      exact ⟨opts, h, body, rfl, hopt, hmax, hsent.symm, hrest.symm⟩
    | @cut h body hopt hmax hlen =>
      rw [converse_header, if_neg fun hover => hover.2 (hmax hover.1), if_neg hopt,
        List.drop_eq_nil_of_le hlen.le, converse_short (by decide)] at hconv
      cases hconv
  · rintro ⟨opts, h, body, rfl, hopt, hmax, rfl, rfl⟩
    rw [converse_options, converse_header, if_neg fun hover => hover.2 (hmax hover.1), if_pos hopt]
    rfl

/-- **The byte strings that end past `opt_data`**: an option announces `2 ^ 32 - 1` bytes and sends one. -/
theorem converse_overrun_iff :
    (converse bytes).ending = .overrun ↔ ∃ opts, ∃ h : OptHeader, ∃ body,
      bytes = encodeOptions opts ++ (h.encode ++ body) ∧ h.optLen = BitVec.allOnes 32 ∧ body ≠ [] := by
  constructor
  · intro hconv
    obtain ⟨opts, tail, rfl, hend⟩ := exists_options bytes
    rw [converse_options] at hconv
    cases hend with
    | short hlen =>
      rw [converse_short hlen] at hconv
      cases hconv
    | @overrun h body hmax hbody => exact ⟨opts, h, body, rfl, hmax, hbody⟩
    | @«export» h body hopt hmax =>
      rw [converse_header, if_neg fun hover => hover.2 (hmax hover.1), if_pos hopt] at hconv
      cases hconv
    | @cut h body hopt hmax hlen =>
      rw [converse_header, if_neg fun hover => hover.2 (hmax hover.1), if_neg hopt,
        List.drop_eq_nil_of_le hlen.le, converse_short (by decide)] at hconv
      cases hconv
  · rintro ⟨opts, h, body, rfl, hmax, hbody⟩
    rw [converse_options, converse_header, if_pos ⟨hmax, hbody⟩]
    rfl

end Converse

/-! ## The handshake -/

/-- The flags and every header of a handshake come whole. -/
structure Unfragmented (c : Incoming Byte) : Prop where
  flags : (c.read 4).1.length ≠ 0 → (c.read 4).1.length = 4
  headers : ∀ d, ReflTransGen Exchange (c.read 4).2 d → OptionWhole d

section Handshake

variable {stack : ℕ → List Byte} {fuel : ℕ} {c : Incoming Byte}

/-- **A handshake is agreed on** exactly when the client sends its flags, options that the server does not
know, and the name of the export. Each of these options is refused, in their order, and what follows the
name is left to the transmission. -/
theorem negotiates_iff (hstack : ∀ k, (stack k).length = 16) (hfuel : c.rest.length < fuel)
    (hwhole : Unfragmented c) (sent rest : List Byte) :
    (runNbdNegotiation stack fuel 18 c).map (Negotiation.map Incoming.rest) =
        some ⟨sent, .accepted, rest⟩ ↔
      ∃ opts, ∃ h : OptHeader, ∃ body,
        c.rest.drop 4 = encodeOptions opts ++ (h.encode ++ body) ∧ h.option = 1 ∧
        (h.optLen = BitVec.allOnes 32 → body = []) ∧
        sent = greeting ++ (repliesTo opts ++ exportReply) ∧ rest = body.drop h.optLen.toNat := by
  rw [runNbdNegotiation_eq hstack hfuel hwhole.flags hwhole.headers, Option.some_inj]
  constructor
  · intro hconv
    obtain ⟨hsent, hending, hrest⟩ := Negotiation.mk.inj hconv
    have hparsed : converse (c.rest.drop 4) = ⟨(converse (c.rest.drop 4)).sent, .accepted, rest⟩ :=
      Negotiation.ext rfl hending hrest
    obtain ⟨opts, h, body, hbytes, hopt, hmax, hreplies, hleft⟩ := converse_accepted_iff.mp hparsed
    exact ⟨opts, h, body, hbytes, hopt, hmax, by rw [← hsent, hreplies], hleft⟩
  · rintro ⟨opts, h, body, hbytes, hopt, hmax, rfl, rfl⟩
    rw [converse_accepted_iff.mpr ⟨opts, h, body, hbytes, hopt, hmax, rfl, rfl⟩]
    rfl

/-- **A byte is stored past `opt_data`** exactly when an option announces `2 ^ 32 - 1` bytes, for which a
buffer of none is made, and one of them comes. -/
theorem overruns_opt_data_iff (hstack : ∀ k, (stack k).length = 16) (hfuel : c.rest.length < fuel)
    (hwhole : Unfragmented c) :
    (runNbdNegotiation stack fuel 18 c).map Negotiation.ending = some .overrun ↔
      ∃ opts, ∃ h : OptHeader, ∃ body, c.rest.drop 4 = encodeOptions opts ++ (h.encode ++ body) ∧
        h.optLen = BitVec.allOnes 32 ∧ body ≠ [] := by
  have hrun := runNbdNegotiation_eq hstack hfuel hwhole.flags hwhole.headers
  obtain ⟨n, hn, hbytes⟩ := Option.map_eq_some_iff.mp hrun
  have hending := congrArg Negotiation.ending hbytes
  rw [hn, Option.map_some, Option.some_inj, ← converse_overrun_iff]
  exact Eq.congr_left hending

end Handshake

/-! A client that lists the exports before it names one. -/

section Witness

/-- Each read may deliver 16 bytes. -/
def Generous (c : Incoming Byte) : Prop := ∀ k, 15 ≤ c.most k

variable {c : Incoming Byte}

theorem Generous.read (h : Generous c) (n : ℕ) : Generous (c.read n).2 := fun k => h (k + 1)

theorem Generous.readLoop {fuel n : ℕ} (h : Generous c) : Generous (c.readLoop fuel n).2 := by
  induction fuel generalizing n c with
  | zero => exact h
  | succ fuel ih =>
    rw [Incoming.readLoop]
    split_ifs
    · exact h
    · dsimp only
      split_ifs
      · exact h.read n
      · exact ih (h.read n)

theorem Generous.length_read (h : Generous c) (n : ℕ) (hn : n ≤ 16) :
    (c.read n).1.length = min n c.rest.length := by
  have hmost := h 0
  rw [Incoming.read, List.length_take]
  omega

theorem Generous.exchange {d : Incoming Byte} (h : Generous c) (hstep : Exchange c d) :
    Generous d ∧ ∃ header, OptHeader.decode (c.rest.take 16) = some header ∧ header.option ≠ 1 ∧
      d.rest = c.rest.drop (16 + header.optLen.toNat) := by
  cases hstep with
  | @mk header hr hopt =>
    obtain ⟨htake, hdrop⟩ := read_of_header hr
    refine ⟨(h.read 16).readLoop, header, htake ▸ hr, hopt, ?_⟩
    rw [((c.read 16).2.readLoop_eq _ le_rfl).2, hdrop, List.drop_drop]

def listOption : OptHeader := ⟨0, 3, 0⟩

def exportOption : OptHeader := ⟨0, 1, 0⟩

/-- The bytes behind the second header are left to the transmission. -/
def listingClient : Incoming Byte :=
  ⟨[0, 0, 0, 1] ++ (listOption.encode ++ (exportOption.encode ++ [37])), fun _ => 15⟩

theorem unfragmented_listingClient : Unfragmented listingClient := by
  have hgenerous : Generous (listingClient.read 4).2 := fun _ => le_rfl
  refine ⟨fun _ => by decide, fun d hd => ?_⟩
  have hinv : Generous d ∧ (d.rest = listOption.encode ++ (exportOption.encode ++ [37]) ∨
      d.rest = exportOption.encode ++ [37]) := by
    induction hd with
    | refl => exact ⟨hgenerous, .inl rfl⟩
    | tail _ hstep ih =>
      obtain ⟨hcurrent, hrest⟩ := ih
      obtain ⟨hnext, header, hr, hopt, hleft⟩ := hcurrent.exchange hstep
      refine ⟨hnext, ?_⟩
      rcases hrest with hrest | hrest
      · rw [hrest, List.take_left' listOption.length_encode] at hr
        have hlist : OptHeader.decode listOption.encode = some listOption := by decide
        obtain rfl := Option.some.inj (hlist.symm.trans hr)
        exact .inr (by rw [hleft, hrest]; exact List.drop_left' listOption.length_encode)
      · rw [hrest, List.take_left' exportOption.length_encode] at hr
        have hexport : OptHeader.decode exportOption.encode = some exportOption := by decide
        obtain rfl := Option.some.inj (hexport.symm.trans hr)
        exact absurd rfl hopt
  intro _
  have hlong : 16 ≤ d.rest.length := by
    rcases hinv.2 with hrest | hrest <;> rw [hrest] <;> decide
  rw [hinv.1.length_read 16 le_rfl]
  omega

/-- What the struct holds before it is read into. -/
def staleStruct : List Byte := List.replicate 16 7

theorem negotiates_iff_listingClient :
    (runNbdNegotiation (fun _ => staleStruct) 40 18 listingClient).map
        (Negotiation.map Incoming.rest) =
      some ⟨greeting ++ (optReply 3 ++ exportReply), .accepted, [37]⟩ := by
  have hbytes : listingClient.rest.drop 4 = listOption.encode ++ (exportOption.encode ++ [37]) := rfl
  have hstack : ∀ _ : ℕ, staleStruct.length = 16 := fun _ => rfl
  have hfuel : listingClient.rest.length < 40 := by decide
  have hiff := negotiates_iff hstack hfuel unfragmented_listingClient
    (greeting ++ (optReply 3 ++ exportReply)) [37]
  let refused : NbdOption := ⟨listOption, [], by decide, rfl, by decide⟩
  have hreplies : repliesTo [refused] = optReply 3 := List.append_nil _
  refine hiff.mpr ⟨[refused], exportOption, [37], hbytes, rfl, ?_, by rw [hreplies], rfl⟩
  exact fun hmax => absurd hmax (by decide)

/-- The largest length. -/
def greedyOption : OptHeader := ⟨0, 1, BitVec.allOnes 32⟩

def greedyClient : Incoming Byte := ⟨[0, 0, 0, 1] ++ (greedyOption.encode ++ [37]), fun _ => 15⟩

theorem unfragmented_greedyClient : Unfragmented greedyClient := by
  have hgenerous : Generous (greedyClient.read 4).2 := fun _ => le_rfl
  refine ⟨fun _ => by decide, fun d hd _ => ?_⟩
  rcases hd.cases_head with rfl | ⟨e, hstep, -⟩
  · decide
  · obtain ⟨-, header, hr, hopt, -⟩ := hgenerous.exchange hstep
    have hexport : OptHeader.decode ((greedyClient.read 4).2.rest.take 16) = some greedyOption := by
      decide
    obtain rfl := Option.some.inj (hexport.symm.trans hr)
    exact absurd rfl hopt

theorem overruns_opt_data_greedyClient :
    (runNbdNegotiation (fun _ => staleStruct) 40 18 greedyClient).map Negotiation.ending =
      some .overrun := by
  have hbytes : greedyClient.rest.drop 4 = greedyOption.encode ++ [37] := rfl
  have hstack : ∀ _ : ℕ, staleStruct.length = 16 := fun _ => rfl
  have hfuel : greedyClient.rest.length < 40 := by decide
  refine (overruns_opt_data_iff hstack hfuel unfragmented_greedyClient).mpr ?_
  exact ⟨[], greedyOption, [37], hbytes, rfl, by decide⟩

end Witness

end ZnsFlash
