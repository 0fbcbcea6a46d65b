import Mathlib.Data.Finset.Card

/-!
# The test runtime's transactions on the wire

The test runtime encodes a `Transfer` by hand, field after field, and decodes it as the
4-tuple of its fields; an `Extrinsic` is its transfer followed by its signature.  The
instances of the codec crate it builds on are `Slicable` values, which carry the law those
instances keep as a field: the decoder reads a value from the front of its input, leaves the
rest, and accepts exactly the encodings.  A value of a fixed width is its bytes: a `u64` its
eight little-endian bytes, a hash its bytes as they are.

The hand-written encoder agrees with the tuple decoder: an `Extrinsic` decodes exactly from
its encoding (`Extrinsic.decode_iff_encoded`), so the signature that `check` verifies covers
exactly the first eighty bytes the extrinsic arrived as (`Extrinsic.check_decoded`).
-/

namespace Runtime

/-! ### The codec -/

/-- `Slicable`: an encoding to bytes, and a decoder that reads a value from the front of its
input and leaves the rest, which accepts exactly the encodings. -/
structure Slicable (α : Type) where
  encode : α → List UInt8
  decode : List UInt8 → Option (α × List UInt8)
  decode_eq_some : ∀ input a rest, decode input = some (a, rest) ↔ input = encode a ++ rest

variable {α β : Type}

section Fixed

variable (n : ℕ) (toBytes : α → List UInt8) (ofBytes : (bytes : List UInt8) → bytes.length = n → α)

/-- The decoder of the values of width `n`: their `n` bytes at the front of the input, read
back by `ofBytes`. -/
def decodeFixed (input : List UInt8) : Option (α × List UInt8) :=
  if h : n ≤ input.length then some (ofBytes (input.take n) (List.length_take_of_le h), input.drop n)
  else none

variable {n toBytes ofBytes}

theorem decodeFixed_eq_some (length_toBytes : ∀ a, (toBytes a).length = n)
    (ofBytes_toBytes : ∀ a h, ofBytes (toBytes a) h = a)
    (toBytes_ofBytes : ∀ bytes h, toBytes (ofBytes bytes h) = bytes)
    (input : List UInt8) (a : α) (rest : List UInt8) :
  decodeFixed n ofBytes input = some (a, rest) ↔ input = toBytes a ++ rest
  := by
  unfold decodeFixed
  constructor
  · intro hd
    split at hd
    · obtain ⟨rfl, rfl⟩ := Prod.mk.inj (Option.some.inj hd)
      rw [toBytes_ofBytes, List.take_append_drop]
    · cases hd
  · rintro rfl
    have hlen : n ≤ (toBytes a ++ rest).length := by simp [length_toBytes]
    have htake : (toBytes a ++ rest).take n = toBytes a := List.take_left' (length_toBytes a)
    simp only [dif_pos hlen, List.drop_left' (length_toBytes a), Option.some.injEq,
      Prod.mk.injEq, and_true]
    conv_rhs => rw [← ofBytes_toBytes a (length_toBytes a)]
    congr

end Fixed

/-- The codec of the values of width `n`: their `n` bytes, read back by `ofBytes`. -/
def Slicable.fixed (n : ℕ) (toBytes : α → List UInt8)
    (ofBytes : (bytes : List UInt8) → bytes.length = n → α)
    (length_toBytes : ∀ a, (toBytes a).length = n)
    (ofBytes_toBytes : ∀ a h, ofBytes (toBytes a) h = a)
    (toBytes_ofBytes : ∀ bytes h, toBytes (ofBytes bytes h) = bytes) : Slicable α :=
  ⟨toBytes, decodeFixed n ofBytes, decodeFixed_eq_some length_toBytes ofBytes_toBytes toBytes_ofBytes⟩

/-- The decoder of a pair: the first component, then the second from what is left. -/
def decodePair (ca : Slicable α) (cb : Slicable β) (input : List UInt8) :
    Option ((α × β) × List UInt8) :=
  match ca.decode input with
  | none => none
  | some (a, input) =>
    match cb.decode input with
    | none => none
    | some (b, input) => some ((a, b), input)

theorem decodePair_eq_some (ca : Slicable α) (cb : Slicable β) (input : List UInt8) (p : α × β)
    (rest : List UInt8) :
  decodePair ca cb input = some (p, rest) ↔ input = ca.encode p.1 ++ cb.encode p.2 ++ rest
  := by
  unfold decodePair
  constructor
  · intro hd
    split at hd
    · cases hd
    · rename_i a mid ha
      split at hd
      · cases hd
      · rename_i b rest' hb
        obtain ⟨rfl, rfl⟩ := Prod.mk.inj (Option.some.inj hd)
        rw [(ca.decode_eq_some _ _ _).mp ha, (cb.decode_eq_some _ _ _).mp hb, List.append_assoc]
  · rintro rfl
    rw [List.append_assoc, (ca.decode_eq_some _ _ _).mpr rfl]
    simp only [(cb.decode_eq_some _ _ _).mpr rfl]

/-- Tuples: the components one after the other, decoded in order. -/
def Slicable.pair (ca : Slicable α) (cb : Slicable β) : Slicable (α × β) :=
  ⟨fun p => ca.encode p.1 ++ cb.encode p.2, decodePair ca cb, decodePair_eq_some ca cb⟩

/-- A decoder followed by a bijection onto `β` accepts exactly the encodings of the
preimages. -/
theorem Slicable.decode_map_eq_some (c : Slicable α) {f : α → β} {g : β → α}
    (hgf : ∀ a, g (f a) = a) (hfg : ∀ b, f (g b) = b) (input : List UInt8) (b : β)
    (rest : List UInt8) :
  (c.decode input).map (fun p => (f p.1, p.2)) = some (b, rest) ↔
    input = c.encode (g b) ++ rest
  := by
  rw [← c.decode_eq_some, Option.map_eq_some']
  constructor
  · rintro ⟨⟨a, rest'⟩, hd, he⟩
    obtain ⟨rfl, rfl⟩ := Prod.mk.inj he
    rw [hgf, hd]
  · exact fun hd => ⟨(g b, rest), hd, by rw [hfg]⟩

/-! ### Fixed-width values -/

/-- The `width` little-endian bytes of `n`. -/
def leBytes : ℕ → ℕ → List UInt8
  | 0, _ => []
  | width + 1, n => UInt8.ofNat (n % 256) :: leBytes width (n / 256)

/-- The number whose little-endian bytes are `bytes`. -/
def leValue : List UInt8 → ℕ
  | [] => 0
  | b :: bytes => b.toNat + 256 * leValue bytes

@[simp]
theorem length_leBytes (width n : ℕ) :
  (leBytes width n).length = width
  := by
  induction width generalizing n <;> simp_all [leBytes]

theorem leValue_lt (bytes : List UInt8) :
  leValue bytes < 256 ^ bytes.length
  := by
  induction bytes with
  | nil => simp [leValue]
  | cons b bytes ih =>
    have hb := b.toNat_lt_size
    simp only [leValue, List.length_cons, Nat.pow_succ]
    change b.toNat < 256 at hb
    omega

theorem leValue_leBytes {width n : ℕ} (h : n < 256 ^ width) :
  leValue (leBytes width n) = n
  := by
  induction width generalizing n with
  | zero => simp_all [leValue, leBytes]
  | succ width ih =>
    have hlt : n / 256 < 256 ^ width := by
      rw [Nat.pow_succ] at h
      omega
    rw [leBytes, leValue, ih hlt, UInt8.toNat_ofNat_of_lt (Nat.mod_lt _ (by decide))]
    show n % 256 + 256 * (n / 256) = n
    omega

theorem leBytes_leValue (bytes : List UInt8) :
  leBytes bytes.length (leValue bytes) = bytes
  := by
  induction bytes with
  | nil => rfl
  | cons b bytes ih =>
    have hb : b.toNat < 256 := b.toNat_lt_size
    have hmod : (b.toNat + 256 * leValue bytes) % 256 = b.toNat := by omega
    have hdiv : (b.toNat + 256 * leValue bytes) / 256 = leValue bytes := by omega
    rw [List.length_cons, leBytes, leValue, hmod, hdiv, ih]
    exact congrArg (· :: bytes) (UInt8.toNat.inj (UInt8.toNat_ofNat_of_lt b.toNat_lt_size))

/-- `u64`: eight little-endian bytes. -/
def Slicable.u64 : Slicable UInt64 :=
  .fixed 8 (fun n => leBytes 8 n.toNat) (fun bytes _ => UInt64.ofNat (leValue bytes))
    (fun _ => length_leBytes _ _)
    (fun n _ => UInt64.toNat.inj (by
      dsimp only
      rw [leValue_leBytes n.toNat_lt_size, UInt64.toNat_ofNat_of_lt n.toNat_lt_size]))
    (fun bytes h => by
      dsimp only
      have hlt : leValue bytes < UInt64.size := by
        have := leValue_lt bytes
        rwa [h] at this
      rw [UInt64.toNat_ofNat_of_lt hlt, ← h, leBytes_leValue])

/-- A fixed hash of `n` bytes. -/
structure FixedHash (n : ℕ) where
  bytes : List UInt8
  length_bytes : bytes.length = n
  deriving DecidableEq

/-- `H256`. -/
abbrev H256 := FixedHash 32

/-- `H512`. -/
abbrev H512 := FixedHash 64

/-- A fixed hash: its bytes as they are. -/
def Slicable.hash (n : ℕ) : Slicable (FixedHash n) :=
  .fixed n FixedHash.bytes FixedHash.mk FixedHash.length_bytes (fun _ _ => rfl) (fun _ _ => rfl)

/-! ### Transactions -/

/-- `AccountId`: an account of the test runtime. -/
abbrev AccountId := H256

/-- `Ed25519Signature`. -/
abbrev Ed25519Signature := H512

/-- `Transfer`: the call of a transaction. -/
structure Transfer where
  «from» : AccountId
  «to» : AccountId
  amount : UInt64
  nonce : UInt64
  deriving DecidableEq

/-- `Transfer::encode`: the fields one after the other. -/
def Transfer.encode (t : Transfer) : List UInt8 :=
  (Slicable.hash 32).encode t.from ++ (Slicable.hash 32).encode t.to ++
    Slicable.u64.encode t.amount ++ Slicable.u64.encode t.nonce

/-- `Transfer::decode`: the 4-tuple of the fields. -/
def Transfer.decode (input : List UInt8) : Option (Transfer × List UInt8) :=
  (((Slicable.hash 32).pair ((Slicable.hash 32).pair (Slicable.u64.pair Slicable.u64))).decode
    input).map fun p => (⟨p.1.1, p.1.2.1, p.1.2.2.1, p.1.2.2.2⟩, p.2)

@[simp]
theorem Transfer.length_encode (t : Transfer) :
  t.encode.length = 80
  := by
  simp [Transfer.encode, Slicable.hash, Slicable.u64, Slicable.fixed, t.from.length_bytes,
    t.to.length_bytes]

theorem Transfer.decode_eq_some (input : List UInt8) (t : Transfer) (rest : List UInt8) :
  Transfer.decode input = some (t, rest) ↔ input = t.encode ++ rest
  := by
  rw [Transfer.decode, Slicable.decode_map_eq_some _
    (f := fun p => (⟨p.1, p.2.1, p.2.2.1, p.2.2.2⟩ : Transfer))
    (g := fun t => (t.from, t.to, t.amount, t.nonce)) (fun _ => rfl) (fun _ => rfl)]
  simp [Slicable.pair, Transfer.encode]

/-- `Transfer` as the tuple decoder of `Extrinsic` reads it. -/
def Transfer.slicable : Slicable Transfer :=
  ⟨Transfer.encode, Transfer.decode, Transfer.decode_eq_some⟩

/-- `Extrinsic`: a transfer and its signature. -/
structure Extrinsic where
  transfer : Transfer
  signature : Ed25519Signature
  deriving DecidableEq

/-- `Extrinsic::encode`: the transfer, then the signature. -/
def Extrinsic.encode (e : Extrinsic) : List UInt8 :=
  e.transfer.encode ++ (Slicable.hash 64).encode e.signature

/-- `Extrinsic::decode`: the pair of the transfer and the signature. -/
def Extrinsic.decode (input : List UInt8) : Option (Extrinsic × List UInt8) :=
  ((Transfer.slicable.pair (Slicable.hash 64)).decode input).map fun p => (⟨p.1.1, p.1.2⟩, p.2)

/-- `BlindCheckable::sender`. -/
def Extrinsic.sender (e : Extrinsic) : AccountId :=
  e.transfer.from

/-- `BlindCheckable::check`, `verify` standing for `verify_encoded_lazy`: the signature
checked, by the sender, over the encoding of the transfer. -/
def Extrinsic.check (verify : Ed25519Signature → List UInt8 → AccountId → Bool) (e : Extrinsic) :
    Except String Extrinsic :=
  if verify e.signature e.transfer.encode e.transfer.from then .ok e else .error "bad signature"

/-- The encoder and the decoder of `Extrinsic` agree: the decoder accepts exactly the
encodings, and reads back the extrinsic encoded and the rest of the input. -/
theorem Extrinsic.decode_iff_encoded (input : List UInt8) (e : Extrinsic) (rest : List UInt8) :
  Extrinsic.decode input = some (e, rest) ↔ input = e.encode ++ rest
  := by
  rw [Extrinsic.decode, Slicable.decode_map_eq_some _ (f := fun p => (⟨p.1, p.2⟩ : Extrinsic))
    (g := fun e => (e.transfer, e.signature)) (fun _ => rfl) (fun _ => rfl)]
  rfl

/-- An extrinsic decoded from the wire passes `check` exactly when its signature verifies,
by its sender, over the first eighty bytes it arrived as: the signed message is the transfer
as received. -/
theorem Extrinsic.check_decoded (verify : Ed25519Signature → List UInt8 → AccountId → Bool)
    {input rest : List UInt8} {e : Extrinsic} (h : Extrinsic.decode input = some (e, rest)) :
  e.check verify =
    if verify e.signature (input.take 80) e.transfer.from then .ok e else .error "bad signature"
  := by
  have hinput : input = e.transfer.encode ++ ((Slicable.hash 64).encode e.signature ++ rest) := by
    rw [← List.append_assoc]
    unfold Extrinsic.decode at h
    exact (Slicable.decode_map_eq_some _ (f := fun p => (⟨p.1, p.2⟩ : Extrinsic))
      (g := fun e => (e.transfer, e.signature)) (fun _ => rfl) (fun _ => rfl) _ _ _).mp h
  rw [hinput, List.take_left' e.transfer.length_encode]
  rfl

/-- A verifier for the examples that reads the message: a signature is valid when it is the
first sixty-four bytes of the message. -/
def prefixVerifier (signature : Ed25519Signature) (msg : List UInt8) (_ : AccountId) : Bool :=
  signature.bytes == msg.take 64

set_option maxRecDepth 2000 in
/-- A transfer from the account of thirty-two bytes 1, signed with the first sixty-four bytes
of its encoding and followed by one more byte, under a verifier that reads the message. -/
theorem Extrinsic.check_decoded_signed :
  ∃ e rest, Extrinsic.decode (List.replicate 32 1 ++ List.replicate 48 0 ++
      (List.replicate 32 1 ++ List.replicate 32 0) ++ [9]) = some (e, rest) ∧
    e.check prefixVerifier =
      if prefixVerifier e.signature ((List.replicate 32 1 ++ List.replicate 48 0 ++
          (List.replicate 32 1 ++ List.replicate 32 0) ++ [9] : List UInt8).take 80)
        e.transfer.from then .ok e else .error "bad signature"
  := by
  have h : Extrinsic.decode (List.replicate 32 1 ++ List.replicate 48 0 ++
      (List.replicate 32 1 ++ List.replicate 32 0) ++ [9]) =
      some (⟨⟨⟨List.replicate 32 1, rfl⟩, ⟨List.replicate 32 0, rfl⟩, 0, 0⟩,
        ⟨List.replicate 32 1 ++ List.replicate 32 0, by simp⟩⟩, [9]) := by
    decide
  exact ⟨_, _, h, Extrinsic.check_decoded _ h⟩

set_option maxRecDepth 2000 in
/-- The transfer of the witness above passes the check, and fails it with another
signature. -/
example :
  (Extrinsic.decode (List.replicate 32 1 ++ List.replicate 48 0 ++
      (List.replicate 32 1 ++ List.replicate 32 0) ++ [9])).map
    (fun p => (p.1.check prefixVerifier).isOk) = some true ∧
  (Extrinsic.decode (List.replicate 32 1 ++ List.replicate 48 0 ++ List.replicate 64 2 ++ [9])).map
    (fun p => (p.1.check prefixVerifier).isOk) = some false
  := by
  decide

end Runtime
