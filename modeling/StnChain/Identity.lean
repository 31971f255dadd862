import StnChain.Wire

/-!
# Identities, addresses and replay identifiers

An identity is a canonical Ed25519 public key (`stn_identity.c`).  An address
is a typed SHA-256 identifier (`stn_address.c`), and the wallet of an identity
is derived from the identity's identifier (`stn_wallet.c`).  A replay
identifier pairs a signer with a nonzero nonce (`stn_replay.c`).
-/

namespace StnChain

/-! ## Identities -/

/-- `stn_identity_result`. -/
inductive IdentityResult
  | valid | invalid | malformed
  deriving DecidableEq, Repr

/-- The number an array denotes least significant octet first. -/
def littleEndian {n : ℕ} (x : Octets n) : ℕ :=
  BigEndian.read (octetBytes x).reverse

/-- `canonical_point`: below the field prime once the sign bit is cleared. -/
def canonicalPoint (p : Octets 32) : Bool :=
  littleEndian p % 2 ^ 255 < 2 ^ 255 - 19

/-- `canonical_scalar`: below the group order. -/
def canonicalScalar (s : Octets 32) : Bool :=
  littleEndian s < 2 ^ 252 + 27742317777372353535851937790883648493

/-- `small_order`: the encoding of the neutral element. -/
def smallOrder (p : Octets 32) : Bool :=
  littleEndian p = 1

/-- `stn_identity_derive`; `none` is `STN_IDENTITY_MALFORMED`. -/
def identityDerive (publicKey : Octets 32) : Option (Octets 32) :=
  if !canonicalPoint publicKey || publicKey = 0 || smallOrder publicKey then none
  else some publicKey

/-- `stn_identity_statement`. -/
def identityStatement (bytes : Bytes) : Bytes :=
  cString "STN-CHAIN:RECORD:SIGN:1" ++ bytes

/-- The leading 32 octets of a signature. -/
def signaturePoint (signature : Octets 64) : Octets 32 :=
  octetsAt (octetBytes signature) 0 32

/-- The trailing 32 octets of a signature. -/
def signatureScalar (signature : Octets 64) : Octets 32 :=
  octetsAt (octetBytes signature) 32 32

/-- `stn_identity_verify`. -/
def identityVerify [Primitives] (publicKey : Octets 32) (statement : Bytes)
    (signature : Octets 64) : IdentityResult :=
  if !canonicalPoint publicKey || publicKey = 0 || smallOrder publicKey then .malformed
  else if !canonicalPoint (signaturePoint signature) ||
      !canonicalScalar (signatureScalar signature) ||
      smallOrder (signaturePoint signature) then .malformed
  else if Primitives.ed25519Verify statement publicKey signature then .valid
  else .invalid

theorem identityDerive_eq_some {publicKey identity : Octets 32}
    (h : identityDerive publicKey = some identity) : identity = publicKey := by
  unfold identityDerive at h
  split at h
  · simp at h
  · exact (Option.some.inj h).symm

/-! ## Addresses and wallets -/

/-- `stn_address_type`. -/
inductive AddressType
  | identity | contract | wallet
  deriving DecidableEq, Repr

/-- `stn_address`. -/
structure Address where
  type : AddressType
  identifier : Octets 32
  deriving DecidableEq, Repr

/-- `stn_address_derive`. -/
def addressDerive [Primitives] (type : AddressType) (source : Bytes) :
    Except DataStatus Address :=
  if source.length > 2 ^ 32 - 1 then .error .length
  else
    match Primitives.sha256 [] source with
    | .error status => .error status
    | .ok identifier => .ok ⟨type, identifier⟩

/-- `stn_wallet_derive`. -/
def walletDerive [Primitives] (identity : Address) : Except DataStatus Address :=
  if identity.type ≠ .identity then .error .type
  else addressDerive .wallet (octetBytes identity.identifier)

/-! ## Replay identifiers -/

/-- `stn_replay_result`. -/
inductive ReplayResult
  | fresh | replay | malformed
  deriving DecidableEq, Repr

/-- The 64 octets of a replay identifier: the signer, then the nonce. -/
structure ReplayId where
  signer : Octets 32
  nonce : Octets 32
  deriving DecidableEq, Repr

/-- `stn_replay_id_from_signer_nonce`; `none` is `STN_REPLAY_MALFORMED`. -/
def replayIdFromSignerNonce (signer nonce : Octets 32) : Option ReplayId :=
  match identityDerive signer with
  | none => none
  | some canonical => if nonce = 0 then none else some ⟨canonical, nonce⟩

/-- A replay identifier pairs the signer with the nonce. -/
theorem replayIdFromSignerNonce_eq_some {signer nonce : Octets 32} {id : ReplayId}
    (h : replayIdFromSignerNonce signer nonce = some id) : id = ⟨signer, nonce⟩ := by
  simp only [replayIdFromSignerNonce] at h
  split at h
  · simp at h
  next canonical hcanonical =>
  obtain rfl := identityDerive_eq_some hcanonical
  split at h
  · simp at h
  · exact (Option.some.inj h).symm

/-- `stn_replay_state`: the consumed identifiers and the room for them. -/
structure ReplayState where
  consumed : List ReplayId
  capacity : ℕ
  deriving DecidableEq, Repr

/-- `stn_replay_state_initialize`. -/
def replayStateInitialize (capacity : ℕ) : ReplayState :=
  ⟨[], capacity⟩

/-- `stn_replay_state_check`. -/
def replayStateCheck (state : ReplayState) (id : ReplayId) : ReplayResult :=
  if state.consumed.length > state.capacity then .malformed
  else if id ∈ state.consumed then .replay
  else .fresh

/-- `stn_replay_state_consume`. -/
def replayStateConsume (state : ReplayState) (id : ReplayId) :
    ReplayResult × ReplayState :=
  if state.consumed.length > state.capacity then (.malformed, state)
  else
    match replayStateCheck state id with
    | .replay => (.replay, state)
    | .malformed => (.malformed, state)
    | .fresh =>
        if state.consumed.length = state.capacity then (.malformed, state)
        else (.fresh, { state with consumed := state.consumed ++ [id] })

end StnChain
