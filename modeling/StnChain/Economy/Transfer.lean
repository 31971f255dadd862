import StnChain.Identity

/-!
# Wallet transfers

A transfer moves units between two wallets (`stn_transfer.c`).  Its envelope
adds the controller key, a nonzero nonce and the controller's signature
(`stn_transfer_envelope.c`), and the pair of controller and nonce is what the
transfer replay set consumes (`stn_transfer_envelope_replay.c`).
-/

namespace StnChain

/-- `stn_transfer`. -/
structure Transfer where
  source : Address
  destination : Address
  units : UInt64
  deriving DecidableEq

/-- `STN_TRANSFER_CANONICAL_SIZE`. -/
def transferCanonicalSize : ℕ := 73

/-- `transfer_valid`. -/
def transferValid (t : Transfer) : Except DataStatus Unit :=
  if t.source.type ≠ .wallet ∨ t.destination.type ≠ .wallet then .error .type
  else if t.units = 0 then .error .content
  else if t.source.identifier = t.destination.identifier then .error .content
  else .ok ()

/-- `stn_transfer_encode`. -/
def transferEncode (t : Transfer) : Except DataStatus Bytes :=
  match transferValid t with
  | .error status => .error status
  | .ok () => .ok ([1] ++ octetBytes t.source.identifier ++
      octetBytes t.destination.identifier ++ wireWrite 8 t.units.toNat)

/-- `stn_transfer_decode`. -/
def transferDecode (canonical : Bytes) : Except DataStatus Transfer :=
  if canonical.length ≠ transferCanonicalSize then .error .length
  else if byteAt canonical 0 ≠ 1 then .error .content
  else
    let t : Transfer := {
      source := ⟨.wallet, octetsAt canonical 1 32⟩
      destination := ⟨.wallet, octetsAt canonical 33 32⟩
      units := UInt64.ofNat (wireRead canonical 65 8) }
    match transferValid t with
    | .error status => .error status
    | .ok () => .ok t

/-- `stn_transfer_envelope`. -/
structure TransferEnvelope where
  controller : Octets 32
  nonce : Octets 32
  transfer : Transfer
  signature : Octets 64
  deriving DecidableEq

/-- `STN_TRANSFER_ENVELOPE_CANONICAL_SIZE`. -/
def transferEnvelopeCanonicalSize : ℕ := 1 + 32 + 32 + transferCanonicalSize + 64

/-- `stn_transfer_envelope_encode`. -/
def transferEnvelopeEncode (e : TransferEnvelope) : Except DataStatus Bytes :=
  if e.controller = 0 ∨ e.nonce = 0 then .error .content
  else
    match transferEncode e.transfer with
    | .error _ => .error .content
    | .ok transfer => .ok ([1] ++ octetBytes e.controller ++ octetBytes e.nonce ++ transfer ++
        octetBytes e.signature)

/-- `stn_transfer_envelope_decode`. -/
def transferEnvelopeDecode (bytes : Bytes) : Except DataStatus TransferEnvelope :=
  if bytes.length ≠ transferEnvelopeCanonicalSize then .error .length
  else if byteAt bytes 0 ≠ 1 then .error .version
  else
    let controller := octetsAt bytes 1 32
    let nonce := octetsAt bytes 33 32
    if controller = 0 ∨ nonce = 0 then .error .content
    else
      match transferDecode (BigEndian.field bytes 65 transferCanonicalSize) with
      | .error _ => .error .content
      | .ok transfer => .ok {
          controller, nonce, transfer
          signature := octetsAt bytes (65 + transferCanonicalSize) 64 }

/-! ## Authorization -/

/-- `stn_transfer_envelope_authorization_statement`. -/
def transferEnvelopeAuthorizationStatement [Primitives] (e : TransferEnvelope) :
    Except DataStatus Bytes :=
  if e.nonce = 0 then .error .content
  else
    match identityDerive e.controller with
    | none => .error .content
    | some identity =>
        match walletDerive ⟨.identity, identity⟩ with
        | .error _ => .error .content
        | .ok wallet =>
            if wallet.identifier ≠ e.transfer.source.identifier then .error .content
            else
              match transferEncode e.transfer with
              | .error _ => .error .content
              | .ok transfer => .ok (cString "STN-CHAIN:TRANSFER:ENVELOPE:AUTHORIZE:1" ++ [1] ++
                  octetBytes e.controller ++ octetBytes e.nonce ++ transfer)

/-- `stn_transfer_envelope_authorization_verify`. -/
def transferEnvelopeAuthorizationVerify [Primitives] (e : TransferEnvelope) :
    Except DataStatus Unit :=
  match transferEnvelopeAuthorizationStatement e with
  | .error status => .error status
  | .ok statement =>
      if identityVerify e.controller statement e.signature = .valid then .ok ()
      else .error .content

/-! ## Replay -/

/-- `stn_transfer_envelope_replay_result`. -/
inductive TransferEnvelopeReplayResult
  | fresh | duplicate | capacity | argument
  deriving DecidableEq, Repr

/-- `stn_transfer_envelope_replay_state`. -/
structure TransferEnvelopeReplayState where
  consumed : List ReplayId
  capacity : ℕ

/-- `stn_transfer_envelope_replay_key`; `none` is the argument failure. -/
def transferEnvelopeReplayKey (e : TransferEnvelope) : Option ReplayId :=
  replayIdFromSignerNonce e.controller e.nonce

/-- `stn_transfer_envelope_replay_check`. -/
def transferEnvelopeReplayCheck (s : TransferEnvelopeReplayState) (e : TransferEnvelope) :
    TransferEnvelopeReplayResult :=
  if s.consumed.length > s.capacity then .argument
  else
    match transferEnvelopeReplayKey e with
    | none => .argument
    | some key => if key ∈ s.consumed then .duplicate else .fresh

/-- `stn_transfer_envelope_replay_consume`. -/
def transferEnvelopeReplayConsume (s : TransferEnvelopeReplayState) (e : TransferEnvelope) :
    TransferEnvelopeReplayResult × TransferEnvelopeReplayState :=
  if s.consumed.length > s.capacity then (.argument, s)
  else
    match transferEnvelopeReplayKey e with
    | none => (.argument, s)
    | some key =>
        match transferEnvelopeReplayCheck s e with
        | .fresh =>
            if s.consumed.length = s.capacity then (.capacity, s)
            else (.fresh, { s with consumed := s.consumed ++ [key] })
        | result => (result, s)

end StnChain
