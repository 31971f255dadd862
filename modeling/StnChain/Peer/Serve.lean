import StnChain.Chain.History

/-!
# The serving peer

Frames of the peer protocol and the answers to them (`stn_peer.c`).  A frame is a
header of twelve octets and a payload.  `peerServe` answers one request over an
accepted history: the greeting, a summary, a page of headers or one block.
-/

namespace StnChain

/-! ## Frames -/

/-- `stn_peer_status` other than `STN_PEER_OK`. -/
inductive PeerStatus
  | argument | protocol | network | validation | io | timeout | disconnected | capacity | storage
  | retained
  deriving DecidableEq, Repr

/-- `stn_peer_type`. -/
inductive PeerType
  | hello | state | getHeaders | headers | getBlock | block | getPeers | peers
  deriving DecidableEq, Repr

/-- The type a wire value denotes; `type_valid` is that there is one. -/
def PeerType.ofWire : ℕ → Option PeerType
  | 1 => some .hello
  | 2 => some .state
  | 3 => some .getHeaders
  | 4 => some .headers
  | 5 => some .getBlock
  | 6 => some .block
  | 7 => some .getPeers
  | 8 => some .peers
  | _ => none

/-- The wire value of a type. -/
def PeerType.toWire : PeerType → ℕ
  | .hello => 1
  | .state => 2
  | .getHeaders => 3
  | .headers => 4
  | .getBlock => 5
  | .block => 6
  | .getPeers => 7
  | .peers => 8

/-- `STN_PEER_HEADER`. -/
def peerHeaderSize : ℕ := 12

/-- `STN_PEER_MAX_PAYLOAD`. -/
def peerMaxPayload : ℕ := blockMaxSize + 4

/-- `STN_PEER_MAX_FRAME`. -/
def peerMaxFrame : ℕ := peerHeaderSize + peerMaxPayload

/-- `STN_PEER_CANDIDATE_MAX`. -/
def peerCandidateMax : ℕ := 64

/-- `STN_PEER_DISCOVERY_MAX`. -/
def peerDiscoveryMax : ℕ := 2 + 6 * peerCandidateMax

/-- `discovery_size`. -/
def discoverySize (type : PeerType) (size : ℕ) : Bool :=
  match type with
  | .getPeers => size = 0
  | .peers => 2 ≤ size && size ≤ peerDiscoveryMax && (size - 2) % 6 = 0
  | _ => true

/-- `stn_peer_message`. -/
structure PeerMessage where
  type : PeerType
  payload : Bytes
  deriving DecidableEq

/-- `stn_peer_header`. -/
def peerHeader (bytes : Bytes) : Except PeerStatus (PeerType × ℕ) :=
  if bytes.length ≠ peerHeaderSize ∨ bytes.take 4 ≠ [0x53, 0x54, 0x4e, 0x50] ∨
      wireRead bytes 4 2 ≠ 2 then .error .protocol
  else
    match PeerType.ofWire (wireRead bytes 6 2) with
    | none => .error .protocol
    | some type =>
        let size := wireRead bytes 8 4
        if size > peerMaxPayload ∨ !discoverySize type size then .error .protocol
        else .ok (type, size)

/-- `stn_peer_decode`. -/
def peerDecode (bytes : Bytes) : Except PeerStatus PeerMessage :=
  if bytes.length < peerHeaderSize then .error .protocol
  else
    match peerHeader (bytes.take peerHeaderSize) with
    | .error status => .error status
    | .ok (type, size) =>
        if bytes.length - peerHeaderSize ≠ size then .error .protocol
        else .ok ⟨type, bytes.drop peerHeaderSize⟩

/-- The header of a frame. -/
def peerHeaderBytes (type : PeerType) (size : ℕ) : Bytes :=
  [0x53, 0x54, 0x4e, 0x50] ++ wireWrite 2 2 ++ wireWrite 2 type.toWire ++ wireWrite 4 size

/-- `stn_peer_encode`. -/
def peerEncode (type : PeerType) (payload : Bytes) (capacity : ℕ) : Except PeerStatus Bytes :=
  if payload.length > peerMaxPayload ∨ !discoverySize type payload.length then .error .protocol
  else if capacity < peerHeaderSize ∨ payload.length > capacity - peerHeaderSize then
    .error .capacity
  else .ok (peerHeaderBytes type payload.length ++ payload)

theorem PeerType.ofWire_toWire (type : PeerType) : PeerType.ofWire type.toWire = some type := by
  cases type <;> rfl

theorem PeerType.toWire_lt (type : PeerType) : type.toWire < 256 ^ 2 := by
  cases type <;> decide

@[simp]
theorem length_peerHeaderBytes (type : PeerType) (size : ℕ) :
    (peerHeaderBytes type size).length = peerHeaderSize := by
  simp [peerHeaderBytes, peerHeaderSize]

/-- A header is read back. -/
theorem peerHeader_bytes {type : PeerType} {size : ℕ} (hsize : size ≤ peerMaxPayload)
    (hdiscovery : discoverySize type size = true) :
    peerHeader (peerHeaderBytes type size) = .ok (type, size) := by
  have hlimit : size < 256 ^ 4 := by
    apply Nat.lt_of_le_of_lt hsize
    decide
  have hversion : wireRead (peerHeaderBytes type size) 4 2 = 2 := by
    simp only [peerHeaderBytes, List.append_assoc]
    rw [wireRead_append_right (by simp), wireRead_append_left (by simp)]
    exact wireRead_wireWrite (by decide)
  have htype : wireRead (peerHeaderBytes type size) 6 2 = type.toWire := by
    simp only [peerHeaderBytes, List.append_assoc]
    rw [wireRead_append_right (by simp), wireRead_append_right (by simp),
      wireRead_append_left (by simp)]
    simpa using wireRead_wireWrite type.toWire_lt
  have hread : wireRead (peerHeaderBytes type size) 8 4 = size := by
    simp only [peerHeaderBytes, List.append_assoc]
    rw [wireRead_append_right (by simp), wireRead_append_right (by simp),
      wireRead_append_right (by simp)]
    simpa using wireRead_wireWrite hlimit
  have hmagic : (peerHeaderBytes type size).take 4 = [0x53, 0x54, 0x4e, 0x50] := rfl
  simp [peerHeader, hversion, htype, hread, hmagic, PeerType.ofWire_toWire, hdiscovery, hsize]

theorem peerEncode_eq_ok {type : PeerType} {payload : Bytes} {capacity : ℕ} {frame : Bytes}
    (h : peerEncode type payload capacity = .ok frame) :
    payload.length ≤ peerMaxPayload ∧ discoverySize type payload.length = true ∧
      peerHeaderSize + payload.length ≤ capacity ∧
      frame = peerHeaderBytes type payload.length ++ payload := by
  simp only [peerEncode] at h
  split at h
  · simp at h
  next hpayload =>
  split at h
  · simp at h
  next hcapacity =>
  obtain ⟨hsize, hdiscovery⟩ := not_or.mp hpayload
  refine ⟨by omega, by simpa using hdiscovery, by omega, (Except.ok.inj h).symm⟩

/-- A frame decodes to the message it was made of. -/
theorem peerDecode_of_encode {type : PeerType} {payload : Bytes} {capacity : ℕ} {frame : Bytes}
    (h : peerEncode type payload capacity = .ok frame) :
    peerDecode frame = .ok ⟨type, payload⟩ := by
  obtain ⟨hsize, hdiscovery, -, rfl⟩ := peerEncode_eq_ok h
  have htake : (peerHeaderBytes type payload.length ++ payload).take peerHeaderSize =
      peerHeaderBytes type payload.length := List.take_left' (length_peerHeaderBytes _ _)
  have hdrop : (peerHeaderBytes type payload.length ++ payload).drop peerHeaderSize = payload :=
    List.drop_left' (length_peerHeaderBytes _ _)
  simp [peerDecode, htake, hdrop, peerHeader_bytes hsize hdiscovery]

/-! ## Endpoints -/

/-- `stn_peer_endpoint`. -/
structure PeerEndpoint where
  address : Octets 4
  port : UInt16
  deriving DecidableEq

/-- `endpoint_order` is negative. -/
def PeerEndpoint.before (a b : PeerEndpoint) : Bool :=
  a.address < b.address || (a.address = b.address && a.port < b.port)

/-- `endpoint_valid`. -/
def endpointValid (p : PeerEndpoint) : Bool :=
  let first := byteAt (octetBytes p.address) 0
  p.port ≠ 0 && first ≠ 0 && first < 224

/-- The payload of some endpoints. -/
def discoveryBytes (endpoints : List PeerEndpoint) : Bytes :=
  wireWrite 2 endpoints.length ++
    endpoints.flatMap fun p => octetBytes p.address ++ wireWrite 2 p.port.toNat

theorem length_discoveryBytes (endpoints : List PeerEndpoint) :
    (discoveryBytes endpoints).length = 2 + 6 * endpoints.length := by
  induction endpoints with
  | nil => simp [discoveryBytes]
  | cons p rest ih =>
      simp only [discoveryBytes, List.flatMap_cons, List.length_append, length_wireWrite,
        length_octetBytes, List.length_cons] at *
      omega

/-- `stn_peer_discovery_encode`. -/
def peerDiscoveryEncode (set : List PeerEndpoint) (self : Option PeerEndpoint) (capacity : ℕ) :
    Except PeerStatus Bytes :=
  if set.length > peerCandidateMax ∨ !self.all endpointValid then .error .argument
  else if !set.all endpointValid ∨ !(set.zip set.tail).all fun p => p.1.before p.2 then
    .error .argument
  else
    let payload := discoveryBytes (set.filter fun p => self ≠ some p)
    if capacity < payload.length then .error .capacity else .ok payload

/-! ## Sessions -/

/-- The field `handshake` of a session: negative, zero or one. -/
inductive PeerHandshake
  | closed | awaited | established
  deriving DecidableEq, Repr

/-- `stn_peer_session`. -/
structure PeerSession where
  known : Option (List PeerEndpoint)
  self : Option PeerEndpoint
  discoverySent : Bool
  handshake : PeerHandshake
  requests : UInt64

/-- A session after a request that ends it. -/
def PeerSession.close (session : PeerSession) : PeerSession :=
  { session with handshake := .closed }

/-- A session after an answered request. -/
def PeerSession.answered (session : PeerSession) : PeerSession :=
  { session with
    handshake := .established
    requests := if session.requests < uint64Max then session.requests + 1 else session.requests }

variable [Primitives]

/-- `hello`. -/
def peerHello (c : ChainContext) : Except PeerStatus Bytes :=
  match chainBlockId c.genesisBytes c.hashProvider with
  | .error _ => .error .validation
  | .ok id => .ok (octetBytes c.networkId ++ octetBytes id ++ wireWrite 4 1)

/-- `local_validate`. -/
def peerValidate (c : ChainContext) (blocks : List Bytes) : Except PeerStatus ChainState :=
  if c.powPolicy.isNone ∨ blocks = [] ∨ blocks.length > 2 ^ 32 - 1 then .error .validation
  else
    match chainReconstructHistory c blocks with
    | (_, none) => .error .validation
    | (_, some s) => .ok s

/-! ## Answers -/

/-- The answer to the first request of a session, which must be a greeting. -/
def peerGreet (c : ChainContext) (session : PeerSession) (m : PeerMessage) :
    PeerSession × Except PeerStatus PeerMessage :=
  if m.type ≠ .hello ∨ m.payload.length ≠ 68 then (session.close, .error .protocol)
  else
    match peerHello c with
    | .error status => (session, .error status)
    | .ok greeting =>
        if m.payload ≠ greeting then (session.close, .error .network)
        else
          let capability := if session.known.isSome then 3 else 1
          (session, .ok ⟨.hello, greeting.take 64 ++ wireWrite 4 capability⟩)

/-- The summary of an accepted history. -/
def peerSummary (s : ChainState) (count : ℕ) : Bytes :=
  wireWrite 8 s.height.toNat ++ octetBytes s.tipId ++ octetBytes s.cumulativeWork ++
    wireWrite 4 count

/-- The headers of some blocks. -/
def headersBytes (blocks : List Bytes) : Bytes :=
  blocks.flatMap (·.take blockHeaderSize)

/-- The answer to a later request. -/
def peerAnswer (blocks : List Bytes) (s : ChainState) (session : PeerSession) (m : PeerMessage)
    (capacity : ℕ) : PeerSession × Except PeerStatus PeerMessage :=
  let bad := (session.close, .error .protocol)
  match m.type with
  | .getPeers =>
      match session.known with
      | none => bad
      | some known =>
          if m.payload ≠ [] ∨ session.discoverySent then bad
          else
            match peerDiscoveryEncode known session.self (capacity - peerHeaderSize) with
            | .error status => (session, .error status)
            | .ok payload => ({ session with discoverySent := true }, .ok ⟨.peers, payload⟩)
  | .state =>
      if m.payload ≠ [] then bad
      else if capacity < 96 then (session, .error .capacity)
      else (session, .ok ⟨.state, peerSummary s blocks.length⟩)
  | .getHeaders =>
      if m.payload.length ≠ 8 then bad
      else
        let start := wireRead m.payload 0 4
        let num := wireRead m.payload 4 4
        if start ≥ blocks.length ∨ num = 0 ∨ num > 64 ∨ num > blocks.length - start then bad
        else if capacity < peerHeaderSize + (8 + num * blockHeaderSize) then
          (session, .error .capacity)
        else
          (session, .ok ⟨.headers, wireWrite 4 start ++ wireWrite 4 num ++
            headersBytes ((blocks.drop start).take num)⟩)
  | .getBlock =>
      if m.payload.length ≠ 4 then bad
      else
        let start := wireRead m.payload 0 4
        match blocks[start]? with
        | none => bad
        | some bytes =>
            if capacity < peerHeaderSize + (4 + bytes.length) then (session, .error .capacity)
            else (session, .ok ⟨.block, wireWrite 4 start ++ bytes⟩)
  | _ => bad

/-- `stn_peer_serve`; a refused request may close the session. -/
def peerServe (c : ChainContext) (blocks : List Bytes) (session : PeerSession) (request : Bytes)
    (capacity : ℕ) : PeerSession × Except PeerStatus Bytes :=
  if session.handshake = .closed then (session, .error .protocol)
  else
    match peerDecode request with
    | .error status => (session.close, .error status)
    | .ok m =>
        match peerValidate c blocks with
        | .error status => (session, .error status)
        | .ok s =>
            if capacity < peerHeaderSize + 68 then (session, .error .capacity)
            else
              let (session, answer) :=
                if session.handshake = .awaited then peerGreet c session m
                else peerAnswer blocks s session m capacity
              match answer with
              | .error status => (session, .error status)
              | .ok answer =>
                  match peerEncode answer.type answer.payload capacity with
                  | .error status => (session, .error status)
                  | .ok frame => (session.answered, .ok frame)

end StnChain
