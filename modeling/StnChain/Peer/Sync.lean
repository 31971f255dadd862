import StnChain.Adopt
import StnChain.Peer.Serve
import StnChain.Pending.Scan

/-!
# The synchronizing peer

How a node takes over the history of a peer (`sync_session` of `stn_peer.c`).  It asks
for the headers of the history page by page, reuses its own blocks as long as their
headers match, asks for the other blocks one by one, reconstructs every prefix and
has storage adopt the whole.
-/

namespace StnChain

/-! ## Transports -/

/-- `stn_peer_transport` over a state; `receive` gives exactly the octets asked for. -/
structure PeerTransport (σ : Type) where
  send : Bytes → σ → Except PeerStatus σ
  receive : ℕ → σ → Except PeerStatus (Bytes × σ)
  exact : ∀ {n s bytes s'}, receive n s = .ok (bytes, s') → bytes.length = n

section Transport

variable {σ : Type}

/-- `stn_peer_receive`. -/
def peerReceive (t : PeerTransport σ) (capacity : ℕ) (s : σ) : Except PeerStatus (Bytes × σ) :=
  if capacity < peerHeaderSize then .error .capacity
  else
    match t.receive peerHeaderSize s with
    | .error status => .error status
    | .ok (header, s) =>
        match peerHeader header with
        | .error status => .error status
        | .ok (_, size) =>
            if size > capacity - peerHeaderSize then .error .capacity
            else if size = 0 then .ok (header, s)
            else
              match t.receive size s with
              | .error status => .error status
              | .ok (payload, s) => .ok (header ++ payload, s)

/-- `exchange`: the payload of the answer to a request. -/
def peerExchange (t : PeerTransport σ) (capacity : ℕ) (type : PeerType) (payload : Bytes)
    (expected : PeerType) (s : σ) : Except PeerStatus (Bytes × σ) :=
  match peerEncode type payload capacity with
  | .error status => .error status
  | .ok request =>
      match t.send request s with
      | .error status => .error status
      | .ok s =>
          match peerReceive t capacity s with
          | .error status => .error status
          | .ok (frame, s) =>
              match peerDecode frame with
              | .error status => .error status
              | .ok m => if m.type = expected then .ok (m.payload, s) else .error .protocol

end Transport

variable [Primitives]

/-! ## Reports -/

/-- `stn_peer_report`; a status of `none` is `STN_PEER_OK`. -/
structure PeerReport where
  status : Option PeerStatus
  reused : ℕ
  received : ℕ
  recovery : Bool
  verified : Option ChainState

/-- A report of a synchronization that ends before any block. -/
def PeerReport.early (status : PeerStatus) (recovery : Bool) : PeerReport where
  status := some status
  reused := 0
  received := 0
  recovery
  verified := none

/-- `stn_peer_workspace`, the parts that synchronization does not only write to. -/
structure PeerWorkspace (provider : HashProvider) where
  storage : StorageWorkspace
  candidateCapacity : ℕ
  frameCapacity : ℕ
  pending : Option (Pending provider)

/-- The variables of the block loop; the candidate buffer holds `blocks` one after
another. -/
structure SyncState (σ : Type) where
  transport : σ
  recovery : Bool
  blocks : List Bytes
  checked : ChainState
  matching : Bool
  reused : ℕ
  received : ℕ

/-- The report of a synchronization that ends at some block. -/
def SyncState.fail {σ : Type} (y : SyncState σ) (status : PeerStatus) : PeerReport where
  status := some status
  reused := y.reused
  received := y.received
  recovery := y.recovery
  verified := none

/-- What a synchronization leaves: its report, the capabilities of the peer it has
learned, the published image and active state, the pool, and the transport if it may
be used again. -/
structure SyncOutcome (σ : Type) (provider : HashProvider) where
  report : PeerReport
  capabilities : Option ℕ
  published : Option (Bytes × ChainState)
  pending : Option (Pending provider)
  transport : Option σ

/-! ## Blocks -/

section Blocks

variable {σ : Type} {provider : HashProvider}

/-- The next block, asked for by its index. -/
def syncFetch (t : PeerTransport σ) (w : PeerWorkspace provider) (y : SyncState σ) :
    Except PeerReport (Bytes × SyncState σ) :=
  let index := y.blocks.length
  match peerExchange t w.frameCapacity .getBlock (wireWrite 4 index) .block y.transport with
  | .error status => .error (y.fail status)
  | .ok (payload, s) =>
      if payload.length < 4 ∨ wireRead payload 0 4 ≠ index then .error (y.fail .protocol)
      else
        .ok (payload.drop 4,
          { y with transport := s, matching := false, received := y.received + 1 })

/-- The next block, reused from storage or asked for. -/
def syncTake (t : PeerTransport σ) (w : PeerWorkspace provider) (stored : List Bytes)
    (y : SyncState σ) (header : Bytes) : Except PeerReport (Bytes × SyncState σ) :=
  match stored[y.blocks.length]? with
  | none => syncFetch t w y
  | some bytes =>
      if y.matching ∧ bytes.take blockHeaderSize = header then
        .ok (bytes, { y with reused := y.reused + 1 })
      else syncFetch t w y

/-- A round of the block loop. -/
def syncBlock (c : ChainContext) (t : PeerTransport σ) (w : PeerWorkspace provider)
    (stored : List Bytes) (y : SyncState σ) (header : Bytes) : Except PeerReport (SyncState σ) :=
  match syncTake t w stored y header with
  | .error r => .error r
  | .ok (bytes, y) =>
      if bytes.length < blockHeaderSize ∨ bytes.take blockHeaderSize ≠ header then
        .error (y.fail .protocol)
      else if bytes.length > w.candidateCapacity - y.blocks.flatten.length then
        .error (y.fail .capacity)
      else
        match chainReconstructHistory c (y.blocks ++ [bytes]) with
        | (_, none) => .error (y.fail .validation)
        | (_, some s) => .ok { y with blocks := y.blocks ++ [bytes], checked := s }

/-! ## Pages -/

/-- The headers in the payload of a page. -/
def pageHeaders (payload : Bytes) (num : ℕ) : List Bytes :=
  (List.range num).map fun i => (payload.drop (8 + i * blockHeaderSize)).take blockHeaderSize

/-- A round of the page loop. -/
def syncPage (c : ChainContext) (t : PeerTransport σ) (w : PeerWorkspace provider)
    (stored : List Bytes) (y : SyncState σ) (num : ℕ) : Except PeerReport (SyncState σ) :=
  let page := y.blocks.length
  match peerExchange t w.frameCapacity .getHeaders (wireWrite 4 page ++ wireWrite 4 num) .headers
      y.transport with
  | .error status => .error (y.fail status)
  | .ok (payload, s) =>
      if payload.length ≠ 8 + num * blockHeaderSize ∨ wireRead payload 0 4 ≠ page ∨
          wireRead payload 4 4 ≠ num then .error (y.fail .protocol)
      else (pageHeaders payload num).foldlM (syncBlock c t w stored) { y with transport := s }

/-- The sizes of the pages of a history: 64 headers each, and the rest. -/
def pageSizes (count : ℕ) : List ℕ :=
  List.replicate (count / 64) 64 ++ if count % 64 = 0 then [] else [count % 64]

/-! ## Sessions -/

/-- The greeting of a new session; the capabilities of the peer. -/
def syncGreet (c : ChainContext) (t : PeerTransport σ) (w : PeerWorkspace provider) (s : σ) :
    Except PeerStatus (ℕ × σ) :=
  match peerHello c with
  | .error status => .error status
  | .ok greeting =>
      match peerExchange t w.frameCapacity .hello greeting .hello s with
      | .error status => .error status
      | .ok (payload, s) =>
          let capabilities := wireRead payload 64 4
          if payload.length ≠ 68 ∨ payload.take 64 ≠ greeting.take 64 ∨
              (capabilities ≠ 1 ∧ capabilities ≠ 3) then .error .network
          else .ok (capabilities, s)

/-- The summary of the peer: its number of blocks, bounded by the candidate buffer. -/
def syncCount (t : PeerTransport σ) (w : PeerWorkspace provider) (s : σ) :
    Except PeerStatus (ℕ × σ) :=
  match peerExchange t w.frameCapacity .state [] .state s with
  | .error status => .error status
  | .ok (payload, s) =>
      if payload.length ≠ 84 then .error .protocol
      else
        let count := wireRead payload 80 4
        if count = 0 ∨ wireRead payload 0 8 ≠ count - 1 then .error .protocol
        else if count > w.candidateCapacity / (blockHeaderSize + blockMinBody) then
          .error .capacity
        else .ok (count, s)

/-- The page loop of `sync_session`, from the summary on. -/
def syncBlocks (c : ChainContext) (t : PeerTransport σ) (w : PeerWorkspace provider)
    (stored : List Bytes) (recovery : Bool) (s : σ) : Except PeerReport (SyncState σ) :=
  match syncCount t w s with
  | .error status => .error (.early status recovery)
  | .ok (count, s) =>
      match chainInitialize c with
      | .error _ => .error (.early .validation recovery)
      | .ok initial =>
          (pageSizes count).foldlM (syncPage c t w stored)
            { transport := s, recovery, blocks := [], checked := initial, matching := true,
              reused := 0, received := 0 }

end Blocks

section Session

variable {σ : Type} {c : ChainContext}

/-- A session that ends with a report and changes nothing. -/
def SyncOutcome.ended (w : PeerWorkspace c.hashProvider) (capabilities : Option ℕ)
    (report : PeerReport) (transport : Option σ) : SyncOutcome σ c.hashProvider where
  report
  capabilities
  published := none
  pending := w.pending
  transport

/-- The end of `sync_session`: the entries to remove from the pool, and adoption. -/
def syncAdopt (p : StorageStore) (w : PeerWorkspace c.hashProvider) (capabilities : Option ℕ)
    (y : SyncState σ) : SyncOutcome σ c.hashProvider :=
  match w.pending.mapM (pendingInclusions · y.blocks) with
  | .error _ => .ended w capabilities (y.fail .validation) none
  | .ok remove =>
      let verified := { y.fail .retained with verified := some y.checked }
      match storageAdopt c p y.blocks w.storage with
      | .error .notPreferred => .ended w capabilities verified (some y.transport)
      | .error _ => .ended w capabilities (y.fail .storage) none
      | .ok published =>
          { report := { verified with status := none }
            capabilities
            published := some published
            pending := w.pending.bind fun pool => remove.map (pendingPrune pool)
            transport := some y.transport }

/-- The part of `sync_session` after the greeting. -/
def syncHistory (p : StorageStore) (t : PeerTransport σ) (w : PeerWorkspace c.hashProvider)
    (stored : List Bytes) (recovery : Bool) (capabilities : Option ℕ) (s : σ) :
    SyncOutcome σ c.hashProvider :=
  match syncBlocks c t w stored recovery s with
  | .error report => .ended w capabilities report none
  | .ok y => syncAdopt p w capabilities y

/-- `sync_session`. -/
def syncSession (established : Bool) (p : StorageStore) (t : PeerTransport σ)
    (w : PeerWorkspace c.hashProvider) (s : σ) : SyncOutcome σ c.hashProvider :=
  match storageRecoveryRead c p.toStorageProvider w.storage.currentCapacity with
  | .error _ => .ended w none (.early .storage false) none
  | .ok (stored, recovery) =>
      if established then syncHistory p t w stored.blocks recovery none s
      else
        match syncGreet c t w s with
        | .error status => .ended w none (.early status recovery) none
        | .ok (capabilities, s) =>
            syncHistory p t w stored.blocks recovery (some capabilities) s

end Session

end StnChain
