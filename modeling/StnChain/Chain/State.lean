import StnChain.Block
import StnChain.Contract.State
import StnChain.Lifecycle

/-!
# Chain context and chain state

The selected network, genesis and policy of a chain and the state derived from
an accepted prefix (`stn_chain.c`).  The state owns one snapshot of every
component; reference counts and the sharing of snapshots are not modelled, a
snapshot being a value here.
-/

namespace StnChain

variable [Primitives]

/-- `stn_chain_context`. -/
structure ChainContext where
  networkId : Octets 32
  genesisBytes : Bytes
  genesisAuthorityRoots : List (Octets 32)
  genesisInitialIdentities : List (Octets 32)
  hashProvider : HashProvider
  powPolicy : Option PowPolicy

/-- `stn_chain_economic_owned`: balances and the consumed transfer envelopes. -/
structure ChainEconomy where
  state : EconomicState
  replay : TransferEnvelopeReplayState

/-- `stn_chain_state`. -/
structure ChainState where
  networkId : Octets 32
  genesisId : Octets 32
  tipId : Octets 32
  height : UInt64
  timestamp : UInt64
  hasTip : Bool
  currentTarget : Octets 32
  cumulativeWork : Work
  targetHistory : List BlockHeader
  lifecycle : LifecycleState
  contracts : ContractSnapshot
  shares : ShareReplayState
  blockCompensation : BlockCompensationReplay
  compensation : CompensationState
  economy : ChainEconomy
  publicationActivationHeight : UInt64

/-! ## Initialization -/

/-- The table of `stn_chain_publication_activation`. -/
def legacyGenesis : List (Octets 32 × UInt64) :=
  [(0x24bc219fb3f716a82792aa47c008cbe70580a68033bdda29572584b9dfc90480, 64),
    (0x28cbfdf9c3db7af69379082165b0c50c7de9306c0488ec7eeb1f17be34e1f127, 122),
    (0x501dfde985d3da8a56c932054ec00525390c44cff2d8370118339f72c7bcd80d, 130),
    (0x5a1c873c0ee5a10e92b73f008548384ea7d92a079cb1928dd48a28fa317a105e, 61),
    (0x79a2730e6bb26cbfb1b27ea5ca8ebd99111ae6d3cfe1333844a6e9d408105ec3, 61),
    (0x93d7a897f614255625371590900c218146c9d6e1ebb7ea2490302a47d32f7127, 61),
    (0xae8c12ac05afa8de043f9a529968c694ad53330d50bb1499edbdb3c8fa4eb04d, 61)]

/-- `stn_chain_publication_activation`. -/
def chainPublicationActivation (c : ChainContext) : Except DataStatus UInt64 :=
  match Primitives.sha256 [] c.genesisBytes with
  | .error _ => .error .providerError
  | .ok digest =>
      match legacyGenesis.find? fun entry => digest = entry.1 with
      | some entry => .ok entry.2
      | none => .ok 1

/-- `initial_set_valid`. -/
def initialSetValid (ids : List (Octets 32)) : Bool :=
  ids.length ≤ genesisInitialIdentityMax && rootsAscending ids

/-- `context_valid`. -/
def contextValid (c : ChainContext) : Except DataStatus Unit :=
  if !authorityRootSetValidate c.genesisAuthorityRoots then .error .content
  else if !initialSetValid c.genesisInitialIdentities then .error .content
  else
    match blockDecode c.genesisBytes with
    | .error _ => .error .content
    | .ok b =>
        if b.header.height ≠ 0 ∨ b.header.networkId ≠ c.networkId then .error .content
        else
          match c.powPolicy with
          | some policy =>
              if b.header.version ≠ powBlockVersion ∨
                  targetValidate policy.fixedTarget ≠ .ok () ∨
                  b.header.reservedTarget ≠ policy.fixedTarget then .error .target
              else .ok ()
          | none => if b.header.version ≠ 1 then .error .version else .ok ()

/-- `lifecycle_new`. -/
def lifecycleNew (c : ChainContext) : LifecycleState :=
  lifecycleSetInitialIdentities
    (lifecycleInitialize 0 0 (c.genesisInitialIdentities.headD 0)) c.genesisInitialIdentities

/-- The canonical empty state. -/
def emptyState (c : ChainContext) (publicationActivationHeight : UInt64) : ChainState where
  networkId := c.networkId
  genesisId := 0
  tipId := 0
  height := 0
  timestamp := 0
  hasTip := false
  currentTarget := 0
  cumulativeWork := 0
  targetHistory := []
  lifecycle := lifecycleNew c
  contracts := contractSnapshotCreate
  shares := shareReplayInitialize 0
  blockCompensation := blockCompensationReplayInitialize
  compensation := compensationStateInitialize 0
  economy := ⟨economicStateInitialize 0, ⟨[], 0⟩⟩
  publicationActivationHeight

/-- `stn_chain_initialize`. -/
def chainInitialize (c : ChainContext) : Except DataStatus ChainState :=
  match contextValid c with
  | .error status => .error status
  | .ok () =>
      match chainPublicationActivation c with
      | .error status => .error status
      | .ok activation => .ok (emptyState c activation)

theorem chainInitialize_eq_ok {c : ChainContext} {s : ChainState}
    (h : chainInitialize c = .ok s) :
    contextValid c = .ok () ∧
      ∃ activation, chainPublicationActivation c = .ok activation ∧
        s = emptyState c activation := by
  simp only [chainInitialize] at h
  split at h
  · simp at h
  next hcontext =>
  split at h
  · simp at h
  next activation hactivation =>
  exact ⟨hcontext, activation, hactivation, (Except.ok.inj h).symm⟩

/-! ## Consistency of a prior state -/

/-- The work half of `prior_valid`. -/
def priorWorkValid (c : ChainContext) (s : ChainState) : Except DataStatus Unit :=
  match c.powPolicy with
  | some policy =>
      if !s.hasTip then
        if s.currentTarget ≠ 0 ∨ s.cumulativeWork ≠ 0 then .error .content else .ok ()
      else if targetValidate s.currentTarget ≠ .ok () ∨ s.cumulativeWork = 0 then .error .content
      else if s.height < 60 then
        match workAtHeight policy.fixedTarget s.height with
        | .error status => .error status
        | .ok expected =>
            if s.currentTarget ≠ policy.fixedTarget ∨ s.cumulativeWork ≠ expected then
              .error .content
            else .ok ()
      else .ok ()
  | none => if s.currentTarget ≠ 0 ∨ s.cumulativeWork ≠ 0 then .error .content else .ok ()

/-- The anchor half of `prior_valid`. -/
def priorAnchorValid (c : ChainContext) (s : ChainState) : Except DataStatus Unit :=
  if !s.hasTip then
    if s.height = 0 ∧ s.timestamp = 0 ∧ s.tipId = 0 ∧ s.genesisId = 0 then .ok ()
    else .error .content
  else
    match chainBlockId c.genesisBytes c.hashProvider with
    | .error status => .error status
    | .ok anchor =>
        if anchor = 0 ∨ s.tipId = 0 ∨ anchor ≠ s.genesisId then .error .content
        else
          match blockDecode c.genesisBytes with
          | .error status => .error status
          | .ok genesis =>
              if s.timestamp < genesis.header.timestamp ∨
                  (s.height = 0 ∧
                    (s.tipId ≠ anchor ∨ s.timestamp ≠ genesis.header.timestamp)) then
                .error .content
              else .ok ()

/-- `prior_valid`. -/
def priorValid (c : ChainContext) (s : ChainState) : Except DataStatus Unit :=
  match chainPublicationActivation c with
  | .error status => .error status
  | .ok activation =>
      if s.publicationActivationHeight ≠ activation then .error .content
      else if s.networkId ≠ c.networkId then .error .content
      else if s.blockCompensation.ids.length > blockCompensationReplayCapacity then
        .error .content
      else if s.economy.replay.consumed.length > s.economy.replay.capacity then .error .content
      else
        match priorWorkValid c s with
        | .error status => .error status
        | .ok () => priorAnchorValid c s

/-! ## The required target -/

/-- The history loop of `stn_chain_required_target`; `i` and `previous` are the
index of the next entry and the timestamp before it. -/
def targetHistoryConsistent (s : ChainState) (height : UInt64) :
    ℕ → Option UInt64 → List BlockHeader → Bool
  | _, _, [] => true
  | i, previous, h :: rest =>
      h.height = height - UInt64.ofNat s.targetHistory.length + UInt64.ofNat i &&
        h.version = powBlockVersion && h.reservedTarget = s.currentTarget &&
        (match previous with | some t => t ≤ h.timestamp | none => true) &&
        targetHistoryConsistent s height (i + 1) (some h.timestamp) rest

/-- The next height of a state. -/
def ChainState.nextHeight (s : ChainState) : UInt64 :=
  if s.hasTip then s.height + 1 else 0

/-- The window `stn_chain_required_target` hands to the retarget rule: all of it at
a boundary, else its last entry. -/
def targetWindow (s : ChainState) : List BlockHeader :=
  if s.nextHeight ≠ 0 ∧ s.nextHeight % 60 = 0 then s.targetHistory
  else s.targetHistory.getLast?.toList

/-- `stn_chain_required_target`. -/
def chainRequiredTarget (c : ChainContext) (s : ChainState) : Except DataStatus (Octets 32) :=
  match contextValid c with
  | .error status => .error status
  | .ok () =>
      match c.powPolicy with
      | none => .error .unresolved
      | some policy =>
          match priorValid c s with
          | .error status => .error status
          | .ok () =>
              if s.hasTip ∧ s.height = uint64Max then .error .overflow
              else if s.targetHistory.length ≠
                  (if s.hasTip then (s.height % 60).toNat + 1 else 0) then .error .content
              else if !targetHistoryConsistent s s.nextHeight 0 none s.targetHistory then
                .error .content
              else if s.targetHistory ≠ [] ∧
                  s.targetHistory.getLast?.map BlockHeader.timestamp ≠ some s.timestamp then
                .error .content
              else targetNext s.nextHeight policy.fixedTarget (targetWindow s)

end StnChain
