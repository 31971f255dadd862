import StnChain.Pending.Assembly
import StnChain.Persistence
import StnChain.Rpc.NodeService

/-!
# The mining service and its template

The state of a mining service (`stn_mining.h`) and the template it builds for the next
block (`template_build` of `stn_mining.c`): a body from the pool or from the operator, the
required target, and a timestamp that is kept while the candidate stays the same.
-/

namespace StnChain

variable [Primitives]

/-! ## The service -/

/-- The timestamp lease of a template, with the candidate it holds for. -/
structure TemplateLease where
  base : Octets 32
  target : Octets 32
  commitment : Octets 32
  height : UInt64
  transactionCount : UInt32
  bodyLength : UInt32
  value : UInt64

/-- `stn_suffix_stage`; the slots are those allocated for the announced blocks. -/
@[ext]
structure SuffixStage where
  prefixCount : ℕ
  expectedCount : ℕ
  receivedCount : ℕ
  receivedBytes : ℕ
  slots : List (Option Bytes)
  active : Bool

/-- A stage set to zero. -/
def SuffixStage.cleared : SuffixStage :=
  ⟨0, 0, 0, 0, [], false⟩

/-- `stn_mining_service` over provider states `σ`.  Of the buffers there is the capacity.
`sha256Selected` is the comparison of the provider's function with `stn_sha256`;
`neededBytes` is what a provider reports when it is read without capacity; the clock is
given by its answers, of which `clockCalls` have been taken; `stackId` is what the
identifier buffer of a call holds before anything is written to it, and `freed` what blocks
in memory that was given back read as, at a reading, by block and offset. -/
structure MiningService (σ : Type) where
  chain : ChainContext
  sha256Selected : Bool
  sha256_of_selected : sha256Selected = true →
    chain.hashProvider.hash = some Primitives.sha256
  storage : StorageDevice σ
  device : σ
  neededBytes : σ → ℕ
  body : Bytes
  transactionCount : ℕ
  snapshotCapacity : ℕ
  templateCapacity : ℕ
  workspace : StorageWorkspace
  active : ChainState
  pending : Option PendingPool
  intelligence : Option ValidationContext
  pendingBodyCapacity : ℕ
  ownsBuffers : Bool
  timestampNow : Option (ℕ → UInt64)
  clockCalls : ℕ
  lease : Option TemplateLease
  stage : SuffixStage
  stackId : Octets 32
  freed : σ → ℕ → ℕ → ℕ → UInt8

/-- `storage_code`. -/
def storageCode : Except StorageStatus Unit → RpcCode
  | .ok () => .ok
  | .error .stale => .stale
  | .error .capacity => .capacity
  | .error .validation | .error .format | .error .notPreferred => .rejected
  | .error .notFound | .error .unresolved => .unavailable
  | .error _ => .provider

/-- The loop of `grow`: doubling until a size is reached, with the limits of `size_t`. -/
def growLoop (required : ℕ) : ℕ → ℕ → ℕ
  | 0, capacity => capacity
  | fuel + 1, capacity =>
      if capacity ≥ required then capacity
      else
        let doubled := if capacity ≤ (2 ^ 64 - 1) / 2 then capacity * 2 else 2 ^ 64 - 1
        if doubled ≤ capacity then required else growLoop required fuel doubled

/-- `grow`: the new capacity; `none` when a buffer that is not owned is too small. -/
def grow (capacity required : ℕ) (owned : Bool) : Option ℕ :=
  if required ≤ capacity then some capacity
  else if !owned then none
  else some (growLoop required 65 (if capacity = 0 then 4096 else capacity))

variable {σ : Type}

/-- `ensure_storage_capacity`. -/
def ensureStorageCapacity (s : MiningService σ) (required : ℕ) : Option StorageWorkspace :=
  match grow s.workspace.currentCapacity required s.ownsBuffers,
    grow s.workspace.nextCapacity required s.ownsBuffers with
  | some currentCapacity, some nextCapacity => some ⟨currentCapacity, nextCapacity⟩
  | _, _ => none

/-! ## The template -/

/-- `template_time_matches`. -/
def TemplateLease.holds (lease : TemplateLease) (v : StorageView) (header : BlockHeader) : Bool :=
  lease.height = header.height && lease.transactionCount = header.transactionCount &&
    lease.bodyLength = header.bodyLength && lease.base = v.state.tipId &&
    lease.target = header.reservedTarget && lease.commitment = header.transactionCommitment

/-- The clock of `template_time_select`; an answer of zero is a failure. -/
def selectTimestamp (s : MiningService σ) (v : StorageView) : Option UInt64 × MiningService σ :=
  match s.timestampNow with
  | none => (some v.state.timestamp, s)
  | some clock =>
      let now := clock s.clockCalls
      (if now = 0 then none else some (max v.state.timestamp now),
        { s with clockCalls := s.clockCalls + 1 })

/-- `template_time_select`: the timestamp of the header. -/
def templateTimeSelect (s : MiningService σ) (v : StorageView) (header : BlockHeader) :
    Except RpcCode UInt64 × MiningService σ :=
  match s.lease.filter fun lease => lease.holds v header with
  | some lease => (.ok lease.value, s)
  | none =>
      match selectTimestamp s v with
      | (none, s) => (.error .unavailable, s)
      | (some value, s) =>
          (.ok value, { s with lease := some {
            base := v.state.tipId
            target := header.reservedTarget
            commitment := header.transactionCommitment
            height := header.height
            transactionCount := header.transactionCount
            bodyLength := header.bodyLength
            value } })

/-- The body of the template with its number of transactions. -/
def templateBody (s : MiningService σ) (v : StorageView) : Except RpcCode (Bytes × ℕ) :=
  match s.pending with
  | none => .ok (s.body, s.transactionCount)
  | some pool =>
      match blockCompensationPendingAssemble pool s.intelligence v s.pendingBodyCapacity with
      | .ok built => .ok built
      | .error .unresolved => .error .unavailable
      | .error .capacity => .error .capacity
      | .error _ => .error .provider

/-- The code for a target that cannot be determined. -/
def targetCode : DataStatus → RpcCode
  | .unresolved => .unavailable
  | .capacity | .overflow => .capacity
  | .providerError | .argument => .provider
  | _ => .rejected

/-- The check of a share in a template: work of an earlier height on this history. -/
def templateShareValid (s : MiningService σ) (v : StorageView) (record : Bytes) : Bool :=
  match shareDecode record with
  | .error _ => false
  | .ok share =>
      match blockHeaderDecode (octetBytes share.templateHeader) with
      | .error _ => false
      | .ok header =>
          header.version = powBlockVersion && header.reservedWorkNonce = 0 &&
            header.networkId = v.state.networkId && v.state.hasTip &&
            v.state.height ≠ uint64Max && header.height < v.state.height + 1 &&
            header.height ≠ 0 && (shareVerifyEvidence share s.chain.hashProvider).toBool &&
            (match v.blocks[header.height.toNat - 1]? with
              | none => false
              | some parent => chainBlockId parent s.chain.hashProvider = .ok header.previousHash)

/-- The check of a transaction in a template; publications and lifecycle records carry the
network. -/
def templateTransactionValid (s : MiningService σ) (v : StorageView) (t : Bytes) : Bool :=
  match transactionDecode t with
  | .error _ => false
  | .ok tx =>
      match tx.type with
      | .shareEvidence => templateShareValid s v tx.record
      | .publication | .authorityGrant | .authorityRevoke | .identityRotate =>
          52 ≤ t.length && octetsAt t 20 32 = s.chain.networkId
      | _ => true

/-- The header of the template before its timestamp is selected. -/
def templateHeader (s : MiningService σ) (v : StorageView) (body : Bytes) (count : ℕ) :
    Except RpcCode BlockHeader :=
  if v.state.height = uint64Max then .error .capacity
  else if count = 0 ∧ body.length ≠ 0 then .error .rejected
  else if blockBodyValidateStructure body count ≠ .ok () then .error .rejected
  else
    match chainRequiredTarget s.chain v.state with
    | .error status => .error (targetCode status)
    | .ok target =>
        if !(bodyTransactions count body).all (templateTransactionValid s v) then
          .error .rejected
        else
          match targetWork target with
          | .error _ => .error .rejected
          | .ok increment =>
              match workAdd v.state.cumulativeWork increment with
              | .error _ => .error .rejected
              | .ok _ =>
                  match blockBodyCommitment body count s.chain.hashProvider with
                  | .error _ => .error .rejected
                  | .ok transactionCommitment =>
                      .ok {
                        version := 3
                        flags := 0
                        networkId := v.state.networkId
                        previousHash := v.state.tipId
                        height := v.state.height + 1
                        timestamp := v.state.timestamp
                        transactionCommitment
                        reservedTarget := target
                        reservedWorkNonce := 0
                        transactionCount := UInt32.ofNat count
                        bodyLength := UInt32.ofNat body.length }

/-- `STN-CHAIN:WORK:ID:1`. -/
def workDomain : Bytes := cString "STN-CHAIN:WORK:ID:1"

/-- The end of `template_build`: the octets of the block and its work identifier. -/
def templateEncode (s : MiningService σ) (b : Block) : Except RpcCode (Bytes × Octets 32) :=
  if s.templateCapacity < blockHeaderSize + b.body.length then .error .capacity
  else
    match blockEncode b s.templateCapacity with
    | .error _ => .error .rejected
    | .ok bytes =>
        if blockCheckIntegrity bytes s.chain.hashProvider ≠ .ok () then .error .rejected
        else
          match Primitives.sha256 workDomain (bytes.take blockHeaderSize) with
          | .error _ => .error .provider
          | .ok id => .ok (bytes, id)

/-- `template_build`. -/
def templateBuild (s : MiningService σ) (v : StorageView) :
    Except RpcCode (Bytes × Octets 32) × MiningService σ :=
  match templateBody s v with
  | .error code => (.error code, s)
  | .ok (body, count) =>
      match templateHeader s v body count with
      | .error code => (.error code, s)
      | .ok header =>
          match templateTimeSelect s v header with
          | (.error code, s) => (.error code, s)
          | (.ok timestamp, s) => (templateEncode s ⟨{ header with timestamp }, body⟩, s)

end StnChain
