import StnChain.Mining.Stage
import StnChain.Pending.Pairs

/-!
# The mining handler

`stn_mining_handle` of `stn_mining.c`: it loads the accepted history for each request and
then answers it from that, from the pool, or by extending or replacing what is stored.
A session lends its suffix stage to the service for the time of a request.
-/

namespace StnChain

variable [Primitives]

/-- What a request leaves: the reply and the service. -/
structure MiningOutcome (σ : Type) where
  reply : RpcReply
  service : MiningService σ

variable {σ : Type}

/-- An outcome with a code alone. -/
def MiningOutcome.plain (code : RpcCode) (memory : Bytes) (s : MiningService σ) :
    MiningOutcome σ :=
  ⟨.plain code memory, s⟩

/-! ## Replacing the stored history -/

/-- The reply after a change of the accepted history. -/
def acceptedReply (s : ChainState) (memory : Bytes) (capacity : ℕ) : RpcReply :=
  .answer .ok 80
    [(0, octetBytes s.tipId), (32, wireWrite 8 s.height.toNat), (40, octetBytes s.cumulativeWork)]
    memory capacity

/-- The pool entries that some blocks include. -/
def miningInclusions (s : MiningService σ) (blocks : List Bytes) :
    Except DataStatus (List Bool) :=
  match s.pending with
  | none => .ok []
  | some pool => pool.committedInclusions s.chain.hashProvider blocks

/-- The octets a history takes in storage. -/
def storageBytes (blocks : List Bytes) : ℕ :=
  storageOverhead + (blocks.map fun b => 4 + b.length).sum

/-- The service after a storage operation: what was stored became active and the pool is
pruned, or only the provider was used. -/
def afterStorage (s : MiningService σ) (o : StorageOutcome σ) (mask : List Bool) :
    RpcCode × MiningService σ :=
  match storageCode o.status with
  | .ok => (.ok, { s with
      device := o.device
      active := o.active
      pending := s.pending.map fun pool => pool.prune mask })
  | code => (code, { s with device := o.device })

/-- What blocks that lie in the current buffer read as once room was made in the workspace.  A
buffer that grows is given to `realloc`, and its old octets may read as anything. -/
def MiningService.heldBlocks (s : MiningService σ) (workspace : StorageWorkspace)
    (held : List Bytes) (reading : ℕ) : List Bytes :=
  if workspace.currentCapacity = s.workspace.currentCapacity then held
  else held.mapIdx fun i bytes => bytes.mapIdx fun j _ => s.freed s.device reading i j

/-- The common end of the branches that replace the history by a candidate, of which the blocks
`held` lie in the current buffer.  Their second reading is that of `stn_storage_apply`. -/
def publishHistory (s : MiningService σ) (current : ChainState) (held given : List Bytes)
    (plan : ReorgPlan) : RpcCode × MiningService σ :=
  match ensureStorageCapacity s (storageBytes (held ++ given) + 32) with
  | none => (.capacity, s)
  | some workspace =>
      match miningInclusions s (s.heldBlocks workspace held 0 ++ given) with
      | .error _ => (.provider, { s with workspace })
      | .ok mask =>
          let candidate := s.heldBlocks workspace held 1 ++ given
          let s := { s with workspace }
          afterStorage s (storageApply s.chain s.storage candidate plan workspace current s.device)
            mask

/-- Replace the history when the candidate of an evaluation is preferred; a history that is
as good as the current one is answered with a code of the branch. -/
def publishPreferred (s : MiningService σ) (current : ChainState) (held given : List Bytes)
    (fork : ForkReport × Option ReorgPlan) (notPreferred : RpcCode) :
    RpcCode × MiningService σ :=
  match fork.1.result, fork.2 with
  | .current, _ | .tie, _ => (notPreferred, s)
  | .unresolved, _ => (.unavailable, s)
  | .candidate, some plan => publishHistory s current held given plan
  | _, _ => (.rejected, s)

/-- The reply to a change of the history, which reports the new tip. -/
def historyOutcome (r : RpcCode × MiningService σ) (memory : Bytes) (capacity : ℕ) :
    MiningOutcome σ :=
  match r.1 with
  | .ok => ⟨acceptedReply r.2.active memory capacity, r.2⟩
  | code => .plain code memory r.2

/-- The blocks a payload lists, each behind its length. -/
def evidenceBlocks : ℕ → Bytes → Option (List Bytes)
  | 0, rest => if rest = [] then some [] else none
  | count + 1, rest =>
      if rest.length < 4 then none
      else
        let length := wireRead rest 0 4
        if length < blockHeaderSize ∨ length > blockMaxSize ∨ length > rest.length - 4 then none
        else (evidenceBlocks count (rest.drop (4 + length))).map ((rest.drop 4).take length :: ·)

/-- The evaluation and publication of a committed suffix. -/
def commitSuffix (s : MiningService σ) (v : StorageView) : RpcCode × MiningService σ :=
  let suffix := s.stage.slots.filterMap id
  if s.stage.prefixCount > v.blocks.length then (.rejected, s)
  else
    publishPreferred s v.state [] (v.blocks.take s.stage.prefixCount ++ suffix)
      (forkEvaluateSuffix s.chain v.blocks s.stage.prefixCount suffix) .current

/-- The COMMIT branch; from a complete stage on, it is cleared whatever comes of it. -/
def stageCommit (s : MiningService σ) (v : StorageView) (memory : Bytes) (capacity : ℕ) :
    MiningOutcome σ :=
  if !s.stage.active ∨ s.stage.receivedCount ≠ s.stage.expectedCount then
    .plain .rejected memory s
  else
    let o := historyOutcome (commitSuffix s v) memory capacity
    { o with service := { o.service with stage := .cleared } }

/-- The SUBMIT_SUFFIX_EVIDENCE branch, which loads the history again, into the current buffer,
where the prefix of the candidate stays. -/
def submitSuffixEvidence (s : MiningService σ) (q : RpcMessage) (memory : Bytes)
    (capacity : ℕ) : MiningOutcome σ :=
  let prefixCount := wireRead q.payload 0 4
  let count := wireRead q.payload 4 4
  if q.payload.length < 8 ∨ prefixCount = 0 ∨ count = 0 then .plain .invalid memory s
  else
    match storageLoad s.chain s.storage s.workspace.currentCapacity s.device with
    | (.error _, device) => .plain .unavailable memory { s with device }
    | (.ok accepted, device) =>
        let s := { s with device }
        if prefixCount > accepted.blocks.length then .plain .rejected memory s
        else
          match evidenceBlocks count (q.payload.drop 8) with
          | none => .plain .invalid memory s
          | some suffix =>
              historyOutcome
                (publishPreferred s accepted.state (accepted.blocks.take prefixCount) suffix
                  (forkEvaluateSuffix s.chain accepted.blocks prefixCount suffix) .current)
                memory capacity

/-- The SUBMIT_HISTORY_EVIDENCE branch. -/
def submitHistoryEvidence (s : MiningService σ) (v : StorageView) (q : RpcMessage)
    (memory : Bytes) (capacity : ℕ) : MiningOutcome σ :=
  let count := wireRead q.payload 0 4
  if q.payload.length < 4 ∨ count = 0 then .plain .invalid memory s
  else
    match evidenceBlocks count (q.payload.drop 4) with
    | none => .plain .invalid memory s
    | some candidate =>
        historyOutcome
          (publishPreferred s v.state [] candidate
            (forkEvaluateHistory s.chain v.blocks candidate) .rejected)
          memory capacity

/-! ## Extending the stored history -/

/-- A block appended to the stored history. -/
def extendHistory (s : MiningService σ) (v : StorageView) (bytes : Bytes) :
    RpcCode × MiningService σ :=
  match miningInclusions s [bytes] with
  | .error _ => (.provider, s)
  | .ok mask =>
      match ensureStorageCapacity s (storageBytes v.blocks + 4 + bytes.length) with
      | none => (.capacity, s)
      | some workspace =>
          let s := { s with workspace }
          afterStorage s (storageExtend s.chain s.storage bytes workspace v.state s.device) mask

/-- The SUBMIT_BLOCK_EVIDENCE branch. -/
def submitBlockEvidence (s : MiningService σ) (v : StorageView) (q : RpcMessage)
    (memory : Bytes) (capacity : ℕ) : MiningOutcome σ :=
  if q.payload.length < blockHeaderSize ∨ q.payload.length > blockMaxSize then
    .plain .invalid memory s
  else historyOutcome (extendHistory s v q.payload) memory capacity

/-! ## Submissions to the pool -/

/-- The wire value `submission_code` chooses. -/
def submissionCode : PendingResult → ℕ
  | .accepted => 0
  | .duplicate => 1
  | .capacity => 2
  | .invalid | .network | .time => 3
  | .unsupported => 4
  | .replay => 5
  | .signature | .authority => 6
  | .unavailable => 7
  | .provider | .notFound => 8

/-- The admission of a transaction; without a pool it is unavailable. -/
def miningAdmit (s : MiningService σ) (v : StorageView) (bytes : Bytes) :
    PendingResult × Option (Octets 32) × MiningService σ :=
  match s.pending with
  | none => (.unavailable, none, s)
  | some pool =>
      let a := sharePendingAdmit pool bytes s.intelligence v s.chain.hashProvider
      (a.result, a.id, { s with pending := some a.pool })

/-- The SUBMIT_TRANSACTION branch. -/
def submitTransaction (s : MiningService σ) (v : StorageView) (q : RpcMessage)
    (memory : Bytes) (capacity : ℕ) : MiningOutcome σ :=
  if capacity < 36 then .plain .capacity memory s
  else if q.payload.length > txMaxSize then .plain .invalid memory s
  else
    let (result, id, s) := miningAdmit s v q.payload
    let known := result = .accepted ∨ result = .duplicate
    ⟨.answer .ok 36
      ([(0, List.replicate 36 0), (0, wireWrite 2 1), (2, wireWrite 2 (submissionCode result))] ++
        if known then [(4, octetBytes (id.getD s.stackId))] else []) memory capacity, s⟩

/-- The context of a service that has none: the network alone. -/
def bareContext (c : ChainContext) : ValidationContext where
  expectedNetwork := c.networkId
  timeConfigured := false
  validationTime := 0
  futureToleranceSeconds := 0
  maxAgeSeconds := 0
  verifySignature := none
  lookupAuthority := none
  checkReplay := none

/-- The SUBMIT_INTELLIGENCE branch. -/
def submitIntelligence (s : MiningService σ) (pool : PendingPool) (v : StorageView)
    (q : RpcMessage) (memory : Bytes) (capacity : ℕ) : MiningOutcome σ :=
  if capacity < 56 then .plain .capacity memory s
  else
    let a := pendingAdmit pool q.payload (some (s.intelligence.getD (bareContext s.chain))) v
      s.chain.hashProvider
    ⟨.answer .ok 56
      ([(0, wireWrite 2 1), (2, wireWrite 2 a.result.toWire)] ++ a.report.writes 4 ++
        [(24, octetBytes (a.id.getD s.stackId))]) memory capacity,
      { s with pending := some a.pool }⟩

/-- The PENDING branch. -/
def pendingReply (pool : PendingPool) (memory : Bytes) (capacity : ℕ) : RpcReply :=
  .answer .ok 16
    [(0, wireWrite 4 pool.entries.length), (4, wireWrite 4 pendingMaxEntries),
      (8, wireWrite 4 pool.bytes), (12, wireWrite 4 pendingMaxBytes)] memory capacity

/-! ## Shares -/

/-- The share a SUBMIT_SHARE request carries, with the header of its work. -/
def submittedShare (v : StorageView) (payload : Bytes) :
    Except RpcCode (ShareEvidence × BlockHeader) :=
  if payload.length ≠ rpcShareSubmissionSize then .error .invalid
  else
    match addressDecode ((payload.drop 32).take 69) with
    | .error _ => .error .invalid
    | .ok miner =>
        if miner.type ≠ .identity then .error .invalid
        else
          match blockHeaderDecode
              ((payload.drop rpcShareSubmissionPrefix).take blockHeaderSize) with
          | .error _ => .error .stale
          | .ok header =>
              if header.version ≠ powBlockVersion ∨ header.reservedWorkNonce ≠ 0 ∨
                  header.networkId ≠ v.state.networkId ∨ !v.state.hasTip ∨
                  v.state.height = uint64Max ∨ header.height ≠ v.state.height + 1 ∨
                  header.previousHash ≠ v.state.tipId ∨
                  header.timestamp < v.state.timestamp then .error .stale
              else
                .ok ({
                  workId := octetsAt payload 0 32
                  miner
                  nonce := UInt64.ofNat (wireRead payload 101 8)
                  templateHeader := octetsAt payload rpcShareSubmissionPrefix blockHeaderSize
                  bodyCommitment := header.transactionCommitment }, header)

/-- The work identifier of a header, by a call of the provider's function; the handler has
one. -/
def workHash (c : ChainContext) (header : Bytes) : Except DataStatus (Octets 32) :=
  match c.hashProvider.hash with
  | none => .error .argument
  | some hash => hash workDomain header

/-- The work of a share: the target in force, the work identifier and the proof. -/
def verifyShareWork (c : ChainContext) (v : StorageView) (share : ShareEvidence)
    (header : BlockHeader) : Except RpcCode Unit :=
  match chainRequiredTarget c v.state with
  | .error .unresolved => .error .unavailable
  | .error .capacity | .error .overflow => .error .capacity
  | .error _ => .error .provider
  | .ok target =>
      if header.reservedTarget ≠ target then .error .rejected
      else
        match workHash c (octetBytes share.templateHeader) with
        | .error .unresolved => .error .unavailable
        | .error _ => .error .provider
        | .ok id =>
            if share.workId ≠ id then .error .rejected
            else
              match shareVerifyEvidence share c.hashProvider with
              | .error _ => .error .rejected
              | .ok _ => .ok ()

/-- The verified share of a SUBMIT_SHARE request. -/
def verifiedShare (c : ChainContext) (v : StorageView) (payload : Bytes) :
    Except RpcCode ShareEvidence :=
  match submittedShare v payload with
  | .error code => .error code
  | .ok (share, header) => (verifyShareWork c v share header).map fun _ => share

/-- The SUBMIT_SHARE branch.  The identifier of an admitted share is written to the reply
at once; the capacity is not looked at. -/
def submitShare (s : MiningService σ) (v : StorageView) (q : RpcMessage) (memory : Bytes) :
    MiningOutcome σ :=
  match verifiedShare s.chain v q.payload with
  | .error code => .plain code memory s
  | .ok share =>
      match s.pending with
      | none => .plain .unavailable memory s
      | some pool =>
          let r := submitSharePair s.intelligence v s.chain.hashProvider share pool
          ⟨⟨some r.code,
              match r.shareId with
              | none => memory
              | some id => Buffer.overwrite memory 0 (octetBytes id),
              if r.code = .ok then 32 else 0⟩,
            { s with pending := some r.pool }⟩

/-! ## Work -/

/-- The block of a SUBMIT_WORK request and its miner. -/
def submittedWork (v : StorageView) (payload : Bytes) : Except RpcCode (Bytes × Address) :=
  let submitted := payload.drop rpcMiningSubmissionPrefix
  if payload.length < rpcMiningSubmissionPrefix + blockHeaderSize ∨
      payload.length > rpcMiningSubmissionPrefix + blockMaxSize ∨
      wireRead payload 64 4 ≠ payload.length - rpcMiningSubmissionPrefix then .error .invalid
  else
    match addressDecode ((payload.drop 68).take 69) with
    | .error _ => .error .invalid
    | .ok miner =>
        if miner.type ≠ .identity then .error .invalid
        else if octetsAt payload 0 32 ≠ v.state.tipId then .error .stale
        else .ok (submitted, miner)

/-- The submitted header with its nonce cleared. -/
def zeroNonceHeader (submitted : Bytes) : Bytes :=
  submitted.take 152 ++ List.replicate 8 0 ++ (submitted.take blockHeaderSize).drop 160

/-- The work identifier binds the submitted header. -/
def verifyWork (c : ChainContext) (payload submitted : Bytes) : Except RpcCode Unit :=
  match blockValidateStructure submitted with
  | .error _ => .error .rejected
  | .ok () =>
      match workHash c (zeroNonceHeader submitted) with
      | .error _ => .error .provider
      | .ok id => if octetsAt payload 32 32 ≠ id then .error .rejected else .ok ()

/-- The reward transactions of a solved block. -/
def rewardTransactions (s : ChainState) (miner : Address) : Except RpcCode (Bytes × Bytes) :=
  match blockRewardBuild s.tipId miner s.compensation with
  | .error .unresolved => .error .unavailable
  | .error .capacity | .error .overflow => .error .capacity
  | .error _ => .error .provider
  | .ok (evidence, issuance) =>
      match blockRewardEncodeTransactions evidence issuance with
      | .error .capacity | .error .overflow => .error .capacity
      | .error _ => .error .provider
      | .ok pair => .ok pair

/-- The admission of a reward, over the history loaded again. -/
def admitReward (s : MiningService σ) (miner : Address) : RpcCode × MiningService σ :=
  match s.pending with
  | none => (.ok, s)
  | some pool =>
      match rewardTransactions s.active miner with
      | .error code => (code, s)
      | .ok (evidenceTx, issuanceTx) =>
          match storageLoad s.chain s.storage s.workspace.currentCapacity s.device with
          | (.error status, device) => (storageCode (.error status), { s with device })
          | (.ok v, device) =>
              let r := submitRewardPair s.intelligence v s.chain.hashProvider evidenceTx issuanceTx
                pool
              (r.1, { s with device, pending := some r.2 })

/-- The extension of the history by a solved block, and its reward. -/
def extendByWork (s : MiningService σ) (v : StorageView) (submitted : Bytes) (miner : Address) :
    RpcCode × MiningService σ :=
  match extendHistory s v submitted with
  | (.ok, s) => admitReward s miner
  | r => r

/-- The SUBMIT_WORK branch. -/
def submitWork (s : MiningService σ) (v : StorageView) (q : RpcMessage) (memory : Bytes)
    (capacity : ℕ) : MiningOutcome σ :=
  match submittedWork v q.payload with
  | .error code => .plain code memory s
  | .ok (submitted, miner) =>
      if capacity < 80 then .plain .capacity memory s
      else
        match verifyWork s.chain q.payload submitted with
        | .error code => .plain code memory s
        | .ok () => historyOutcome (extendByWork s v submitted miner) memory capacity

/-! ## Requests -/

/-- The node service a request is passed on to. -/
def nodeQuery (s : MiningService σ) (v : StorageView) : NodeService where
  chain := s.chain
  blocks := v.blocks
  intelligence := s.intelligence
  retained := []

/-- The MINING_CONTEXT and CHECK_WORK_BASE branch: the answer of the node service, with
whether a template can be built. -/
def miningContext (s : MiningService σ) (v : StorageView) (q : RpcMessage) (memory : Bytes)
    (capacity : ℕ) : MiningOutcome σ :=
  let reply := nodeServiceHandle (nodeQuery s v) q memory capacity
  if reply.code = some .ok then
    let (built, s) := templateBuild s v
    ⟨{ reply with
      memory := Buffer.overwrite reply.memory 72 (wireWrite 4 (if built.toBool then 1 else 0)) }, s⟩
  else ⟨reply, s⟩

/-- The MINING_TEMPLATE branch. -/
def miningTemplate (s : MiningService σ) (v : StorageView) (memory : Bytes) (capacity : ℕ) :
    MiningOutcome σ :=
  match templateBuild s v with
  | (.error code, s) => .plain code memory s
  | (.ok (bytes, id), s) =>
      ⟨.answer .ok (68 + bytes.length)
        [(0, octetBytes v.state.tipId), (32, octetBytes id), (64, wireWrite 4 bytes.length),
          (68, bytes)] memory capacity, s⟩

/-- The branches behind the pool. -/
def workRequest (s : MiningService σ) (v : StorageView) (q : RpcMessage) (memory : Bytes)
    (capacity : ℕ) : MiningOutcome σ :=
  match q.methodOf with
  | some .submitShare => submitShare s v q memory
  | some .submitWork => submitWork s v q memory capacity
  | some .miningTemplate => miningTemplate s v memory capacity
  | some .miningContext | some .checkWorkBase => miningContext s v q memory capacity
  | _ => ⟨nodeServiceHandle (nodeQuery s v) q memory capacity, s⟩

/-- The removal of the entries the history includes, which work requests leave out. -/
def housekeeping (s : MiningService σ) (v : StorageView) (q : RpcMessage) :
    Except RpcCode (MiningService σ) :=
  match q.methodOf with
  | some .miningTemplate | some .miningContext | some .checkWorkBase | some .submitWork => .ok s
  | _ =>
      match miningInclusions s v.blocks with
      | .error _ => .error .provider
      | .ok mask => .ok { s with pending := s.pending.map fun pool => pool.prune mask }

/-- The branches that look at the pool first. -/
def pooledRequest (s : MiningService σ) (v : StorageView) (q : RpcMessage) (memory : Bytes)
    (capacity : ℕ) : MiningOutcome σ :=
  match housekeeping s v q with
  | .error code => .plain code memory s
  | .ok s =>
      match s.pending, q.methodOf with
      | some pool, some .submitIntelligence => submitIntelligence s pool v q memory capacity
      | some pool, some .pending => ⟨pendingReply pool memory capacity, s⟩
      | _, _ => workRequest s v q memory capacity

/-- The branches over the loaded history. -/
def miningRequest (s : MiningService σ) (v : StorageView) (q : RpcMessage) (memory : Bytes)
    (capacity : ℕ) : MiningOutcome σ :=
  match q.methodOf with
  | some .balance => ⟨balanceReply v.state q memory capacity, s⟩
  | some .getAcceptedRecord | some .getFirstAcceptedRecord | some .getNextAcceptedRecord
  | some .getCursorReorgStatus | some .getConsumerRecoveryPlan =>
      ⟨nodeServiceHandle (nodeQuery s v) q memory capacity, s⟩
  | some .suffixStageAbort => .plain .ok memory { s with stage := .cleared }
  | some .suffixStageBegin =>
      let r := stageBegin q.payload v.blocks.length s.stage
      .plain r.1 memory { s with stage := r.2 }
  | some .suffixStageAppend =>
      let r := stageAppend q.payload s.stage
      .plain r.1 memory { s with stage := r.2 }
  | some .suffixStageCommit => stageCommit s v memory capacity
  | some .submitSuffixEvidence => submitSuffixEvidence s q memory capacity
  | some .submitHistoryEvidence => submitHistoryEvidence s v q memory capacity
  | some .submitBlockEvidence => submitBlockEvidence s v q memory capacity
  | some .submitTransaction => submitTransaction s v q memory capacity
  | _ => pooledRequest s v q memory capacity

/-- The growth of an owned snapshot buffer to what the provider reports. -/
def prepareSnapshot (s : MiningService σ) : Except RpcCode Unit × MiningService σ :=
  if !s.ownsBuffers then (.ok (), s)
  else
    match s.storage.acquire s.device with
    | (.error status, device) => (.error (storageCode (.error status)), { s with device })
    | (.ok (), device) =>
        let needed := s.neededBytes device
        match s.storage.read 0 device with
        | (result, device) =>
            let s := { s with device := s.storage.release device }
            let grown (required : ℕ) : Except RpcCode Unit × MiningService σ :=
              match grow s.snapshotCapacity required true with
              | none => (.error .capacity, s)
              | some snapshotCapacity => (.ok (), { s with snapshotCapacity })
            match result with
            | .ok image => grown image.length
            | .error .capacity => grown needed
            | .error status => (.error (storageCode (.error status)), s)

/-- The request behind the first guards: the history is loaded and the request answered. -/
def loadedRequest (s : MiningService σ) (q : RpcMessage) (memory : Bytes) (capacity : ℕ) :
    MiningOutcome σ :=
  match prepareSnapshot s with
  | (.error code, s) => .plain code memory s
  | (.ok (), s) =>
      match storageLoad s.chain s.storage s.snapshotCapacity s.device with
      | (.error status, device) => .plain (storageCode (.error status)) memory { s with device }
      | (.ok v, device) => miningRequest { s with device } v q memory capacity

/-- `stn_mining_handle`. -/
def miningHandle (s : MiningService σ) (q : RpcMessage) (memory : Bytes) (capacity : ℕ) :
    MiningOutcome σ :=
  if !s.sha256Selected ∨ s.chain.powPolicy.isNone then .plain .provider memory s
  else
    match q.methodOf with
    | some .contractList | some .contractState =>
        if s.active.hasTip then ⟨contractQueryHandle s.active.contracts q memory capacity, s⟩
        else .plain .unavailable memory s
    | _ => loadedRequest s q memory capacity

end StnChain
