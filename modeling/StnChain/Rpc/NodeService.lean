import StnChain.Contract.Encoding
import StnChain.Contract.Query
import StnChain.Query.Recovery
import StnChain.Query.Status
import StnChain.Rpc.Dispatch
import StnChain.Validation

/-!
# The node service

The queries a node answers over a snapshot of its accepted history
(`stn_node_service.c`, `stn_contract_query.c`).  Every handler checks the capacity it
was given and then writes its answer at fixed offsets.
-/

namespace StnChain

variable [Primitives]

/-! ## Replies -/

/-- A reply that leaves the memory alone. -/
def RpcReply.plain (code : RpcCode) (memory : Bytes) : RpcReply :=
  ⟨some code, memory, 0⟩

/-- A reply that writes at offsets, when the capacity covers what it needs. -/
def RpcReply.answer (code : RpcCode) (needed : ℕ) (writes : List (ℕ × Bytes)) (memory : Bytes)
    (capacity : ℕ) : RpcReply :=
  if capacity < needed then .plain .capacity memory
  else ⟨some code, Buffer.writeAll memory writes, needed⟩

/-- The wire value of a stage. -/
def StageStatus.toWire : StageStatus → ℕ
  | .notRun => 0
  | .pass => 1
  | .reject => 2
  | .unresolved => 3
  | .error => 4

/-- The wire value of an acceptance. -/
def Acceptance.toWire : Acceptance → ℕ
  | .rejected => 0
  | .unresolved => 1
  | .error => 2
  | .underContext => 3

/-- The wire value of an envelope error. -/
def RecordStatus.toWire : RecordStatus → ℕ
  | .truncated => 2
  | .magic => 3
  | .unsupported => 4
  | .limit => 5
  | .length => 6
  | .nonce => 7

/-- The wire value of a payload error. -/
def IntelligenceStatus.toWire : IntelligenceStatus → ℕ
  | .length => 2
  | .version => 3
  | .severity => 4
  | .classification => 5
  | .source => 6
  | .subject => 7
  | .evidence => 8
  | .capacity => 9

/-- The ten fields of a report, in wire order. -/
def ValidationReport.fields (r : ValidationReport) : List ℕ :=
  [r.recordStructure.toWire, r.payload.toWire, r.network.toWire, r.time.toWire,
    r.signature.toWire, r.authority.toWire, r.replay.toWire, r.acceptance.toWire,
    (r.envelopeError.map RecordStatus.toWire).getD 0,
    (r.payloadError.map IntelligenceStatus.toWire).getD 0]

/-- The fields of a report, two octets each, written from an offset on. -/
def ValidationReport.writes (r : ValidationReport) (offset : ℕ) : List (ℕ × Bytes) :=
  r.fields.zipIdx.map fun field => (offset + field.2 * 2, wireWrite 2 field.1)

/-! ## The service -/

/-- `stn_node_service`. -/
structure NodeService where
  chain : ChainContext
  blocks : List Bytes
  intelligence : Option ValidationContext
  retained : List Bytes

/-- `snapshot`. -/
def nodeSnapshot (s : NodeService) : Except RpcCode ChainState :=
  if s.chain.powPolicy.isNone ∨ s.blocks = [] then .error .unavailable
  else
    match chainReconstructHistory s.chain s.blocks with
    | (r, state) =>
        match r.acceptance, state with
        | .unresolved, _ => .error .unavailable
        | .error, _ => .error .provider
        | .underContext, some state => .ok state
        | _, _ => .error .rejected

/-- The `DERIVE_ADDRESS` branch. -/
def nodeDeriveAddress (q : RpcMessage) (memory : Bytes) (capacity : ℕ) : RpcReply :=
  if q.payload.length < 6 then .plain .invalid memory
  else
    match AddressType.ofWire (wireRead q.payload 0 2) with
    | none => .plain .invalid memory
    | some type =>
        if wireRead q.payload 2 4 ≠ q.payload.length - 6 then .plain .invalid memory
        else
          match addressDerive type (q.payload.drop 6) with
          | .error status =>
              .plain (if status = .capacity ∨ status = .length then .capacity else .provider) memory
          | .ok address =>
              match addressEncode address 71 with
              | .error status => .plain (if status = .capacity then .capacity else .provider) memory
              | .ok text =>
                  if text.length ≠ (if type = .identity then 69 else 70) then
                    .plain .provider memory
                  else .answer .ok text.length [(0, text)] memory capacity

/-- The answer of both `BALANCE` handlers, over the accepted state at hand. -/
def balanceReply (s : ChainState) (q : RpcMessage) (memory : Bytes) (capacity : ℕ) : RpcReply :=
  if q.payload.length ≠ 70 then .plain .invalid memory
  else
    match addressDecode q.payload with
    | .error _ => .plain .invalid memory
    | .ok wallet =>
        if wallet.type ≠ .wallet then .plain .invalid memory
        else
          match economicStateBalance s.economy.state wallet with
          | .error status =>
              .plain (if status = .unresolved then .unavailable else .provider) memory
          | .ok units => .answer .ok 8 [(0, wireWrite 8 units.toNat)] memory capacity

/-- The `CONTRACT_STATE` branch of `stn_contract_query_handle`. -/
def contractStateReply (contracts : ContractSnapshot) (q : RpcMessage) (memory : Bytes)
    (capacity : ℕ) : RpcReply :=
  if q.payload.length ≠ 70 then .plain .invalid memory
  else
    match addressDecode q.payload with
    | .error _ => .plain .invalid memory
    | .ok contract =>
        if contract.type ≠ .contract then .plain .invalid memory
        else
          match contractStateFind contracts.state contract.identifier with
          | .error .address => .plain .notFound memory
          | .error _ => .plain .provider memory
          | .ok at' =>
              match contracts.state.entries[at']? with
              | none => .plain .provider memory
              | some entry =>
                  .answer .ok 26
                    [(0, wireWrite 2 entry.current.state.toWire),
                      (2, wireWrite 2 entry.current.type.toWire),
                      (4, wireWrite 8 entry.current.sequence.toNat),
                      (12, wireWrite 8 entry.current.createdAt.toNat),
                      (20, wireWrite 2 entry.current.participantCount),
                      (22, wireWrite 4 entry.current.termsLength)] memory capacity

/-- The writes of one entry of a contract list. -/
def contractListWrites (result : ContractQueryResult) (i : ℕ) : List (ℕ × Bytes) :=
  let e := 2 + i * rpcContractListEntrySize
  [(e, addressText ⟨.contract, result.contractId⟩),
    (e + 70, wireWrite 2 result.state.toWire),
    (e + 72, wireWrite 2 result.type.toWire),
    (e + 74, wireWrite 8 result.sequence.toNat),
    (e + 82, wireWrite 8 result.createdAt.toNat)]

/-- The `CONTRACT_LIST` branch of `stn_contract_query_handle`. -/
def contractListReply (contracts : ContractSnapshot) (q : RpcMessage) (memory : Bytes)
    (capacity : ℕ) : RpcReply :=
  if q.payload.length ≠ 69 then .plain .invalid memory
  else
    match addressDecode q.payload with
    | .error _ => .plain .invalid memory
    | .ok identity =>
        if identity.type ≠ .identity then .plain .invalid memory
        else
          match contractQueryIdentity contracts.state identity.identifier contractQueryMaxResults
          with
          | .error status =>
              .plain (if status = .capacity then .capacity else .provider) memory
          | .ok results =>
              .answer .ok (2 + results.length * rpcContractListEntrySize)
                ((0, wireWrite 2 results.length) ::
                  results.zipIdx.flatMap fun result => contractListWrites result.1 result.2)
                memory capacity

/-- `stn_contract_query_handle`. -/
def contractQueryHandle (contracts : ContractSnapshot) (q : RpcMessage) (memory : Bytes)
    (capacity : ℕ) : RpcReply :=
  match q.methodOf with
  | some .contractState => contractStateReply contracts q memory capacity
  | some .contractList => contractListReply contracts q memory capacity
  | _ => .plain .method memory

/-- The `TRANSACTION_STATUS` branch. -/
def nodeTransactionStatus (s : NodeService) (q : RpcMessage) (memory : Bytes) (capacity : ℕ) :
    RpcReply :=
  if q.payload.length ≠ 32 then .plain .invalid memory
  else
    match transactionStatusFind s.chain s.blocks (octetsAt q.payload 0 32) with
    | .notFound => .plain .notFound memory
    | .unavailable => .plain .unavailable memory
    | .argument | .provider => .plain .provider memory
    | .accepted found =>
        .answer .ok rpcTransactionStatusSize
          [(0, wireWrite 8 found.height.toNat), (8, octetBytes found.blockId),
            (40, wireWrite 4 found.transactionPosition)] memory capacity

/-- The report of a publication checked against the lifecycle of a state. -/
def publicationReport (s : NodeService) (state : ChainState) (bytes : Bytes) :
    ValidationReport :=
  match lifecycleCheckPublication state.lifecycle bytes s.chain.hashProvider with
  | .ok =>
      match recordDecode bytes with
      | .error _ => { acceptance := .rejected, network := .reject }
      | .ok record =>
          if record.networkId = state.networkId then { acceptance := .underContext }
          else { acceptance := .rejected, network := .reject }
  | .provider | .capacity => { acceptance := .error }
  | _ => { acceptance := .rejected }

/-- The report of an intelligence record: by the lifecycle from the activation height on, by
the staged validation before it. -/
def nodeReport (s : NodeService) (state : ChainState) (bytes : Bytes) :
    Except RpcCode ValidationReport :=
  if state.height = uint64Max ∨ state.height + 1 ≥ state.publicationActivationHeight then
    .ok (publicationReport s state bytes)
  else
    match s.intelligence with
    | none => .error .unavailable
    | some context =>
        if context.expectedNetwork ≠ s.chain.networkId then .error .unavailable
        else .ok (validateIntelligenceRecord bytes context)

/-- The `CHECK_INTELLIGENCE` and `SUBMIT_INTELLIGENCE` branch. -/
def nodeIntelligence (s : NodeService) (submit : Bool) (q : RpcMessage) (memory : Bytes)
    (capacity : ℕ) : RpcReply :=
  match nodeSnapshot s with
  | .error code => .plain code memory
  | .ok state =>
      match nodeReport s state q.payload with
      | .error code => .plain code memory
      | .ok r =>
          if submit then
            .plain (match r.acceptance with
              | .error => .provider
              | .rejected => .rejected
              | _ => .unavailable) memory
          else .answer .ok 20 (r.writes 0) memory capacity

/-- The `GET_CURSOR_REORG_STATUS` branch. -/
def nodeCursorReorg (s : NodeService) (q : RpcMessage) (memory : Bytes) (capacity : ℕ) :
    RpcReply :=
  match chainCursorDecode q.payload with
  | .error _ => .plain .invalid memory
  | .ok cursor =>
      match chainResolveCursorReorg s.chain s.blocks s.retained cursor with
      | .current => .plain .current memory
      | .noCommonAncestor => .plain .noCommonAncestor memory
      | .malformed => .plain .invalid memory
      | .unavailable => .plain .unavailable memory
      | .provider => .plain .provider memory
      | .commonAncestor boundary =>
          .answer .commonAncestor 40
            [(0, wireWrite 8 boundary.height.toNat), (8, octetBytes boundary.blockId)] memory
            capacity

/-- The `GET_CONSUMER_RECOVERY_PLAN` branch; the cursor is encoded behind the boundary. -/
def nodeRecoveryPlan (s : NodeService) (q : RpcMessage) (memory : Bytes) (capacity : ℕ) :
    RpcReply :=
  match chainCursorDecode q.payload with
  | .error _ => .plain .invalid memory
  | .ok cursor =>
      match chainBuildConsumerRecoveryPlan s.chain s.blocks s.retained cursor with
      | .current => .plain .current memory
      | .unavailable => .plain .unavailable memory
      | .malformed => .plain .invalid memory
      | .provider => .plain .provider memory
      | .fromStart boundary =>
          .answer .recoverFromStart 40
            [(0, wireWrite 8 boundary.height.toNat), (8, octetBytes boundary.blockId)] memory
            capacity
      | .afterCursor boundary resume =>
          if capacity < 85 then .plain .capacity memory
          else
            let memory := Buffer.writeAll memory
              [(0, wireWrite 8 boundary.height.toNat), (8, octetBytes boundary.blockId)]
            match chainCursorEncode resume with
            | .error _ => .plain .provider memory
            | .ok bytes => ⟨some .recoverAfterCursor, Buffer.overwrite memory 40 bytes, 85⟩

/-- The answer of the first and next record: the record, its position and a cursor to it. -/
def nodeRecordReply (found : RecordMatch) (position : ChainCursor) (memory : Bytes)
    (capacity : ℕ) : RpcReply :=
  if capacity < 125 ∨ found.transaction.length > capacity - 125 then .plain .capacity memory
  else
    let memory := Buffer.writeAll memory
      [(0, octetBytes found.recordId), (32, wireWrite 8 found.height.toNat),
        (40, octetBytes found.blockId), (72, wireWrite 4 position.transactionPosition.toNat)]
    match chainCursorEncode position with
    | .error _ => .plain .provider memory
    | .ok bytes =>
        ⟨some .ok, Buffer.writeAll memory
            [(76, bytes), (121, wireWrite 4 found.transaction.length), (125, found.transaction)],
          125 + found.transaction.length⟩

/-- The `GET_FIRST_ACCEPTED_RECORD` branch. -/
def nodeFirstRecord (s : NodeService) (q : RpcMessage) (memory : Bytes) (capacity : ℕ) :
    RpcReply :=
  if q.payload.length ≠ 0 then .plain .invalid memory
  else
    match chainFirstRecord s.chain s.blocks with
    | .atEnd => .plain .atEnd memory
    | .unavailable => .plain .unavailable memory
    | .capacity => .plain .capacity memory
    | .provider => .plain .provider memory
    | .record found position => nodeRecordReply found position memory capacity

/-- The `GET_NEXT_ACCEPTED_RECORD` branch. -/
def nodeNextRecord (s : NodeService) (q : RpcMessage) (memory : Bytes) (capacity : ℕ) :
    RpcReply :=
  match chainCursorDecode q.payload with
  | .error _ => .plain .invalid memory
  | .ok cursor =>
      match chainNextRecord s.chain s.blocks cursor with
      | .atEnd => .plain .atEnd memory
      | .detached => .plain .detached memory
      | .malformed => .plain .invalid memory
      | .unavailable => .plain .unavailable memory
      | .capacity => .plain .capacity memory
      | .provider => .plain .provider memory
      | .record found position => nodeRecordReply found position memory capacity

/-- The `GET_ACCEPTED_RECORD` branch. -/
def nodeAcceptedRecord (s : NodeService) (q : RpcMessage) (memory : Bytes) (capacity : ℕ) :
    RpcReply :=
  if q.payload.length ≠ 32 then .plain .invalid memory
  else
    match chainLookupRecord s.chain s.blocks (octetsAt q.payload 0 32) with
    | .error .unresolved => .plain .unavailable memory
    | .error .capacity => .plain .capacity memory
    | .error _ => .plain .provider memory
    | .ok none => .plain .notFound memory
    | .ok (some found) =>
        if capacity < 76 ∨ found.transaction.length > capacity - 76 then .plain .capacity memory
        else
          ⟨some .ok, Buffer.writeAll memory
            [(0, octetBytes found.recordId), (32, wireWrite 8 found.height.toNat),
              (40, octetBytes found.blockId), (72, wireWrite 4 found.transaction.length),
              (76, found.transaction)], 76 + found.transaction.length⟩

/-- The loop of `BLOCK_ID`; the failure is the provider's. -/
def blockOfId (provider : HashProvider) (id : Octets 32) : List Bytes → Except Unit (Option Bytes)
  | [] => .ok none
  | bytes :: rest =>
      match chainBlockId bytes provider with
      | .error _ => .error ()
      | .ok found => if found = id then .ok (some bytes) else blockOfId provider id rest

/-- A stored block as an answer. -/
def blockReply (bytes : Bytes) (memory : Bytes) (capacity : ℕ) : RpcReply :=
  .answer .ok bytes.length [(0, bytes)] memory capacity

/-- The branches over the state of the history. -/
def nodeState (s : NodeService) (state : ChainState) (q : RpcMessage) (memory : Bytes)
    (capacity : ℕ) : RpcReply :=
  let context : RpcReply := .answer .ok 76
    [(0, octetBytes state.tipId), (32, octetBytes state.currentTarget),
      (64, wireWrite 8 state.height.toNat), (72, wireWrite 4 0)] memory capacity
  match q.methodOf with
  | some .info =>
      .answer .ok 184
        [(0, octetBytes state.networkId), (32, octetBytes state.genesisId),
          (64, wireWrite 8 state.height.toNat), (72, octetBytes state.tipId),
          (104, octetBytes state.cumulativeWork), (144, octetBytes state.currentTarget),
          (176, wireWrite 4 1), (180, wireWrite 4 s.blocks.length)] memory capacity
  | some .blockHeight =>
      match s.blocks[wireRead q.payload 0 8]? with
      | none => .plain .notFound memory
      | some bytes => blockReply bytes memory capacity
  | some .blockId =>
      match blockOfId s.chain.hashProvider (octetsAt q.payload 0 32) s.blocks with
      | .error () => .plain .provider memory
      | .ok none => .plain .notFound memory
      | .ok (some bytes) => blockReply bytes memory capacity
  | some .checkWorkBase =>
      if octetsAt q.payload 0 32 ≠ state.tipId then .plain .stale memory else context
  | some .submitWork =>
      if octetsAt q.payload 0 32 ≠ state.tipId then .plain .stale memory
      else .plain .unavailable memory
  | some .miningContext => context
  | _ => .plain .method memory

/-- `stn_node_service_handle`. -/
def nodeServiceHandle (s : NodeService) : RpcHandler := fun q memory capacity =>
  match q.methodOf with
  | some .deriveAddress => nodeDeriveAddress q memory capacity
  | some .balance =>
      match nodeSnapshot s with
      | .error code => .plain code memory
      | .ok state => balanceReply state q memory capacity
  | some .contractState | some .contractList =>
      match nodeSnapshot s with
      | .error code => .plain code memory
      | .ok state => contractQueryHandle state.contracts q memory capacity
  | some .transactionStatus => nodeTransactionStatus s q memory capacity
  | some .pending | some .adminControl | some .intelligenceId | some .intelligenceCursor
  | some .miningTemplate => .plain .unavailable memory
  | some .checkIntelligence => nodeIntelligence s false q memory capacity
  | some .submitIntelligence => nodeIntelligence s true q memory capacity
  | some .getCursorReorgStatus => nodeCursorReorg s q memory capacity
  | some .getConsumerRecoveryPlan => nodeRecoveryPlan s q memory capacity
  | some .getFirstAcceptedRecord => nodeFirstRecord s q memory capacity
  | some .getNextAcceptedRecord => nodeNextRecord s q memory capacity
  | some .getAcceptedRecord => nodeAcceptedRecord s q memory capacity
  | _ =>
      match nodeSnapshot s with
      | .error code => .plain code memory
      | .ok state => nodeState s state q memory capacity

end StnChain
