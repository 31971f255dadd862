import StnChain.AddressText
import StnChain.Block
import StnChain.Contract.Codec
import StnChain.Pending.Pool
import StnChain.Query.Search
import StnChain.Support.Buffer

/-!
# Messages of the remote interface

Requests and responses as frames (`stn_rpc.c`): a header of twenty-four octets and
a payload.  What a payload may look like depends on the method: `shape` is the rule
for requests, `responseShape` and `recoveryResponse` are the rules for responses.
-/

namespace StnChain

/-! ## Methods and codes -/

/-- `stn_rpc_code`. -/
inductive RpcCode
  | ok | invalid | version | method | forbidden | unavailable | notFound | rejected | provider
  | capacity | stale | atEnd | detached | current | commonAncestor | noCommonAncestor
  | recoverAfterCursor | recoverFromStart
  deriving DecidableEq, Repr

/-- The code a wire value denotes. -/
def RpcCode.ofWire : ℕ → Option RpcCode
  | 0 => some .ok
  | 1 => some .invalid
  | 2 => some .version
  | 3 => some .method
  | 4 => some .forbidden
  | 5 => some .unavailable
  | 6 => some .notFound
  | 7 => some .rejected
  | 8 => some .provider
  | 9 => some .capacity
  | 10 => some .stale
  | 11 => some .atEnd
  | 12 => some .detached
  | 13 => some .current
  | 14 => some .commonAncestor
  | 15 => some .noCommonAncestor
  | 16 => some .recoverAfterCursor
  | 17 => some .recoverFromStart
  | _ => none

/-- The wire value of a code. -/
def RpcCode.toWire : RpcCode → ℕ
  | .ok => 0
  | .invalid => 1
  | .version => 2
  | .method => 3
  | .forbidden => 4
  | .unavailable => 5
  | .notFound => 6
  | .rejected => 7
  | .provider => 8
  | .capacity => 9
  | .stale => 10
  | .atEnd => 11
  | .detached => 12
  | .current => 13
  | .commonAncestor => 14
  | .noCommonAncestor => 15
  | .recoverAfterCursor => 16
  | .recoverFromStart => 17

/-- `stn_rpc_method`. -/
inductive RpcMethod
  | info | blockHeight | blockId | getAcceptedRecord | getFirstAcceptedRecord
  | getNextAcceptedRecord | getCursorReorgStatus | getConsumerRecoveryPlan | deriveAddress
  | balance | contractState | contractList | transactionStatus
  | checkIntelligence | submitIntelligence | intelligenceId | intelligenceCursor | pending
  | submitTransaction | submitBlockEvidence | submitHistoryEvidence | submitSuffixEvidence
  | suffixStageBegin | suffixStageAppend | suffixStageCommit | suffixStageAbort
  | miningContext | checkWorkBase | miningTemplate | submitWork | submitShare
  | adminControl
  deriving DecidableEq, Repr

/-- The method a wire value denotes. -/
def RpcMethod.ofWire : ℕ → Option RpcMethod
  | 1 => some .info
  | 2 => some .blockHeight
  | 3 => some .blockId
  | 4 => some .getAcceptedRecord
  | 5 => some .getFirstAcceptedRecord
  | 6 => some .getNextAcceptedRecord
  | 7 => some .getCursorReorgStatus
  | 8 => some .getConsumerRecoveryPlan
  | 9 => some .deriveAddress
  | 10 => some .balance
  | 11 => some .contractState
  | 12 => some .contractList
  | 13 => some .transactionStatus
  | 0x1000 => some .checkIntelligence
  | 0x1001 => some .submitIntelligence
  | 0x1002 => some .intelligenceId
  | 0x1003 => some .intelligenceCursor
  | 0x1004 => some .pending
  | 0x1005 => some .submitTransaction
  | 0x1006 => some .submitBlockEvidence
  | 0x1007 => some .submitHistoryEvidence
  | 0x1008 => some .submitSuffixEvidence
  | 0x1009 => some .suffixStageBegin
  | 0x100a => some .suffixStageAppend
  | 0x100b => some .suffixStageCommit
  | 0x100c => some .suffixStageAbort
  | 0x2000 => some .miningContext
  | 0x2001 => some .checkWorkBase
  | 0x2002 => some .miningTemplate
  | 0x2003 => some .submitWork
  | 0x2004 => some .submitShare
  | 0x3000 => some .adminControl
  | _ => none

/-- `stn_rpc_message`. -/
structure RpcMessage where
  kind : UInt16
  method : UInt16
  code : RpcCode
  requestId : UInt64
  payload : Bytes
  deriving DecidableEq

/-- The method of a message, `none` when it is none of the enumeration. -/
def RpcMessage.methodOf (m : RpcMessage) : Option RpcMethod :=
  RpcMethod.ofWire m.method.toNat

/-! ## Sizes -/

/-- `STN_RPC_HEADER_SIZE`. -/
def rpcHeaderSize : ℕ := 24

/-- `STN_RPC_MINER_IDENTITY_SIZE`. -/
def rpcMinerIdentitySize : ℕ := 69

/-- `STN_RPC_MINING_SUBMISSION_PREFIX`. -/
def rpcMiningSubmissionPrefix : ℕ := 137

/-- `STN_RPC_SHARE_SUBMISSION_PREFIX`. -/
def rpcShareSubmissionPrefix : ℕ := 109

/-- `STN_RPC_SHARE_SUBMISSION_SIZE`. -/
def rpcShareSubmissionSize : ℕ := rpcShareSubmissionPrefix + blockHeaderSize

/-- `STN_RPC_MAX_PAYLOAD`. -/
def rpcMaxPayload : ℕ := rpcMiningSubmissionPrefix + blockMaxSize

/-- `STN_RPC_MAX_FRAME`. -/
def rpcMaxFrame : ℕ := rpcHeaderSize + rpcMaxPayload

/-- `STN_RPC_ACCEPTED_RECORD_PREFIX`. -/
def rpcAcceptedRecordPrefix : ℕ := 76

/-- `STN_RPC_CONTRACT_LIST_ENTRY_SIZE`. -/
def rpcContractListEntrySize : ℕ := 90

/-- `STN_RPC_CONTRACT_LIST_MAX`. -/
def rpcContractListMax : ℕ := 16

/-- `STN_RPC_TRANSACTION_STATUS_SIZE`. -/
def rpcTransactionStatusSize : ℕ := 44

/-- `STN_CHAIN_CURSOR_SIZE`. -/
def chainCursorSize : ℕ := 45

/-- `STN_RECORD_MAX_SIZE`. -/
def recordMaxSize : ℕ := recordOverhead + recordMaxPayload

/-- The wire value of a result of the pending pool. -/
def PendingResult.toWire [Primitives] : PendingResult → ℕ
  | .accepted => 0
  | .duplicate => 1
  | .replay => 2
  | .invalid => 3
  | .unavailable => 4
  | .capacity => 5
  | .provider => 6
  | .signature => 7
  | .authority => 8
  | .time => 9
  | .network => 10
  | .unsupported => 11
  | .notFound => 12

/-! ## Cursors -/

/-- `stn_chain_cursor_encode`. -/
def chainCursorEncode [Primitives] (cursor : ChainCursor) : Except CursorResult Bytes :=
  if cursor.version ≠ chainCursorVersion then .error .malformed
  else
    .ok (cursor.version :: (wireWrite 8 cursor.height.toNat ++ octetBytes cursor.blockId ++
      wireWrite 4 cursor.transactionPosition.toNat))

/-- `stn_chain_cursor_decode`. -/
def chainCursorDecode [Primitives] (bytes : Bytes) : Except CursorResult ChainCursor :=
  if bytes.length ≠ chainCursorSize ∨ byteAt bytes 0 ≠ chainCursorVersion then .error .malformed
  else
    .ok {
      version := byteAt bytes 0
      height := UInt64.ofNat (wireRead bytes 1 8)
      blockId := octetsAt bytes 9 32
      transactionPosition := UInt32.ofNat (wireRead bytes 41 4) }

/-! ## Shapes of requests -/

/-- Blocks with their lengths, and nothing behind the last one. -/
def blockList [Primitives] : ℕ → Bytes → Bool
  | 0, rest => rest.isEmpty
  | count + 1, rest =>
      if rest.length < 4 then false
      else
        let length := wireRead rest 0 4
        let tail := rest.drop 4
        if length < blockHeaderSize ∨ length > blockMaxSize ∨ length > tail.length ∨
            !(blockValidateStructure (tail.take length)).toBool then false
        else blockList count (tail.drop length)

/-- `shape`. -/
def shape [Primitives] (method : UInt16) (p : Bytes) : Bool :=
  match RpcMethod.ofWire method.toNat with
  | some .getFirstAcceptedRecord => p.length = 0
  | some .getCursorReorgStatus | some .getConsumerRecoveryPlan | some .getNextAcceptedRecord =>
      p.length = 45
  | some .deriveAddress =>
      6 ≤ p.length && (AddressType.ofWire (wireRead p 0 2)).isSome &&
        wireRead p 2 4 = p.length - 6
  | some .balance => p.length = 70 && addressOfType .wallet p
  | some .contractState => p.length = 70 && addressOfType .contract p
  | some .contractList => p.length = 69 && addressOfType .identity p
  | some .submitTransaction => p.length ≤ txMaxSize
  | some .submitBlockEvidence =>
      blockHeaderSize ≤ p.length && p.length ≤ blockMaxSize && (blockValidateStructure p).toBool
  | some .submitHistoryEvidence =>
      4 ≤ p.length && 0 < wireRead p 0 4 && blockList (wireRead p 0 4) (p.drop 4)
  | some .pending | some .info | some .miningContext | some .miningTemplate
  | some .adminControl => p.length = 0
  | some .blockHeight => p.length = 8
  | some .blockId | some .intelligenceId | some .checkWorkBase | some .getAcceptedRecord =>
      p.length = 32
  | some .intelligenceCursor => p.length = 40
  | some .checkIntelligence | some .submitIntelligence =>
      recordOverhead ≤ p.length && p.length ≤ recordMaxSize
  | some .submitShare =>
      p.length = rpcShareSubmissionSize &&
        addressOfType .identity ((p.drop 32).take rpcMinerIdentitySize) &&
        (blockHeaderDecode ((p.drop rpcShareSubmissionPrefix).take blockHeaderSize)).toBool
  | some .submitWork =>
      rpcMiningSubmissionPrefix + blockHeaderSize ≤ p.length &&
        p.length ≤ rpcMiningSubmissionPrefix + blockMaxSize &&
        wireRead p 64 4 = p.length - rpcMiningSubmissionPrefix &&
        addressOfType .identity ((p.drop 68).take rpcMinerIdentitySize)
  | some .submitSuffixEvidence =>
      8 ≤ p.length && 0 < wireRead p 0 4 && 0 < wireRead p 4 4 &&
        blockList (wireRead p 4 4) (p.drop 8)
  | some .suffixStageBegin => p.length = 8 && 0 < wireRead p 0 4 && 0 < wireRead p 4 4
  | some .suffixStageAppend =>
      8 ≤ p.length && 0 < wireRead p 4 4 && blockList (wireRead p 4 4) (p.drop 8)
  | some .suffixStageCommit | some .suffixStageAbort => p.length = 0
  | some .transactionStatus | none => true

/-! ## Shapes of responses -/

/-- A publication in canonical form whose record has the given identifier. -/
def publishedRecord [Primitives] (id : Octets 32) (bytes : Bytes) : Bool :=
  match transactionDecode bytes with
  | .error _ => false
  | .ok tx =>
      tx.type = .publication &&
        match recordDecode tx.record with
        | .error _ => false
        | .ok record =>
            (intelligenceDecode record.payload).toBool &&
              match recordId tx.record ⟨some Primitives.sha256⟩ with
              | .error _ => false
              | .ok found => found = id

/-- An entry of a contract list. -/
def contractListEntry (e : Bytes) : Bool :=
  addressOfType .contract (e.take 70) && (ContractState.ofWire (wireRead e 70 2)).isSome &&
    (ContractType.ofWire (wireRead e 72 2)).isSome

/-- The cursor of an accepted record, which names the position the answer names. -/
def cursorMatches [Primitives] (p : Bytes) : Bool :=
  match chainCursorDecode ((p.drop 76).take 45) with
  | .error _ => false
  | .ok cursor =>
      cursor.height.toNat = wireRead p 32 8 && cursor.blockId = octetsAt p 40 32 &&
        cursor.transactionPosition.toNat = wireRead p 72 4

/-- `response_shape`. -/
def responseShape [Primitives] (method : UInt16) (p : Bytes) : Bool :=
  match RpcMethod.ofWire method.toNat with
  | some .getFirstAcceptedRecord | some .getNextAcceptedRecord =>
      125 ≤ p.length && p.length - 125 ≤ txMaxSize && wireRead p 121 4 = p.length - 125 &&
        cursorMatches p && publishedRecord (octetsAt p 0 32) (p.drop 125)
  | some .getAcceptedRecord =>
      rpcAcceptedRecordPrefix ≤ p.length && p.length - rpcAcceptedRecordPrefix ≤ txMaxSize &&
        wireRead p 72 4 = p.length - rpcAcceptedRecordPrefix &&
        publishedRecord (octetsAt p 0 32) (p.drop 76)
  | some .deriveAddress => (p.length = 69 || p.length = 70) && (addressDecode p).toBool
  | some .balance => p.length = 8
  | some .contractState =>
      p.length = 26 && (ContractState.ofWire (wireRead p 0 2)).isSome &&
        (ContractType.ofWire (wireRead p 2 2)).isSome &&
        wireRead p 20 2 ≤ contractMaxParticipants && wireRead p 22 4 ≤ contractMaxTerms
  | some .contractList =>
      2 ≤ p.length && wireRead p 0 2 ≤ rpcContractListMax &&
        p.length = 2 + wireRead p 0 2 * rpcContractListEntrySize &&
        (List.range (wireRead p 0 2)).all fun i =>
          contractListEntry ((p.drop (2 + i * rpcContractListEntrySize)).take
            rpcContractListEntrySize)
  | some .submitBlockEvidence | some .submitHistoryEvidence | some .submitSuffixEvidence
  | some .suffixStageCommit => p.length = 80
  | some .suffixStageBegin | some .suffixStageAppend | some .suffixStageAbort => p.length = 0
  | some .submitTransaction => p.length = 36 && wireRead p 0 2 = 1 && wireRead p 2 2 ≤ 8
  | some .miningTemplate =>
      68 + blockHeaderSize ≤ p.length && p.length ≤ 68 + blockMaxSize &&
        wireRead p 64 4 = p.length - 68
  | some .submitWork => p.length = 80
  | some .submitShare => p.length = 32
  | some .submitIntelligence =>
      p.length = 56 && wireRead p 0 2 = 1 && wireRead p 2 2 ≤ PendingResult.unsupported.toWire
  | some .pending =>
      p.length = 16 && wireRead p 0 4 ≤ pendingMaxEntries && wireRead p 4 4 = pendingMaxEntries &&
        wireRead p 8 4 ≤ pendingMaxBytes && wireRead p (p.length - 4) 4 = pendingMaxBytes
  | some .info => p.length = 184
  | some .blockHeight | some .blockId => blockHeaderSize ≤ p.length && p.length ≤ blockMaxSize
  | some .checkIntelligence => p.length = 20
  | some .miningContext | some .checkWorkBase => p.length = 76
  | some .getCursorReorgStatus | some .getConsumerRecoveryPlan | some .transactionStatus
  | some .intelligenceId | some .intelligenceCursor | some .adminControl | none => false

/-- `recovery_response`. -/
def recoveryResponse [Primitives] (method : UInt16) (code : RpcCode) (p : Bytes) : Bool :=
  match code with
  | .current =>
      (method = 7 || method = 8 ||
        RpcMethod.ofWire method.toNat = some .submitSuffixEvidence ||
        RpcMethod.ofWire method.toNat = some .suffixStageCommit) && p.length = 0
  | .commonAncestor => method = 7 && p.length = 40
  | .noCommonAncestor => method = 7 && p.length = 0
  | .recoverFromStart => method = 8 && p.length = 40
  | .recoverAfterCursor =>
      method = 8 && p.length = 85 &&
        match chainCursorDecode ((p.drop 40).take 45) with
        | .error _ => false
        | .ok cursor =>
            cursor.height.toNat ≤ wireRead p 0 8 &&
              (cursor.height.toNat ≠ wireRead p 0 8 || cursor.blockId = octetsAt p 8 32)
  | _ => false

/-! ## Frames -/

/-- A code that only some methods may answer with. -/
def exclusiveCode (code : RpcCode) (method : UInt16) : Bool :=
  (code = .atEnd && method ≠ 5 && method ≠ 6) || (code = .detached && method ≠ 6)

/-- `message_valid`. -/
def messageValid [Primitives] (m : RpcMessage) : Bool :=
  if m.payload.length > rpcMaxPayload then false
  else if exclusiveCode m.code m.method then false
  else if m.kind = 1 then m.code = .ok && shape m.method m.payload
  else if m.kind = 2 && RpcCode.current.toWire ≤ m.code.toWire then
    recoveryResponse m.method m.code m.payload
  else
    m.kind = 2 && if m.code = .ok then responseShape m.method m.payload else m.payload.length = 0

/-- `stn_rpc_decode`. -/
def rpcDecode [Primitives] (bytes : Bytes) : Except RpcCode RpcMessage :=
  if bytes.length < rpcHeaderSize ∨ bytes.length > rpcMaxFrame then .error .invalid
  else if bytes.take 4 ≠ [0x53, 0x54, 0x4e, 0x43] then .error .invalid
  else if wireRead bytes 4 2 ≠ 2 then .error .version
  else
    match RpcCode.ofWire (wireRead bytes 10 2) with
    | none => .error .invalid
    | some code =>
        let m : RpcMessage := {
          kind := UInt16.ofNat (wireRead bytes 6 2)
          method := UInt16.ofNat (wireRead bytes 8 2)
          code := code
          requestId := UInt64.ofNat (wireRead bytes 12 8)
          payload := bytes.drop rpcHeaderSize }
        if wireRead bytes 20 4 ≠ bytes.length - rpcHeaderSize ∨ !messageValid m then
          .error .invalid
        else .ok m

/-- The header of a frame. -/
def rpcHeaderBytes (m : RpcMessage) : Bytes :=
  [0x53, 0x54, 0x4e, 0x43] ++ wireWrite 2 2 ++ wireWrite 2 m.kind.toNat ++
    wireWrite 2 m.method.toNat ++ wireWrite 2 m.code.toWire ++ wireWrite 8 m.requestId.toNat ++
    wireWrite 4 m.payload.length

/-- `stn_rpc_encode`. -/
def rpcEncode [Primitives] (m : RpcMessage) (capacity : ℕ) : Except RpcCode Bytes :=
  if !messageValid m then .error .invalid
  else if capacity < rpcHeaderSize ∨ m.payload.length > capacity - rpcHeaderSize then
    .error .capacity
  else .ok (rpcHeaderBytes m ++ m.payload)

/-! ## Round trip -/

theorem RpcCode.ofWire_toWire (code : RpcCode) : RpcCode.ofWire code.toWire = some code := by
  cases code <;> rfl

theorem RpcCode.toWire_lt (code : RpcCode) : code.toWire < 256 ^ 2 := by
  cases code <;> decide

@[simp]
theorem length_rpcHeaderBytes (m : RpcMessage) : (rpcHeaderBytes m).length = rpcHeaderSize := by
  simp [rpcHeaderBytes, rpcHeaderSize]

theorem messageValid_length [Primitives] {m : RpcMessage} (h : messageValid m = true) :
    m.payload.length ≤ rpcMaxPayload := by
  unfold messageValid at h
  split at h
  · simp at h
  · omega

/-- A valid message is read back from its frame. -/
theorem rpcDecode_bytes [Primitives] {m : RpcMessage} (hvalid : messageValid m = true) :
    rpcDecode (rpcHeaderBytes m ++ m.payload) = .ok m := by
  have hsize := messageValid_length hvalid
  have hlimit : m.payload.length < 256 ^ 4 := by
    apply Nat.lt_of_le_of_lt hsize
    decide
  have hlength : (rpcHeaderBytes m ++ m.payload).length = rpcHeaderSize + m.payload.length := by
    simp
  have hrange : ¬((rpcHeaderBytes m ++ m.payload).length < rpcHeaderSize ∨
      (rpcHeaderBytes m ++ m.payload).length > rpcMaxFrame) := by
    rw [hlength]
    unfold rpcMaxFrame
    omega
  have hmagic : (rpcHeaderBytes m ++ m.payload).take 4 = [0x53, 0x54, 0x4e, 0x43] := by
    simp [rpcHeaderBytes]
  have hdrop : (rpcHeaderBytes m ++ m.payload).drop rpcHeaderSize = m.payload :=
    List.drop_left' (length_rpcHeaderBytes m)
  have hcode : RpcCode.ofWire (wireRead (rpcHeaderBytes m ++ m.payload) 10 2) = some m.code := by
    simp (disch := simp) only [rpcHeaderBytes, List.append_assoc, wireRead_append_right,
      wireRead_append_left, length_wireWrite, List.length_cons, List.length_nil, Nat.reduceAdd,
      Nat.reduceSub, wireRead_wireWrite m.code.toWire_lt, RpcCode.ofWire_toWire]
  have hdeclared : wireRead (rpcHeaderBytes m ++ m.payload) 20 4 = m.payload.length := by
    simp (disch := simp) only [rpcHeaderBytes, List.append_assoc, wireRead_append_right,
      wireRead_append_left, length_wireWrite, List.length_cons, List.length_nil, Nat.reduceAdd,
      Nat.reduceSub, wireRead_wireWrite hlimit]
  have hversion : wireRead (rpcHeaderBytes m ++ m.payload) 4 2 = 2 := by
    simp (disch := simp) only [rpcHeaderBytes, List.append_assoc, wireRead_append_right,
      wireRead_append_left, List.length_cons, List.length_nil, Nat.reduceAdd, Nat.reduceSub]
    exact wireRead_wireWrite (by decide)
  have hfields : (⟨UInt16.ofNat (wireRead (rpcHeaderBytes m ++ m.payload) 6 2),
      UInt16.ofNat (wireRead (rpcHeaderBytes m ++ m.payload) 8 2), m.code,
      UInt64.ofNat (wireRead (rpcHeaderBytes m ++ m.payload) 12 8), m.payload⟩ : RpcMessage) =
      m := by
    simp (disch := simp) only [rpcHeaderBytes, List.append_assoc, wireRead_append_right,
      wireRead_append_left, length_wireWrite, List.length_cons, List.length_nil, Nat.reduceAdd,
      Nat.reduceSub, ofNat_wireRead_wireWrite_two, ofNat_wireRead_wireWrite_eight]
  rw [rpcDecode, if_neg hrange, if_neg (not_not_intro hmagic), if_neg (not_not_intro hversion),
    hcode]
  simp only [hdrop, hfields, hdeclared, hlength, Nat.add_sub_cancel_left, ne_eq,
    not_true_eq_false, hvalid, Bool.not_true, Bool.false_eq_true, or_self, if_false]

end StnChain
