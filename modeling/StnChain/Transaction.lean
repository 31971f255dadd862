import StnChain.Contract.Votes
import StnChain.Economy.BlockCompensation
import StnChain.Record

/-!
# Transactions

The transaction envelope of `stn_transaction.c`: magic, version, type, record
length and record.  Decoding checks the record against its type; the
transaction identifier hashes the exact octets of a decodable transaction.
-/

namespace StnChain

variable [Primitives]

/-- The ten transaction types. -/
inductive TransactionType
  | publication | authorityGrant | authorityRevoke | identityRotate | contractAction
  | shareEvidence | compensationDestination | issuance | transfer | blockCompensationEvidence
  deriving DecidableEq, Repr

/-- The type a wire value denotes; `none` is outside the protocol's range. -/
def TransactionType.ofWire : ℕ → Option TransactionType
  | 1 => some .publication
  | 2 => some .authorityGrant
  | 3 => some .authorityRevoke
  | 4 => some .identityRotate
  | 5 => some .contractAction
  | 6 => some .shareEvidence
  | 7 => some .compensationDestination
  | 8 => some .issuance
  | 9 => some .transfer
  | 10 => some .blockCompensationEvidence
  | _ => none

/-- The wire value of a type. -/
def TransactionType.toWire : TransactionType → ℕ
  | .publication => 1
  | .authorityGrant => 2
  | .authorityRevoke => 3
  | .identityRotate => 4
  | .contractAction => 5
  | .shareEvidence => 6
  | .compensationDestination => 7
  | .issuance => 8
  | .transfer => 9
  | .blockCompensationEvidence => 10

/-- `stn_transaction`. -/
structure Transaction where
  version : UInt16
  type : TransactionType
  record : Bytes
  deriving DecidableEq

/-- `STN_TX_HEADER_SIZE`. -/
def txHeaderSize : ℕ := 12

/-- `lifecycle_size`. -/
def lifecycleSize : TransactionType → ℕ
  | .authorityGrant => authorityGrantSize
  | .authorityRevoke | .identityRotate => authorityRevocationSize
  | _ => 0

/-- `block_compensation_structure` succeeds. -/
def blockCompensationStructure (bytes : Bytes) : Bool :=
  bytes.length = blockCompensationCanonicalSize && byteAt bytes 0 = 1 &&
    octetsAt bytes 1 32 ≠ 0 && octetsAt bytes 33 32 ≠ 0

/-- The record check of `stn_transaction_decode`, by type. -/
def recordMatchesType (type : TransactionType) (record : Bytes) : Except DataStatus Unit :=
  let content (accepted : Bool) : Except DataStatus Unit :=
    if accepted then .ok () else .error .content
  match type with
  | .publication => content (recordDecode record).toBool
  | .contractAction => content (contractTransactionDecode record).toBool
  | .shareEvidence => content (record.length = 73 || (shareDecode record).toBool)
  | .compensationDestination => content (compensationDestinationDecode record).toBool
  | .issuance => content (issuanceDecode record).toBool
  | .transfer => content (transferEnvelopeDecode record).toBool
  | .blockCompensationEvidence => content (blockCompensationStructure record)
  | .authorityGrant | .authorityRevoke | .identityRotate =>
      if record.length = lifecycleSize type then .ok () else .error .length

/-- `stn_transaction_decode`. -/
def transactionDecode (bytes : Bytes) : Except DataStatus Transaction :=
  if bytes.length < txHeaderSize ∨ bytes.length > txMaxSize then .error .length
  else if bytes.take 4 ≠ [0x53, 0x54, 0x4e, 0x54] then .error .magic
  else if wireRead bytes 4 2 ≠ 1 then .error .version
  else
    match TransactionType.ofWire (wireRead bytes 6 2) with
    | none => .error .type
    | some type =>
        if wireRead bytes 8 4 ≠ bytes.length - txHeaderSize then .error .length
        else
          let record := bytes.drop txHeaderSize
          match recordMatchesType type record with
          | .error status => .error status
          | .ok () => .ok ⟨1, type, record⟩

/-- `stn_transaction_id`. -/
def transactionId (bytes : Bytes) (provider : HashProvider) : Except DataStatus (Octets 32) :=
  match transactionDecode bytes with
  | .error status => .error status
  | .ok _ => provider.digest (cString "STN-CHAIN:TX:ID:1") bytes

omit [Primitives] in
theorem TransactionType.toWire_ofWire {n : ℕ} {type : TransactionType}
    (h : TransactionType.ofWire n = some type) : type.toWire = n := by
  unfold TransactionType.ofWire at h
  split at h <;> cases h <;> rfl

/-- The octets of an accepted transaction are its header and its record. -/
theorem transactionDecode_eq_ok {bytes : Bytes} {tx : Transaction}
    (h : transactionDecode bytes = .ok tx) :
    tx.version = 1 ∧ recordMatchesType tx.type tx.record = .ok () ∧
      bytes = [0x53, 0x54, 0x4e, 0x54] ++ wireWrite 2 1 ++ wireWrite 2 tx.type.toWire ++
        wireWrite 4 tx.record.length ++ tx.record := by
  simp only [transactionDecode] at h
  split at h
  · simp at h
  next hsize =>
  split at h
  · simp at h
  next hmagic =>
  split at h
  · simp at h
  next hversion =>
  split at h
  · simp at h
  next type htype =>
  split at h
  · simp at h
  next hlength =>
  split at h
  · simp at h
  next hrecord =>
  obtain rfl := Except.ok.inj h
  have hlen : 12 ≤ bytes.length := by
    simp only [txHeaderSize] at hsize
    omega
  have hwire : type.toWire = wireRead bytes 6 2 := TransactionType.toWire_ofWire htype
  have hrecordLength : (bytes.drop txHeaderSize).length = wireRead bytes 8 4 := by
    simp only [List.length_drop]
    exact (not_not.mp hlength).symm
  refine ⟨rfl, hrecord, ?_⟩
  dsimp only
  rw [hrecordLength, hwire, ← not_not.mp hversion, ← not_not.mp hmagic,
    wireWrite_wireRead (by omega), wireWrite_wireRead (by omega),
    wireWrite_wireRead (by omega)]
  have htake : bytes.take 4 = BigEndian.field bytes 0 4 := by simp [BigEndian.field]
  rw [htake, BigEndian.field_append_field, BigEndian.field_append_field,
    BigEndian.field_append_field]
  exact (List.take_append_drop 12 bytes).symm

/-- Transactions that decode alike have the same octets. -/
theorem transactionDecode_injective {p q : Bytes} {tx : Transaction}
    (hp : transactionDecode p = .ok tx) (hq : transactionDecode q = .ok tx) : p = q :=
  (transactionDecode_eq_ok hp).2.2.trans (transactionDecode_eq_ok hq).2.2.symm

/-! ## Encoding -/

/-- The octets of a transaction: magic, version, type, record length and record. -/
def transactionBytes (type : TransactionType) (record : Bytes) : Bytes :=
  [0x53, 0x54, 0x4e, 0x54] ++ wireWrite 2 1 ++ wireWrite 2 type.toWire ++
    wireWrite 4 record.length ++ record

/-- `STN_TX_CONTRACT_ACTION_MAX_SIZE`. -/
def txContractActionMaxSize : ℕ := 116 + 66656 + 97

/-- `stn_transaction_encode`. -/
def transactionEncode (tx : Transaction) (capacity : ℕ) : Except DataStatus Bytes :=
  if tx.version ≠ 1 then .error .version
  else if tx.type = .publication ∧ (tx.record.length < recordOverhead ∨
      tx.record.length > recordOverhead + recordMaxPayload) then .error .length
  else if tx.type = .contractAction ∧ tx.record.length > txContractActionMaxSize then
    .error .content
  else
    match recordMatchesType tx.type tx.record with
    | .error status => .error status
    | .ok () =>
        if capacity < txHeaderSize + tx.record.length then .error .capacity
        else .ok (transactionBytes tx.type tx.record)

omit [Primitives] in
theorem TransactionType.ofWire_toWire (type : TransactionType) :
    TransactionType.ofWire type.toWire = some type := by
  cases type <;> rfl

omit [Primitives] in
theorem TransactionType.toWire_lt (type : TransactionType) : type.toWire < 256 ^ 2 := by
  cases type <;> decide

omit [Primitives] in
@[simp]
theorem length_transactionBytes (type : TransactionType) (record : Bytes) :
    (transactionBytes type record).length = txHeaderSize + record.length := by
  simp [transactionBytes, txHeaderSize]
  omega

omit [Primitives] in
/-- The structural check of evidence is what decoding checks. -/
theorem blockCompensationStructure_of_decode {record : Bytes} {e : BlockCompensationEvidence}
    (h : blockCompensationDecode record = .ok e) : blockCompensationStructure record = true := by
  simp only [blockCompensationDecode] at h
  split at h
  · simp at h
  next hlen =>
  split at h
  · simp at h
  next hversion =>
  split at h
  · simp at h
  next hcontent =>
  rw [not_not] at hlen hversion
  obtain ⟨hblock, hminer⟩ := not_or.mp hcontent
  simp only [blockCompensationStructure, hlen, hversion, decide_true, Bool.true_and,
    Bool.and_eq_true, decide_eq_true_eq]
  exact ⟨hblock, hminer⟩

omit [Primitives] in
theorem wireRead_type_transactionBytes (type : TransactionType) (record : Bytes) :
    wireRead (transactionBytes type record) 6 2 = type.toWire := by
  simp (disch := simp) only [transactionBytes, List.append_assoc, wireRead_append_right,
    wireRead_append_left, length_wireWrite, List.length_cons, List.length_nil, Nat.reduceAdd,
    Nat.reduceSub]
  exact wireRead_wireWrite type.toWire_lt

/-- A transaction is read back from its octets. -/
theorem transactionDecode_bytes {type : TransactionType} {record : Bytes}
    (hlen : txHeaderSize + record.length ≤ txMaxSize)
    (hrecord : recordMatchesType type record = .ok ()) :
    transactionDecode (transactionBytes type record) = .ok ⟨1, type, record⟩ := by
  have hmagic : (transactionBytes type record).take 4 = [0x53, 0x54, 0x4e, 0x54] := by
    simp [transactionBytes]
  have hversion : wireRead (transactionBytes type record) 4 2 = 1 := by
    simp (disch := simp) only [transactionBytes, List.append_assoc, wireRead_append_right,
      wireRead_append_left, List.length_cons, List.length_nil, Nat.reduceAdd, Nat.reduceSub]
    exact wireRead_wireWrite (by norm_num)
  have hlength : wireRead (transactionBytes type record) 8 4 = record.length := by
    simp (disch := simp) only [transactionBytes, List.append_assoc, wireRead_append_right,
      wireRead_append_left, length_wireWrite, List.length_cons, List.length_nil, Nat.reduceAdd,
      Nat.reduceSub]
    apply wireRead_wireWrite
    simp only [txHeaderSize, txMaxSize] at hlen
    omega
  have hdrop : (transactionBytes type record).drop txHeaderSize = record :=
    List.drop_left' (by simp [txHeaderSize])
  have hsize : ¬ (txHeaderSize + record.length < txHeaderSize ∨
      txHeaderSize + record.length > txMaxSize) := by
    omega
  have hrest : record.length = txHeaderSize + record.length - txHeaderSize := by
    omega
  simp only [transactionDecode, length_transactionBytes, hmagic, hversion,
    wireRead_type_transactionBytes, hlength, hdrop,
    TransactionType.ofWire_toWire, hrecord, if_neg hsize, ne_eq, not_true_eq_false, if_false,
    not_not.mpr hrest]

end StnChain
