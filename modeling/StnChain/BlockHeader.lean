import StnChain.Wire

/-!
# Block headers

The 168-octet block header of `stn_block.c` and the target range check of
`stn_pow.c` it rests on.  Version 1 headers carry neither target nor work
nonce; version 3 headers carry both.
-/

namespace StnChain

/-- `STN_BLOCK_HEADER_SIZE`. -/
def blockHeaderSize : ℕ := 168

/-- `STN_BLOCK_MAX_TRANSACTIONS`. -/
def blockMaxTransactions : ℕ := 32

/-- `STN_TX_MIN_SIZE`. -/
def txMinSize : ℕ := 12 + 65

/-- `STN_TX_MAX_SIZE`. -/
def txMaxSize : ℕ := 12 + (116 + 66656 + 97)

/-- `STN_BLOCK_MIN_BODY`. -/
def blockMinBody : ℕ := 4 + txMinSize

/-- `STN_BLOCK_MAX_BODY`. -/
def blockMaxBody : ℕ := blockMaxTransactions * (4 + txMaxSize)

/-- `STN_POW_BLOCK_VERSION`. -/
def powBlockVersion : UInt16 := 3

/-- `stn_block_header`. -/
structure BlockHeader where
  version : UInt16
  flags : UInt16
  networkId : Octets 32
  previousHash : Octets 32
  height : UInt64
  timestamp : UInt64
  transactionCommitment : Octets 32
  reservedTarget : Octets 32
  reservedWorkNonce : UInt64
  transactionCount : UInt32
  bodyLength : UInt32
  deriving DecidableEq

/-- `stn_target_validate`: a target is nonzero and below `2^255`. -/
def targetValidate (target : Octets 32) : Except DataStatus Unit :=
  if target ≠ 0 ∧ byteAt (octetBytes target) 0 < 0x80 then .ok () else .error .target

/-- `header_valid`. -/
def headerValid (h : BlockHeader) : Except DataStatus Unit :=
  if h.version ≠ 1 ∧ h.version ≠ powBlockVersion then .error .version
  else if h.flags ≠ 0 ∨ (h.version = 1 ∧ (h.reservedWorkNonce ≠ 0 ∨ h.reservedTarget ≠ 0)) then
    .error .content
  else if h.version = powBlockVersion ∧ targetValidate h.reservedTarget ≠ .ok () then
    .error .target
  else if (h.height = 0) = (h.previousHash ≠ 0) then .error .content
  else if h.transactionCount = 0 then
    if h.bodyLength ≠ 0 then .error .length else .ok ()
  else if h.transactionCount.toNat > blockMaxTransactions ∨
      h.bodyLength.toNat < h.transactionCount.toNat * blockMinBody ∨
      h.bodyLength.toNat > h.transactionCount.toNat * (4 + txMaxSize) then .error .length
  else .ok ()

/-- The octets of a block header, magic included. -/
def blockHeaderBytes (h : BlockHeader) : Bytes :=
  [0x53, 0x54, 0x4e, 0x42] ++ wireWrite 2 h.version.toNat ++ wireWrite 2 h.flags.toNat ++
    octetBytes h.networkId ++ octetBytes h.previousHash ++ wireWrite 8 h.height.toNat ++
    wireWrite 8 h.timestamp.toNat ++ octetBytes h.transactionCommitment ++
    octetBytes h.reservedTarget ++ wireWrite 8 h.reservedWorkNonce.toNat ++
    wireWrite 4 h.transactionCount.toNat ++ wireWrite 4 h.bodyLength.toNat

/-- `stn_block_header_decode`. -/
def blockHeaderDecode (bytes : Bytes) : Except DataStatus BlockHeader :=
  if bytes.length ≠ blockHeaderSize then .error .length
  else if bytes.take 4 ≠ [0x53, 0x54, 0x4e, 0x42] then .error .magic
  else
    let h : BlockHeader := {
      version := UInt16.ofNat (wireRead bytes 4 2)
      flags := UInt16.ofNat (wireRead bytes 6 2)
      networkId := octetsAt bytes 8 32
      previousHash := octetsAt bytes 40 32
      height := UInt64.ofNat (wireRead bytes 72 8)
      timestamp := UInt64.ofNat (wireRead bytes 80 8)
      transactionCommitment := octetsAt bytes 88 32
      reservedTarget := octetsAt bytes 120 32
      reservedWorkNonce := UInt64.ofNat (wireRead bytes 152 8)
      transactionCount := UInt32.ofNat (wireRead bytes 160 4)
      bodyLength := UInt32.ofNat (wireRead bytes 164 4) }
    match headerValid h with
    | .error status => .error status
    | .ok () => .ok h

/-- `stn_block_header_encode`. -/
def blockHeaderEncode (h : BlockHeader) (capacity : ℕ) : Except DataStatus Bytes :=
  match headerValid h with
  | .error status => .error status
  | .ok () =>
      if capacity < blockHeaderSize then .error .capacity else .ok (blockHeaderBytes h)

/-! ## Round trip -/

@[simp]
theorem length_blockHeaderBytes (h : BlockHeader) :
    (blockHeaderBytes h).length = blockHeaderSize := by
  simp [blockHeaderBytes, blockHeaderSize]

/-- A valid header is read back from its octets. -/
theorem blockHeaderDecode_bytes {h : BlockHeader} (hvalid : headerValid h = .ok ()) :
    blockHeaderDecode (blockHeaderBytes h) = .ok h := by
  have hmagic : (blockHeaderBytes h).take 4 = [0x53, 0x54, 0x4e, 0x42] := by
    simp [blockHeaderBytes]
  simp only [blockHeaderDecode, length_blockHeaderBytes, hmagic, ne_eq, not_true_eq_false, if_false]
  simp (disch := simp) only [blockHeaderBytes, List.append_assoc, wireRead_append_right,
    wireRead_append_left, octetsAt_append_left, octetsAt_append_right,
    ofNat_wireRead_wireWrite_two, ofNat_wireRead_wireWrite_four, ofNat_wireRead_wireWrite_eight,
    octetsAt_octetBytes, length_wireWrite, length_octetBytes, List.length_cons, List.length_nil,
    Nat.reduceAdd, Nat.reduceSub, hvalid]

theorem wireRead_height_blockHeaderBytes (h : BlockHeader) :
    wireRead (blockHeaderBytes h) 72 8 = h.height.toNat := by
  simp (disch := simp) only [blockHeaderBytes, List.append_assoc, wireRead_append_right,
    wireRead_append_left, length_wireWrite, length_octetBytes, List.length_cons, List.length_nil,
    Nat.reduceAdd, Nat.reduceSub]
  exact wireRead_wireWrite (by simpa using h.height.toNat_lt)

end StnChain
